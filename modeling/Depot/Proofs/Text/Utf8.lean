import Depot.Path.Pathname
import Mathlib.Data.List.Basic
import Mathlib.Data.List.Induction
import Mathlib.Tactic.Common
/-!
# Text in bytes

A character below 128 is one byte, and no other character has that byte in its encoding.  So text
can be taken apart at slashes, and compared with an ending, as characters or as bytes.  Decoding
with repairs repairs nothing in a text.

* `splitOn_flatMap`, `Pathname.pieces_ofString` — what stands between the slashes of a text;
* `suffix_flatMap_iff` — the ending of a text;
* `lossy_ofString`, `Pathname.ofString_display_eq_iff` — what is decoded without loss.
-/

namespace Depot

namespace Bytes

theorem ofString_of_text? {bytes : Bytes} {t : String} (h : text? bytes = some t) :
    ofString t = bytes := by
  rw [text?, String.fromUTF8?] at h
  split at h
  · cases h
    simp [ofString, String.fromUTF8]
  · cases h

theorem ofString_ofList (chars : List Char) :
    ofString (String.ofList chars) = chars.flatMap String.utf8EncodeChar := by
  simp [ofString, List.utf8Encode]

theorem ofString_eq_flatMap (s : String) :
    ofString s = s.toList.flatMap String.utf8EncodeChar := by
  rw [← ofString_ofList, String.ofList_toList]

/-! ## Characters of one byte -/

theorem utf8EncodeChar_of_ascii {c : Char} (h : c.toNat < 128) :
    String.utf8EncodeChar c = [UInt8.ofNat c.toNat] := by
  unfold String.utf8EncodeChar
  rw [if_pos (by change c.toNat ≤ 127; omega)]
  rfl

theorem utf8EncodeChar_of_ascii_mem {c : Char} {b : UInt8} (hb : b.toNat < 128)
    (h : b ∈ String.utf8EncodeChar c) : c.toNat = b.toNat := by
  have hbyte : ∀ n : Nat, 128 ≤ n → n < 256 → b ≠ UInt8.ofNat n := by
    intro n hn hlt heq
    have hnat := congrArg UInt8.toNat heq
    rw [UInt8.toNat_ofNat_of_lt' hlt] at hnat
    omega
  unfold String.utf8EncodeChar at h
  simp only at h
  split at h
  · have hsame := congrArg UInt8.toNat (List.mem_singleton.1 h)
    rw [UInt8.toNat_ofNat_of_lt' (by change c.val.toNat < 256; omega)] at hsame
    exact hsame.symm
  split at h
  · simp only [List.mem_cons, List.not_mem_nil, or_false] at h
    rcases h with h | h <;> exact absurd h (hbyte _ (by omega) (by omega))
  split at h
  · simp only [List.mem_cons, List.not_mem_nil, or_false] at h
    rcases h with h | h | h <;> exact absurd h (hbyte _ (by omega) (by omega))
  · simp only [List.mem_cons, List.not_mem_nil, or_false] at h
    rcases h with h | h | h | h <;> exact absurd h (hbyte _ (by omega) (by omega))

theorem utf8EncodeChar_ne_nil (c : Char) : String.utf8EncodeChar c ≠ [] := by
  unfold String.utf8EncodeChar
  simp only
  split_ifs <;> simp

theorem slash_mem_utf8EncodeChar_iff {c : Char} :
    Pathname.slash ∈ String.utf8EncodeChar c ↔ c = '/' := by
  constructor
  · intro h
    have hnat : c.toNat = '/'.toNat := utf8EncodeChar_of_ascii_mem (by decide) h
    exact Char.toNat_inj.1 hnat
  · rintro rfl
    decide

/-! ## Text between slashes -/

theorem splitOn_append_of_notMem {a : Bytes} (b : Bytes) (h : Pathname.slash ∉ a) :
    (a ++ b).splitOn Pathname.slash =
      (b.splitOn Pathname.slash).modifyHead fun piece => a ++ piece := by
  induction a with
  | nil =>
      cases hb : b.splitOn Pathname.slash with
      | nil => exact absurd hb (List.splitOn_ne_nil _ _)
      | cons piece rest => simp [hb]
  | cons x a ih =>
      have hx : ¬ x = Pathname.slash := fun heq => h (by simp [heq])
      rw [List.cons_append, List.splitOn_cons_eq_if_modifyHead, if_neg (by simpa using hx),
        ih (fun hmem => h (by simp [hmem])), List.modifyHead_modifyHead]
      rfl

theorem splitOn_flatMap (chars : List Char) :
    (chars.flatMap String.utf8EncodeChar).splitOn Pathname.slash =
      (chars.splitOn '/').map fun part => part.flatMap String.utf8EncodeChar := by
  induction chars with
  | nil => rfl
  | cons c chars ih =>
      rw [List.flatMap_cons, List.splitOn_cons_eq_if_modifyHead c]
      by_cases hc : c = '/'
      · subst hc
        have hencode : String.utf8EncodeChar '/' = [Pathname.slash] := by decide
        rw [if_pos (by simp), hencode, List.singleton_append, List.splitOn_cons_eq_if_modifyHead,
          if_pos (by simp), ih]
        rfl
      · have hmem : Pathname.slash ∉ String.utf8EncodeChar c :=
          fun h => hc (slash_mem_utf8EncodeChar_iff.1 h)
        rw [if_neg (by simpa using hc), splitOn_append_of_notMem _ hmem, ih]
        cases chars.splitOn '/' with
        | nil => rfl
        | cons first rest => simp

/-! ## Endings of texts -/

theorem suffix_flatMap_iff {ending : List Char} (hascii : ∀ c ∈ ending, c.toNat < 128)
    (chars : List Char) :
    ending.flatMap String.utf8EncodeChar <:+ chars.flatMap String.utf8EncodeChar ↔
      ending <:+ chars := by
  constructor
  · induction ending using List.reverseRecOn generalizing chars with
    | nil => exact fun _ => List.nil_suffix
    | append_singleton ending e ih =>
        intro h
        have he : e.toNat < 128 := hascii e (by simp)
        rw [List.flatMap_append, List.flatMap_singleton, utf8EncodeChar_of_ascii he] at h
        -- The last byte is that of the last character, which has no other byte then.
        rcases List.eq_nil_or_concat' chars with rfl | ⟨front, c, rfl⟩
        · simp at h
        rw [List.flatMap_append, List.flatMap_singleton] at h
        have hmem : UInt8.ofNat e.toNat ∈ String.utf8EncodeChar c := by
          have hlast := h.getLast (by simp)
          rw [List.getLast_append_of_ne_nil _ (utf8EncodeChar_ne_nil c),
            List.getLast_append_of_ne_nil _ (by simp), List.getLast_singleton] at hlast
          exact hlast ▸ List.getLast_mem _
        have hnat : (UInt8.ofNat e.toNat).toNat = e.toNat :=
          UInt8.toNat_ofNat_of_lt' (by change e.toNat < 256; omega)
        have hc : c = e := Char.toNat_inj.1
          ((utf8EncodeChar_of_ascii_mem (by omega) hmem).trans hnat)
        subst hc
        rw [utf8EncodeChar_of_ascii he, ← List.reverse_prefix, List.reverse_append,
          List.reverse_append, List.reverse_singleton, List.singleton_append, List.singleton_append,
          List.cons_prefix_cons, List.reverse_prefix] at h
        obtain ⟨before, hbefore⟩ := ih (fun c hc => hascii c (by simp [hc])) front h.2
        exact ⟨before, by rw [← hbefore, List.append_assoc]⟩
  · rintro ⟨before, rfl⟩
    rw [List.flatMap_append]
    exact List.suffix_append _ _

/-! ## Text is read without loss -/

theorem within_iff {low high b : UInt8} :
    (low ≤ b && b ≤ high) = true ↔ low.toNat ≤ b.toNat ∧ b.toNat ≤ high.toNat := by
  rw [Bool.and_eq_true, decide_eq_true_eq, decide_eq_true_eq]
  exact Iff.rfl

theorem isContinuation_iff {b : UInt8} :
    isContinuation b = true ↔ 0x80 ≤ b.toNat ∧ b.toNat ≤ 0xBF := within_iff

theorem not_ascii_of_le {a : UInt8} (ha : 0x80 ≤ a.toNat) : ¬ a < 0x80 := by
  change ¬ a.toNat < 0x80
  omega

theorem not_within_of_lt {low high a : UInt8} (ha : high.toNat < a.toNat) :
    ¬ (low ≤ a && a ≤ high) = true := by
  rw [within_iff]
  omega

theorem lossyChars_one {a : UInt8} (ha : a.toNat < 0x80) (rest : Bytes) :
    lossyChars (a :: rest) = Char.ofNat a.toNat :: lossyChars rest := by
  rw [lossyChars.eq_def]
  exact if_pos ha

theorem lossyChars_two {a b : UInt8} (ha : 0xC2 ≤ a.toNat ∧ a.toNat ≤ 0xDF)
    (hb : isContinuation b = true) (rest : Bytes) :
    lossyChars (a :: b :: rest) = Char.ofNat (a.toNat % 32 * 64 + low6 b) :: lossyChars rest := by
  have hone : ¬ a < 0x80 := not_ascii_of_le (by omega)
  have htwo : (0xC2 ≤ a && a ≤ 0xDF) = true := within_iff.2 ha
  rw [lossyChars.eq_def]
  simp only [if_neg hone, if_pos htwo, if_pos hb]

theorem secondOfThree_of {a b : UInt8} (hb : isContinuation b = true)
    (hlow : a.toNat = 0xE0 → 0xA0 ≤ b.toNat) (hhigh : a.toNat = 0xED → b.toNat ≤ 0x9F) :
    secondOfThree a b = true := by
  have hbounds := isContinuation_iff.1 hb
  rw [secondOfThree]
  split
  · rename_i ha
    exact within_iff.2 ⟨hlow (congrArg UInt8.toNat (eq_of_beq ha)), hbounds.2⟩
  split
  · rename_i ha
    exact within_iff.2 ⟨hbounds.1, hhigh (congrArg UInt8.toNat (eq_of_beq ha))⟩
  · exact hb

theorem lossyChars_three {a b c : UInt8} (ha : 0xE0 ≤ a.toNat ∧ a.toNat ≤ 0xEF)
    (hb : secondOfThree a b = true) (hc : isContinuation c = true) (rest : Bytes) :
    lossyChars (a :: b :: c :: rest) =
      Char.ofNat ((a.toNat % 16 * 64 + low6 b) * 64 + low6 c) :: lossyChars rest := by
  have hone : ¬ a < 0x80 := not_ascii_of_le (by omega)
  have htwo : ¬ (0xC2 ≤ a && a ≤ 0xDF) = true := not_within_of_lt (by change 0xDF < _; omega)
  have hthree : (0xE0 ≤ a && a ≤ 0xEF) = true := within_iff.2 ha
  rw [lossyChars.eq_def]
  simp only [if_neg hone, if_neg htwo, if_pos hthree, if_pos hb, if_pos hc]

theorem secondOfFour_of {a b : UInt8} (hb : isContinuation b = true)
    (hlow : a.toNat = 0xF0 → 0x90 ≤ b.toNat) (hhigh : a.toNat = 0xF4 → b.toNat ≤ 0x8F) :
    secondOfFour a b = true := by
  have hbounds := isContinuation_iff.1 hb
  rw [secondOfFour]
  split
  · rename_i ha
    exact within_iff.2 ⟨hlow (congrArg UInt8.toNat (eq_of_beq ha)), hbounds.2⟩
  split
  · rename_i ha
    exact within_iff.2 ⟨hbounds.1, hhigh (congrArg UInt8.toNat (eq_of_beq ha))⟩
  · exact hb

theorem lossyChars_four {a b c d : UInt8} (ha : 0xF0 ≤ a.toNat ∧ a.toNat ≤ 0xF4)
    (hb : secondOfFour a b = true) (hc : isContinuation c = true) (hd : isContinuation d = true)
    (rest : Bytes) :
    lossyChars (a :: b :: c :: d :: rest) =
      Char.ofNat (((a.toNat % 8 * 64 + low6 b) * 64 + low6 c) * 64 + low6 d) ::
        lossyChars rest := by
  have hone : ¬ a < 0x80 := not_ascii_of_le (by omega)
  have htwo : ¬ (0xC2 ≤ a && a ≤ 0xDF) = true := not_within_of_lt (by change 0xDF < _; omega)
  have hthree : ¬ (0xE0 ≤ a && a ≤ 0xEF) = true := not_within_of_lt (by change 0xEF < _; omega)
  have hfour : (0xF0 ≤ a && a ≤ 0xF4) = true := within_iff.2 ha
  rw [lossyChars.eq_def]
  simp only [if_neg hone, if_neg htwo, if_neg hthree, if_pos hfour, if_pos hb, if_pos hc,
    if_pos hd]

theorem lossyChars_encode (c : Char) (rest : Bytes) :
    lossyChars (String.utf8EncodeChar c ++ rest) = c :: lossyChars rest := by
  have hvalid : c.val.toNat < 0xD800 ∨ 0xDFFF < c.val.toNat ∧ c.val.toNat < 0x110000 := c.valid
  have hback : Char.ofNat c.val.toNat = c := c.ofNat_toNat
  have hbyte {n : Nat} (hn : n < 256) : (UInt8.ofNat n).toNat = n := UInt8.toNat_ofNat_of_lt' hn
  have hnext {n : Nat} (hn : n < 64) : isContinuation (UInt8.ofNat (n + 128)) = true := by
    rw [isContinuation_iff, hbyte (by omega)]
    omega
  have hlow6 {n : Nat} (hn : n < 64) : low6 (UInt8.ofNat (n + 128)) = n := by
    rw [low6, hbyte (by omega)]
    omega
  unfold String.utf8EncodeChar
  simp only
  generalize hv : c.val.toNat = v at *
  split
  · rw [List.singleton_append, lossyChars_one (by rw [hbyte (by omega)]; omega),
      hbyte (by omega), hback]
  split
  · rw [List.cons_append, List.singleton_append,
      lossyChars_two (by rw [hbyte (by omega)]; omega) (hnext (by omega)), hbyte (by omega),
      hlow6 (by omega), ← hback]
    congr 2
    omega
  split
  · rw [List.cons_append, List.cons_append, List.singleton_append,
      lossyChars_three (by rw [hbyte (by omega)]; omega)
        (secondOfThree_of (hnext (by omega))
          (by rw [hbyte (by omega), hbyte (by omega)]; omega)
          (by rw [hbyte (by omega), hbyte (by omega)]; omega))
        (hnext (by omega)),
      hbyte (by omega), hlow6 (by omega), hlow6 (by omega), ← hback]
    congr 2
    omega
  · rw [List.cons_append, List.cons_append, List.cons_append, List.singleton_append,
      lossyChars_four (by rw [hbyte (by omega)]; omega)
        (secondOfFour_of (hnext (by omega))
          (by rw [hbyte (by omega), hbyte (by omega)]; omega)
          (by rw [hbyte (by omega), hbyte (by omega)]; omega))
        (hnext (by omega)) (hnext (by omega)),
      hbyte (by omega), hlow6 (by omega), hlow6 (by omega), hlow6 (by omega), ← hback]
    congr 2
    omega

@[simp] theorem lossy_ofString (s : String) : lossy (ofString s) = s := by
  have hchars : ∀ chars : List Char, lossyChars (chars.flatMap String.utf8EncodeChar) = chars := by
    intro chars
    induction chars with
    | nil => rfl
    | cons c chars ih => rw [List.flatMap_cons, lossyChars_encode, ih]
  rw [lossy, ofString_eq_flatMap, hchars, String.ofList_toList]

theorem lossyChars_ne_nil {bytes : Bytes} (h : bytes ≠ []) : lossyChars bytes ≠ [] := by
  obtain ⟨a, rest, rfl⟩ := List.exists_cons_of_ne_nil h
  rw [lossyChars.eq_def]
  dsimp only
  repeat' split
  all_goals exact List.cons_ne_nil _ _

end Bytes

namespace Pathname

theorem pieces_ofString (s : String) :
    (ofString s).pieces = (s.toList.splitOn '/').map fun part =>
      Bytes.ofString (String.ofList part) := by
  rw [pieces, ofString, Bytes.ofString_eq_flatMap, Bytes.splitOn_flatMap]
  exact List.map_congr_left fun part _ => (Bytes.ofString_ofList part).symm

theorem text?_of_mem_pieces {s : String} {piece : Bytes} (h : piece ∈ (ofString s).pieces) :
    ∃ t, Bytes.text? piece = some t := by
  rw [pieces_ofString] at h
  obtain ⟨part, -, rfl⟩ := List.mem_map.1 h
  exact ⟨_, Bytes.text?_ofString _⟩

theorem ofString_display_eq_iff {p : Pathname} :
    ofString p.display = p ↔ ∃ text, p = ofString text := by
  constructor
  · intro h
    exact ⟨p.display, h.symm⟩
  · rintro ⟨text, rfl⟩
    exact congrArg ofString (Bytes.lossy_ofString text)

theorem ofString_display_ne_empty {p : Pathname} (h : p ≠ empty) :
    ofString p.display ≠ empty := by
  intro hempty
  have hbytes : Bytes.ofString p.display = Bytes.ofString "" := congrArg Pathname.bytes hempty
  have hchars := congrArg String.toList (Bytes.ofString_injective hbytes)
  rw [display, Bytes.lossy, String.toList_ofList] at hchars
  refine Bytes.lossyChars_ne_nil (fun hnil => h ?_) hchars
  exact congrArg Pathname.mk hnil

end Pathname

end Depot
