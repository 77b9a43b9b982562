import Mathlib.Data.List.Basic
import Mathlib.Data.List.Forall2
import Mathlib.Tactic.Common
import Depot.Json.Record
import Depot.Json.Writer
/-!
# Reading back what was written

The two ways of writing a document differ in the blanks between its parts only, and a reader never
sees those.  `ReadsAs` says that a reader takes a value from a text wherever the text stands; it
is shown for texts, numbers, records and lists, each from what is known of its parts.

* `readsAs_natural` — a number of 64 bits is read back from its digits
* `Shape.readsAs_recordText` — a record, from its members
* `readsAs_listText` — a list, from its elements
* `Document.write_record`, `Document.exists_write_list` — both ways of writing, as such texts
-/

namespace Depot.Json

/-! ### Texts that hold a value -/

/-- What may follow a value in a text: nothing, a blank, or a mark that ends it. -/
def EndsValue (s : List Char) : Prop :=
  ∀ c ∈ s.head?, isBlank c = true ∨ c = ',' ∨ c = ']' ∨ c = '\x7d'

/-- `reader` takes `a` from `text`, whatever blanks stand before it and whatever follows it. -/
structure ReadsAs {α : Type} (reader : Reader α) (text : List Char) (a : α) : Prop where
  starts : ∃ c rest, text = c :: rest ∧ isBlank c = false ∧ c ≠ ']'
  reads : ∀ s rest, skipBlanks s = text ++ rest → EndsValue rest → reader s = .ok (a, rest)

def IsBlankText (s : List Char) : Prop := ∀ c ∈ s, isBlank c = true

theorem isBlankText_nil : IsBlankText [] := fun _ h => absurd h List.not_mem_nil

theorem isBlankText_newLine (depth : Nat) : IsBlankText (Document.newLine depth) := by
  intro c hc
  rcases List.mem_cons.1 hc with rfl | hc
  · rfl
  · rw [List.eq_of_mem_replicate hc]
    rfl

theorem skipBlanks_append {blanks : List Char} (h : IsBlankText blanks) (s : List Char) :
    skipBlanks (blanks ++ s) = skipBlanks s :=
  List.dropWhile_append_of_pos h

theorem skipBlanks_before {blanks : List Char} (h : IsBlankText blanks) {c : Char}
    (hc : isBlank c = false) (s : List Char) : skipBlanks (blanks ++ c :: s) = c :: s := by
  rw [skipBlanks_append h, skipBlanks_cons hc]

theorem endsValue_before {blanks : List Char} (h : IsBlankText blanks) {c : Char} {s : List Char}
    (hc : c = ',' ∨ c = ']' ∨ c = '\x7d') : EndsValue (blanks ++ c :: s) := by
  intro x hx
  cases blanks with
  | nil =>
    obtain rfl : c = x := by simpa using hx
    exact .inr hc
  | cons b blanks =>
    obtain rfl : b = x := by simpa using hx
    exact .inl (h b List.mem_cons_self)

section

variable {α : Type} {reader : Reader α} {text : List Char} {a : α}

theorem ReadsAs.skipBlanks (h : ReadsAs reader text a) {blanks : List Char}
    (hblanks : IsBlankText blanks) (rest : List Char) :
    skipBlanks (blanks ++ text ++ rest) = text ++ rest := by
  obtain ⟨c, tail, rfl, hc, -⟩ := h.starts
  rw [List.append_assoc, List.cons_append, skipBlanks_before hblanks hc]

theorem ReadsAs.reads_after (h : ReadsAs reader text a) {blanks rest : List Char}
    (hblanks : IsBlankText blanks) (hrest : EndsValue rest) :
    reader (blanks ++ text ++ rest) = .ok (a, rest) :=
  h.reads _ rest (h.skipBlanks hblanks rest) hrest

theorem ReadsAs.reads_front (h : ReadsAs reader text a) {rest : List Char}
    (hrest : EndsValue rest) : reader (text ++ rest) = .ok (a, rest) :=
  h.reads_after isBlankText_nil hrest

theorem ReadsAs.readWhole (h : ReadsAs reader text a) {blanks : List Char}
    (hblanks : IsBlankText blanks) : readWhole reader (String.ofList (text ++ blanks)) = .ok a := by
  have hends : EndsValue blanks := fun c hc => .inl (hblanks c (List.mem_of_mem_head? hc))
  have hread := h.reads_front hends
  have hnone : Json.skipBlanks blanks = [] := by
    simpa [Json.skipBlanks] using skipBlanks_append hblanks []
  simp [Json.readWhole, hread, hnone, bind, Except.bind, pure, Except.pure]

end

/-! ### Texts and numbers -/

theorem readKey_writeChars (text : String) (rest : List Char) :
    readKey (writeChars text.toList ++ '"' :: rest) = .ok (text, rest) := by
  simp [readKey, readChars_writeChars, bind, Except.bind, pure, Except.pure]

theorem readsAs_text (expected text : String) :
    ReadsAs (readText expected) (writeString text) text := by
  refine ⟨⟨'"', _, rfl, by decide, by decide⟩, fun s rest hs _ => ?_⟩
  simp only [writeString, List.cons_append, List.append_assoc, List.nil_append] at hs
  simp [readText, hs, readKey_writeChars]

theorem readsAs_choice {α : Type} {names : List String} {choose : String → Option α}
    {name : String} {a : α} (h : choose name = some a) :
    ReadsAs (readChoice names choose) (writeString name) a := by
  refine ⟨⟨'"', _, rfl, by decide, by decide⟩, fun s rest hs _ => ?_⟩
  simp only [writeString, List.cons_append, List.append_assoc, List.nil_append] at hs
  simp [readChoice, hs, readKey_writeChars, h, bind, Except.bind, pure, Except.pure]

theorem ReadsAs.optional {α : Type} {reader : Reader α} {text : List Char} {a : α}
    (h : ReadsAs reader text a) (hn : text.head? ≠ some 'n') :
    ReadsAs (readOptional reader) text (some a) := by
  refine ⟨h.starts, fun s rest hs hrest => ?_⟩
  obtain ⟨c, tail, rfl, hc, hclose⟩ := h.starts
  have hskip : Json.skipBlanks (c :: tail ++ rest) = c :: tail ++ rest := by
    rw [List.cons_append, skipBlanks_cons hc]
  have hread := h.reads _ rest hskip hrest
  have hc' : c ≠ 'n' := by simpa using hn
  rw [List.cons_append] at hs hread
  rw [readOptional, hs]
  split
  · rename_i s' heq
    exact absurd (List.cons.inj heq).1 hc'
  · simp [hread, bind, Except.bind, pure, Except.pure]

theorem le_ofDigitChars (digits : List Char) (n : Nat) : n ≤ Nat.ofDigitChars 10 digits n := by
  induction digits generalizing n with
  | nil => simp
  | cons c digits ih =>
    rw [Nat.ofDigitChars_cons]
    have := ih (10 * n + (c.toNat - '0'.toNat))
    omega

theorem absorb_eq {digits : List Char} {n : Nat}
    (h : Nat.ofDigitChars 10 digits n < wordSize 64) :
    absorb n digits = (Nat.ofDigitChars 10 digits n, 0) := by
  induction digits generalizing n with
  | nil => simp [absorb]
  | cons c digits ih =>
    rw [Nat.ofDigitChars_cons, Nat.mul_comm] at h ⊢
    have hle := le_ofDigitChars digits (n * 10 + (c.toNat - '0'.toNat))
    rw [absorb, if_pos (by omega), ih h]

theorem toDigits_zero_cons {n : Nat} {rest : List Char} (h : Nat.toDigits 10 n = '0' :: rest) :
    rest = [] := by
  induction n using Nat.strongRecOn generalizing rest with
  | ind n ih =>
    by_cases hn : n < 10
    · rw [Nat.toDigits_of_lt_base hn] at h
      exact (List.cons.inj h).2.symm
    · rw [Nat.toDigits_of_base_le (by decide) (by omega)] at h
      obtain ⟨c, tail, htail⟩ :=
        List.exists_cons_of_ne_nil (Nat.toDigits_ne_nil (n := n / 10) (b := 10))
      rw [htail, List.cons_append] at h
      obtain ⟨rfl, -⟩ := List.cons.inj h
      -- the digits before the last one would spell zero
      have hzero := ih (n / 10) (by omega) htail
      have hvalue := Nat.ofDigitChars_toDigits (b := 10) (n := n / 10) (by decide) (by decide)
      rw [htail, hzero] at hvalue
      have : n / 10 = 0 := hvalue.symm
      omega

theorem EndsValue.not_numeral {c : Char} {s : List Char} (h : EndsValue (c :: s)) :
    c.isDigit = false ∧ c ≠ '.' ∧ c ≠ 'e' ∧ c ≠ 'E' := by
  have := h c rfl
  simp only [isBlank, Bool.or_eq_true, beq_iff_eq] at this
  rcases this with (((rfl | rfl) | rfl) | rfl) | rfl | rfl | rfl <;> decide

theorem readNumeral_toDigits (n : Nat) {ended : Fault} {rest : List Char} (h : EndsValue rest) :
    readNumeral ended (Nat.toDigits 10 n ++ rest) =
      .ok (⟨false, Nat.toDigits 10 n, [], none⟩, rest) := by
  obtain ⟨c, tail, htail⟩ := List.exists_cons_of_ne_nil (Nat.toDigits_ne_nil (n := n) (b := 10))
  have hdigit : ∀ d ∈ c :: tail, d.isDigit = true := fun d hd =>
    Nat.isDigit_of_mem_toDigits (n := n) (by decide) (by decide) (htail ▸ hd)
  have htake : (tail ++ rest).takeWhile Char.isDigit = tail ∧
      (tail ++ rest).dropWhile Char.isDigit = rest := by
    have hstop : rest.takeWhile Char.isDigit = [] ∧ rest.dropWhile Char.isDigit = rest := by
      cases rest with
      | nil => simp
      | cons r rest => simp [h.not_numeral.1]
    have htail' : ∀ d ∈ tail, d.isDigit = true := fun d hd => hdigit d (List.mem_cons_of_mem c hd)
    rw [List.takeWhile_append_of_pos htail', List.dropWhile_append_of_pos htail', hstop.1, hstop.2]
    simp
  have hdigits : readDigits ended (c :: tail ++ rest) = .ok (c :: tail, rest) := by
    simp [readDigits, hdigit c, htake]
  have hwhole : readWholeDigits ended (c :: tail ++ rest) = .ok (c :: tail, rest) := by
    rw [readWholeDigits, hdigits]
    simp only [bind, Except.bind]
    split
    · rename_i heq
      obtain ⟨hzero, -⟩ := Prod.mk.inj heq
      cases toDigits_zero_cons (htail.trans hzero)
    · rfl
  have hfraction : readFraction ended rest = .ok ([], rest) := by
    unfold readFraction
    split
    · exact absurd rfl h.not_numeral.2.1
    · rfl
  have hexponent : readExponent ended rest = .ok (none, rest) := by
    cases rest with
    | nil => rfl
    | cons r rest =>
      simp [readExponent, h.not_numeral.2.2, pure, Except.pure]
  have hminus : c ≠ '-' := by
    rintro rfl
    exact absurd (hdigit '-' List.mem_cons_self) (by decide)
  rw [List.cons_append] at hwhole
  rw [htail, List.cons_append]
  simp [readNumeral, hminus, hwhole, hfraction, hexponent, bind, Except.bind, pure, Except.pure]

theorem readsAs_natural {n : Nat} (h : n < wordSize 64) :
    ReadsAs readNatural (Nat.toDigits 10 n) n := by
  obtain ⟨c, tail, htail⟩ := List.exists_cons_of_ne_nil (Nat.toDigits_ne_nil (n := n) (b := 10))
  have hc : c.isDigit = true :=
    Nat.isDigit_of_mem_toDigits (n := n) (b := 10) (by decide) (by decide) (by simp [htail])
  have hvalue : Nat.ofDigitChars 10 (Nat.toDigits 10 n) 0 = n :=
    Nat.ofDigitChars_toDigits (by decide) (by decide)
  refine ⟨⟨c, tail, htail, ?_, ?_⟩, fun s rest hs hrest => ?_⟩
  · cases hblank : isBlank c with
    | false => rfl
    | true =>
      simp only [isBlank, Bool.or_eq_true, beq_iff_eq] at hblank
      rcases hblank with ((rfl | rfl) | rfl) | rfl <;> exact absurd hc (by decide)
  · rintro rfl
    exact absurd hc (by decide)
  · have hread : readNumber (Nat.toDigits 10 n ++ rest) = .ok (.natural n, rest) := by
      have habsorb : absorb 0 (Nat.toDigits 10 n) = (n, 0) := by
        rw [absorb_eq (by rwa [hvalue]), hvalue]
      rw [readNumber, readNumeral_toDigits n hrest]
      simp [Numeral.number?, habsorb, bind, Except.bind, pure, Except.pure]
    rw [htail, List.cons_append] at hs hread
    simp [readNatural, hs, hc, hread, bind, Except.bind, pure, Except.pure]

/-! ### Records -/

/-- What a way of writing puts between the parts of a record or of a list. -/
structure Layout where
  /-- Before a member or an element. -/
  before : List Char
  /-- Behind the colon of a member. -/
  colon : List Char
  /-- Before the closing mark. -/
  close : List Char
  blank_before : IsBlankText before
  blank_colon : IsBlankText colon
  blank_close : IsBlankText close

namespace Layout

def compact : Layout where
  before := []
  colon := []
  close := []
  blank_before := isBlankText_nil
  blank_colon := isBlankText_nil
  blank_close := isBlankText_nil

/-- One part on a line, the parts one level deeper than `depth`. -/
def lines (depth : Nat) : Layout where
  before := Document.newLine (depth + 1)
  colon := [' ']
  close := Document.newLine depth
  blank_before := isBlankText_newLine _
  blank_colon := by simp [IsBlankText, isBlank]
  blank_close := isBlankText_newLine _

end Layout

/-- What stands before the mark of a part, `first` or not. -/
def separator (first : Bool) : List Char := if first then [] else [',']

/-- The members of a record from the texts of their values, a comma before all but the first. -/
def membersText (l : Layout) : Bool → List (String × List Char) → List Char
  | _, [] => []
  | first, (key, text) :: rest =>
    separator first ++ l.before ++ writeString key ++ ':' :: l.colon ++ text ++
      membersText l false rest

def recordText (l : Layout) (members : List (String × List Char)) : List Char :=
  '\x7b' :: membersText l true members ++ l.close ++ ['\x7d']

theorem nextKey_close (l : Layout) (first : Bool) (rest : List Char) :
    nextKey first (l.close ++ '\x7d' :: rest) = .ok none := by
  simp [nextKey, skipBlanks_before l.blank_close (show isBlank '\x7d' = false by decide)]

theorem nextKey_before (l : Layout) (first : Bool) (rest : List Char) :
    nextKey first (separator first ++ l.before ++ '"' :: rest) = .ok (some rest) := by
  have hquote : skipBlanks (l.before ++ '"' :: rest) = '"' :: rest :=
    skipBlanks_before l.blank_before (by decide) rest
  cases first with
  | true => simp [nextKey, separator, hquote]
  | false =>
    have hcomma (s : List Char) : skipBlanks (',' :: s) = ',' :: s := skipBlanks_cons (by decide)
    simp [nextKey, separator, hquote, hcomma]

theorem endsValue_membersText (l : Layout) (members : List (String × List Char))
    (rest : List Char) :
    EndsValue (membersText l false members ++ l.close ++ '\x7d' :: rest) := by
  cases members with
  | nil => exact endsValue_before l.blank_close (.inr (.inr rfl))
  | cons m members => simp [EndsValue, membersText, separator]

theorem length_le_membersText (l : Layout) (members : List (String × List Char)) (first : Bool) :
    members.length ≤ (membersText l first members).length := by
  induction members generalizing first with
  | nil => simp
  | cons m members ih =>
    have := ih false
    simp only [membersText, List.length_append, List.length_cons]
    omega

namespace Shape

variable {σ : Type} {shape : Shape σ}

/-- What a shape takes from members, in the order in which they are written. -/
inductive Takes (shape : Shape σ) : σ → List (String × List Char) → σ → Prop
  | nil (state : σ) : shape.Takes state [] state
  | cons {m : Member σ} {key : String} {text : List Char} {state next last : σ}
      {rest : List (String × List Char)}
      (known : shape.members.find? (fun m => m.name = key) = some m)
      (new : m.present state = false)
      (value : ReadsAs (m.read state) text next)
      (others : shape.Takes next rest last) : shape.Takes state ((key, text) :: rest) last

theorem readMember_text {l : Layout} {m : Member σ} {key : String} {text rest : List Char}
    {state next : σ} (known : shape.members.find? (fun m => m.name = key) = some m)
    (new : m.present state = false) (value : ReadsAs (m.read state) text next)
    (hrest : EndsValue rest) :
    shape.readMember state
        (writeChars key.toList ++ '"' :: ':' :: (l.colon ++ text ++ rest)) = .ok (next, rest) := by
  have hcolon : readMark ':' (':' :: (l.colon ++ text ++ rest)) =
      .ok ((), l.colon ++ text ++ rest) := by
    rw [readMark, skipBlanks_cons (by decide)]
    simp
  have hvalue := value.reads_after l.blank_colon hrest
  simp only [readMember, readKey_writeChars, known, new, hcolon, hvalue, bind, Except.bind]
  rfl

theorem foldMembers_membersText (l : Layout) {state last : σ}
    {members : List (String × List Char)} (h : shape.Takes state members last)
    (rest : List Char) :
    ∀ first fuel, members.length < fuel →
      foldMembers shape.readMember fuel first state
        (membersText l first members ++ l.close ++ '\x7d' :: rest) = .ok (last, rest) := by
  induction h with
  | nil state =>
    intro first fuel hfuel
    obtain ⟨fuel, rfl⟩ := Nat.exists_eq_add_one.2 hfuel
    have hmark : readMark '\x7d' (l.close ++ '\x7d' :: rest) = .ok ((), rest) := by
      simp [readMark, skipBlanks_before l.blank_close (show isBlank '\x7d' = false by decide)]
    simp only [membersText, List.nil_append, foldMembers, nextKey_close, hmark, bind, Except.bind]
    rfl
  | @cons m key text state next last members known new value others ih =>
    intro first fuel hfuel
    obtain ⟨fuel, rfl⟩ := Nat.exists_eq_add_one.2 (Nat.zero_lt_of_lt hfuel)
    have hmember := readMember_text (l := l) known new value
      (endsValue_membersText l members rest)
    have hothers := ih false fuel (by simpa using hfuel)
    have htext : membersText l first ((key, text) :: members) ++ l.close ++ '\x7d' :: rest =
        separator first ++ l.before ++ '"' :: (writeChars key.toList ++ '"' :: ':' ::
          (l.colon ++ text ++ (membersText l false members ++ l.close ++ '\x7d' :: rest))) := by
      simp [membersText, writeString]
    rw [htext, foldMembers, nextKey_before]
    simp only [bind, Except.bind, hmember, hothers]

/-- A record is read back from what its shape takes, if nothing is missing then. -/
theorem readsAs_recordText (l : Layout) {last : σ} {members : List (String × List Char)}
    (h : shape.Takes shape.start members last) (hlast : shape.finish last = .ok last) :
    ReadsAs shape.read (recordText l members) last := by
  refine ⟨⟨'\x7b', _, rfl, by decide, by decide⟩, fun s rest hs _ => ?_⟩
  have hs' : skipBlanks s =
      '\x7b' :: (membersText l true members ++ l.close ++ '\x7d' :: rest) := by
    rw [hs, recordText]
    simp
  have hlength := length_le_membersText l members true
  have hfold := foldMembers_membersText l h rest true
    ((membersText l true members ++ l.close ++ '\x7d' :: rest).length + 1)
    (by simp only [List.length_append]; omega)
  simp only [read, hs', readMembers, hfold, hlast, bind, Except.bind]
  rfl

end Shape

/-! ### Lists -/

/-- The elements of a list from their texts, a comma before all but the first. -/
def elementsText (l : Layout) : Bool → List (List Char) → List Char
  | _, [] => []
  | first, text :: rest => separator first ++ l.before ++ text ++ elementsText l false rest

def listText (l : Layout) (elements : List (List Char)) : List Char :=
  '[' :: elementsText l true elements ++ l.close ++ [']']

section

variable {α : Type} {element : Reader α}

theorem endsValue_elementsText (l : Layout) (elements : List (List Char)) (rest : List Char) :
    EndsValue (elementsText l false elements ++ l.close ++ ']' :: rest) := by
  cases elements with
  | nil => exact endsValue_before l.blank_close (.inr (.inl rfl))
  | cons text elements => simp [EndsValue, elementsText, separator]

theorem length_le_elementsText (l : Layout) (elements : List (List Char)) :
    elements.length ≤ (elementsText l false elements).length := by
  induction elements with
  | nil => simp
  | cons text elements ih =>
    simp only [elementsText, separator, List.length_append, List.length_cons]
    simp
    omega

theorem ReadsAs.nextElement {text : List Char} {a : α} (h : ReadsAs element text a) (l : Layout)
    (first : Bool) (rest : List Char) :
    nextElement first (separator first ++ l.before ++ text ++ rest) =
      .ok (some (text ++ rest)) := by
  have hskip := h.skipBlanks l.blank_before rest
  obtain ⟨c, tail, rfl, hc, hclose⟩ := h.starts
  cases first with
  | true =>
    rw [List.cons_append] at hskip
    simp only [separator, if_true, List.nil_append, Json.nextElement, hskip, hclose, if_false,
      List.cons_append]
  | false =>
    have hcomma (s : List Char) : Json.skipBlanks (',' :: s) = ',' :: s :=
      skipBlanks_cons (by decide)
    rw [List.append_assoc, List.cons_append] at hskip
    simp [separator, Json.nextElement, hskip, hclose, hcomma]

theorem nextElement_close (l : Layout) (first : Bool) (rest : List Char) :
    Json.nextElement first (l.close ++ ']' :: rest) = .ok none := by
  simp [Json.nextElement, skipBlanks_before l.blank_close (show isBlank ']' = false by decide)]

def addElement (element : Reader α) (read : List α) : Reader (List α) := fun s => do
  let (a, s) ← element s
  return (a :: read, s)

theorem readList_eq (element : Reader α) (s : List Char) :
    readList element s = (do
      let ((), s) ← readMark '[' s
      let (read, s) ← readElements (addElement element) [] s
      return (read.reverse, s)) := rfl

theorem foldElements_elementsText (l : Layout) {texts : List (List Char)} {values : List α}
    (h : List.Forall₂ (ReadsAs element) texts values) (rest : List Char) :
    ∀ first fuel read, texts.length < fuel →
      foldElements (addElement element) fuel first read
        (elementsText l first texts ++ l.close ++ ']' :: rest) =
          .ok (values.reverse ++ read, rest) := by
  induction h with
  | nil =>
    intro first fuel read hfuel
    obtain ⟨fuel, rfl⟩ := Nat.exists_eq_add_one.2 hfuel
    have hmark : readMark ']' (l.close ++ ']' :: rest) = .ok ((), rest) := by
      simp [readMark, skipBlanks_before l.blank_close (show isBlank ']' = false by decide)]
    simp only [elementsText, List.nil_append, foldElements, nextElement_close, hmark, bind,
      Except.bind]
    rfl
  | @cons text a texts values hread others ih =>
    intro first fuel read hfuel
    obtain ⟨fuel, rfl⟩ := Nat.exists_eq_add_one.2 (Nat.zero_lt_of_lt hfuel)
    have hothers := ih false fuel (a :: read) (by simpa using hfuel)
    have hstep : addElement element read
        (text ++ (elementsText l false texts ++ l.close ++ ']' :: rest)) =
          .ok (a :: read, elementsText l false texts ++ l.close ++ ']' :: rest) := by
      have hfront := hread.reads_front (endsValue_elementsText l texts rest)
      simp only [addElement, hfront, bind, Except.bind]
      rfl
    have htext : elementsText l first (text :: texts) ++ l.close ++ ']' :: rest =
        separator first ++ l.before ++ text ++
          (elementsText l false texts ++ l.close ++ ']' :: rest) := by
      simp [elementsText]
    rw [htext, foldElements, hread.nextElement]
    simp only [bind, Except.bind, hstep, hothers]
    simp

theorem readsAs_listText (l : Layout) {texts : List (List Char)} {values : List α}
    (h : List.Forall₂ (ReadsAs element) texts values) :
    ReadsAs (readList element) (listText l texts) values := by
  refine ⟨⟨'[', _, rfl, by decide, by decide⟩, fun s rest hs _ => ?_⟩
  have hmark : readMark '[' s =
      .ok ((), elementsText l true texts ++ l.close ++ ']' :: rest) := by
    simp [readMark, hs, listText]
  have hlength : texts.length ≤ (elementsText l true texts).length + 1 := by
    cases texts with
    | nil => simp
    | cons text texts =>
      have := length_le_elementsText l texts
      simp only [elementsText, List.length_append, List.length_cons]
      omega
  have hfold := foldElements_elementsText l h rest true
    ((elementsText l true texts ++ l.close ++ ']' :: rest).length + 1) []
    (by simp only [List.length_append, List.length_cons]; omega)
  rw [readList_eq]
  simp only [hmark, readElements, hfold, bind, Except.bind]
  simp [pure, Except.pure]

end

/-! ### The two ways of writing -/

/-- The ways of writing a document: without blanks, or over several lines, some levels deep. -/
inductive Style
  | compact
  | pretty (depth : Nat)

namespace Style

/-- How the parts of a record or of a list are written. -/
def inner : Style → Style
  | compact => compact
  | pretty depth => pretty (depth + 1)

def layout : Style → Layout
  | compact => .compact
  | pretty depth => .lines depth

end Style

namespace Document

def write (d : Document) : Style → List Char
  | .compact => d.compact
  | .pretty depth => d.prettyAt depth

@[simp] theorem write_text (s : String) (style : Style) :
    (text s).write style = writeString s := by
  cases style <;> rfl

@[simp] theorem write_natural (n : Nat) (style : Style) :
    (natural n).write style = Nat.toDigits 10 n := by
  cases style <;> rfl

theorem compactMembers_eq (members : List (String × Document)) :
    compactMembers members =
      membersText .compact true (members.map fun m => (m.1, m.2.compact)) := by
  induction members with
  | nil => rfl
  | cons m rest ih =>
    cases rest with
    | nil => simp [compactMembers, membersText, separator, Layout.compact]
    | cons n rest => simp [compactMembers, ih, membersText, separator, Layout.compact]

theorem prettyMembers_eq (depth : Nat) (members : List (String × Document)) :
    prettyMembers (depth + 1) members =
      membersText (.lines depth) true (members.map fun m => (m.1, m.2.prettyAt (depth + 1))) := by
  induction members with
  | nil => rfl
  | cons m rest ih =>
    cases rest with
    | nil => simp [prettyMembers, membersText, separator, Layout.lines]
    | cons n rest => simp [prettyMembers, ih, membersText, separator, Layout.lines]

theorem write_record (m : String × Document) (rest : List (String × Document)) (style : Style) :
    (record (m :: rest)).write style =
      recordText style.layout ((m :: rest).map fun m => (m.1, m.2.write style.inner)) := by
  cases style with
  | compact =>
    simp [write, compact, compactMembers_eq, recordText, Style.layout, Style.inner, Layout.compact]
  | pretty depth =>
    simp [write, prettyAt, prettyMembers_eq, recordText, Style.layout, Style.inner, Layout.lines]

theorem compactElements_eq (elements : List Document) :
    compactElements elements = elementsText .compact true (elements.map compact) := by
  induction elements with
  | nil => rfl
  | cons d rest ih =>
    cases rest with
    | nil => simp [compactElements, elementsText, separator, Layout.compact]
    | cons e rest => simp [compactElements, ih, elementsText, separator, Layout.compact]

theorem prettyElements_eq (depth : Nat) (elements : List Document) :
    prettyElements (depth + 1) elements =
      elementsText (.lines depth) true (elements.map (prettyAt (depth + 1))) := by
  induction elements with
  | nil => rfl
  | cons d rest ih =>
    cases rest with
    | nil => simp [prettyElements, elementsText, separator, Layout.lines]
    | cons e rest => simp [prettyElements, ih, elementsText, separator, Layout.lines]

/-- A list from the texts of its elements; an empty one is written on one line. -/
theorem exists_write_list (elements : List Document) (style : Style) :
    ∃ l, (list elements).write style =
      listText l (elements.map fun d => d.write style.inner) := by
  cases style with
  | compact =>
    refine ⟨.compact, ?_⟩
    simp only [write, compact, compactElements_eq, listText, Style.inner]
    simp [Layout.compact]
  | pretty depth =>
    cases elements with
    | nil => exact ⟨.compact, by simp [write, prettyAt, listText, elementsText, Layout.compact]⟩
    | cons d rest =>
      refine ⟨.lines depth, ?_⟩
      simp only [write, prettyAt, prettyElements_eq, listText, Style.inner]
      simp [Layout.lines]

end Document

end Depot.Json
