import Depot.FileSystem.Lookup
import Depot.Store.Write
import Mathlib.Data.List.Basic
import Mathlib.Data.List.Induction
import Mathlib.Tactic.Common
/-!
# The names along the path of an object

A path below the root of a store is written with the names of a position, and a walk along it
reads those names again.  The staging file is a sibling, and the parent of both is the path of the
directories alone.

* `names_append_slash` — names split at a slash; the rest of the module follows from it;
* `steps_join_ofNames` — a walk to an object reads the names of the root and then the object's;
* `appended_join_ofNames` — adding to a path below a root adds to its last name;
* `parent?_eq_some`, `parent?_join_concat`, `parent?_join_single` — the path of the directory that
  holds the last name.
-/

namespace Depot.Pathname

/-- What a walk takes for an entry of a directory. -/
structure IsName (name : Bytes) : Prop where
  ne_nil : name ≠ []
  slash_notMem : slash ∉ name
  ne_dot : name ≠ dot
  ne_dotDot : name ≠ dotDot

theorem slash_notMem_of_mem_pieces {p : Pathname} {piece : Bytes} (h : piece ∈ p.pieces) :
    slash ∉ piece := by
  obtain ⟨bytes⟩ := p
  rw [pieces] at h
  induction bytes generalizing piece with
  | nil =>
      have hpiece : piece = [] := by simpa using h
      simp [hpiece]
  | cons b bytes ih =>
      rw [List.splitOn_cons_eq_if_modifyHead] at h
      split at h
      · rcases List.mem_cons.1 h with rfl | h
        · exact List.not_mem_nil
        · exact ih h
      · rename_i hb
        obtain ⟨first, rest, hs⟩ :=
          List.exists_cons_of_ne_nil (List.splitOn_ne_nil slash bytes)
        rw [hs, List.modifyHead_cons] at h
        rcases List.mem_cons.1 h with rfl | h
        · have hfirst : slash ∉ first := ih (by simp [hs])
          have hne : ¬ slash = b := fun heq => hb (by simp [heq])
          simp [hne, hfirst]
        · exact ih (by simp [hs, h])

theorem mem_bytes_of_mem_pieces {p : Pathname} {piece : Bytes} (h : piece ∈ p.pieces) {b : UInt8}
    (hb : b ∈ piece) : b ∈ p.bytes := by
  obtain ⟨bytes⟩ := p
  change piece ∈ bytes.splitOn slash at h
  change b ∈ bytes
  induction bytes generalizing piece with
  | nil =>
      have hpiece : piece = [] := by simpa using h
      simp [hpiece] at hb
  | cons c bytes ih =>
      rw [List.splitOn_cons_eq_if_modifyHead] at h
      split at h
      · rcases List.mem_cons.1 h with rfl | h
        · cases hb
        · exact List.mem_cons_of_mem _ (ih hb h)
      · obtain ⟨first, rest, hs⟩ :=
          List.exists_cons_of_ne_nil (List.splitOn_ne_nil slash bytes)
        rw [hs] at ih
        rw [hs, List.modifyHead_cons] at h
        rcases List.mem_cons.1 h with rfl | h
        · rcases List.mem_cons.1 hb with rfl | hb
          · exact List.mem_cons_self
          · exact List.mem_cons_of_mem _ (ih hb List.mem_cons_self)
        · exact List.mem_cons_of_mem _ (ih hb (List.mem_cons_of_mem _ h))

theorem mem_pieces_of_mem_names {p : Pathname} {name : Bytes} (h : name ∈ p.names) :
    name ∈ p.pieces ∧ name ≠ [] := by
  rw [names, List.mem_filter] at h
  exact ⟨h.1, of_decide_eq_true h.2⟩

theorem length_pieces_le (p : Pathname) : p.pieces.length ≤ p.bytes.length + 1 := by
  obtain ⟨bytes⟩ := p
  change (bytes.splitOn slash).length ≤ bytes.length + 1
  induction bytes with
  | nil => simp
  | cons b bytes ih =>
      rw [List.splitOn_cons_eq_if_modifyHead]
      split
      · rw [List.length_cons, List.length_cons]
        omega
      · rw [List.length_modifyHead, List.length_cons]
        omega

theorem length_names_le (p : Pathname) : p.names.length ≤ p.bytes.length + 1 := by
  have hfilter := List.length_filter_le (fun piece => decide (piece ≠ [])) p.pieces
  exact Nat.le_trans hfilter p.length_pieces_le

/-! ## Names of joined paths -/

theorem pieces_append_slash (a b : Bytes) :
    (⟨a ++ slash :: b⟩ : Pathname).pieces = (⟨a⟩ : Pathname).pieces ++ (⟨b⟩ : Pathname).pieces :=
  List.splitOn_append_cons_self a b

theorem names_append_slash (a b : Bytes) :
    (⟨a ++ slash :: b⟩ : Pathname).names = (⟨a⟩ : Pathname).names ++ (⟨b⟩ : Pathname).names := by
  rw [names, pieces_append_slash, List.filter_append]
  rfl

theorem names_nil : (⟨[]⟩ : Pathname).names = [] := by decide

theorem names_cons_slash (bytes : Bytes) :
    (⟨slash :: bytes⟩ : Pathname).names = (⟨bytes⟩ : Pathname).names := by
  have hsplit := names_append_slash [] bytes
  rwa [names_nil, List.nil_append, List.nil_append] at hsplit

theorem names_concat_slash (bytes : Bytes) :
    (⟨bytes ++ [slash]⟩ : Pathname).names = (⟨bytes⟩ : Pathname).names := by
  rw [names_append_slash, names_nil, List.append_nil]

theorem pieces_ofNames {names : List Bytes} (hne : names ≠ [])
    (h : ∀ name ∈ names, IsName name) : (ofNames names).pieces = names :=
  List.splitOn_intercalate slash (fun name hname => (h name hname).slash_notMem) hne

theorem names_intercalate_pieces {pieces : List Bytes} (h : ∀ piece ∈ pieces, slash ∉ piece) :
    (⟨[slash].intercalate pieces⟩ : Pathname).names = pieces.filter fun piece => piece ≠ [] := by
  by_cases hne : pieces = []
  · subst hne
    decide
  · rw [names, Pathname.pieces, List.splitOn_intercalate slash h hne]

theorem names_intercalate {names : List Bytes} (h : ∀ name ∈ names, name ≠ [] ∧ slash ∉ name) :
    (⟨[slash].intercalate names⟩ : Pathname).names = names := by
  rw [names_intercalate_pieces fun name hname => (h name hname).2, List.filter_eq_self]
  intro name hname
  simpa using (h name hname).1

theorem names_ofNames {names : List Bytes} (h : ∀ name ∈ names, IsName name) :
    (ofNames names).names = names :=
  names_intercalate fun name hname => ⟨(h name hname).ne_nil, (h name hname).slash_notMem⟩

def stem (p : Pathname) : Bytes := if p.endsInSlash then p.bytes.dropLast else p.bytes

theorem bytes_of_endsInSlash {p : Pathname} (h : p.endsInSlash) :
    p.bytes = p.stem ++ [slash] := by
  have hlast : p.bytes.getLast? = some slash := by simpa [endsInSlash] using h
  rw [stem, if_pos h, List.dropLast_append_getLast? slash hlast]

theorem names_stem (p : Pathname) : (⟨p.stem⟩ : Pathname).names = p.names := by
  by_cases h : p.endsInSlash
  · have hp : p = ⟨p.stem ++ [slash]⟩ := congrArg Pathname.mk (bytes_of_endsInSlash h)
    have hnames := names_concat_slash p.stem
    rw [← hp] at hnames
    exact hnames.symm
  · rw [stem, if_neg h]

theorem not_isAbsolute_ofNames {names : List Bytes} (h : ∀ name ∈ names, IsName name) :
    (ofNames names).isAbsolute = false := by
  cases names with
  | nil => rfl
  | cons first rest =>
      have hfirst := h first (by simp)
      obtain ⟨b, bs, rfl⟩ := List.exists_cons_of_ne_nil hfirst.ne_nil
      have hb : ¬ b = slash := fun heq => hfirst.slash_notMem (by simp [heq])
      have hhead : ([slash].intercalate ((b :: bs) :: rest)).head? = some b := by
        cases rest <;> simp
      rw [isAbsolute, ofNames, hhead]
      simp [hb]

theorem join_ofNames {root : Pathname} {names : List Bytes} (hroot : root.bytes ≠ [])
    (h : ∀ name ∈ names, IsName name) :
    root.join (ofNames names) = ⟨root.stem ++ slash :: [slash].intercalate names⟩ := by
  rw [join, not_isAbsolute_ofNames h, if_neg (by simp)]
  by_cases hs : root.endsInSlash
  · rw [if_pos (Or.inr hs), bytes_of_endsInSlash hs]
    simp [ofNames]
  · rw [if_neg (by simp [hroot, hs]), stem, if_neg hs]
    rfl

theorem names_join_ofNames {root : Pathname} {names : List Bytes} (hroot : root.bytes ≠ [])
    (h : ∀ name ∈ names, IsName name) :
    (root.join (ofNames names)).names = root.names ++ names := by
  rw [join_ofNames hroot h, names_append_slash, names_stem]
  exact congrArg _ (names_ofNames h)

theorem pieces_join_ofNames (root : Pathname) {names : List Bytes} (hne : names ≠ [])
    (h : ∀ name ∈ names, IsName name) :
    ∃ front, (root.join (ofNames names)).pieces = front ++ names := by
  by_cases hroot : root.bytes = []
  · refine ⟨[], ?_⟩
    rw [join, not_isAbsolute_ofNames h, if_neg (by simp), if_pos (Or.inl hroot), hroot]
    exact pieces_ofNames hne h
  · refine ⟨(⟨root.stem⟩ : Pathname).pieces, ?_⟩
    rw [join_ofNames hroot h, pieces_append_slash]
    exact congrArg _ (pieces_ofNames hne h)

theorem isAbsolute_join_ofNames {root : Pathname} {names : List Bytes} (hroot : root.bytes ≠ [])
    (h : ∀ name ∈ names, IsName name) :
    (root.join (ofNames names)).isAbsolute = root.isAbsolute := by
  rw [join, not_isAbsolute_ofNames h, if_neg (by simp)]
  obtain ⟨b, bs, hb⟩ := List.exists_cons_of_ne_nil hroot
  split <;> simp [isAbsolute, hb]

theorem intercalate_append {xs ys : List Bytes} (hxs : xs ≠ []) (hys : ys ≠ []) :
    [slash].intercalate (xs ++ ys) =
      [slash].intercalate xs ++ slash :: [slash].intercalate ys := by
  induction xs with
  | nil => exact absurd rfl hxs
  | cons x xs ih =>
      cases xs with
      | nil => simp [List.intercalate_cons_of_ne_nil hys]
      | cons x' xs =>
          rw [List.cons_append, List.intercalate_cons_of_ne_nil (by simp), ih (by simp),
            List.intercalate_cons_cons]
          simp

theorem mem_intercalate {names : List Bytes} {b : UInt8} (h : b ∈ [slash].intercalate names) :
    b = slash ∨ ∃ name ∈ names, b ∈ name := by
  induction names with
  | nil => simp at h
  | cons name names ih =>
      cases names with
      | nil =>
          rw [List.intercalate_singleton] at h
          exact Or.inr ⟨name, List.mem_cons_self, h⟩
      | cons name' names =>
          rw [List.intercalate_cons_cons, List.append_assoc, List.mem_append, List.mem_append,
            List.mem_singleton] at h
          rcases h with h | h | h
          · exact Or.inr ⟨name, List.mem_cons_self, h⟩
          · exact Or.inl h
          · refine (ih h).imp_right ?_
            rintro ⟨found, hmem, hb⟩
            exact ⟨found, List.mem_cons_of_mem _ hmem, hb⟩

theorem intercalate_concat (dirs : List Bytes) (leaf suffix : Bytes) :
    [slash].intercalate (dirs ++ [leaf]) ++ suffix =
      [slash].intercalate (dirs ++ [leaf ++ suffix]) := by
  induction dirs with
  | nil => simp
  | cons dir dirs ih =>
      rw [List.cons_append, List.cons_append, List.intercalate_cons_of_ne_nil (by simp),
        List.intercalate_cons_of_ne_nil (by simp), ← ih]
      simp

theorem getLast?_intercalate {dirs : List Bytes} {leaf : Bytes} (h : leaf ≠ []) :
    ([slash].intercalate (dirs ++ [leaf])).getLast? = leaf.getLast? := by
  have hsplit := intercalate_concat dirs [] leaf
  rw [List.nil_append] at hsplit
  obtain ⟨b, hb⟩ := Option.ne_none_iff_exists'.1 (mt List.getLast?_eq_none_iff.1 h)
  rw [← hsplit, List.getLast?_append, hb]
  rfl

theorem not_endsInSlash_append (front : Bytes) (dirs : List Bytes) {leaf : Bytes}
    (hne : leaf ≠ []) (hslash : slash ∉ leaf) :
    (⟨front ++ slash :: [slash].intercalate (dirs ++ [leaf])⟩ : Pathname).endsInSlash =
      false := by
  obtain ⟨b, hb⟩ := Option.ne_none_iff_exists'.1 (mt List.getLast?_eq_none_iff.1 hne)
  have hbs : b ≠ slash := fun heq => hslash (heq ▸ List.mem_of_getLast? hb)
  rw [endsInSlash, List.getLast?_append, List.getLast?_cons, getLast?_intercalate hne, hb]
  simpa using hbs

theorem not_endsInSlash_join {root : Pathname} {dirs : List Bytes} {leaf : Bytes}
    (hroot : root.bytes ≠ []) (h : ∀ name ∈ dirs ++ [leaf], IsName name) :
    (root.join (ofNames (dirs ++ [leaf]))).endsInSlash = false := by
  have hleaf := h leaf (by simp)
  rw [join_ofNames hroot h]
  exact not_endsInSlash_append _ _ hleaf.ne_nil hleaf.slash_notMem

theorem steps_join_ofNames {root : Pathname} {dirs : List Bytes} {leaf : Bytes}
    (hroot : root.bytes ≠ []) (h : ∀ name ∈ dirs ++ [leaf], IsName name) :
    (root.join (ofNames (dirs ++ [leaf]))).steps = root.names ++ (dirs ++ [leaf]) := by
  rw [steps, not_endsInSlash_join hroot h, Bool.false_and, if_neg (by simp),
    names_join_ofNames hroot h]

theorem join_ofNames_isPrefix {root : Pathname} (hroot : root.bytes ≠ []) (front rest : List Bytes)
    (h : ∀ name ∈ front ++ rest, IsName name) :
    (root.join (ofNames front)).bytes <+: (root.join (ofNames (front ++ rest))).bytes := by
  have hfront : ∀ name ∈ front, IsName name := fun name hname => h name (by simp [hname])
  rw [join_ofNames hroot hfront, join_ofNames hroot h]
  by_cases hnil : front = [] ∨ rest = []
  · rcases hnil with rfl | rfl
    · simp
    · simp
  · rw [not_or] at hnil
    rw [intercalate_append hnil.1 hnil.2, ← List.cons_append, ← List.append_assoc]
    exact List.prefix_append ..

theorem appended_join_ofNames {root : Pathname} {dirs : List Bytes} {leaf suffix : Bytes}
    (hroot : root.bytes ≠ []) (h : ∀ name ∈ dirs ++ [leaf], IsName name)
    (h' : ∀ name ∈ dirs ++ [leaf ++ suffix], IsName name) :
    (root.join (ofNames (dirs ++ [leaf]))).appended suffix =
      root.join (ofNames (dirs ++ [leaf ++ suffix])) := by
  rw [join_ofNames hroot h, join_ofNames hroot h', appended, ← intercalate_concat]
  simp

/-! ## Paths of positions -/

theorem names_ofRootNames {names : List Bytes} (h : ∀ name ∈ names, IsName name) :
    (ofRootNames names).names = names :=
  (names_cons_slash _).trans (names_ofNames h)

theorem not_endsInSlash_ofRootNames {names : List Bytes} (h : ∀ name ∈ names, IsName name)
    (hne : names ≠ []) : (ofRootNames names).endsInSlash = false := by
  obtain ⟨init, last, rfl⟩ := (List.eq_nil_or_concat' names).resolve_left hne
  have hlast := h last (by simp)
  exact not_endsInSlash_append [] init hlast.ne_nil hlast.slash_notMem

theorem steps_ofRootNames {names : List Bytes} (h : ∀ name ∈ names, IsName name) :
    (ofRootNames names).steps = names := by
  rw [steps, names_ofRootNames h]
  by_cases hne : names = []
  · rw [hne, List.isEmpty_nil, Bool.not_true, Bool.and_false, if_neg (by simp)]
  · rw [not_endsInSlash_ofRootNames h hne, Bool.false_and, if_neg (by simp)]

/-! ## The parent of a path -/

theorem dropEndWhile_concat {α : Type} (drop : α → Bool) (xs : List α) (x : α) :
    dropEndWhile drop (xs ++ [x]) = if drop x then dropEndWhile drop xs else xs ++ [x] := by
  induction xs with
  | nil => rfl
  | cons y ys ih =>
      rw [List.cons_append, dropEndWhile, ih]
      by_cases hx : drop x
      · rw [if_pos hx, if_pos hx, dropEndWhile]
      · rw [if_neg hx, if_neg hx]
        cases ys <;> rfl

theorem dropEndWhile_spec {α : Type} (drop : α → Bool) (xs : List α) :
    (∃ tail, xs = dropEndWhile drop xs ++ tail ∧ ∀ x ∈ tail, drop x) ∧
      ∀ x, (dropEndWhile drop xs).getLast? = some x → drop x = false := by
  induction xs using List.reverseRecOn with
  | nil => exact ⟨⟨[], by simp [dropEndWhile]⟩, by simp [dropEndWhile]⟩
  | append_singleton xs x ih =>
      rw [dropEndWhile_concat]
      by_cases hx : drop x
      · obtain ⟨⟨tail, htail, hall⟩, hlast⟩ := ih
        rw [if_pos hx]
        refine ⟨⟨tail ++ [x], ?_, ?_⟩, hlast⟩
        · rw [← List.append_assoc, ← htail]
        · intro y hy
          rcases List.mem_append.1 hy with hy | hy
          · exact hall y hy
          · rwa [List.mem_singleton.1 hy]
      · rw [if_neg hx]
        refine ⟨⟨[], by simp⟩, ?_⟩
        intro y hy
        have hyx : y = x := by simpa using hy.symm
        simpa [hyx] using hx

theorem not_isIdle_of_isName {name : Bytes} (h : IsName name) : isIdle name = false := by
  simp [isIdle, h.ne_nil, h.ne_dot]

theorem withoutLast_concat {body : List Bytes} {leaf : Bytes} (h : IsName leaf) :
    withoutLast (body ++ [leaf]) = some (dropEndWhile isIdle body) := by
  rw [withoutLast, dropEndWhile_concat, not_isIdle_of_isName h, if_neg (by simp)]
  obtain ⟨b, bs, hb⟩ := List.exists_cons_of_ne_nil (l := body ++ [leaf]) (by simp)
  have hlast : (b :: bs).dropLast = body := by rw [← hb, List.dropLast_concat]
  rw [hb]
  exact congrArg (fun l => some (dropEndWhile isIdle l)) hlast

theorem pieces_stem_of_isAbsolute {root : Pathname} (habs : root.isAbsolute) :
    ∃ body, (⟨root.stem⟩ : Pathname).pieces = [] :: body := by
  have hhead : root.bytes.head? = some slash := by simpa [isAbsolute] using habs
  obtain ⟨bytes, hbytes⟩ := List.head?_eq_some_iff.1 hhead
  have hstem : root.stem = [] ∨ ∃ rest, root.stem = slash :: rest := by
    rw [stem, hbytes]
    split
    · cases bytes <;> simp
    · exact Or.inr ⟨bytes, rfl⟩
  rcases hstem with hstem | ⟨rest, hrest⟩
  · exact ⟨[], by rw [hstem]; rfl⟩
  · exact ⟨rest.splitOn slash, by
      rw [hrest, pieces, List.splitOn_cons_eq_if_modifyHead, if_pos (by simp)]⟩

theorem isAbsolute_of_pieces {p : Pathname} (hne : p ≠ .empty) {rest : List Bytes}
    (h : p.pieces = [] :: rest) : p.isAbsolute = true := by
  obtain ⟨bytes⟩ := p
  cases bytes with
  | nil => exact absurd rfl hne
  | cons b bytes =>
      by_cases hb : b = slash
      · simp [isAbsolute, hb]
      · rw [pieces, List.splitOn_cons_eq_if_modifyHead, if_neg (by simpa using hb)] at h
        cases hsplit : bytes.splitOn slash with
        | nil => exact absurd hsplit (List.splitOn_ne_nil _ _)
        | cons piece pieces =>
            rw [hsplit] at h
            cases h

theorem names_of_parent?_eq_none {p : Pathname} (hne : p ≠ .empty) (hparent : p.parent? = none) :
    p.isAbsolute = true ∧ ∀ name ∈ p.names, name = dot := by
  cases hpieces : p.pieces with
  | nil => exact absurd hpieces (List.splitOn_ne_nil _ _)
  | cons first rest =>
      rw [parent?, hpieces] at hparent
      dsimp only at hparent
      by_cases hfirst : first = []
      · subst hfirst
        refine ⟨isAbsolute_of_pieces hne hpieces, ?_⟩
        rw [if_pos rfl, Option.map_eq_none_iff, withoutLast] at hparent
        have hnone : dropEndWhile isIdle rest = [] := by
          cases hkept : dropEndWhile isIdle rest with
          | nil => rfl
          | cons piece kept =>
              rw [hkept] at hparent
              cases hparent
        obtain ⟨⟨tail, htail, hidle⟩, -⟩ := dropEndWhile_spec isIdle rest
        rw [hnone, List.nil_append] at htail
        intro name hname
        obtain ⟨hmem, hname⟩ := mem_pieces_of_mem_names hname
        rw [hpieces, List.mem_cons, htail] at hmem
        have hdot := hidle name (hmem.resolve_left hname)
        simpa [isIdle, hname] using hdot
      · rw [if_neg hfirst] at hparent
        split at hparent
        · split at hparent <;> cases hparent
        · split at hparent <;> cases hparent

theorem parent?_of_pieces {p : Pathname} {body : List Bytes} {leaf : Bytes}
    (hp : p.pieces = [] :: (body ++ [leaf])) (h : IsName leaf) :
    p.parent? = some ⟨slash :: [slash].intercalate (dropEndWhile isIdle body)⟩ := by
  simp only [parent?, hp, if_true, withoutLast_concat h, Option.map_some]

theorem parent?_join_concat {root : Pathname} {dirs : List Bytes} {leaf : Bytes}
    (habs : root.isAbsolute) (hdirs : dirs ≠ []) (h : ∀ name ∈ dirs ++ [leaf], IsName name) :
    (root.join (ofNames (dirs ++ [leaf]))).parent? = some (root.join (ofNames dirs)) := by
  have hroot : root.bytes ≠ [] := fun hnil => by simp [isAbsolute, hnil] at habs
  have hd : ∀ name ∈ dirs, IsName name := fun name hname => h name (by simp [hname])
  obtain ⟨body, hbody⟩ := pieces_stem_of_isAbsolute habs
  have hpieces : (root.join (ofNames (dirs ++ [leaf]))).pieces =
      [] :: ((body ++ dirs) ++ [leaf]) := by
    rw [join_ofNames hroot h, pieces_append_slash, hbody]
    have hrest := pieces_ofNames (by simp) h
    simpa [ofNames] using hrest
  rw [parent?_of_pieces hpieces (h leaf (by simp)), join_ofNames hroot hd]
  obtain ⟨init, last, rfl⟩ := (List.eq_nil_or_concat' dirs).resolve_left hdirs
  -- The directory ends in a name, so no idle piece of the root is at the end.
  have hkept : dropEndWhile isIdle (body ++ (init ++ [last])) = body ++ (init ++ [last]) := by
    rw [← List.append_assoc, dropEndWhile_concat,
      not_isIdle_of_isName (hd last (by simp)), if_neg (by simp)]
  have hstem : root.stem = [slash].intercalate ([] :: body) := by
    rw [← hbody, pieces, List.intercalate_splitOn]
  have hall := @intercalate_append ([] :: body) (init ++ [last]) (by simp) (by simp)
  rw [hkept, hstem, ← hall, List.cons_append, List.intercalate_cons_of_ne_nil (by simp)]
  simp

theorem stem_isPrefix (p : Pathname) : p.stem <+: p.bytes := by
  rw [stem]
  split
  · exact List.dropLast_prefix p.bytes
  · exact List.prefix_rfl

theorem slash_intercalate_isPrefix {root : Pathname} {kept tail : List Bytes}
    (habs : root.isAbsolute) (hbody : (⟨root.stem⟩ : Pathname).pieces = [] :: (kept ++ tail)) :
    slash :: [slash].intercalate kept <+: root.bytes := by
  by_cases hkept : kept = []
  · have hhead : root.bytes.head? = some slash := by simpa [isAbsolute] using habs
    obtain ⟨bytes, hbytes⟩ := List.head?_eq_some_iff.1 hhead
    exact ⟨bytes, by simp [hkept, hbytes]⟩
  · have hstem : root.stem = [slash].intercalate (([] :: kept) ++ tail) := by
      rw [List.cons_append, ← hbody, pieces, List.intercalate_splitOn]
    have hfront : [slash].intercalate ([] :: kept) = slash :: [slash].intercalate kept := by
      rw [List.intercalate_cons_of_ne_nil hkept]
      rfl
    refine List.IsPrefix.trans ?_ (stem_isPrefix root)
    rw [hstem, ← hfront]
    by_cases htail : tail = []
    · simp [htail]
    · rw [intercalate_append (by simp) htail]
      exact List.prefix_append ..

theorem steps_slash_intercalate {kept : List Bytes} (hslash : ∀ piece ∈ kept, slash ∉ piece)
    (hlast : ∀ piece, kept.getLast? = some piece → piece ≠ []) :
    (⟨slash :: [slash].intercalate kept⟩ : Pathname).steps =
      kept.filter fun piece => piece ≠ [] := by
  rw [steps, names_cons_slash, names_intercalate_pieces hslash]
  rcases List.eq_nil_or_concat' kept with rfl | ⟨init, last, rfl⟩
  · simp
  · have hends := not_endsInSlash_append [] init
      (hlast last (by simp)) (hslash last (by simp))
    rw [List.nil_append] at hends
    rw [hends, Bool.false_and, if_neg (by simp)]

theorem pieces_of_isAbsolute {p : Pathname} (habs : p.isAbsolute) :
    ∃ rest, p.pieces = [] :: rest := by
  have hhead : p.bytes.head? = some slash := by simpa [isAbsolute] using habs
  obtain ⟨bytes, hbytes⟩ := List.head?_eq_some_iff.1 hhead
  exact ⟨bytes.splitOn slash, by
    rw [pieces, hbytes, List.splitOn_cons_eq_if_modifyHead, if_pos (by simp)]⟩

theorem filter_dropEndWhile {pieces : List Bytes}
    (hdot : dot ∉ pieces.filter fun piece => piece ≠ []) :
    (dropEndWhile isIdle pieces).filter (fun piece => piece ≠ []) =
      pieces.filter fun piece => piece ≠ [] := by
  obtain ⟨⟨tail, htail, hidle⟩, -⟩ := dropEndWhile_spec isIdle pieces
  have hnone : tail.filter (fun piece => piece ≠ []) = [] := by
    rw [List.filter_eq_nil_iff]
    intro piece hpiece hne
    have hcases : piece = [] ∨ piece = dot := by simpa [isIdle] using hidle piece hpiece
    rcases hcases with rfl | rfl
    · simp at hne
    · exact hdot (List.mem_filter.2 ⟨by rw [htail]; exact List.mem_append_right _ hpiece, hne⟩)
  conv => rhs; rw [htail, List.filter_append, hnone, List.append_nil]

theorem withoutLast_eq_some {pieces body : List Bytes} (h : withoutLast pieces = some body) :
    ∃ init last, dropEndWhile isIdle pieces = init ++ [last] ∧ last ≠ [] ∧
      body = dropEndWhile isIdle init := by
  rw [withoutLast] at h
  rcases List.eq_nil_or_concat' (dropEndWhile isIdle pieces) with hnil | ⟨init, last, hkept⟩
  · rw [hnil] at h
    cases h
  · have hlast := (dropEndWhile_spec isIdle pieces).2 last (by simp [hkept])
    refine ⟨init, last, hkept, ?_, ?_⟩
    · rintro rfl
      simp [isIdle] at hlast
    · rw [hkept] at h
      cases hsplit : init ++ [last] with
      | nil => simp at hsplit
      | cons piece rest =>
          rw [hsplit] at h
          dsimp only at h
          rw [← hsplit, List.dropLast_concat] at h
          exact (Option.some.inj h).symm

theorem parent?_eq_some {p q : Pathname} (habs : p.isAbsolute) (hdot : dot ∉ p.names)
    (hparent : p.parent? = some q) :
    q.isAbsolute ∧ q.names = p.names.dropLast ∧ q.steps = p.names.dropLast := by
  obtain ⟨rest, hpieces⟩ := pieces_of_isAbsolute habs
  have hnames : p.names = rest.filter fun piece => piece ≠ [] := by
    rw [names, hpieces, List.filter_cons_of_neg (by simp)]
  rw [parent?, hpieces] at hparent
  dsimp only at hparent
  rw [if_pos rfl, Option.map_eq_some_iff] at hparent
  obtain ⟨body, hbody, rfl⟩ := hparent
  obtain ⟨init, last, hkept, hne, rfl⟩ := withoutLast_eq_some hbody
  obtain ⟨⟨tail, htail, -⟩, -⟩ := dropEndWhile_spec isIdle rest
  obtain ⟨⟨tail', htail', -⟩, hlast'⟩ := dropEndWhile_spec isIdle init
  rw [hnames] at hdot
  rw [← filter_dropEndWhile hdot, hkept, List.filter_append,
    List.filter_cons_of_pos (by simpa using hne), List.filter_nil] at hnames
  rw [hkept] at htail
  have hinit : dot ∉ init.filter fun piece => piece ≠ [] := by
    intro hmem
    apply hdot
    rw [htail, List.filter_append, List.filter_append]
    exact List.mem_append_left _ (List.mem_append_left _ hmem)
  have hsteps : (⟨slash :: [slash].intercalate (dropEndWhile isIdle init)⟩ : Pathname).steps =
      p.names.dropLast := by
    rw [steps_slash_intercalate, filter_dropEndWhile hinit, hnames, List.dropLast_concat]
    · intro piece hpiece
      apply slash_notMem_of_mem_pieces (p := p)
      rw [hpieces, htail, htail']
      simp [hpiece]
    · intro piece hpiece hnil
      have hnot := hlast' piece hpiece
      simp [isIdle, hnil] at hnot
  refine ⟨by simp [isAbsolute], ?_, hsteps⟩
  rw [← hsteps, steps]
  split
  · -- A walk with a dot at its end would have found it among the names.
    rename_i hends
    rw [steps, if_pos hends, hnames, List.dropLast_concat] at hsteps
    exact absurd (hsteps ▸ List.mem_append_right _ (List.mem_singleton_self _)) hinit
  · rfl

theorem parent?_join_single {root : Pathname} {leaf : Bytes} (habs : root.isAbsolute)
    (hdot : dot ∉ root.names) (h : IsName leaf) :
    ∃ q, (root.join (ofNames [leaf])).parent? = some q ∧ q.isAbsolute ∧
      q.steps = root.names ∧ q.bytes <+: root.bytes := by
  have hroot : root.bytes ≠ [] := fun hnil => by simp [isAbsolute, hnil] at habs
  have hleaf : ∀ name ∈ [leaf], IsName name := by simpa using h
  obtain ⟨body, hbody⟩ := pieces_stem_of_isAbsolute habs
  obtain ⟨⟨tail, htail, -⟩, -⟩ := dropEndWhile_spec isIdle body
  have hpieces : (root.join (ofNames [leaf])).pieces = [] :: (body ++ [leaf]) := by
    rw [join_ofNames hroot hleaf, pieces_append_slash, hbody]
    have hrest : (ofNames [leaf]).pieces = [leaf] := pieces_ofNames (by simp) hleaf
    simpa [ofNames] using hrest
  have hnames : (root.join (ofNames [leaf])).names = root.names ++ [leaf] :=
    names_join_ofNames hroot hleaf
  have hparent := parent?_of_pieces hpieces h
  obtain ⟨habs', -, hsteps⟩ := parent?_eq_some
    (by rw [isAbsolute_join_ofNames hroot hleaf, habs])
    (by simpa [hnames, hdot] using h.ne_dot.symm) hparent
  rw [hnames, List.dropLast_concat] at hsteps
  exact ⟨_, hparent, habs', hsteps, slash_intercalate_isPrefix habs (htail ▸ hbody)⟩

end Depot.Pathname
