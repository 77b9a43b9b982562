import Depot.Proofs.Store.ListedObjects
import Depot.Proofs.Text.Utf8
/-!
# The grammar of names

A name is text between slashes.  Leaving out what is empty or a single dot, its parts go down into
directories or up again.  Which names a store accepts, and what they stand for, is said here of the
parts as they are written: counting the ways up and down, and keeping a stack.

* `evaluate_parts` — evaluation follows the stack while the way up is never longer than the way
  down;
* `ofBeginning_eq_ok_iff`, `ofObject_eq_ok_iff` — the names that are accepted;
* `Store.refuses_of_ofObject` — what becomes of the others;
* `ObjectName.grammar` — all of it together.
-/

namespace Depot

namespace ObjectName

/-! ## Parts and their stack -/

def up : String := ".."

/-- The parts of a name between its slashes, without those that mean nothing. -/
def partsOf (name : String) : List String :=
  ((name.toList.splitOn '/').map String.ofList).filter fun part => part ≠ "" ∧ part ≠ "."

/-- The name does not start at the root directory. -/
def IsRelative (name : String) : Prop := name.toList.head? ≠ some '/'

/-- No beginning of the parts leads up more often than down, from so many directories deep. -/
def StaysWithin (depth : Nat) (parts : List String) : Prop :=
  ∀ front, front <+: parts → front.count up ≤ depth + front.countP (· ≠ up)

/-- Parts that were gone down, and one more part: `..` takes the last of them back. -/
def follow (stack : List String) (part : String) : List String :=
  if part = up then stack.dropLast else stack ++ [part]

/-- The parts of a name that are left when every way up has taken one back. -/
def stackOf (name : String) : List String := (partsOf name).foldl follow []

/-- A last part that ends as the names of staging files do. -/
def EndsAsStaging (part : String) : Prop := ".tmp".toList <:+ part.toList

def componentOf (part : String) : Pathname.Component :=
  if part = up then .parent else .normal (Bytes.ofString part)

theorem staysWithin_nil (depth : Nat) : StaysWithin depth [] := by
  intro front hfront
  rw [List.prefix_nil.1 hfront]
  exact Nat.zero_le _

theorem not_staysWithin_up (parts : List String) : ¬ StaysWithin 0 (up :: parts) := by
  intro h
  have hone := h [up] ⟨parts, rfl⟩
  simp at hone

theorem staysWithin_cons_up {depth : Nat} {parts : List String} :
    StaysWithin (depth + 1) (up :: parts) ↔ StaysWithin depth parts := by
  constructor
  · intro h front hfront
    have hcons := h (up :: front) (List.cons_prefix_cons.2 ⟨rfl, hfront⟩)
    rw [List.count_cons_self, List.countP_cons_of_neg (by simp)] at hcons
    omega
  · intro h front hfront
    rcases List.prefix_cons_iff.1 hfront with rfl | ⟨rest, rfl, hrest⟩
    · exact Nat.zero_le _
    · have hbound := h rest hrest
      rw [List.count_cons_self, List.countP_cons_of_neg (by simp)]
      omega

theorem staysWithin_cons {depth : Nat} {part : String} {parts : List String} (hpart : part ≠ up) :
    StaysWithin depth (part :: parts) ↔ StaysWithin (depth + 1) parts := by
  constructor
  · intro h front hfront
    have hcons := h (part :: front) (List.cons_prefix_cons.2 ⟨rfl, hfront⟩)
    rw [List.count_cons_of_ne hpart, List.countP_cons_of_pos (by simpa using hpart)] at hcons
    omega
  · intro h front hfront
    rcases List.prefix_cons_iff.1 hfront with rfl | ⟨rest, rfl, hrest⟩
    · exact Nat.zero_le _
    · have hbound := h rest hrest
      rw [List.count_cons_of_ne hpart, List.countP_cons_of_pos (by simpa using hpart)]
      omega

/-- Evaluation never pops an empty stack exactly if the parts stay within the root, and then leaves
what following them leaves. -/
theorem evaluate_parts (stack parts : List String) (out : List Bytes) :
    evaluate (stack.map Bytes.ofString).reverse (parts.map componentOf) = .ok out ↔
      StaysWithin stack.length parts ∧
        out = ((parts.foldl follow stack).map Bytes.ofString).reverse := by
  induction parts generalizing stack with
  | nil =>
      rw [List.map_nil, evaluate, Except.ok.injEq, List.foldl_nil]
      exact ⟨fun h => ⟨staysWithin_nil _, h.symm⟩, fun h => h.2.symm⟩
  | cons part parts ih =>
      rw [List.map_cons, List.foldl_cons, componentOf, follow]
      by_cases hpart : part = up
      · subst hpart
        rw [if_pos rfl, if_pos rfl]
        rcases List.eq_nil_or_concat' stack with rfl | ⟨front, top, rfl⟩
        · simp [evaluate, not_staysWithin_up]
        · rw [List.map_append, List.map_singleton, List.reverse_append, List.reverse_singleton,
            List.singleton_append, evaluate, ih front, List.length_append, List.length_singleton,
            List.dropLast_concat, staysWithin_cons_up]
      · rw [if_neg hpart, if_neg hpart, evaluate, staysWithin_cons hpart]
        have hpush := ih (stack ++ [part])
        rw [List.map_append, List.map_singleton, List.reverse_append, List.reverse_singleton,
          List.singleton_append, List.length_append, List.length_singleton] at hpush
        exact hpush

/-! ## The components of a name -/

theorem ofPiece?_ofString (part : String) :
    Pathname.Component.ofPiece? (Bytes.ofString part) =
      if part ≠ "" ∧ part ≠ "." then some (componentOf part) else none := by
  have hbytes (other : String) : Bytes.ofString part = Bytes.ofString other ↔ part = other :=
    ⟨Bytes.ofString_injective, congrArg Bytes.ofString⟩
  have hempty : Bytes.ofString part = [] ↔ part = "" := hbytes ""
  have hdot : Bytes.ofString part = Pathname.dot ↔ part = "." := hbytes "."
  have hup : Bytes.ofString part = Pathname.dotDot ↔ part = up := hbytes up
  rw [Pathname.Component.ofPiece?, componentOf]
  simp only [hempty, hdot, hup]
  grind

theorem filterMap_ofPiece? (name : String) :
    (Pathname.ofString name).pieces.filterMap Pathname.Component.ofPiece? =
      (partsOf name).map componentOf := by
  rw [Pathname.pieces_ofString, partsOf, List.filterMap_map]
  induction name.toList.splitOn '/' with
  | nil => rfl
  | cons chars rest ih =>
      rw [List.filterMap_cons, Function.comp_apply, ofPiece?_ofString, ih, List.map_cons,
        List.filter_cons]
      by_cases hpart : String.ofList chars ≠ "" ∧ String.ofList chars ≠ "."
      · rw [if_pos hpart, if_pos (decide_eq_true hpart)]
        rfl
      · rw [if_neg hpart, if_neg (by simpa using hpart)]

theorem pieces_eq_cons (p : Pathname) : ∃ first rest, p.pieces = first :: rest :=
  List.exists_cons_of_ne_nil (List.splitOn_ne_nil Pathname.slash p.bytes)

theorem isRelative_iff {name : String} {first : Bytes} {rest : List Bytes}
    (h : (Pathname.ofString name).pieces = first :: rest) :
    IsRelative name ↔ ¬ (first = [] ∧ rest ≠ []) := by
  rw [Pathname.pieces_ofString] at h
  rw [IsRelative]
  cases hchars : name.toList with
  | nil =>
      rw [hchars] at h
      obtain ⟨-, rfl⟩ := List.cons.inj h
      simp
  | cons c chars =>
      rw [hchars, List.splitOn_cons_eq_if_modifyHead] at h
      obtain ⟨part, parts, hsplit⟩ :=
        List.exists_cons_of_ne_nil (List.splitOn_ne_nil '/' chars)
      by_cases hc : c = '/'
      · rw [if_pos (by simpa using hc), hsplit] at h
        obtain ⟨rfl, rfl⟩ := List.cons.inj h
        exact iff_of_false (fun hne => hne (congrArg some hc)) fun hne => hne ⟨rfl, by simp⟩
      · rw [if_neg (by simpa using hc), hsplit] at h
        obtain ⟨rfl, rfl⟩ := List.cons.inj h
        have hne : Bytes.ofString (String.ofList (c :: part)) ≠ [] := by
          rw [Bytes.ofString_ofList, List.flatMap_cons]
          exact List.append_ne_nil_of_left_ne_nil (Bytes.utf8EncodeChar_ne_nil c) _
        exact iff_of_true (fun heq => hc (Option.some.inj heq)) fun hnil => hne hnil.1

theorem evaluate_components {name : String} (h : IsRelative name) :
    evaluate [] (Pathname.ofString name).components =
      evaluate [] ((partsOf name).map componentOf) := by
  rw [← filterMap_ofPiece?, Pathname.components]
  obtain ⟨first, rest, hsplit⟩ := pieces_eq_cons (.ofString name)
  rw [isRelative_iff hsplit] at h
  simp only [hsplit, List.filterMap_cons]
  by_cases hfirst : first = []
  · have hrest : rest = [] := by
      by_contra hne
      exact h ⟨hfirst, hne⟩
    rw [if_pos hfirst, if_pos hrest, hfirst, hrest]
    rfl
  rw [if_neg hfirst]
  by_cases hdot : first = Pathname.dot
  · -- A leading dot is the one component without a part, and evaluation passes over it.
    rw [if_pos hdot, evaluate, Pathname.Component.ofPiece?, if_pos (Or.inr hdot)]
  · rw [if_neg hdot]
    cases Pathname.Component.ofPiece? first <;> rfl

theorem evaluate_components_of_absolute {name : String} (h : ¬ IsRelative name) :
    evaluate [] (Pathname.ofString name).components = .error .absolute := by
  obtain ⟨first, rest, hsplit⟩ := pieces_eq_cons (.ofString name)
  rw [isRelative_iff hsplit, not_not] at h
  rw [Pathname.components]
  simp only [hsplit]
  rw [if_pos h.1, if_neg h.2]
  rfl

/-! ## The names that are accepted -/

theorem ofBeginning_eq_ok_iff {name : String} {names : List Bytes} :
    ofBeginning name = .ok names ↔ IsRelative name ∧ StaysWithin 0 (partsOf name) ∧
      names = (stackOf name).map Bytes.ofString := by
  rw [ofBeginning, normalize_eq_ok_iff]
  by_cases hrel : IsRelative name
  · rw [evaluate_components hrel]
    have hparts := evaluate_parts [] (partsOf name) names.reverse
    rw [List.map_nil, List.reverse_nil, List.length_nil, List.reverse_inj] at hparts
    rw [hparts, stackOf]
    exact ⟨fun h => ⟨hrel, h⟩, fun h => h.2⟩
  · rw [evaluate_components_of_absolute hrel]
    exact iff_of_false (by simp) fun h => hrel h.1

theorem isStagingLeaf_ofString (part : String) :
    isStagingLeaf (Bytes.ofString part) = true ↔ EndsAsStaging part := by
  have hascii : ∀ c ∈ ['.', 't', 'm', 'p'], c.toNat < 128 := by
    simp only [List.forall_mem_cons, List.not_mem_nil, IsEmpty.forall_iff, implies_true, and_true]
    decide
  rw [isStagingLeaf, List.isSuffixOf_iff_suffix, stagingSuffix, EndsAsStaging,
    Bytes.ofString_eq_flatMap, Bytes.ofString_eq_flatMap]
  exact Bytes.suffix_flatMap_iff hascii part.toList

theorem ofObject_eq_ok_iff_ofBeginning {name : String} {names : List Bytes} :
    ofObject name = .ok names ↔ ofBeginning name = .ok names ∧
      ∃ leaf, names.getLast? = some leaf ∧ isStagingLeaf leaf = false := by
  rw [ofObject, bind_eq_ok]
  constructor
  · rintro ⟨found, hfound, h⟩
    split at h
    · cases h
    rename_i leaf hleaf
    split at h
    · cases h
    · rename_i hstaging
      cases h
      exact ⟨hfound, leaf, hleaf, by simpa using hstaging⟩
  · rintro ⟨hfound, leaf, hleaf, hstaging⟩
    refine ⟨names, hfound, ?_⟩
    simp only [hleaf, hstaging]
    rfl

theorem ofObject_eq_ok_iff {name : String} {names : List Bytes} :
    ofObject name = .ok names ↔ IsRelative name ∧ StaysWithin 0 (partsOf name) ∧
      (∃ top, (stackOf name).getLast? = some top ∧ ¬ EndsAsStaging top) ∧
        names = (stackOf name).map Bytes.ofString := by
  rw [ofObject_eq_ok_iff_ofBeginning, ofBeginning_eq_ok_iff]
  constructor
  · rintro ⟨⟨hrel, hwithin, rfl⟩, leaf, hleaf, hstaging⟩
    rw [List.getLast?_map] at hleaf
    obtain ⟨top, htop, rfl⟩ := Option.map_eq_some_iff.1 hleaf
    refine ⟨hrel, hwithin, ⟨top, htop, fun hends => ?_⟩, rfl⟩
    rw [(isStagingLeaf_ofString top).2 hends] at hstaging
    cases hstaging
  · rintro ⟨hrel, hwithin, ⟨top, htop, hends⟩, rfl⟩
    refine ⟨⟨hrel, hwithin, rfl⟩, Bytes.ofString top, ?_, ?_⟩
    · rw [List.getLast?_map, htop]
      rfl
    · rw [Bool.eq_false_iff]
      exact fun hstaging => hends ((isStagingLeaf_ofString top).1 hstaging)

/-! ## Normal forms -/

theorem slashName?_map_ofString (texts : List String) :
    slashName? (texts.map Bytes.ofString) = some ("/".intercalate texts) := by
  have hmap : (texts.map Bytes.ofString).mapM Bytes.text? = some texts := by
    induction texts with
    | nil => rfl
    | cons t texts ih => rw [List.map_cons, List.mapM_cons, Bytes.text?_ofString, ih]; rfl
  rw [slashName?, hmap]
  rfl

theorem isName_of_ofBeginning {name : String} {names : List Bytes}
    (h : ofBeginning name = .ok names) : ∀ piece ∈ names, Pathname.IsName piece :=
  fun piece hpiece => (normalize_eq_ok h piece hpiece).1

theorem ofBeginning_intercalate {name : String} {names : List Bytes}
    (h : ofBeginning name = .ok names) :
    ofBeginning ("/".intercalate (stackOf name)) = .ok names := by
  have hnames := (ofBeginning_eq_ok_iff.1 h).2.2
  by_cases hne : names = []
  · have hstack : stackOf name = [] := List.map_eq_nil_iff.1 (hnames.symm.trans hne)
    rw [hstack, hne]
    rfl
  · have htext : slashName? names = some ("/".intercalate (stackOf name)) := by
      rw [hnames, slashName?_map_ofString]
    have hjoined : joinedName "" ("/".intercalate (stackOf name)) =
        "/".intercalate (stackOf name) := if_pos rfl
    have hbase : ofBeginning "" = .ok [] := rfl
    rw [← hjoined]
    exact normalize_joinedName hbase hne (isName_of_ofBeginning h) htext

theorem ofObject_intercalate {name : String} {names : List Bytes}
    (h : ofObject name = .ok names) : ofObject ("/".intercalate (stackOf name)) = .ok names := by
  obtain ⟨hnames, hleaf⟩ := ofObject_eq_ok_iff_ofBeginning.1 h
  exact ofObject_eq_ok_iff_ofBeginning.2 ⟨ofBeginning_intercalate hnames, hleaf⟩

end ObjectName

/-! ## Paths of names -/

namespace Store

theorem pathOf_inj (s : Store) {names names' : List Bytes}
    (h : ∀ name ∈ names, Pathname.IsName name) (h' : ∀ name ∈ names', Pathname.IsName name) :
    s.pathOf names = s.pathOf names' ↔ names = names' := by
  refine ⟨fun heq => ?_, fun heq => heq ▸ rfl⟩
  have hnames := congrArg Pathname.names heq
  rw [s.names_pathOf h, s.names_pathOf h'] at hnames
  exact List.append_cancel_left hnames

theorem resolveBeginning_eq_ok_iff {s : Store} {name : String} {path : Pathname} :
    s.resolveBeginning name = .ok path ↔
      ∃ names, ObjectName.ofBeginning name = .ok names ∧ path = s.pathOf names := by
  rw [resolveBeginning]
  cases ObjectName.ofBeginning name with
  | ok names => simp [eq_comm]
  | error fault => simp

theorem resolveBeginning_of_resolve {s : Store} {name : String} {path : Pathname}
    (h : s.resolve name = .ok path) : s.resolveBeginning name = .ok path := by
  obtain ⟨k, hname, rfl, -⟩ := resolve_eq_ok h
  exact resolveBeginning_eq_ok_iff.2
    ⟨k.names, (ObjectName.ofObject_eq_ok_iff_ofBeginning.1 hname).1, rfl⟩

theorem eq_iff_stackOf_eq {s : Store} {name other : String} {path path' : Pathname}
    (h : s.resolveBeginning name = .ok path) (h' : s.resolveBeginning other = .ok path') :
    path = path' ↔ ObjectName.stackOf name = ObjectName.stackOf other := by
  obtain ⟨names, hnames, rfl⟩ := resolveBeginning_eq_ok_iff.1 h
  obtain ⟨names', hnames', rfl⟩ := resolveBeginning_eq_ok_iff.1 h'
  calc s.pathOf names = s.pathOf names'
      ↔ names = names' := s.pathOf_inj (ObjectName.isName_of_ofBeginning hnames)
        (ObjectName.isName_of_ofBeginning hnames')
    _ ↔ (ObjectName.stackOf name).map Bytes.ofString =
          (ObjectName.stackOf other).map Bytes.ofString := by
        rw [(ObjectName.ofBeginning_eq_ok_iff.1 hnames).2.2,
          (ObjectName.ofBeginning_eq_ok_iff.1 hnames').2.2]
    _ ↔ ObjectName.stackOf name = ObjectName.stackOf other :=
        (List.map_injective_iff.2 fun _ _ => Bytes.ofString_injective).eq_iff

end Store

/-! ## Names that are refused -/

/-- The operation fails at once, whatever the world is, and leaves it as it is. -/
def Op.FailsAtOnce {ε α : Type} (op : Op ε α) (e : ε) : Prop := ∀ w, op.run w = (.error e, w)

namespace Op.FailsAtOnce

variable {ε α β : Type} {e : ε}

theorem bind {op : Op ε α} {next : α → Op ε β} (h : op.FailsAtOnce e) :
    (op >>= next).FailsAtOnce e := by
  intro w
  rw [run_bind, h w]

theorem lift (next : α → Op ε β) :
    ((liftM (Except.error e : Except ε α) : Op ε α) >>= next).FailsAtOnce e := fun _ => rfl

end Op.FailsAtOnce

/-- The failure says that a name was no good. -/
def StorageError.IsInvalidName (e : StorageError) : Prop :=
  ∃ text rule, e = .invalidName text (some rule)

theorem NameFault.isInvalidName_toError (fault : NameFault) (name : String) :
    (fault.toError name).IsInvalidName := by
  cases fault <;> exact ⟨_, _, rfl⟩

namespace Store

variable {s : Store} {name : String} {e : StorageError} {fault : NameFault}

/-- No operation on the object with a name does anything but fail. -/
structure Refuses (s : Store) (name : String) (e : StorageError) : Prop where
  save : ∀ source expected, (s.saveFrom name source expected).FailsAtOnce e
  openReader : (s.openReader name).FailsAtOnce e
  stat : (s.stat name).FailsAtOnce e
  copyFrom : ∀ dst, (s.copy name dst).FailsAtOnce e
  /-- The name of the source may be refused first. -/
  copyTo : ∀ src, ∃ e', e'.IsInvalidName ∧ (s.copy src name).FailsAtOnce e'
  delete : (s.delete name).FailsAtOnce e

theorem resolve_eq_error_iff :
    s.resolve name = .error e ↔
      ∃ fault, ObjectName.ofObject name = .error fault ∧ e = fault.toError name := by
  rw [resolve]
  cases ObjectName.ofObject name with
  | ok names => simp
  | error fault => simp [eq_comm]

theorem refuses_of_ofObject (s : Store) (h : ObjectName.ofObject name = .error fault) :
    s.Refuses name (fault.toError name) := by
  have hname : s.resolve name = .error (fault.toError name) :=
    resolve_eq_error_iff.2 ⟨fault, h, rfl⟩
  refine ⟨fun source expected => ?_, ?_, ?_, fun dst => ?_, fun src => ?_, ?_⟩
  · rw [saveFrom, beginSave, hname]
    exact Op.FailsAtOnce.bind (Op.FailsAtOnce.lift _)
  · rw [Store.openReader, hname]
    exact Op.FailsAtOnce.lift _
  · rw [Store.stat, hname]
    exact Op.FailsAtOnce.lift _
  · rw [copy, hname]
    exact Op.FailsAtOnce.lift _
  · rw [copy, hname]
    cases hsrc : s.resolve src with
    | ok source => exact ⟨_, fault.isInvalidName_toError name, fun _ => rfl⟩
    | error e' =>
        obtain ⟨fault', -, rfl⟩ := resolve_eq_error_iff.1 hsrc
        exact ⟨_, fault'.isInvalidName_toError src, Op.FailsAtOnce.lift _⟩
  · rw [Store.delete, hname]
    exact Op.FailsAtOnce.lift _

theorem list_failsAtOnce (s : Store) (ending : String)
    (h : ObjectName.ofBeginning name = .error fault) :
    (s.list name ending).FailsAtOnce (fault.toError name) := by
  have hname : s.resolveBeginning name = .error (fault.toError name) := by
    rw [resolveBeginning, h]
  rw [list, hname]
  exact Op.FailsAtOnce.lift _

end Store

namespace ObjectName

/-- A name is accepted exactly if it is relative, its parts stay within the root, and, for an
object, the stack they leave has a top that does not end as staging files do.  The normal form is
that stack; it is a name with itself as its normal form, and tells paths apart.  A name that is not
accepted is refused by every operation, whatever the world is. -/
theorem grammar (s : Store) (name : String) :
    (∀ names, ofBeginning name = .ok names ↔ IsRelative name ∧ StaysWithin 0 (partsOf name) ∧
      names = (stackOf name).map Bytes.ofString) ∧
    (∀ names, ofObject name = .ok names ↔ IsRelative name ∧ StaysWithin 0 (partsOf name) ∧
      (∃ top, (stackOf name).getLast? = some top ∧ ¬ EndsAsStaging top) ∧
        names = (stackOf name).map Bytes.ofString) ∧
    (∀ names, ofBeginning name = .ok names → (∀ piece ∈ names, Pathname.IsName piece) ∧
      ofBeginning ("/".intercalate (stackOf name)) = .ok names) ∧
    (∀ names, ofObject name = .ok names →
      ofObject ("/".intercalate (stackOf name)) = .ok names) ∧
    (∀ other path path', s.resolveBeginning name = .ok path →
      s.resolveBeginning other = .ok path' → (path = path' ↔ stackOf name = stackOf other)) ∧
    (∀ other path path', s.resolve name = .ok path → s.resolve other = .ok path' →
      (path = path' ↔ stackOf name = stackOf other)) ∧
    (∀ fault, ofObject name = .error fault →
      (fault.toError name).IsInvalidName ∧ s.Refuses name (fault.toError name)) ∧
    (∀ fault ending, ofBeginning name = .error fault →
      (fault.toError name).IsInvalidName ∧
        (s.list name ending).FailsAtOnce (fault.toError name)) := by
  refine ⟨fun names => ofBeginning_eq_ok_iff, fun names => ofObject_eq_ok_iff, fun names h => ?_,
    fun names h => ofObject_intercalate h, fun other path path' h h' => ?_,
    fun other path path' h h' => ?_, fun fault h => ?_, fun fault ending h => ?_⟩
  · exact ⟨isName_of_ofBeginning h, ofBeginning_intercalate h⟩
  · exact Store.eq_iff_stackOf_eq h h'
  · exact Store.eq_iff_stackOf_eq (Store.resolveBeginning_of_resolve h)
      (Store.resolveBeginning_of_resolve h')
  · exact ⟨fault.isInvalidName_toError name, s.refuses_of_ofObject h⟩
  · exact ⟨fault.isInvalidName_toError name, s.list_failsAtOnce ending h⟩

/-- Dots are gone from a normal form, and a name that climbs out is refused. -/
theorem grammar_dots :
    ofObject "./a//../b/c" = .ok [[98], [99]] ∧ ofObject "b/c" = .ok [[98], [99]] ∧
      (Store.atTop [114]).Refuses "a/../../b"
        (.invalidName "a/../../b" (some NameFault.escapesRoot.rule)) := by
  obtain ⟨-, -, -, hnormal, -⟩ := grammar (Store.atTop [114]) "./a//../b/c"
  obtain ⟨-, -, -, -, -, -, hrefused, -⟩ := grammar (Store.atTop [114]) "a/../../b"
  have hname : ofObject "./a//../b/c" = .ok [[98], [99]] := rfl
  have hstack : "/".intercalate (stackOf "./a//../b/c") = "b/c" := by decide
  have hagain := hnormal _ hname
  rw [hstack] at hagain
  exact ⟨hname, hagain, (hrefused .escapesRoot rfl).2⟩

end ObjectName

end Depot
