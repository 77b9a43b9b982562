import Depot.ErrorEnum.Value
import Depot.Proofs.ErrorEnum.Conversions
/-!
# The arms of the generated match

A context is put into an error by a match: an arm for each variant that has a context, and a last
arm for the other ones, if there are any.  A value goes to the first arm that fits its variant.

* `Expansion.words_eq_assembled` — where the arms stand in the generated code;
* `takenBy_patternsOf`, `TakesAt` — which arm takes a variant, and at which place it stands;
* `ofItem_eq_ok_iff`, `mem_arms_iff`, `catchAll_iff` — the arms of an accepted enumeration;
* `runMatch_patterns` — no value of the enumeration falls through the match, which does what
  `Expansion.withContext` does.
-/

namespace Depot.ErrorEnum

open Code

/-! ## Where the arms stand -/

/-- The trait that adds contexts up to the arms of the match. -/
def traitFront (name : String) : List String :=
  ["pub", "trait", traitName name, "<", "T", ">"] ++
    braced (contextMethod ++ parenthesized (contextParameter ++ [","]) ++ ["-", ">"] ++
      resultType [name] ++ [";"]) ++
    marked "automatically_derived" ++ ["impl", "<", "T", ">", traitName name, "<", "T", ">"] ++
    ["for"] ++ resultType [name] ++
    "\x7b" :: (marked "inline" ++ contextMethod ++ parenthesized contextParameter ++
      words "- > Self" ++
      "\x7b" :: (words "self . map_err" ++ "(" :: (words "| mut err |" ++
        "\x7b" :: (words "match & mut err" ++ ["\x7b"]))))

/-- The trait that adds contexts behind the arms of the match. -/
def traitBack : List String := ["\x7d", "err", "\x7d", ")", "\x7d", "\x7d"]

/-- The last arm, which takes what no arm before it takes. -/
def catchAllWords (catchAll : Bool) : List String :=
  if catchAll then words "_ = >" ++ braced [] else []

theorem traitWords_eq (x : Expansion) : traitWords x =
    traitFront x.item.name ++ (x.arms.flatMap (·.words x.item.name) ++ catchAllWords x.catchAll) ++
      traitBack := by
  simp only [traitWords, traitFront, traitBack, catchAllWords, braced, parenthesized,
    List.append_assoc, List.cons_append, List.nil_append]

/-- The generated code of a plan, with these arms and conversions in the places of its own. -/
def Expansion.assembled (x : Expansion) (arms : List ContextArm)
    (conversions : List Conversion) : List String :=
  marked "allow ( non_shorthand_field_patterns )" ++ derivationWords x.derivations ++
    Token.wordsOf x.item.tokens ++ traitFront x.item.name ++
    (arms.flatMap (·.words x.item.name) ++ catchAllWords x.catchAll) ++ traitBack ++
    conversions.flatMap (·.words x.item.name) ++ formatContextWords

theorem Expansion.words_eq_assembled (x : Expansion) :
    x.words = x.assembled x.arms x.conversions := by
  rw [words_eq_conversions, leadWords, assembled, traitWords_eq]
  simp only [List.append_assoc]

/-! ## What the arms take -/

inductive Pattern
  /-- The values of a variant; a context is put into them. -/
  | variant (name : String)
  /-- All values; they stay as they are. -/
  | rest
deriving DecidableEq, Repr

namespace Pattern

def fits (name : String) : Pattern → Bool
  | variant w => w = name
  | rest => true

def act (context : String) (e : ErrorValue) : Pattern → ErrorValue
  | variant _ => e.setField "context" (.context (some context))
  | rest => e

end Pattern

/-- The patterns of arms, and of a last one behind them. -/
def patternsOf (arms : List ContextArm) (catchAll : Bool) : List Pattern :=
  arms.map (fun arm => .variant arm.variant) ++ if catchAll then [.rest] else []

def takenBy (patterns : List Pattern) (name : String) : Option Pattern :=
  patterns.find? (·.fits name)

/-- The arm at that place takes the values of a variant: they fit, and none before it takes them. -/
def TakesAt (patterns : List Pattern) (name : String) (i : Nat) : Prop :=
  ∃ pattern, patterns[i]? = some pattern ∧ pattern.fits name = true ∧
    ∀ j < i, ∀ earlier, patterns[j]? = some earlier → earlier.fits name = false

/-- What the match makes of a value; none if no arm takes it. -/
def runMatch (patterns : List Pattern) (context : String) (e : ErrorValue) : Option ErrorValue :=
  (takenBy patterns e.variant).map (·.act context e)

theorem takenBy_append (patterns more : List Pattern) (name : String) :
    takenBy (patterns ++ more) name = (takenBy patterns name).or (takenBy more name) :=
  List.find?_append

theorem takenBy_arms {arms : List ContextArm} {name : String} :
    takenBy (arms.map fun arm => .variant arm.variant) name =
      if ∃ arm ∈ arms, arm.variant = name then some (.variant name) else none := by
  rw [takenBy, List.find?_map]
  have hfits : ((fun p => Pattern.fits name p) ∘ fun arm : ContextArm =>
      Pattern.variant arm.variant) = fun arm => decide (arm.variant = name) := rfl
  rw [hfits]
  cases harm : arms.find? fun arm => decide (arm.variant = name) with
  | none =>
      rw [List.find?_eq_none] at harm
      rw [if_neg, Option.map_none]
      rintro ⟨arm, hmem, rfl⟩
      exact harm arm hmem (by simp)
  | some arm =>
      have hname : arm.variant = name := by simpa using List.find?_some harm
      rw [if_pos ⟨arm, List.mem_of_find?_eq_some harm, hname⟩, Option.map_some, hname]

theorem takenBy_patternsOf {arms : List ContextArm} {catchAll : Bool} {name : String} :
    takenBy (patternsOf arms catchAll) name =
      if ∃ arm ∈ arms, arm.variant = name then some (.variant name)
      else if catchAll then some .rest else none := by
  rw [patternsOf, takenBy_append, takenBy_arms]
  by_cases harm : ∃ arm ∈ arms, arm.variant = name
  · rw [if_pos harm, if_pos harm, Option.some_or]
  · rw [if_neg harm, if_neg harm, Option.none_or]
    cases catchAll <;> rfl

theorem TakesAt.unique {patterns : List Pattern} {name : String} {i j : Nat}
    (hi : TakesAt patterns name i) (hj : TakesAt patterns name j) : i = j := by
  obtain ⟨p, hp, hpfits, hpfirst⟩ := hi
  obtain ⟨q, hq, hqfits, hqfirst⟩ := hj
  rcases Nat.lt_trichotomy i j with hlt | heq | hgt
  · exact absurd hpfits (by simp [hqfirst i hlt p hp])
  · exact heq
  · exact absurd hqfits (by simp [hpfirst j hgt q hq])

theorem exists_takesAt {patterns : List Pattern} {name : String} {p : Pattern}
    (h : takenBy patterns name = some p) :
    ∃ i, TakesAt patterns name i ∧ patterns[i]? = some p := by
  obtain ⟨hfits, i, hi, hp, hfirst⟩ := List.find?_eq_some_iff_getElem.1 h
  have hget : patterns[i]? = some p := by rw [List.getElem?_eq_getElem hi, hp]
  refine ⟨i, ⟨p, hget, hfits, fun j hj earlier hearlier => ?_⟩, hget⟩
  obtain ⟨hlt, rfl⟩ := List.getElem?_eq_some_iff.1 hearlier
  simpa using hfirst j hj

/-! ## The arms of an accepted enumeration -/

theorem ofItem_eq_ok_iff {item : Item} {x : Expansion} : Expansion.ofItem item = .ok x ↔
    (∃ variants comma, item.kind = .enumeration variants comma) ∧
      (∀ v ∈ variantsOf item, Sound v) ∧
      x = Expansion.ofFacts item ((variantsOf item).map factsFor) := by
  rw [Expansion.ofItem, bind_eq_ok]
  constructor
  · rintro ⟨facts, hfacts, hx⟩
    obtain ⟨hkind, hsound, rfl⟩ := factsOf_eq_ok_iff.1 hfacts
    exact ⟨hkind, hsound, (Except.ok.inj hx).symm⟩
  · rintro ⟨hkind, hsound, rfl⟩
    exact ⟨_, factsOf_eq_ok_iff.2 ⟨hkind, hsound, rfl⟩, rfl⟩

namespace Expansion

def patterns (x : Expansion) : List Pattern := patternsOf x.arms x.catchAll

variable {item : Item} {x : Expansion}

theorem mem_arms_iff (h : ofItem item = .ok x) {arm : ContextArm} : arm ∈ x.arms ↔
    ∃ v ∈ variantsOf item, "context" ∈ declaredNames v ∧ arm = ⟨guardsOf v, v.name⟩ := by
  obtain ⟨-, -, rfl⟩ := ofItem_eq_ok_iff.1 h
  simp only [ofFacts, List.mem_filterMap, List.mem_map, exists_exists_and_eq_and, armOf, factsFor,
    Option.ite_none_right_eq_some, Option.some.injEq, List.contains_iff_mem, @eq_comm _ arm]

theorem catchAll_iff (h : ofItem item = .ok x) : x.catchAll = true ↔
    ∃ v ∈ variantsOf item, "context" ∉ declaredNames v := by
  obtain ⟨-, -, rfl⟩ := ofItem_eq_ok_iff.1 h
  simp only [ofFacts, List.any_eq_true, List.mem_map, exists_exists_and_eq_and, factsFor,
    Bool.not_eq_true', ← Bool.not_eq_true, List.contains_iff_mem]

/-- Every variant comes to some arm: to one of its own if a variant of its name has a context, and
to the last one otherwise. -/
theorem takenBy_patterns (h : ofItem item = .ok x) {v : Variant} (hv : v ∈ variantsOf item) :
    takenBy x.patterns v.name =
      if ∃ arm ∈ x.arms, arm.variant = v.name then some (.variant v.name) else some .rest := by
  rw [patterns, takenBy_patternsOf]
  split
  · rfl
  · rename_i hnone
    rw [if_pos]
    refine (catchAll_iff h).2 ⟨v, hv, fun hcontext => hnone ?_⟩
    exact ⟨_, (mem_arms_iff h).2 ⟨v, hv, hcontext, rfl⟩, rfl⟩

/-- No value of the enumeration falls through the match. -/
theorem runMatch_patterns (h : ofItem item = .ok x) {v : Variant} (hv : v ∈ variantsOf item)
    {e : ErrorValue} (he : e.variant = v.name) (context : String) :
    runMatch x.patterns context e = some (x.withContext e context) := by
  rw [runMatch, he, takenBy_patterns h hv, withContext, he]
  cases harm : x.arms.find? fun arm => arm.variant = v.name with
  | none =>
      rw [if_neg]
      · rfl
      · rintro ⟨arm, hmem, hname⟩
        exact List.find?_eq_none.1 harm arm hmem (by simpa using hname)
  | some arm =>
      rw [if_pos ⟨arm, List.mem_of_find?_eq_some harm, by simpa using List.find?_some harm⟩]
      rfl

end Expansion

end Depot.ErrorEnum
