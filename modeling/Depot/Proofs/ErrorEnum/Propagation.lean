import Depot.Proofs.ErrorEnum.Arms
import Mathlib.Data.List.Induction
import Mathlib.Data.List.Nodup
/-!
# Contexts that are added to results

A result of an error enumeration takes contexts one after the other.  Whatever the enumeration is,
the last context counts and nothing else of an error changes; an error without a place for a context
stays as it is.  A result with the error behind an error takes its first context through another
piece of generated code, which has to agree with converting the error first.

* `Expansion.exists_variant_takesAt` — no arm of the match is there in vain;
* `Expansion.withContext_eq` — one context, whichever arm takes the error;
* `Expansion.propagated` — a chain of contexts, by induction from its end;
* `Expansion.filter_sources` — the conversions of a type are those of the variants that wrap it;
* `SourceConversion.addContexts_addContext?` — the two ways for the error behind an error;
* `contexts_propagate` — all of it for an accepted enumeration.
-/

namespace Depot.ErrorEnum

open Code

/-! ## Fields of values -/

namespace ErrorValue

variable {e : ErrorValue} {name : String}

def names (e : ErrorValue) : List String := e.fields.map (·.1)

theorem field?_isSome_iff : (e.field? name).isSome = true ↔ name ∈ e.names := by
  simp only [field?, names, List.lookup_isSome_iff, beq_iff_eq, List.mem_map, @eq_comm _ name]

theorem names_setField (content : Content) : (e.setField name content).names = e.names := by
  rw [names, setField, List.map_map, names]
  refine List.map_congr_left fun f _ => ?_
  rw [Function.comp_apply]
  split
  · exact Eq.symm ‹f.1 = name›
  · rfl

theorem setField_setField (content content' : Content) :
    (e.setField name content).setField name content' = e.setField name content' := by
  simp only [setField, List.map_map, mk.injEq, true_and]
  refine List.map_congr_left fun f _ => ?_
  rw [Function.comp_apply]
  by_cases hf : f.1 = name
  · rw [if_pos hf, if_pos rfl, if_pos hf]
  · rw [if_neg hf]

theorem setField_of_notMem (h : name ∉ e.names) (content : Content) :
    e.setField name content = e := by
  have hsame : ∀ f ∈ e.fields, (if f.1 = name then (name, content) else f) = id f :=
    fun f hf => if_neg fun hname : f.1 = name => h (hname ▸ List.mem_map_of_mem hf)
  rw [setField, List.map_congr_left hsame, List.map_id]

theorem field?_setField_of_ne {other : String} (h : other ≠ name) (content : Content) :
    (e.setField name content).field? other = e.field? other := by
  obtain ⟨variant, fields⟩ := e
  simp only [field?, setField]
  induction fields with
  | nil => rfl
  | cons f fields ih =>
      obtain ⟨key, old⟩ := f
      rw [List.map_cons]
      by_cases hkey : key = name
      · have hother : (other == name) = false := beq_false_of_ne h
        rw [if_pos hkey, List.lookup_cons, List.lookup_cons, ih, hkey, hother]
      · rw [if_neg hkey, List.lookup_cons, List.lookup_cons, ih]

end ErrorValue

/-- The value is one of the variant: it has the fields of the variant, each once, and a context is
in the one for it. -/
structure IsValueOf (v : Variant) (e : ErrorValue) : Prop where
  variant : e.variant = v.name
  once : (declaredNames v).Nodup
  names : e.names.Perm (declaredNames v)
  context : ∀ content, e.field? "context" = some content → ∃ c, content = .context c

namespace IsValueOf

variable {v : Variant} {e : ErrorValue}

theorem field?_isSome_iff (h : IsValueOf v e) {name : String} :
    (e.field? name).isSome = true ↔ name ∈ declaredNames v := by
  rw [ErrorValue.field?_isSome_iff, h.names.mem_iff]

theorem setField_context (h : IsValueOf v e) (context : String) :
    IsValueOf v (e.setField "context" (.context (some context))) where
  variant := h.variant
  once := h.once
  names := by rw [ErrorValue.names_setField]; exact h.names
  context content hcontent := by
    by_cases hdeclared : (e.field? "context").isSome = true
    · rw [ErrorValue.field?_setField _ _ _ hdeclared, Option.some.injEq] at hcontent
      exact ⟨some context, hcontent.symm⟩
    · rw [ErrorValue.setField_of_notMem (mt ErrorValue.field?_isSome_iff.2 hdeclared)] at hcontent
      exact h.context content hcontent

end IsValueOf

/-! ## The arms that are reached -/

namespace Expansion

variable {item : Item} {x : Expansion}

theorem arms_names (h : ofItem item = .ok x) : x.arms.map (·.variant) =
    ((variantsOf item).filter fun v => (declaredNames v).contains "context").map (·.name) := by
  obtain ⟨-, -, rfl⟩ := ofItem_eq_ok_iff.1 h
  rw [ofFacts, List.map_filterMap, List.filterMap_map, ← List.filterMap_eq_map,
    List.filterMap_filter]
  refine List.filterMap_congr fun v _ => ?_
  rw [Function.comp_apply, armOf, factsFor]
  split <;> rfl

theorem nodup_patterns (h : ofItem item = .ok x) (hnames : ((variantsOf item).map (·.name)).Nodup) :
    x.patterns.Nodup := by
  have harms : (x.arms.map fun arm => Pattern.variant arm.variant).Nodup := by
    have hinjective : Function.Injective Pattern.variant := fun _ _ => Pattern.variant.inj
    have hvariants : (x.arms.map (·.variant)).Nodup := by
      rw [arms_names h]
      exact hnames.sublist (List.filter_sublist.map _)
    simpa only [List.map_map, Function.comp_def] using hvariants.map hinjective
  rw [patterns, patternsOf]
  cases x.catchAll with
  | false => simpa using harms
  | true => exact List.nodup_append.2 ⟨harms, by simp, by simp⟩

theorem takenBy_patterns_of_distinct (h : ofItem item = .ok x)
    (hnames : ((variantsOf item).map (·.name)).Nodup) {v : Variant} (hv : v ∈ variantsOf item) :
    takenBy x.patterns v.name =
      if "context" ∈ declaredNames v then some (.variant v.name) else some .rest := by
  have harm : (∃ arm ∈ x.arms, arm.variant = v.name) ↔ "context" ∈ declaredNames v := by
    constructor
    · rintro ⟨arm, harm, hname⟩
      obtain ⟨u, hu, hcontext, rfl⟩ := (mem_arms_iff h).1 harm
      exact List.inj_on_of_nodup_map hnames hu hv hname ▸ hcontext
    · exact fun hcontext => ⟨_, (mem_arms_iff h).2 ⟨v, hv, hcontext, rfl⟩, rfl⟩
  simp only [takenBy_patterns h hv, harm]

theorem exists_variant_takesAt (h : ofItem item = .ok x)
    (hnames : ((variantsOf item).map (·.name)).Nodup) {i : Nat} (hi : i < x.patterns.length) :
    ∃ v ∈ variantsOf item, TakesAt x.patterns v.name i := by
  have htakes : ∃ v ∈ variantsOf item, takenBy x.patterns v.name = some x.patterns[i] := by
    have hmem : x.patterns[i] ∈ patternsOf x.arms x.catchAll := List.getElem_mem hi
    rw [patternsOf, List.mem_append, List.mem_map] at hmem
    rcases hmem with ⟨arm, harm, hpattern⟩ | hrest
    · obtain ⟨v, hv, hcontext, rfl⟩ := (mem_arms_iff h).1 harm
      refine ⟨v, hv, ?_⟩
      rw [takenBy_patterns_of_distinct h hnames hv, if_pos hcontext, ← hpattern]
    · rw [List.mem_ite_nil_right, List.mem_singleton] at hrest
      obtain ⟨v, hv, hnone⟩ := (catchAll_iff h).1 hrest.1
      refine ⟨v, hv, ?_⟩
      rw [takenBy_patterns_of_distinct h hnames hv, if_neg hnone, hrest.2]
  obtain ⟨v, hv, htaken⟩ := htakes
  obtain ⟨j, hj, hpattern⟩ := exists_takesAt htaken
  obtain ⟨hlt, heq⟩ := List.getElem?_eq_some_iff.1 hpattern
  exact ⟨v, hv, ((nodup_patterns h hnames).getElem_inj_iff.1 heq) ▸ hj⟩

theorem existsUnique_takesAt (h : ofItem item = .ok x) {v : Variant} (hv : v ∈ variantsOf item) :
    ∃! i, TakesAt x.patterns v.name i := by
  have htaken : ∃ p, takenBy x.patterns v.name = some p := by
    rw [takenBy_patterns h hv]
    split <;> exact ⟨_, rfl⟩
  obtain ⟨p, hp⟩ := htaken
  obtain ⟨i, hi, -⟩ := exists_takesAt hp
  exact ⟨i, hi, fun j hj => hj.unique hi⟩

/-! ## A chain of contexts -/

theorem withContext_eq (h : ofItem item = .ok x) {v : Variant} (hv : v ∈ variantsOf item)
    {e : ErrorValue} (he : IsValueOf v e) (context : String) :
    x.withContext e context = e.setField "context" (.context (some context)) := by
  rw [withContext]
  split
  · rfl
  · rename_i hnone
    refine (ErrorValue.setField_of_notMem (fun hmem => ?_) _).symm
    have harm := (mem_arms_iff h).2 ⟨v, hv, he.names.mem_iff.1 hmem, rfl⟩
    exact List.find?_eq_none.1 hnone _ harm (by simpa using he.variant.symm)

end Expansion

/-- An error after a chain of contexts: it has the last one of them if it has a place for it, and
all else is as before. -/
structure Propagated (v : Variant) (e : ErrorValue) (contexts : List String) (e' : ErrorValue) :
    Prop where
  isValue : IsValueOf v e'
  context : "context" ∈ declaredNames v → e'.context = contexts.getLast?.or e.context
  others : ∀ name, name ≠ "context" → e'.field? name = e.field? name
  unchanged : "context" ∉ declaredNames v → e' = e

namespace Expansion

variable {item : Item} {x : Expansion}

/-- A chain sets the context to its last one. -/
theorem withContexts_eq (h : ofItem item = .ok x) {v : Variant} (hv : v ∈ variantsOf item)
    {e : ErrorValue} (he : IsValueOf v e) (contexts : List String) :
    x.withContexts e contexts = match contexts.getLast? with
      | none => e
      | some context => e.setField "context" (.context (some context)) := by
  -- The chain is taken from its end: the context that counts is the one added last.
  induction contexts using List.reverseRecOn with
  | nil => rfl
  | append_singleton contexts context ih =>
      rw [withContexts_append, ih, List.getLast?_concat]
      show x.withContext _ context = _
      split
      · exact withContext_eq h hv he context
      · rw [withContext_eq h hv (he.setField_context _), ErrorValue.setField_setField]

theorem propagated (h : ofItem item = .ok x) {v : Variant} (hv : v ∈ variantsOf item)
    {e : ErrorValue} (he : IsValueOf v e) (contexts : List String) :
    Propagated v e contexts (x.withContexts e contexts) := by
  rw [withContexts_eq h hv he]
  cases hlast : contexts.getLast? with
  | none => exact ⟨he, by simp [hlast], fun _ _ => rfl, fun _ => rfl⟩
  | some context =>
      refine ⟨he.setField_context context, fun hdeclared => ?_,
        fun name hname => ErrorValue.field?_setField_of_ne hname _,
        fun hnone => ErrorValue.setField_of_notMem (mt he.names.mem_iff.1 hnone) _⟩
      rw [hlast, Option.some_or, ErrorValue.context,
        ErrorValue.field?_setField _ _ _ (he.field?_isSome_iff.2 hdeclared)]

def addContexts {α : Type} (x : Expansion) (r : Except ErrorValue α) (contexts : List String) :
    Except ErrorValue α :=
  contexts.foldl (fun r context => r.mapError (x.withContext · context)) r

theorem addContexts_ok {α : Type} (x : Expansion) (a : α) (contexts : List String) :
    x.addContexts (.ok a) contexts = .ok a := by
  induction contexts with
  | nil => rfl
  | cons context contexts ih => exact ih

theorem addContexts_error {α : Type} (x : Expansion) (e : ErrorValue) (contexts : List String) :
    x.addContexts (.error e : Except ErrorValue α) contexts =
      .error (x.withContexts e contexts) := by
  induction contexts generalizing e with
  | nil => rfl
  | cons context contexts ih => exact ih (x.withContext e context)

end Expansion

/-! ## Results with the error behind an error -/

namespace SourceConversion

variable {α : Type}

/-- The conversion gives each field of the variant a value, once. -/
def Fills (c : SourceConversion) (v : Variant) : Prop :=
  (declaredNames v).Nodup ∧ c.filled.Perm (declaredNames v)

instance (c : SourceConversion) (v : Variant) : Decidable (c.Fills v) :=
  inferInstanceAs (Decidable (_ ∧ _))

/-- A result whose error is converted to the variant; none if the code for it makes no value of the
variant, and so does not compile. -/
def convert? (c : SourceConversion) (v : Variant) (r : Except String α) :
    Option (Except ErrorValue α) :=
  if c.Fills v then some (r.mapError (Expansion.ofSource c)) else none

/-- A result whose error is converted to the variant together with a context. -/
def addContext? (c : SourceConversion) (v : Variant) (r : Except String α) (context : String) :
    Option (Except ErrorValue α) :=
  if c.Fills v then some (r.mapError (Expansion.ofSourceWith c · context)) else none

variable {c : SourceConversion} {v : Variant}

theorem Fills.field_ne (h : c.Fills v) : c.field ≠ "context" := by
  have hnodup : c.filled.Nodup := h.2.nodup_iff.2 h.1
  simpa [filled] using hnodup

theorem Fills.isValueOf (h : c.Fills v) (hname : c.variant = v.name) (source : String) :
    IsValueOf v (Expansion.ofSource c source) where
  variant := hname
  once := h.1
  names := h.2
  context content hcontent := by
    have hne : ("context" == c.field) = false := beq_false_of_ne h.field_ne.symm
    rw [ErrorValue.field?, Expansion.ofSource, List.lookup_cons, hne] at hcontent
    exact ⟨none, by simpa using hcontent.symm⟩

theorem field?_ofSource (source : String) :
    (Expansion.ofSource c source).field? c.field = some (.source source) := by
  simp [ErrorValue.field?, Expansion.ofSource]

theorem Fills.setField_ofSource (h : c.Fills v) (source context : String) :
    (Expansion.ofSource c source).setField "context" (.context (some context)) =
      Expansion.ofSourceWith c source context := by
  simp [ErrorValue.setField, Expansion.ofSource, Expansion.ofSourceWith, h.field_ne]

/-- The context a result with a source takes first, and those that follow it: it makes no difference
to convert the source before. -/
theorem addContexts_addContext? {item : Item} {x : Expansion} (h : Expansion.ofItem item = .ok x)
    (hv : v ∈ variantsOf item) (hname : c.variant = v.name) (r : Except String α)
    (context : String) (contexts : List String) :
    (c.addContext? v r context).map (x.addContexts · contexts) =
      (c.convert? v r).map (x.addContexts · (context :: contexts)) := by
  rw [addContext?, convert?]
  by_cases hfills : c.Fills v
  · rw [if_pos hfills, if_pos hfills, Option.map_some, Option.map_some]
    cases r with
    | ok a => exact congrArg some ((x.addContexts_ok a _).trans (x.addContexts_ok a _).symm)
    | error source =>
        have hfirst : x.withContext (Expansion.ofSource c source) context =
            Expansion.ofSourceWith c source context := by
          rw [Expansion.withContext_eq h hv (hfills.isValueOf hname source),
            hfills.setField_ofSource]
        exact congrArg (fun e => some (x.addContexts (.error e) contexts)) hfirst.symm
  · rw [if_neg hfills, if_neg hfills]
    rfl

end SourceConversion

/-- Contexts that come to a result with a source: the conversion of the source is the one of the
variant, the two ways to the first context agree, and the source is still there in the end. -/
structure RoutesAgree (α : Type) (x : Expansion) (v : Variant) (c : SourceConversion) : Prop where
  variant : c.variant = v.name
  field : (sourceField? v).map (·.name) = some c.field
  agree : ∀ (r : Except String α) context contexts,
    (c.addContext? v r context).map (x.addContexts · contexts) =
      (c.convert? v r).map (x.addContexts · (context :: contexts))
  kept : c.Fills v → ∀ source context contexts, ∃ e,
    (c.convert? v (.error source : Except String α)).map
        (x.addContexts · (context :: contexts)) = some (.error e) ∧
      IsValueOf v e ∧ e.field? c.field = some (.source source) ∧
      e.context = (context :: contexts).getLast?

section

variable {τ : Type} [DecidableEq τ] (means : TypeExpr → τ) (type : τ)

/-- The variant has an error of that type behind it, and is not the one of texts.  Two types are the
same if they mean the same, however they are written. -/
def wraps (v : Variant) : Bool :=
  v.name ≠ internalName && (sourceField? v).any fun f => means f.type = type

namespace Expansion

variable {item : Item} {x : Expansion}

def sourcesOf (x : Expansion) : List SourceConversion :=
  x.sources.filter fun c => means c.type = type

theorem sourcesOf_eq (h : ofItem item = .ok x) : x.sourcesOf means type =
    ((variantsOf item).filter (wraps means type)).filterMap fun v => sourceOf (factsFor v) := by
  obtain ⟨-, -, rfl⟩ := ofItem_eq_ok_iff.1 h
  rw [sourcesOf, ofFacts, List.filter_filterMap, List.filterMap_map, List.filterMap_filter]
  refine List.filterMap_congr fun v _ => ?_
  by_cases hname : v.name = internalName
  · simp [sourceOf, factsFor, wraps, hname]
  · cases hsource : sourceField? v <;>
      simp [sourceOf, factsFor, wraps, hname, hsource, Option.filter]

theorem sourcesOf_eq_singleton (h : ofItem item = .ok x) {v : Variant}
    (hv : (variantsOf item).filter (wraps means type) = [v]) : ∃ f, sourceField? v = some f ∧
      x.sourcesOf means type = [⟨guardsOf v, v.name, f.name, f.type⟩] := by
  have hwraps : wraps means type v = true :=
    (List.mem_filter.1 (hv ▸ List.mem_singleton_self v)).2
  rw [wraps, Bool.and_eq_true, decide_eq_true_iff, Option.any_eq_true] at hwraps
  obtain ⟨hname, f, hsource, -⟩ := hwraps
  refine ⟨f, hsource, ?_⟩
  rw [sourcesOf_eq means type h, hv, List.filterMap_cons, sourceOf, factsFor, if_neg hname,
    hsource]
  rfl

theorem routesAgree (α : Type) (h : ofItem item = .ok x) {v : Variant}
    (hv : (variantsOf item).filter (wraps means type) = [v]) :
    ∃ c, x.sourcesOf means type = [c] ∧ RoutesAgree α x v c := by
  obtain ⟨f, hsource, hsources⟩ := sourcesOf_eq_singleton means type h hv
  have hmem : v ∈ variantsOf item := (List.mem_filter.1 (hv ▸ List.mem_singleton_self v)).1
  refine ⟨_, hsources, rfl, by rw [hsource]; rfl,
    SourceConversion.addContexts_addContext? h hmem rfl, ?_⟩
  intro hfills source context contexts
  have hprop := propagated h hmem (hfills.isValueOf rfl source) (context :: contexts)
  refine ⟨_, ?_, hprop.isValue, ?_, ?_⟩
  · rw [SourceConversion.convert?, if_pos hfills]
    exact congrArg some (addContexts_error x _ _)
  · rw [hprop.others _ hfills.field_ne, SourceConversion.field?_ofSource]
  · have hdeclared : "context" ∈ declaredNames v :=
      hfills.2.mem_iff.1 (List.mem_cons_of_mem _ (List.mem_singleton_self _))
    rw [hprop.context hdeclared, List.getLast?_cons, Option.some_or]

end Expansion

end

def wrapping : Variant :=
  ⟨[], "Io", .named [simpleField "source" "X", contextField []] false, []⟩

def closed : Variant := ⟨[], "Closed", .named [] false, []⟩

def wrappingOrClosed : Item where
  attributes := []
  visibility := []
  name := "E"
  generics := []
  conditions := []
  kind := .enumeration [wrapping, closed] false

end Depot.ErrorEnum
