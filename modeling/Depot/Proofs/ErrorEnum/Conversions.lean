import Depot.ErrorEnum.Words
import Depot.Proofs.Program
import Mathlib.Data.List.Forall2
/-!
# Conversions to errors

The code that is generated for an error enumeration makes errors: from the error behind one, from a
text, and where a context is added to a result.  Each of these conversions makes one variant and
gives values to some of its fields.  A `Conversion` is such a piece of code with its variant and
fields set apart, and the generated words are those of a list of them.

* `Expansion.words_eq_conversions` — the conversions are all of the generated code that makes
  variants;
* `factsOf_eq_ok_iff` — what it means that an enumeration is accepted;
* `Target.Met` — a conversion that makes the right variant from the right thing, with no field that
  the variant does not declare, and with all that it declares if there is a value for each;
* `conversions_meet` — the conversions are those that the variants call for, one by one.
-/

namespace Depot.ErrorEnum

open Code

/-! ## Generated code that makes a variant -/

inductive Origin
  /-- The error behind the error. -/
  | error (type : TypeExpr)
  /-- A result that may hold such an error, and a context for it. -/
  | result (type : TypeExpr)
  | borrowedText
  | ownedText

/-- An expression that makes a variant. -/
structure Construction where
  /-- The enumeration as it is called there. -/
  owner : String
  variant : String
  /-- The fields that get a value, and its words; without words it is the variable of that name. -/
  values : List (String × List String)
  trailingComma : Bool

namespace Construction

def filled (c : Construction) : List String := c.values.map (·.1)

def valueWords (value : String × List String) : List String :=
  if value.2.isEmpty then [value.1] else value.1 :: ":" :: value.2

def words (c : Construction) : List String :=
  [c.owner, ":", ":", c.variant] ++
    braced ([","].intercalate (c.values.map valueWords) ++ if c.trailingComma then [","] else [])

end Construction

/-- A piece of generated code that converts something to an error. -/
structure Conversion where
  guards : List Attribute
  origin : Origin
  /-- The variable that holds what is converted. -/
  taken : String
  made : Construction

def Origin.typeWords : Origin → List String
  | error type => Token.wordsOf type.tokens
  | result type => Token.wordsOf type.tokens
  | borrowedText => words "& 'static str"
  | ownedText => ["String"]

def Origin.heading (name : String) (o : Origin) : List String :=
  match o with
  | error _ => marked "automatically_derived" ++ words "impl : : std : : convert : : From <" ++
      o.typeWords ++ [">", "for", name]
  | result _ => marked "automatically_derived" ++
      ["impl", "<", "T", ">", traitName name, "<", "T", ">", "for"] ++ resultType o.typeWords
  | _ => words "impl : : std : : convert : : From <" ++ o.typeWords ++ [">", "for", name]

def Conversion.words (name : String) (c : Conversion) : List String :=
  guardWords c.guards ++ c.origin.heading name ++ braced (marked "inline" ++
    match c.origin with
    | .result _ => contextMethod ++ parenthesized (contextParameter ++ [","]) ++ ["-", ">"] ++
        resultType [name] ++ braced (ErrorEnum.words "self . map_err" ++
          parenthesized (["|", c.taken, "|"] ++ c.made.words))
    | o => ["fn", "from"] ++ parenthesized (c.taken :: ":" :: o.typeWords) ++
        ErrorEnum.words "- > Self" ++ braced c.made.words)

/-! ## The conversions of a plan -/

/-- From the error behind an error, and from a result with it. -/
def SourceConversion.conversions (name : String) (c : SourceConversion) : List Conversion :=
  [⟨c.guards, .error c.type, c.field,
      ⟨"Self", c.variant, [(c.field, []), ("context", ["None"])], false⟩⟩,
    ⟨c.guards, .result c.type, c.field,
      ⟨name, c.variant, [(c.field, []), ("context", ErrorEnum.words "Some ( context . into ( ) )")],
        false⟩⟩]

/-- A variant with a message, which is the text in that form. -/
def TextConversion.construction (c : TextConversion) (form : String) : Construction where
  owner := "Self"
  variant := internalName
  values :=
    ("message",
        ErrorEnum.words ": : std : : borrow : : Cow : :" ++ [form] ++ parenthesized ["s"]) ::
      if c.hasContext then [("context", ["None"])] else []
  trailingComma := !c.hasContext

/-- From a text that is borrowed for ever, and from one that is owned. -/
def TextConversion.conversions (c : TextConversion) : List Conversion :=
  [⟨c.guards, .borrowedText, "s", c.construction "Borrowed"⟩,
    ⟨c.guards, .ownedText, "s", c.construction "Owned"⟩]

theorem TextConversion.filled_construction (c : TextConversion) (form : String) :
    (c.construction form).filled = c.filled := by
  rw [Construction.filled, construction, TextConversion.filled]
  cases c.hasContext <;> rfl

theorem SourceConversion.words_eq_conversions (name : String) (c : SourceConversion) :
    c.words name = (c.conversions name).flatMap (·.words name) := by
  have hnone : ErrorEnum.words ", context : None" = [",", "context", ":", "None"] := rfl
  have hsome : ErrorEnum.words ", context : Some ( context . into ( ) )" =
      [",", "context", ":"] ++ ErrorEnum.words "Some ( context . into ( ) )" := rfl
  have hfilled : ErrorEnum.words "Some ( context . into ( ) )" =
      "Some" :: ErrorEnum.words "( context . into ( ) )" := rfl
  rw [SourceConversion.words, conversions, hnone, hsome, hfilled]
  simp [Conversion.words, Origin.heading, Origin.typeWords, Construction.words,
    Construction.valueWords, List.append_assoc]

theorem TextConversion.words_eq_conversions (name : String) (c : TextConversion) :
    c.words name = c.conversions.flatMap (·.words name) := by
  have hnone : ErrorEnum.words "context : None" = ["context", ":", "None"] := rfl
  have hmessage : ErrorEnum.words "message : : : std : : borrow : : Cow : :" =
      "message" :: ":" :: ErrorEnum.words ": : std : : borrow : : Cow : :" := rfl
  rw [TextConversion.words, wordsFor, wordsFor, conversions, hnone, hmessage]
  cases hcontext : c.hasContext <;>
    simp [Conversion.words, Origin.heading, Origin.typeWords, Construction.words,
      Construction.valueWords, construction, hcontext, parenthesized, List.append_assoc]

namespace Expansion

/-- All conversions of a plan, in the order of their code. -/
def conversions (x : Expansion) : List Conversion :=
  x.sources.flatMap (·.conversions x.item.name) ++
    match x.texts with
    | some c => c.conversions
    | none => []

def leadWords (x : Expansion) : List String :=
  marked "allow ( non_shorthand_field_patterns )" ++ derivationWords x.derivations ++
    Token.wordsOf x.item.tokens ++ traitWords x

theorem words_eq_conversions (x : Expansion) :
    x.words = x.leadWords ++ x.conversions.flatMap (·.words x.item.name) ++ formatContextWords := by
  have hsources : x.sources.flatMap (·.words x.item.name) =
      (x.sources.flatMap (·.conversions x.item.name)).flatMap (·.words x.item.name) := by
    rw [List.flatMap_assoc]
    simp only [SourceConversion.words_eq_conversions]
  rw [words, conversions, List.flatMap_append, hsources, leadWords]
  cases x.texts with
  | none => simp only [List.flatMap_nil, List.append_nil, List.append_assoc]
  | some c => simp only [TextConversion.words_eq_conversions, List.append_assoc]

end Expansion

/-! ## Accepted enumerations -/

def variantsOf (item : Item) : List Variant :=
  match item.kind with
  | .enumeration variants _ => variants
  | _ => []

def fieldsOf (v : Variant) : List Field :=
  match v.fields with
  | .named fields _ => fields
  | _ => []

def declaredNames (v : Variant) : List String := (fieldsOf v).map (·.name)

def sourceField? (v : Variant) : Option Field := (fieldsOf v).find? isSource

def contextField? (v : Variant) : Option Field := (fieldsOf v).find? fun f => f.name = "context"

structure Sound (v : Variant) : Prop where
  named : ∃ fields comma, v.fields = .named fields comma
  context : ∀ f, contextField? v = some f → isContextType f.type
  withSource : ∀ f, sourceField? v = some f → "context" ∈ declaredNames v

def factsFor (v : Variant) : VariantFacts where
  name := v.name
  source := (sourceField? v).map fun f => (f.name, f.type)
  hasContext := (declaredNames v).contains "context"
  hasMessage := (declaredNames v).contains "message"
  guards := guardsOf v

theorem any_name (fields : List Field) (name : String) :
    (fields.any fun f => f.name = name) = (fields.map (·.name)).contains name := by
  rw [List.contains_eq_any_beq, List.any_map]
  congr 1
  funext f
  rw [Bool.eq_iff_iff, Function.comp_apply, beq_iff_eq, decide_eq_true_iff, eq_comm]

theorem find?_name_isSome (fields : List Field) (name : String) :
    (fields.find? fun f => f.name = name).isSome = (fields.map (·.name)).contains name := by
  rw [List.isSome_find?, any_name]

theorem contextField?_isSome (v : Variant) :
    (contextField? v).isSome = (declaredNames v).contains "context" :=
  find?_name_isSome (fieldsOf v) "context"

theorem ofFields_eq_ok_iff {v : Variant} {fields : List Field} {comma : Bool}
    (h : v.fields = .named fields comma) {facts : VariantFacts} :
    VariantFacts.ofFields v fields = .ok facts ↔ Sound v ∧ facts = factsFor v := by
  have hfields : fieldsOf v = fields := by rw [fieldsOf, h]
  have hcontext : (fields.find? fun f => f.name = "context") = contextField? v := by
    rw [contextField?, hfields]
  have hsource : fields.find? isSource = sourceField? v := by rw [sourceField?, hfields]
  have hmessage : (fields.any fun f => f.name = "message") =
      (declaredNames v).contains "message" := by rw [any_name, declaredNames, hfields]
  simp only [VariantFacts.ofFields, hcontext, hsource, hmessage, contextField?_isSome]
  constructor
  · intro hok
    split at hok
    · cases hok
    rename_i hbad
    split at hok
    · cases hok
    rename_i hmissing
    refine ⟨⟨⟨fields, comma, h⟩, fun f hf => ?_, fun f hf => ?_⟩, (Except.ok.inj hok).symm⟩
    · simpa [hf] using hbad
    · rw [← List.contains_iff_mem, ← contextField?_isSome]
      simpa [hf, Option.isSome_iff_ne_none] using hmissing
  · rintro ⟨hsound, rfl⟩
    rw [if_neg, if_neg]
    · rfl
    · cases hf : sourceField? v with
      | none => simp
      | some f =>
          have hdeclared : (contextField? v).isSome := by
            rw [contextField?_isSome, List.contains_iff_mem]
            exact hsound.withSource f hf
          rw [Option.isNone_eq_false_iff.2 hdeclared]
          simp
    · cases hf : contextField? v with
      | none => simp
      | some f => simp [hsound.context f hf]

theorem ofVariant_eq_ok_iff {v : Variant} {facts : VariantFacts} :
    VariantFacts.ofVariant v = .ok facts ↔ Sound v ∧ facts = factsFor v := by
  rw [VariantFacts.ofVariant]
  cases hfields : v.fields with
  | unnamed => exact iff_of_false (by simp) fun h => by simpa [hfields] using h.1.named
  | none => exact iff_of_false (by simp) fun h => by simpa [hfields] using h.1.named
  | named fields comma => exact ofFields_eq_ok_iff hfields

theorem mapM_eq_ok_iff {ε α β : Type} {f : α → Except ε β} {g : α → β} {p : α → Prop}
    (hf : ∀ a b, f a = .ok b ↔ p a ∧ b = g a) {as : List α} {bs : List β} :
    as.mapM f = .ok bs ↔ (∀ a ∈ as, p a) ∧ bs = as.map g := by
  induction as generalizing bs with
  | nil =>
      rw [List.mapM_nil, List.map_nil]
      exact ⟨fun h => ⟨by simp, (Except.ok.inj h).symm⟩, fun h => congrArg Except.ok h.2.symm⟩
  | cons a as ih =>
      rw [List.mapM_cons, bind_eq_ok, List.forall_mem_cons, List.map_cons]
      constructor
      · rintro ⟨b, hb, hrest⟩
        obtain ⟨ha, rfl⟩ := (hf a b).1 hb
        obtain ⟨bs', hbs, hout⟩ := bind_eq_ok.1 hrest
        obtain ⟨has, rfl⟩ := ih.1 hbs
        exact ⟨⟨ha, has⟩, (Except.ok.inj hout).symm⟩
      · rintro ⟨⟨ha, has⟩, rfl⟩
        exact ⟨g a, (hf a _).2 ⟨ha, rfl⟩, bind_eq_ok.2 ⟨as.map g, ih.2 ⟨has, rfl⟩, rfl⟩⟩

theorem factsOf_eq_ok_iff {item : Item} {facts : List VariantFacts} :
    factsOf item = .ok facts ↔ (∃ variants comma, item.kind = .enumeration variants comma) ∧
      (∀ v ∈ variantsOf item, Sound v) ∧ facts = (variantsOf item).map factsFor := by
  rw [factsOf, variantsOf]
  cases item.kind with
  | enumeration variants comma =>
      rw [mapM_eq_ok_iff fun _ _ => ofVariant_eq_ok_iff]
      exact ⟨fun h => ⟨⟨variants, comma, rfl⟩, h⟩, fun h => h.2⟩
  | product => exact iff_of_false (by simp) fun h => by simpa using h.1
  | union => exact iff_of_false (by simp) fun h => by simpa using h.1

/-! ## The conversions that are called for -/

/-- A conversion that an enumeration calls for. -/
structure Target where
  variant : Variant
  origin : Origin
  /-- The fields there are values for. -/
  offered : List String

/-- Two conversions for the error behind a variant; a variant of texts has none. -/
def sourceTargets (v : Variant) : List Target :=
  match sourceField? v with
  | none => []
  | some f =>
    if v.name = internalName then []
    else [⟨v, .error f.type, [f.name, "context"]⟩, ⟨v, .result f.type, [f.name, "context"]⟩]

/-- Two conversions for the first variant of texts that has a message. -/
def textTargets (variants : List Variant) : List Target :=
  match variants.find? fun v => v.name = internalName && (declaredNames v).contains "message" with
  | none => []
  | some v => [⟨v, .borrowedText, ["message", "context"]⟩, ⟨v, .ownedText, ["message", "context"]⟩]

/-- The conversion is what is called for: it makes the variant from what it is to be made from, and
fills fields that the variant declares.  All of them are filled, each once, if there is one value
for each. -/
structure Target.Met (name : String) (t : Target) (c : Conversion) : Prop where
  guards : c.guards = guardsOf t.variant
  origin : c.origin = t.origin
  owner : c.made.owner = "Self" ∨ c.made.owner = name
  variant : c.made.variant = t.variant.name
  declared : c.made.filled ⊆ declaredNames t.variant
  complete : (declaredNames t.variant).Nodup → t.offered.Nodup →
    declaredNames t.variant ⊆ t.offered → c.made.filled.Perm (declaredNames t.variant)

theorem perm_of_offered {filled declared offered : List String} (hfilled : filled.Sublist offered)
    (hdeclared : filled ⊆ declared) (hoffered : ∀ name ∈ offered, name ∈ declared → name ∈ filled)
    (hnodup : declared.Nodup) (honce : offered.Nodup) (hall : declared ⊆ offered) :
    filled.Perm declared := by
  rw [List.perm_ext_iff_of_nodup (honce.sublist hfilled) hnodup]
  exact fun name => ⟨fun h => hdeclared h, fun h => hoffered name (hall h) h⟩

theorem sourceTargets_met (name : String) {v : Variant} (h : Sound v) :
    List.Forall₂ (Target.Met name) (sourceTargets v)
      ((Expansion.sourceOf (factsFor v)).toList.flatMap (·.conversions name)) := by
  cases hf : sourceField? v with
  | none => simp [sourceTargets, Expansion.sourceOf, factsFor, hf]
  | some f =>
      by_cases hname : v.name = internalName
      · simp [sourceTargets, Expansion.sourceOf, factsFor, hf, hname]
      have hfield : f.name ∈ declaredNames v := List.mem_map_of_mem (List.mem_of_find?_eq_some hf)
      have hdeclared : [f.name, "context"] ⊆ declaredNames v :=
        List.cons_subset.2 ⟨hfield, List.cons_subset.2 ⟨h.withSource f hf, List.nil_subset _⟩⟩
      have hcomplete : (declaredNames v).Nodup → [f.name, "context"].Nodup →
          declaredNames v ⊆ [f.name, "context"] → [f.name, "context"].Perm (declaredNames v) :=
        perm_of_offered (List.Sublist.refl _) hdeclared fun _ hmem _ => hmem
      have htargets : sourceTargets v =
          [⟨v, .error f.type, [f.name, "context"]⟩, ⟨v, .result f.type, [f.name, "context"]⟩] := by
        simp only [sourceTargets, hf, if_neg hname]
      have hplan : Expansion.sourceOf (factsFor v) =
          some ⟨guardsOf v, v.name, f.name, f.type⟩ := by
        simp only [Expansion.sourceOf, factsFor, hf, if_neg hname, Option.map_some]
      rw [htargets, hplan]
      exact .cons ⟨rfl, rfl, .inl rfl, rfl, hdeclared, hcomplete⟩
        (.cons ⟨rfl, rfl, .inr rfl, rfl, hdeclared, hcomplete⟩ .nil)

def filledByText (v : Variant) : List String :=
  TextConversion.filled ⟨guardsOf v, (declaredNames v).contains "context"⟩

theorem mem_filledByText {v : Variant} {field : String} :
    field ∈ filledByText v ↔
      field = "message" ∨ field = "context" ∧ "context" ∈ declaredNames v := by
  rw [filledByText, TextConversion.filled, List.mem_cons]
  by_cases hcontext : "context" ∈ declaredNames v <;> simp [hcontext]

theorem filledByText_sublist (v : Variant) : (filledByText v).Sublist ["message", "context"] := by
  rw [filledByText, TextConversion.filled]
  split
  · exact List.Sublist.refl _
  · simp

theorem filledByText_subset {v : Variant} (h : "message" ∈ declaredNames v) :
    filledByText v ⊆ declaredNames v := by
  intro field hfield
  rcases mem_filledByText.1 hfield with rfl | ⟨rfl, hcontext⟩
  · exact h
  · exact hcontext

theorem textTargets_met (name : String) (variants : List Variant) :
    List.Forall₂ (Target.Met name) (textTargets variants)
      (match Expansion.textsOf (variants.map factsFor) with
        | some c => c.conversions
        | none => []) := by
  rw [textTargets, Expansion.textsOf, List.find?_map]
  have hfind : ((fun v => v.name = internalName && v.hasMessage) ∘ factsFor : Variant → Bool) =
      fun v => v.name = internalName && (declaredNames v).contains "message" := rfl
  rw [hfind]
  cases hv : variants.find? fun v =>
      v.name = internalName && (declaredNames v).contains "message" with
  | none => exact .nil
  | some v =>
      have hkeeps := List.find?_some hv
      rw [Bool.and_eq_true, decide_eq_true_iff, List.contains_iff_mem] at hkeeps
      obtain ⟨hname, hmessage⟩ := hkeeps
      rw [Option.map_some, Option.map_some]
      have hmet (form : String) (o : Origin) :
          (⟨v, o, ["message", "context"]⟩ : Target).Met name ⟨guardsOf v, o, "s",
            TextConversion.construction
              ⟨guardsOf v, (declaredNames v).contains "context"⟩ form⟩ := by
        refine ⟨rfl, rfl, .inl rfl, hname.symm, ?_, ?_⟩ <;> rw [TextConversion.filled_construction]
        · exact filledByText_subset hmessage
        · refine perm_of_offered (filledByText_sublist v) (filledByText_subset hmessage) ?_
          intro field hoffered hdeclared
          refine mem_filledByText.2 ?_
          rcases List.mem_pair.1 hoffered with rfl | rfl
          · exact .inl rfl
          · exact .inr ⟨rfl, hdeclared⟩
      exact .cons (hmet _ _) (.cons (hmet _ _) .nil)

/-- The generated code of an accepted enumeration makes variants in its conversions alone, and these
are the ones that are called for: one from the error behind each variant that is not the one of
texts, one from a result with such an error, and one from each kind of text. -/
theorem conversions_meet {item : Item} {x : Expansion} (h : Expansion.ofItem item = .ok x) :
    expand item = x.leadWords ++ x.conversions.flatMap (·.words item.name) ++ formatContextWords ∧
      List.Forall₂ (Target.Met item.name)
        ((variantsOf item).flatMap sourceTargets ++ textTargets (variantsOf item))
        x.conversions := by
  obtain ⟨facts, hfacts, hx⟩ := bind_eq_ok.1 h
  obtain ⟨-, hsound, rfl⟩ := factsOf_eq_ok_iff.1 hfacts
  obtain rfl := Except.ok.inj hx
  refine ⟨?_, ?_⟩
  · rw [expand, h]
    exact Expansion.words_eq_conversions _
  · refine List.rel_append ?_ (textTargets_met item.name (variantsOf item))
    show List.Forall₂ _ _ (List.flatMap _ (List.filterMap _ _))
    rw [List.filterMap_map, List.filterMap_eq_flatMap_toList, List.flatMap_assoc]
    have hsame : List.Forall₂ (fun v w => v = w ∧ Sound v) (variantsOf item) (variantsOf item) :=
      List.forall₂_same.2 fun v hv => ⟨rfl, hsound v hv⟩
    refine List.rel_flatMap hsame ?_
    rintro v _ ⟨rfl, hv⟩
    exact sourceTargets_met item.name hv

/-! ## Three enumerations -/

def singleVariant (name : String) (fields : List Field) : Item where
  attributes := []
  visibility := []
  name := "E"
  generics := []
  conditions := []
  kind := .enumeration [⟨[], name, .named fields false, []⟩] false

def simpleField (name type : String) : Field := ⟨[], [], name, .path [.name type] type none⟩

def contextField (attributes : List Attribute) : Field where
  attributes := attributes
  visibility := []
  name := "context"
  type := .path [.name "Option", .mark '<' false, .name "Cow", .mark '<' false, .lifetime "static",
      .mark ',' false, .name "str", .mark '>' true, .mark '>' false] "Option"
    (some [.type (.path [.name "Cow", .mark '<' false, .lifetime "static", .mark ',' false,
      .name "str", .mark '>' true] "Cow" (some [.lifetime "static",
        .type (.path [.name "str"] "str" none)]))])

def sourceAttribute : Attribute :=
  ⟨[.mark '#' false, .group .bracket [.name "source"]], false, ["source"], .plain⟩

/-- A variant with nothing but a source and its context is made of both. -/
theorem conversions_meet_bare :
    ∃ x, Expansion.ofItem (singleVariant "Io" [simpleField "source" "X", contextField []]) = .ok x ∧
      x.conversions.length = 2 ∧
      ∀ c ∈ x.conversions, c.made.filled.Perm ["source", "context"] := by
  have hmeet := (@conversions_meet
    (singleVariant "Io" [simpleField "source" "X", contextField []]) _ rfl).2
  obtain ⟨first, _, hfirst, hrest, hconversions⟩ := List.forall₂_cons_left_iff.1 hmeet
  obtain ⟨second, _, hsecond, hnil, rfl⟩ := List.forall₂_cons_left_iff.1 hrest
  obtain rfl := List.forall₂_nil_left_iff.1 hnil
  refine ⟨_, rfl, hmeet.length_eq.symm, ?_⟩
  rw [hconversions]
  intro c hc
  rcases List.mem_pair.1 hc with rfl | rfl
  · exact hfirst.complete (by decide) (by decide) (List.Subset.refl _)
  · exact hsecond.complete (by decide) (by decide) (List.Subset.refl _)

/-- A source in the variant of texts is not converted; where a variant declares more than its source
and its context, or marks its context as its source, what is made is not what is declared. -/
theorem conversions_lacking :
    (∃ x, Expansion.ofItem (singleVariant internalName
        [simpleField "source" "X", contextField []]) = .ok x ∧ x.conversions = []) ∧
    (∃ x, Expansion.ofItem (singleVariant "A"
        [simpleField "source" "X", contextField [], simpleField "extra" "Y"]) = .ok x ∧
      x.conversions.length = 2 ∧ ∀ c ∈ x.conversions, "extra" ∉ c.made.filled) ∧
    ∃ x, Expansion.ofItem (singleVariant "A" [contextField [sourceAttribute]]) = .ok x ∧
      x.conversions.length = 2 ∧ ∀ c ∈ x.conversions, c.made.filled = ["context", "context"] :=
  ⟨⟨_, rfl, rfl⟩, ⟨_, rfl, rfl, by decide⟩, ⟨_, rfl, rfl, by decide⟩⟩

end Depot.ErrorEnum
