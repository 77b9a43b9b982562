import Depot.Proofs.ErrorEnum.Conversions
/-!
# Which enumerations are accepted

An item is refused if it is no enumeration or if one of its variants breaks a rule; the first such
variant decides what is reported, and nothing else is generated.  An accepted enumeration is
generated as it is, behind the derivations that it does not ask for itself.

* `IsContextType`, `HoldsSource` — the type of a context and the fields that hold a source, as they
  are written;
* `Breaks`, `Refused` — the rules, and the first variant that breaks one;
* `factsOf_eq_error_iff` — an item is refused for what is wrong with it;
* `NamesLast`, `Derives` — the derivations that an attribute names;
* `expand_accepts` — what is generated for an item, whichever it is.
-/

namespace Depot.ErrorEnum

open Code

/-! ## Types and fields as they are written -/

/-- The type reads `Option<Cow<'static, str>>`.  Each level is a path of which the last name counts;
what follows the first argument of the outer one does not. -/
def IsContextType (t : TypeExpr) : Prop :=
  ∃ outer cow text textArguments more,
    t = .path outer "Option" (some (.type (.path cow "Cow"
      (some [.lifetime "static", .type (.path text "str" textArguments)])) :: more))

/-- The field holds the error behind the error: by its name, or because it is marked. -/
def HoldsSource (f : Field) : Prop :=
  f.name = "source" ∨
    ∃ a ∈ f.attributes, a.rooted = false ∧ (a.path = ["source"] ∨ a.path = ["from"])

theorem argumentsOf_eq_some_iff {name : String} {t : TypeExpr}
    {arguments : List GenericArgument} :
    argumentsOf name t = some arguments ↔ ∃ tokens, t = .path tokens name (some arguments) := by
  cases t with
  | other tokens => simp [argumentsOf]
  | path tokens last given =>
      by_cases hlast : last = name
      · simp [argumentsOf, hlast]
      · simp [argumentsOf, hlast]

theorem endsIn_iff {name : String} {t : TypeExpr} :
    endsIn name t = true ↔ ∃ tokens arguments, t = .path tokens name arguments := by
  cases t with
  | other tokens => simp [endsIn]
  | path tokens last arguments => simp [endsIn]

theorem isStaticText_iff {t : TypeExpr} :
    isStaticText t = true ↔ ∃ cow text textArguments,
      t = .path cow "Cow"
        (some [.lifetime "static", .type (.path text "str" textArguments)]) := by
  constructor
  · intro h
    rw [isStaticText] at h
    split at h
    · rename_i l u harguments
      obtain ⟨cow, rfl⟩ := argumentsOf_eq_some_iff.1 harguments
      rw [Bool.and_eq_true, decide_eq_true_iff] at h
      obtain ⟨rfl, hend⟩ := h
      obtain ⟨text, textArguments, rfl⟩ := endsIn_iff.1 hend
      exact ⟨cow, text, textArguments, rfl⟩
    · cases h
  · rintro ⟨cow, text, textArguments, rfl⟩
    rw [isStaticText, argumentsOf_eq_some_iff.2 ⟨cow, rfl⟩]
    rfl

theorem isContextType_iff {t : TypeExpr} : isContextType t = true ↔ IsContextType t := by
  constructor
  · intro h
    rw [isContextType] at h
    split at h
    · rename_i u more harguments
      obtain ⟨outer, rfl⟩ := argumentsOf_eq_some_iff.1 harguments
      obtain ⟨cow, text, textArguments, rfl⟩ := isStaticText_iff.1 h
      exact ⟨outer, cow, text, textArguments, more, rfl⟩
    · cases h
  · rintro ⟨outer, cow, text, textArguments, more, rfl⟩
    rw [isContextType, argumentsOf_eq_some_iff.2 ⟨outer, rfl⟩]
    exact isStaticText_iff.2 ⟨cow, text, textArguments, rfl⟩

theorem isNamed_iff {a : Attribute} {name : String} :
    a.isNamed name = true ↔ a.rooted = false ∧ a.path = [name] := by
  rw [Attribute.isNamed, Bool.and_eq_true, Bool.not_eq_true', beq_iff_eq]

theorem isSource_iff {f : Field} : isSource f = true ↔ HoldsSource f := by
  rw [isSource, HoldsSource, Bool.or_eq_true, decide_eq_true_iff, List.any_eq_true]
  simp only [Bool.or_eq_true, isNamed_iff, and_or_left]

/-! ## The rules -/

inductive Breaks (v : Variant) : Rejection → Prop
  | unnamed (h : ∀ fields comma, v.fields ≠ .named fields comma) : Breaks v .unnamedFields
  | context {f : Field} (hf : contextField? v = some f) (h : ¬ IsContextType f.type) :
      Breaks v .badContext
  | source {f : Field} (hf : f ∈ fieldsOf v) (hsource : HoldsSource f)
      (h : "context" ∉ declaredNames v) : Breaks v .sourceWithoutContext

/-- The item is no enumeration, or its first variant that breaks a rule breaks this one. -/
inductive Refused (item : Item) : Rejection → Prop
  | noEnumeration (h : ∀ variants comma, item.kind ≠ .enumeration variants comma) :
      Refused item .noEnumeration
  | variant {before after : List Variant} {v : Variant} {r : Rejection}
      (hitem : variantsOf item = before ++ v :: after)
      (hbefore : ∀ u ∈ before, ∀ r', ¬ Breaks u r') (h : Breaks v r) : Refused item r

theorem breaks_unnamed_iff {v : Variant} (h : ∀ fields comma, v.fields ≠ .named fields comma)
    {r : Rejection} : Breaks v r ↔ r = .unnamedFields := by
  have hnone : fieldsOf v = [] := by
    rw [fieldsOf]
    split
    · exact absurd ‹_› (h _ _)
    · rfl
  constructor
  · intro hbreaks
    cases hbreaks with
    | unnamed _ => rfl
    | context hf _ => simp [contextField?, hnone] at hf
    | source hf _ _ => simp [hnone] at hf
  · rintro rfl
    exact .unnamed h

theorem refused_noEnumeration_iff {item : Item}
    (h : ∀ variants comma, item.kind ≠ .enumeration variants comma) {r : Rejection} :
    Refused item r ↔ r = .noEnumeration := by
  have hnone : variantsOf item = [] := by
    rw [variantsOf]
    split
    · exact absurd ‹_› (h _ _)
    · rfl
  constructor
  · intro hrefused
    cases hrefused with
    | noEnumeration _ => rfl
    | variant hitem _ _ => simp [hnone] at hitem
  · rintro rfl
    exact .noEnumeration h

theorem ofVariant_eq_error_iff {v : Variant} {r : Rejection} :
    VariantFacts.ofVariant v = .error r ↔ Breaks v r := by
  rw [VariantFacts.ofVariant]
  split
  · rename_i fields comma hfields
    have hall : fieldsOf v = fields := by rw [fieldsOf, hfields]
    have hcontext : (fields.find? fun f => f.name = "context") = contextField? v := by
      rw [contextField?, hall]
    have hmissing : (contextField? v).isNone = true ↔ "context" ∉ declaredNames v := by
      rw [← Option.not_isSome, contextField?_isSome, Bool.not_eq_true', ← Bool.not_eq_true,
        List.contains_iff_mem]
    have hsource : (fields.find? isSource).isSome = true ↔ ∃ f ∈ fieldsOf v, HoldsSource f := by
      rw [List.find?_isSome, hall]
      simp only [isSource_iff]
    have hbad : ((contextField? v).any fun f => !isContextType f.type) = true ↔
        ∃ f, contextField? v = some f ∧ ¬ IsContextType f.type := by
      simp only [Option.any_eq_true, Bool.not_eq_true', ← Bool.not_eq_true, isContextType_iff]
    simp only [VariantFacts.ofFields, hcontext]
    constructor
    · intro h
      split at h
      · rename_i hcond
        obtain ⟨f, hf, hwrong⟩ := hbad.1 hcond
        cases h
        exact .context hf hwrong
      · split at h
        · rename_i hcond
          rw [Bool.and_eq_true, hsource, hmissing] at hcond
          obtain ⟨⟨f, hf, hholds⟩, hnone⟩ := hcond
          cases h
          exact .source hf hholds hnone
        · cases h
    · intro hbreaks
      cases hbreaks with
      | unnamed h => exact absurd hfields (h fields comma)
      | context hf h => rw [if_pos (hbad.2 ⟨_, hf, h⟩)]
      | source hf hholds h =>
          have hnone : contextField? v = none := Option.isNone_iff_eq_none.1 (hmissing.2 h)
          rw [if_neg (by simp [hnone]), if_pos]
          rw [Bool.and_eq_true]
          exact ⟨hsource.2 ⟨_, hf, hholds⟩, hmissing.2 h⟩
  · rename_i hfields
    rw [breaks_unnamed_iff fun fields comma h => hfields fields comma h, Except.error.injEq,
      eq_comm]

theorem mapM_eq_error_iff {ε α β : Type} {f : α → Except ε β} {as : List α} {e : ε} :
    as.mapM f = .error e ↔ ∃ before a after, as = before ++ a :: after ∧
      (∀ b ∈ before, ∀ e', f b ≠ .error e') ∧ f a = .error e := by
  induction as with
  | nil => simp [pure, Except.pure]
  | cons a as ih =>
      rw [List.mapM_cons]
      cases ha : f a with
      | error e' =>
          rw [error_bind, Except.error.injEq]
          constructor
          · rintro rfl
            exact ⟨[], a, as, rfl, by simp, ha⟩
          · rintro ⟨before, b, after, heq, hbefore, hb⟩
            rcases List.cons_eq_append_iff.1 heq with ⟨rfl, hcons⟩ | ⟨rest, rfl, -⟩
            · obtain ⟨rfl, -⟩ := List.cons.inj hcons
              exact Except.error.inj (ha.symm.trans hb)
            · exact absurd ha (hbefore a List.mem_cons_self e')
      | ok c =>
          have hrest : ((Except.ok c : Except ε β) >>= fun c => as.mapM f >>= fun cs =>
              pure (c :: cs)) = .error e ↔ as.mapM f = .error e := by
            rw [ok_bind]
            cases as.mapM f with
            | error e' => exact Iff.rfl
            | ok cs => simp [ok_bind, pure, Except.pure]
          rw [hrest, ih]
          constructor
          · rintro ⟨before, b, after, rfl, hbefore, hb⟩
            refine ⟨a :: before, b, after, rfl, fun b' hb' e' => ?_, hb⟩
            rcases List.mem_cons.1 hb' with rfl | hb'
            · simp [ha]
            · exact hbefore b' hb' e'
          · rintro ⟨before, b, after, heq, hbefore, hb⟩
            rcases List.cons_eq_append_iff.1 heq with ⟨rfl, hcons⟩ | ⟨rest, rfl, hrest⟩
            · obtain ⟨rfl, -⟩ := List.cons.inj hcons
              simp [ha] at hb
            · exact ⟨rest, b, after, hrest,
                fun b' hb' => hbefore b' (List.mem_cons_of_mem a hb'), hb⟩

theorem factsOf_eq_error_iff {item : Item} {r : Rejection} :
    factsOf item = .error r ↔ Refused item r := by
  rw [factsOf]
  split
  · rename_i variants comma hkind
    have hvariants : variantsOf item = variants := by rw [variantsOf, hkind]
    rw [mapM_eq_error_iff]
    simp only [ofVariant_eq_error_iff, ne_eq]
    constructor
    · rintro ⟨before, v, after, hsplit, hbefore, h⟩
      exact .variant (hvariants.trans hsplit) hbefore h
    · intro h
      cases h with
      | noEnumeration h => exact absurd hkind (h variants comma)
      | variant hitem hbefore h => exact ⟨_, _, _, hvariants ▸ hitem, hbefore, h⟩
  · rename_i hkind
    rw [refused_noEnumeration_iff hkind, Except.error.injEq, eq_comm]

/-! ## The derivations that an attribute names -/

/-- Names between double colons, and the last one of them. -/
inductive IsPath (last : String) : List Token → Prop
  | name : IsPath last [.name last]
  | qualified {w : String} {joint : Bool} {ts : List Token} (h : IsPath last ts) :
      IsPath last (.name w :: .mark ':' true :: .mark ':' joint :: ts)

/-- A path that may begin with a double colon. -/
inductive IsRootedPath (last : String) : List Token → Prop
  | plain {ts : List Token} (h : IsPath last ts) : IsRootedPath last ts
  | rooted {joint : Bool} {ts : List Token} (h : IsPath last ts) :
      IsRootedPath last (.mark ':' true :: .mark ':' joint :: ts)

/-- The tokens begin with paths that commas part, and one of these paths ends in the name.  What
follows the path does not matter as long as it does not go on with it. -/
inductive NamesLast (last : String) : List Token → Prop
  | here {path rest : List Token} (h : IsRootedPath last path) (hrest : atSeparator rest = false) :
      NamesLast last (path ++ rest)
  | later {w : String} {path rest : List Token} {joint : Bool} (hpath : IsRootedPath w path)
      (h : NamesLast last rest) : NamesLast last (path ++ .mark ',' joint :: rest)

/-- The attribute asks for the derivation of that name. -/
def Derives (a : Attribute) (name : String) : Prop :=
  a.rooted = false ∧ a.path = ["derive"] ∧ ∃ content, a.form = .list content ∧
    NamesLast name content

theorem atSeparator_iff {ts : List Token} : atSeparator ts = true ↔
    ∃ joint rest, ts = .mark ':' true :: .mark ':' joint :: rest := by
  unfold atSeparator atMarks
  split
  · rename_i c joint d joint' rest
    simp only [Bool.and_eq_true, decide_eq_true_iff]
    constructor
    · rintro ⟨⟨rfl, rfl⟩, rfl⟩
      exact ⟨joint', rest, rfl⟩
    · rintro ⟨_, _, h⟩
      cases h
      exact ⟨⟨rfl, rfl⟩, rfl⟩
  · rename_i hother
    refine iff_of_false (by simp) ?_
    rintro ⟨joint, rest, rfl⟩
    exact hother ':' true ':' joint rest rfl

theorem atSeparator_comma (joint : Bool) (ts : List Token) :
    atSeparator (.mark ',' joint :: ts) = false := by
  rw [← Bool.not_eq_true, atSeparator_iff]
  rintro ⟨_, _, h⟩
  simp at h

/-- The tokens begin with a path, which does not go on behind it. -/
def PathFirst (last : String) (ts rest : List Token) : Prop :=
  ∃ path, IsPath last path ∧ ts = path ++ rest ∧ atSeparator rest = false

theorem pathFirst_qualified_iff {w last : String} {joint : Bool} {ts rest : List Token} :
    PathFirst last (.name w :: .mark ':' true :: .mark ':' joint :: ts) rest ↔
      PathFirst last ts rest := by
  constructor
  · rintro ⟨path, hpath, heq, hrest⟩
    cases hpath with
    | name =>
        obtain ⟨-, rfl⟩ := List.cons.inj heq
        rw [atSeparator_iff.2 ⟨_, _, rfl⟩] at hrest
        cases hrest
    | qualified h =>
        simp only [List.cons_append, List.cons.injEq] at heq
        exact ⟨_, h, heq.2.2.2, hrest⟩
  · rintro ⟨path, hpath, rfl, hrest⟩
    exact ⟨_, hpath.qualified, rfl, hrest⟩

theorem pathFirst_name_iff {w last : String} {ts rest : List Token} (h : atSeparator ts = false) :
    PathFirst last (.name w :: ts) rest ↔ w = last ∧ ts = rest := by
  constructor
  · rintro ⟨path, hpath, heq, hrest⟩
    cases hpath with
    | name =>
        simp only [List.cons_append, List.nil_append, List.cons.injEq, Token.name.injEq] at heq
        exact heq
    | qualified hpath =>
        obtain ⟨-, hts⟩ := List.cons.inj heq
        rw [atSeparator_iff.2 ⟨_, _, hts⟩] at h
        cases h
  · rintro ⟨rfl, rfl⟩
    exact ⟨_, .name, rfl, h⟩

theorem PathFirst.begins {last : String} {ts rest : List Token} (h : PathFirst last ts rest) :
    ∃ w more, ts = .name w :: more := by
  obtain ⟨path, hpath, rfl, -⟩ := h
  cases hpath with
  | name => exact ⟨_, _, rfl⟩
  | qualified _ => exact ⟨_, _, rfl⟩

theorem metaPathRest_eq_some_iff {fuel : Nat} {w last : String} {ts rest : List Token}
    (hfuel : ts.length < fuel) :
    metaPathRest fuel w ts = some (last, rest) ↔ PathFirst last (.name w :: ts) rest := by
  induction fuel generalizing w ts with
  | zero => omega
  | succ fuel ih =>
      rw [metaPathRest]
      by_cases hsep : atSeparator ts = true
      · obtain ⟨joint, us, rfl⟩ := atSeparator_iff.1 hsep
        rw [if_pos hsep, pathFirst_qualified_iff]
        simp only [List.drop_succ_cons, List.drop_zero]
        split
        · simp only [List.length_cons] at hfuel
          exact ih (by omega)
        · rename_i hother
          refine iff_of_false (by simp) fun h => ?_
          obtain ⟨v, more, rfl⟩ := h.begins
          exact hother v more rfl
      · rw [if_neg hsep, pathFirst_name_iff (Bool.not_eq_true _ ▸ hsep)]
        simp only [Option.some.injEq, Prod.mk.injEq]

/-- The tokens begin with a path that may begin with a double colon. -/
def RootedFirst (last : String) (ts rest : List Token) : Prop :=
  ∃ path, IsRootedPath last path ∧ ts = path ++ rest ∧ atSeparator rest = false

theorem rootedFirst_iff {last : String} {ts rest : List Token} :
    RootedFirst last ts rest ↔ PathFirst last (takeSeparator ts).2 rest := by
  rw [takeSeparator]
  by_cases hsep : atSeparator ts = true
  · rw [if_pos hsep]
    obtain ⟨joint, us, rfl⟩ := atSeparator_iff.1 hsep
    constructor
    · rintro ⟨path, hpath, heq, hrest⟩
      cases hpath with
      | plain h =>
          obtain ⟨w, more, hbegins⟩ := PathFirst.begins ⟨path, h, heq, hrest⟩
          cases hbegins
      | rooted h =>
          simp only [List.cons_append, List.cons.injEq] at heq
          exact ⟨_, h, heq.2.2, hrest⟩
    · rintro ⟨path, hpath, heq, hrest⟩
      have hus : us = path ++ rest := heq
      exact ⟨_, .rooted hpath, by rw [hus]; rfl, hrest⟩
  · rw [if_neg hsep]
    constructor
    · rintro ⟨path, hpath, rfl, hrest⟩
      cases hpath with
      | plain h => exact ⟨path, h, rfl, hrest⟩
      | rooted h => exact absurd (atSeparator_iff.2 ⟨_, _, rfl⟩) hsep
    · rintro ⟨path, hpath, heq, hrest⟩
      exact ⟨path, .plain hpath, heq, hrest⟩

theorem namesLast_iff {name : String} {ts : List Token} : NamesLast name ts ↔
    ∃ last rest, RootedFirst last ts rest ∧ (name = last ∨
      ∃ joint more, rest = .mark ',' joint :: more ∧ NamesLast name more) := by
  constructor
  · intro h
    cases h with
    | here hpath hrest => exact ⟨_, _, ⟨_, hpath, rfl, hrest⟩, .inl rfl⟩
    | later hpath hlater =>
        exact ⟨_, _, ⟨_, hpath, rfl, atSeparator_comma _ _⟩, .inr ⟨_, _, rfl, hlater⟩⟩
  · rintro ⟨last, rest, ⟨path, hpath, rfl, hrest⟩, rfl | ⟨joint, more, rfl, hlater⟩⟩
    · exact .here hpath hrest
    · exact .later hpath hlater

theorem RootedFirst.length_lt {last : String} {ts rest : List Token}
    (h : RootedFirst last ts rest) : rest.length < ts.length := by
  obtain ⟨path, hpath, rfl, -⟩ := h
  have hpos : 0 < path.length := by
    cases hpath with
    | plain h => cases h <;> simp
    | rooted _ => simp
  rw [List.length_append]
  omega

theorem mem_metaNames_iff {fuel : Nat} {name : String} {ts : List Token}
    (hfuel : ts.length < fuel) : name ∈ metaNames fuel ts ↔ NamesLast name ts := by
  induction fuel generalizing ts with
  | zero => omega
  | succ fuel ih =>
      have hshorter : (takeSeparator ts).2.length ≤ ts.length := by
        rw [takeSeparator]
        split <;> simp
      have hrooted : ∀ last rest, RootedFirst last ts rest →
          PathFirst last (takeSeparator ts).2 rest := fun _ _ h => rootedFirst_iff.1 h
      rw [metaNames, namesLast_iff]
      split
      · rename_i w us hfirst
        rw [hfirst, List.length_cons] at hshorter
        have htaken : ∀ last rest, RootedFirst last ts rest ↔
            metaPathRest fuel w us = some (last, rest) := fun last rest => by
          rw [rootedFirst_iff, hfirst, metaPathRest_eq_some_iff (by omega)]
        simp only [htaken]
        split
        · rename_i hnone
          simp [hnone]
        · rename_i last rest hsome
          have hrest := (htaken last rest).2 hsome |>.length_lt
          simp only [hsome, Option.some.injEq, Prod.mk.injEq, and_assoc, exists_and_left,
            exists_eq_left']
          split
          · rename_i joint more
            rw [List.length_cons] at hrest
            rw [List.mem_cons, ih (by omega)]
            simp
          · rename_i hother
            rw [List.mem_singleton]
            refine ⟨.inl, fun h => h.resolve_right ?_⟩
            rintro ⟨joint, more, rfl, -⟩
            exact hother joint more rfl
      · rename_i hother
        refine iff_of_false (by simp) ?_
        rintro ⟨last, rest, hrootedFirst, -⟩
        obtain ⟨w, us, hbegins⟩ := (hrooted last rest hrootedFirst).begins
        exact hother w us hbegins

theorem mem_derivedBy_iff {a : Attribute} {name : String} :
    name ∈ derivedBy a ↔ Derives a name := by
  rw [derivedBy, Derives, ← and_assoc, ← isNamed_iff]
  split
  · rename_i hnamed
    split
    · rename_i content hform
      rw [mem_metaNames_iff (Nat.lt_succ_self _), hform]
      simp [hnamed]
    · rename_i hform
      refine iff_of_false (by simp) ?_
      rintro ⟨-, content, hlist, -⟩
      exact hform content hlist
  · rename_i hnamed
    exact iff_of_false (by simp) fun h => hnamed h.1

theorem mem_missingDerivations_iff {item : Item} {d : Derivation} :
    d ∈ Expansion.missingDerivations item ↔ ¬ ∃ a ∈ item.attributes, Derives a d.name := by
  have hall : d ∈ Derivation.all := by cases d <;> decide
  rw [Expansion.missingDerivations, List.mem_filter, Bool.not_eq_true', ← Bool.not_eq_true,
    List.contains_iff_mem, List.mem_flatMap]
  simp only [mem_derivedBy_iff, hall, true_and]

/-! ## What is generated -/

theorem Rejection.words_eq (r : Rejection) : r.words =
    ":" :: [":", "core", ":", ":", "compile_error", "!"] ++
      braced ["\"" ++ r.message ++ "\""] := rfl

theorem Rejection.words_injective {r r' : Rejection} (h : r.words = r'.words) : r = r' := by
  have hmessage : r.message = r'.message := by
    simpa [words_eq, braced] using h
  revert hmessage
  cases r <;> cases r' <;> decide

theorem Expansion.words_ne_rejection (x : Expansion) (r : Rejection) : x.words ≠ r.words := by
  rw [Rejection.words_eq, Expansion.words, marked]
  simp

theorem Expansion.words_eq_item (x : Expansion) : x.words =
    marked "allow ( non_shorthand_field_patterns )" ++ derivationWords x.derivations ++
      Token.wordsOf x.item.tokens ++
        (traitWords x ++ x.conversions.flatMap (·.words x.item.name) ++ formatContextWords) := by
  rw [words_eq_conversions, leadWords]
  simp only [List.append_assoc]

def debugAttribute : Attribute where
  tokens := [.mark '#' false, .group .bracket [.name "derive", .group .parenthesis [.name "Debug"]]]
  rooted := false
  path := ["derive"]
  form := .list [.name "Debug"]

/-- An enumeration `E` with one variant that has a context, which derives one of the two itself. -/
def debuggable : Item :=
  { singleVariant "A" [contextField []] with attributes := [debugAttribute] }

end Depot.ErrorEnum
