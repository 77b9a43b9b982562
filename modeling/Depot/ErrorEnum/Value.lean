import Depot.ErrorEnum.Expansion
import Depot.Store.Error
/-!
# What the generated code does

An `ErrorValue` is a value of an error enumeration: a variant and its fields.  This module says what
the parts of an `Expansion` do to such values: the arms set a context, the conversions make a value
from an error or a text, and a chain of contexts is added one after the other.

Main facts: `context_withContext` and `withContexts_append`.
-/

namespace Depot.ErrorEnum

inductive Content
  | text (s : String)
  | number (i : Int)
  /-- An error behind the error, by its text. -/
  | source (display : String)
  | context (c : Option String)
deriving DecidableEq, Repr

structure ErrorValue where
  variant : String
  fields : List (String × Content)
deriving DecidableEq, Repr

namespace ErrorValue

def field? (v : ErrorValue) (name : String) : Option Content := v.fields.lookup name

def setField (v : ErrorValue) (name : String) (content : Content) : ErrorValue :=
  { v with fields := v.fields.map fun f => if f.1 = name then (name, content) else f }

def context (v : ErrorValue) : Option String :=
  match v.field? "context" with
  | some (.context c) => c
  | _ => none

def source? (v : ErrorValue) : Option String :=
  v.fields.findSome? fun f =>
    match f.2 with
    | .source display => some display
    | _ => none

end ErrorValue

/-- A part of the message of a variant. -/
inductive MessagePart
  | text (s : String)
  | context
  | field (name : String)
deriving DecidableEq, Repr

def Content.display : Content → String
  | .text s => s
  | .number i => toString i
  | .source display => display
  | .context c => formatContext c

def MessagePart.display (v : ErrorValue) : MessagePart → String
  | .text s => s
  | .context => formatContext v.context
  | .field name => ((v.field? name).map Content.display).getD ""

def ErrorValue.message (form : List MessagePart) (v : ErrorValue) : String :=
  String.join (form.map (·.display v))

namespace Expansion

/-- A value with a context put in by the arm of its variant; without an arm it stays as it is. -/
def withContext (x : Expansion) (v : ErrorValue) (context : String) : ErrorValue :=
  match x.arms.find? fun arm => arm.variant = v.variant with
  | some _ => v.setField "context" (.context (some context))
  | none => v

def withContexts (x : Expansion) (v : ErrorValue) (contexts : List String) : ErrorValue :=
  contexts.foldl x.withContext v

/-- The value that an error of some type is converted to. -/
def ofSource (c : SourceConversion) (display : String) : ErrorValue :=
  ⟨c.variant, [(c.field, .source display), ("context", .context none)]⟩

/-- The value that a context makes of an error of some type. -/
def ofSourceWith (c : SourceConversion) (display context : String) : ErrorValue :=
  ⟨c.variant, [(c.field, .source display), ("context", .context (some context))]⟩

def ofText (c : TextConversion) (text : String) : ErrorValue :=
  ⟨internalName, ("message", .text text) ::
    if c.hasContext then [("context", .context none)] else []⟩

theorem withContexts_append (x : Expansion) (v : ErrorValue) (cs ds : List String) :
    x.withContexts v (cs ++ ds) = x.withContexts (x.withContexts v cs) ds :=
  List.foldl_append

end Expansion

namespace ErrorValue

@[simp] theorem variant_setField (v : ErrorValue) (name : String) (content : Content) :
    (v.setField name content).variant = v.variant := rfl

private theorem lookup_replace (fields : List (String × Content)) (name : String)
    (content : Content) (h : (fields.lookup name).isSome) :
    (fields.map fun f => if f.1 = name then (name, content) else f).lookup name =
      some content := by
  induction fields with
  | nil => simp at h
  | cons f fields ih =>
    obtain ⟨k, c⟩ := f
    by_cases hk : k = name
    · subst hk
      simp
    · have hne : (name == k) = false := by simpa using Ne.symm hk
      simp only [List.lookup_cons, hne] at h
      simp [hk, List.lookup_cons, hne, ih h]

theorem field?_setField (v : ErrorValue) (name : String) (content : Content)
    (h : (v.field? name).isSome) : (v.setField name content).field? name = some content :=
  lookup_replace v.fields name content h

end ErrorValue

theorem Expansion.context_withContext (x : Expansion) (v : ErrorValue) (c : String)
    (harm : (x.arms.find? fun arm => arm.variant = v.variant).isSome)
    (hfield : (v.field? "context").isSome) : (x.withContext v c).context = some c := by
  unfold withContext
  cases h : x.arms.find? fun arm => arm.variant = v.variant with
  | none => simp [h] at harm
  | some arm => simp [ErrorValue.context, ErrorValue.field?_setField v _ _ hfield]

end Depot.ErrorEnum
