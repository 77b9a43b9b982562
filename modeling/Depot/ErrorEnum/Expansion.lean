import Depot.ErrorEnum.Facts
/-!
# What is generated for an error enumeration

An `Expansion` is the plan of the generated code: which arms set a context and whether a last arm
catches the other variants, which conversions from an error behind the error there are, and which
from a text.  Each part carries the conditions of its variant.
-/

namespace Depot.ErrorEnum

open Code

/-- An arm that puts a context into a variant. -/
structure ContextArm where
  guards : List Attribute
  variant : String

/-- The conversions from the error behind an error. -/
structure SourceConversion where
  guards : List Attribute
  variant : String
  /-- The field that takes the error behind the error. -/
  field : String
  type : TypeExpr

def SourceConversion.filled (c : SourceConversion) : List String := [c.field, "context"]

structure TextConversion where
  guards : List Attribute
  hasContext : Bool

def TextConversion.filled (c : TextConversion) : List String :=
  "message" :: if c.hasContext then ["context"] else []

def internalName : String := "Internal"

inductive Derivation
  | debug
  | error
deriving DecidableEq, Repr

namespace Derivation

def name : Derivation → String
  | debug => "Debug"
  | error => "Error"

def all : List Derivation := [debug, error]

end Derivation

structure Expansion where
  item : Item
  derivations : List Derivation
  arms : List ContextArm
  /-- Whether a last arm catches the variants without a context. -/
  catchAll : Bool
  sources : List SourceConversion
  texts : Option TextConversion

/-- The names behind the first one of a path, and what follows; a path that breaks off has no
names. -/
def metaPathRest : (fuel : Nat) → String → List Token → Option (String × List Token)
  | 0, _, _ => none
  | fuel + 1, last, ts =>
    if atSeparator ts then
      match ts.drop 2 with
      | .name w :: rest => metaPathRest fuel w rest
      | _ => none
    else some (last, ts)

/-- The last names of the paths that commas part, up to the first fault. -/
def metaNames : (fuel : Nat) → List Token → List String
  | 0, _ => []
  | fuel + 1, ts =>
    match (takeSeparator ts).2 with
    | .name w :: rest =>
      match metaPathRest fuel w rest with
      | none => []
      | some (last, rest) =>
        match rest with
        | .mark ',' _ :: rest => last :: metaNames fuel rest
        | _ => [last]
    | _ => []

/-- The last names of the derivations that an attribute asks for. -/
def derivedBy (a : Attribute) : List String :=
  if a.isNamed "derive" then
    match a.form with
    | .list content => metaNames (content.length + 1) content
    | _ => []
  else []

namespace Expansion

def missingDerivations (item : Item) : List Derivation :=
  let present := item.attributes.flatMap derivedBy
  Derivation.all.filter fun d => !present.contains d.name

def armOf (v : VariantFacts) : Option ContextArm :=
  if v.hasContext then some ⟨v.guards, v.name⟩ else none

/-- The conversions to a variant, if it has an error behind it. -/
def sourceOf (v : VariantFacts) : Option SourceConversion :=
  if v.name = internalName then none
  else v.source.map fun (field, type) => ⟨v.guards, v.name, field, type⟩

def textsOf (variants : List VariantFacts) : Option TextConversion :=
  (variants.find? fun v => v.name = internalName && v.hasMessage).map fun v =>
    ⟨v.guards, v.hasContext⟩

def ofFacts (item : Item) (variants : List VariantFacts) : Expansion where
  item := item
  derivations := missingDerivations item
  arms := variants.filterMap armOf
  catchAll := variants.any fun v => !v.hasContext
  sources := variants.filterMap sourceOf
  texts := textsOf variants

def ofItem (item : Item) : Except Rejection Expansion := do
  return ofFacts item (← factsOf item)

end Expansion

end Depot.ErrorEnum
