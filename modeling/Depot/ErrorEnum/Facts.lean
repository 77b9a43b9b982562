import Depot.Code.Item
/-!
# Variants of error enumerations

An error enumeration is an enumeration whose variants have named fields.  Two names of fields mean
something: `context`, the text that tells what was being done, and `source`, the error behind the
error, which an attribute can also mark.  `VariantFacts.ofVariant` finds them and refuses what
breaks the rules.
-/

namespace Depot.ErrorEnum

open Code

inductive Rejection
  | noEnumeration
  | unnamedFields
  | badContext
  | sourceWithoutContext
deriving DecidableEq, Repr

def Rejection.message : Rejection → String
  | noEnumeration => "stow_error can only be applied to enums"
  | unnamedFields => "stow_error requires named fields for source/context handling"
  | badContext => "context field must be Option<Cow<'static, str>>"
  | sourceWithoutContext =>
    "stow_error requires `context: Option<Cow<'static, str>>` for variants with a source"

/-- The arguments of a type whose last name is the given one. -/
def argumentsOf (name : String) : TypeExpr → Option (List GenericArgument)
  | .path _ last arguments => if last = name then arguments else none
  | .other _ => none

/-- Whether the last name of a type is the given one. -/
def endsIn (name : String) : TypeExpr → Bool
  | .path _ last _ => last = name
  | .other _ => false

/-- Whether a type is a text that may be borrowed for ever. -/
def isStaticText (t : TypeExpr) : Bool :=
  match argumentsOf "Cow" t with
  | some [.lifetime l, .type u] => l = "static" && endsIn "str" u
  | _ => false

def isContextType (t : TypeExpr) : Bool :=
  match argumentsOf "Option" t with
  | some (.type u :: _) => isStaticText u
  | _ => false

def isSource (f : Field) : Bool :=
  f.name = "source" || f.attributes.any fun a => a.isNamed "source" || a.isNamed "from"

/-- What is generated for a variant depends on this. -/
structure VariantFacts where
  name : String
  /-- The field with the error behind the error, and its type. -/
  source : Option (String × TypeExpr)
  hasContext : Bool
  hasMessage : Bool
  /-- The conditions under which the variant is there. -/
  guards : List Attribute

def guardsOf (v : Variant) : List Attribute := v.attributes.filter (·.isNamed "cfg")

namespace VariantFacts

def ofFields (v : Variant) (fields : List Field) : Except Rejection VariantFacts :=
  let context := fields.find? fun f => f.name = "context"
  let source := fields.find? isSource
  if context.any fun f => !isContextType f.type then .error .badContext
  else if source.isSome && context.isNone then .error .sourceWithoutContext
  else .ok {
    name := v.name
    source := source.map fun f => (f.name, f.type)
    hasContext := context.isSome
    hasMessage := fields.any fun f => f.name = "message"
    guards := guardsOf v }

def ofVariant (v : Variant) : Except Rejection VariantFacts :=
  match v.fields with
  | .named fields _ => ofFields v fields
  | _ => .error .unnamedFields

end VariantFacts

/-- The facts about the variants of an item; the first that breaks a rule decides. -/
def factsOf (item : Item) : Except Rejection (List VariantFacts) :=
  match item.kind with
  | .enumeration variants _ => variants.mapM VariantFacts.ofVariant
  | _ => .error .noEnumeration

end Depot.ErrorEnum
