import Depot.Code.Grammar
import Depot.Code.Scan
/-!
# Items in source code

`Item.read` reads the declaration of one type: an enumeration with its variants, or a structure or
union, of which only the form is checked.  `Item.tokens` shows it again: the declared tokens,
without what stands for nothing (empty angle brackets, an empty `where`, a colon without bounds,
the visibility of a variant).
-/

namespace Depot.Code

inductive AttributeForm
  | plain
  | list (content : List Token)
  | value
deriving Inhabited

structure Attribute where
  tokens : List Token
  /-- Whether its path begins with a double colon. -/
  rooted : Bool
  path : List String
  form : AttributeForm
deriving Inhabited

def Attribute.isNamed (a : Attribute) (name : String) : Bool := !a.rooted && a.path == [name]

def takePathNames : (fuel : Nat) → List Token → Option (List String × List Token × List Token)
  | 0, _ => none
  | fuel + 1, ts =>
    match ts with
    | .name w :: rest =>
      if keywords.contains w ∧ ¬ ["super", "self", "Self", "crate"].contains w then none
      else if atSeparator rest then do
        let (names, tokens, after) ← takePathNames fuel (rest.drop 2)
        return (w :: names, .name w :: rest.take 2 ++ tokens, after)
      else some ([w], [.name w], rest)
    | _ => none

def takeAttributePath (ts : List Token) : Option (Bool × List String × List Token × List Token) :=
  match ts with
  | .name "unsafe" :: rest => some (false, ["unsafe"], [.name "unsafe"], rest)
  | _ => do
    let (separator, ts) := takeSeparator ts
    let (names, tokens, rest) ← takePathNames (ts.length + 1) ts
    return (!separator.isEmpty, names, separator ++ tokens, rest)

def nesting (ts : List Token) : Nat := 20 * (Token.wordsOf ts).length + 100

def readAttribute (content : List Token) : Option Attribute := do
  let (rooted, path, tokens, rest) ← takeAttributePath content
  match rest with
  | [] => return ⟨[.mark '#' false, .group .bracket tokens], rooted, path, .plain⟩
  | [.group d arguments] =>
    return ⟨[.mark '#' false, .group .bracket (tokens ++ [.group d arguments])], rooted, path,
      .list arguments⟩
  | .mark '=' j :: value =>
    let (shown, left) ← takeExpr (nesting value) value
    if left.isEmpty ∧ !atMark '#' value then
      return ⟨[.mark '#' false, .group .bracket (tokens ++ .mark '=' j :: shown)], rooted, path,
        .value⟩
    else none
  | _ => none

/-- Takes the attributes at the front of a list of tokens; `fuel` bounds their number. -/
def takeAttributeList : (fuel : Nat) → List Token → Option (List Attribute × List Token)
  | 0, _ => none
  | fuel + 1, ts =>
    match ts with
    | .mark '#' _ :: rest =>
      match rest with
      | .group .bracket content :: rest => do
        let a ← readAttribute content
        let (more, rest) ← takeAttributeList fuel rest
        return (a :: more, rest)
      | _ => none
    | _ => some ([], ts)

def takeAttributes (ts : List Token) : Option (List Attribute × List Token) :=
  takeAttributeList (ts.length + 1) ts

/-- Takes a visibility, if there is one; parentheses belong to it only if they hold a place. -/
def takeVisibility (ts : List Token) : Taken :=
  match ts with
  | .name "pub" :: .group .parenthesis content :: rest =>
    match content with
    | [.name w] =>
      if ["crate", "self", "super"].contains w then
        some ([.name "pub", .group .parenthesis content], rest)
      else some ([.name "pub"], ts.drop 1)
    | .name "in" :: path => do
      let (_, _, _, left) ← takeAttributePath path
      if left.isEmpty then return ([.name "pub", .group .parenthesis content], rest) else none
    | _ => some ([.name "pub"], ts.drop 1)
  | .name "pub" :: rest => some ([.name "pub"], rest)
  | _ => some ([], ts)

structure Field where
  attributes : List Attribute
  visibility : List Token
  name : String
  type : TypeExpr
deriving Inhabited

inductive Fields
  /-- Fields with names; the last one may have a comma behind it. -/
  | named (fields : List Field) (trailingComma : Bool)
  | unnamed
  | none
deriving Inhabited

structure Variant where
  attributes : List Attribute
  name : String
  fields : Fields
  /-- The equals sign and the number of the variant. -/
  discriminant : List Token
deriving Inhabited

inductive ItemKind
  | enumeration (variants : List Variant) (trailingComma : Bool)
  | product
  | union
deriving Inhabited

structure Item where
  attributes : List Attribute
  visibility : List Token
  name : String
  /-- The parameters with their angle brackets. -/
  generics : List Token
  /-- The `where` and its predicates. -/
  conditions : List Token
  kind : ItemKind
deriving Inhabited

/-- Reads a list of parts that commas part, and tells whether a comma ends it. -/
def readParts {α : Type} (part : List Token → Option (α × List Token)) :
    (fuel : Nat) → List Token → Option (List α × Bool)
  | 0, _ => none
  | fuel + 1, ts =>
    if ts.isEmpty then some ([], false)
    else do
      let (a, ts) ← part ts
      match ts with
      | [] => return ([a], false)
      | .mark ',' _ :: ts =>
        let (more, trailing) ← readParts part fuel ts
        return (a :: more, more.isEmpty || trailing)
      | _ => none

def takeField (ts : List Token) : Option (Field × List Token) := do
  let (attributes, ts) ← takeAttributes ts
  let (visibility, ts) ← takeVisibility ts
  match ts with
  | .name w :: ts =>
    if keywords.contains w ∧ w ≠ "_" then failure
    let (_, ts) ← takeMark ':' ts
    let (type, ts) ← takeType (nesting ts) true ts
    return (⟨attributes, visibility, w, type⟩, ts)
  | _ => failure

def takeUnnamedField (ts : List Token) : Option (Unit × List Token) := do
  let (_, ts) ← takeAttributes ts
  let (_, ts) ← takeVisibility ts
  let (_, ts) ← takeType (nesting ts) true ts
  return ((), ts)

def takeFields (ts : List Token) : Option (Fields × List Token) :=
  match ts with
  | .group .brace content :: ts => do
    let (fields, trailing) ← readParts takeField (content.length + 1) content
    return (.named fields trailing, ts)
  | .group .parenthesis content :: ts => do
    let _ ← readParts takeUnnamedField (content.length + 1) content
    return (.unnamed, ts)
  | _ => some (.none, ts)

def takeVariant (ts : List Token) : Option (Variant × List Token) := do
  let (attributes, ts) ← takeAttributes ts
  let (_, ts) ← takeVisibility ts
  let (name, ts) ← takeIdentifier ts
  let (fields, ts) ← takeFields ts
  if atMark '=' ts then
    let (value, rest) ← takeExpr (nesting ts) (ts.drop 1)
    return (⟨attributes, name, fields, ts.take 1 ++ value⟩, rest)
  else return (⟨attributes, name, fields, []⟩, ts)

structure Parameter where
  tokens : List Token
  isLifetime : Bool
  comma : List Token

def attributeTokens (attributes : List Attribute) : List Token :=
  attributes.flatMap (·.tokens)

def boundTokens (colon bounds : List Token) : List Token :=
  if bounds.isEmpty then [] else colon ++ bounds

def endsParameter (ts : List Token) : Bool := atMark ',' ts || atMark '>' ts || atMark '=' ts

def takeColonBounds (ends : List Token → Bool) (ts : List Token) : Taken :=
  if atMark ':' ts then do
    let (bounds, rest) ← takeOpenBounds (nesting ts) ends (ts.drop 1)
    return (boundTokens (ts.take 1) bounds, rest)
  else some ([], ts)

def takeParameter (ts : List Token) : Option (Parameter × List Token) := do
  let (attributes, ts) ← takeAttributes ts
  let front := attributeTokens attributes
  match ts with
  | .lifetime l :: ts =>
    let (bounds, rest) ← takeColonBounds (fun ts => endsParameter ts || !atLifetime ts) ts
    return (⟨front ++ .lifetime l :: bounds, true, []⟩, rest)
  | .name "const" :: ts =>
    let (name, ts) ← takeIdentifier ts
    let (colon, ts) ← takeMark ':' ts
    let (type, ts) ← takeType (nesting ts) true ts
    let shown := front ++ [.name "const", .name name] ++ colon ++ type.tokens
    if atMark '=' ts then
      let (value, rest) ← match ts.drop 1 with
        | .name w :: rest => some ([Token.name w], rest)
        | value => takeConstant value
      return (⟨shown ++ ts.take 1 ++ value, false, []⟩, rest)
    else return (⟨shown, false, []⟩, ts)
  | .name "_" :: ts => return (⟨front ++ [.name "_"], false, []⟩, ts)
  | _ =>
    let (name, ts) ← takeIdentifier ts
    let (bounds, ts) ← takeColonBounds endsParameter ts
    let shown := front ++ .name name :: bounds
    if atMark '=' ts then
      let (type, rest) ← takeType (nesting ts) true (ts.drop 1)
      return (⟨shown ++ ts.take 1 ++ type.tokens, false, []⟩, rest)
    else return (⟨shown, false, []⟩, ts)

def takeParameterList : (fuel : Nat) → List Token → Option (List Parameter × List Token)
  | 0, _ => none
  | fuel + 1, ts =>
    if atMark '>' ts then some ([], ts)
    else do
      let (p, ts) ← takeParameter ts
      if atMark '>' ts then return ([p], ts)
      let (comma, ts) ← takeMark ',' ts
      let (more, ts) ← takeParameterList fuel ts
      return ({ p with comma := comma } :: more, ts)

def parameterTokens (parameters : List Parameter) : List Token :=
  argumentTokens (parameters.map fun p => ⟨p.tokens, .other, p.isLifetime, p.comma⟩)

def takeGenerics (ts : List Token) : Taken :=
  if !atMark '<' ts then some ([], ts)
  else do
    let (parameters, rest) ← takeParameterList (ts.length + 1) (ts.drop 1)
    let (closing, rest) ← takeMark '>' rest
    if parameters.isEmpty then return ([], rest)
    else return (ts.take 1 ++ parameterTokens parameters ++ closing, rest)

def endsConditions (ts : List Token) : Bool :=
  ts.isEmpty || atGroup .brace ts || atMark ',' ts || atMark ';' ts ||
    (atMark ':' ts && !atSeparator ts) || atMark '=' ts

def takePredicate (ts : List Token) : Taken :=
  match ts with
  | .lifetime l :: .mark ':' j :: rest => do
    let (bounds, rest) ←
      takeOpenBounds (nesting rest) (fun ts => endsConditions ts || !atLifetime ts) rest
    return (.lifetime l :: .mark ':' j :: bounds, rest)
  | _ => do
    let (binder, rest) ← takeBinder (nesting ts) ts
    let (type, rest) ← takeType (nesting ts) true rest
    let (colon, rest) ← takeMark ':' rest
    let (bounds, rest) ← takeOpenBounds (nesting ts) endsConditions rest
    return (binder ++ type.tokens ++ colon ++ bounds, rest)

def takePredicates : (fuel : Nat) → List Token → Taken
  | 0, _ => none
  | fuel + 1, ts =>
    if endsConditions ts then some ([], ts)
    else do
      let (predicate, ts) ← takePredicate ts
      if atMark ',' ts then
        let (more, rest) ← takePredicates fuel (ts.drop 1)
        return (predicate ++ ts.take 1 ++ more, rest)
      else return (predicate, ts)

def takeConditions (ts : List Token) : Taken :=
  if atWord "where" ts then do
    let (predicates, rest) ← takePredicates (ts.length + 1) (ts.drop 1)
    if predicates.isEmpty then return ([], rest)
    else return (ts.take 1 ++ predicates, rest)
  else some ([], ts)

def checkStructure (ts : List Token) : Option Unit := do
  let (_, rest) ← takeConditions ts
  match rest with
  | [.group .brace content] => (readParts takeField (content.length + 1) content).map fun _ => ()
  | [.mark ';' _] => return ()
  | .group .parenthesis content :: rest =>
    if atWord "where" ts then none
    let _ ← readParts takeUnnamedField (content.length + 1) content
    let (_, rest) ← takeConditions rest
    match rest with
    | [.mark ';' _] => return ()
    | _ => none
  | _ => none

def checkUnion (ts : List Token) : Option Unit := do
  match (← takeConditions ts).2 with
  | [.group .brace content] => (readParts takeField (content.length + 1) content).map fun _ => ()
  | _ => none

namespace Item

def readNamed (attributes : List Attribute) (visibility : List Token) (kind : String)
    (ts : List Token) : Option Item := do
  let (name, ts) ← takeIdentifier ts
  let (generics, ts) ← takeGenerics ts
  if kind = "struct" then
    checkStructure ts
    return ⟨attributes, visibility, name, generics, [], .product⟩
  else if kind = "union" then
    checkUnion ts
    return ⟨attributes, visibility, name, generics, [], .union⟩
  else
    let (conditions, ts) ← takeConditions ts
    match ts with
    | [.group .brace content] =>
      let (variants, trailing) ← readParts takeVariant (content.length + 1) content
      return ⟨attributes, visibility, name, generics, conditions, .enumeration variants trailing⟩
    | _ => none

def ofTokens? (ts : List Token) : Option Item := do
  let (attributes, ts) ← takeAttributes ts
  let (visibility, ts) ← takeVisibility ts
  match ts with
  | .name kind :: ts =>
    if ["struct", "enum", "union"].contains kind then readNamed attributes visibility kind ts
    else none
  | _ => none

def read (text : String) : Option Item := (scan text).bind ofTokens?

end Item

/-- Lists of tokens with commas between them, and behind the last one if it is wanted. -/
def withCommas (trailing : Bool) : List (List Token) → List Token
  | [] => []
  | [ts] => ts ++ if trailing then [.mark ',' false] else []
  | ts :: rest => ts ++ .mark ',' false :: withCommas trailing rest

def Field.tokens (f : Field) : List Token :=
  attributeTokens f.attributes ++ f.visibility ++ [.name f.name, .mark ':' false] ++ f.type.tokens

/-- The tokens of the fields of a variant; fields without names are not shown. -/
def Fields.tokens : Fields → List Token
  | .named fields trailing => [.group .brace (withCommas trailing (fields.map Field.tokens))]
  | .unnamed => []
  | .none => []

def Variant.tokens (v : Variant) : List Token :=
  attributeTokens v.attributes ++ .name v.name :: v.fields.tokens ++ v.discriminant

def Item.tokens (item : Item) : List Token :=
  let body := match item.kind with
    | .enumeration variants trailing =>
      [Token.group .brace (withCommas trailing (variants.map Variant.tokens))]
    | _ => []
  attributeTokens item.attributes ++ item.visibility ++ [.name "enum", .name item.name] ++
    item.generics ++ item.conditions ++ body

end Depot.Code
