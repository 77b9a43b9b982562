import Depot.Code.Token
/-!
# Types and expressions in source code

Readers take a part of a list of tokens and yield what is left; none if the tokens break the
grammar.  A type keeps its tokens and, if it is a path, the last name of the path with its
arguments in angle brackets, which is all that later stages look at.  Among such arguments
lifetimes come first in the tokens, whatever their order was.

Parts nest, so the readers are mutually recursive; `fuel` bounds the depth of the recursion.
-/

namespace Depot.Code

mutual

inductive TypeExpr
  /-- A path: its tokens, its last name, and the arguments of that in angle brackets. -/
  | path (tokens : List Token) (last : String) (arguments : Option (List GenericArgument))
  | other (tokens : List Token)

inductive GenericArgument
  | lifetime (name : String)
  | type (t : TypeExpr)
  /-- A value, a binding or a bound. -/
  | other

end

instance : Inhabited TypeExpr := ⟨.other []⟩

def TypeExpr.tokens : TypeExpr → List Token
  | .path tokens _ _ => tokens
  | .other tokens => tokens

def keywords : List String :=
  ["_", "abstract", "as", "async", "await", "become", "box", "break", "const", "continue", "crate",
    "do", "dyn", "else", "enum", "extern", "false", "final", "fn", "for", "if", "impl", "in", "let",
    "loop", "macro", "match", "mod", "move", "mut", "override", "priv", "pub", "ref", "return",
    "Self", "self", "static", "struct", "super", "trait", "true", "try", "type", "typeof", "unsafe",
    "unsized", "use", "virtual", "where", "while", "yield"]

/-- Tokens taken from the front of a list, as they are shown, and the tokens behind them. -/
abbrev Taken := Option (List Token × List Token)

def atMark (c : Char) : List Token → Bool
  | .mark d _ :: _ => c = d
  | _ => false

def atWord (w : String) : List Token → Bool
  | .name v :: _ => w = v
  | _ => false

def atOneOf (words : List String) : List Token → Bool
  | .name v :: _ => words.contains v
  | _ => false

def atName : List Token → Bool
  | .name v :: _ => !keywords.contains v
  | _ => false

def atAnyWord : List Token → Bool
  | .name _ :: _ => true
  | _ => false

def atLifetime : List Token → Bool
  | .lifetime _ :: _ => true
  | _ => false

def atGroup (d : Delimiter) : List Token → Bool
  | .group e _ :: _ => d = e
  | _ => false

def atMarks (c d : Char) : List Token → Bool
  | .mark c' joint :: .mark d' _ :: _ => c = c' && joint && d = d'
  | _ => false

def atSeparator (ts : List Token) : Bool := atMarks ':' ':' ts

/-- Whether a list of tokens begins with a literal, a truth value or a negative number. -/
def atLiteral : List Token → Bool
  | .literal _ :: _ => true
  | .name v :: _ => v = "true" || v = "false"
  | .mark '-' _ :: .literal t :: _ => t.toList.head?.any Char.isDigit
  | _ => false

def takeMark (c : Char) : List Token → Taken
  | .mark d j :: ts => if c = d then some ([.mark d j], ts) else none
  | _ => none

def takeWord (w : String) : List Token → Taken
  | .name v :: ts => if w = v then some ([.name v], ts) else none
  | _ => none

def takeIdentifier : List Token → Option (String × List Token)
  | .name v :: ts => if keywords.contains v then none else some (v, ts)
  | _ => none

def takeIf (test : List Token → Bool) : List Token → List Token × List Token
  | t :: ts => if test (t :: ts) then ([t], ts) else ([], t :: ts)
  | [] => ([], [])

def takeSeparator (ts : List Token) : List Token × List Token :=
  if atSeparator ts then (ts.take 2, ts.drop 2) else ([], ts)

structure PathExpr where
  tokens : List Token
  /-- Whether it begins with a double colon or a type in angle brackets. -/
  rooted : Bool
  count : Nat
  last : String
  /-- The arguments of the last name in angle brackets. -/
  arguments : Option (List GenericArgument)
  /-- Whether the last name has arguments. -/
  applied : Bool
  plain : Bool

def pathWords : List String := ["super", "self", "crate", "try"]

def PathExpr.toType (p : PathExpr) : TypeExpr := .path p.tokens p.last p.arguments

/-- An argument as it is read: its tokens, its meaning, and the comma behind it. -/
structure ArgumentExpr where
  tokens : List Token
  meaning : GenericArgument
  isLifetime : Bool
  comma : List Token

/-- Arguments in the order in which they are shown: a comma is added where one is missing. -/
def showArguments : (needsComma : Bool) → List ArgumentExpr → List Token
  | _, [] => []
  | needsComma, a :: rest =>
    (if needsComma then [.mark ',' false] else []) ++ a.tokens ++ a.comma ++
      showArguments a.comma.isEmpty rest

/-- Lifetimes as they are shown before other arguments, and whether a comma has to follow. -/
def showLifetimes (arguments : List ArgumentExpr) : List Token × Bool :=
  let lifetimes := arguments.filter (·.isLifetime)
  (lifetimes.flatMap fun a => a.tokens ++ a.comma,
    match lifetimes.getLast? with
    | some a => a.comma.isEmpty
    | none => false)

def argumentTokens (arguments : List ArgumentExpr) : List Token :=
  let (lifetimes, needsComma) := showLifetimes arguments
  lifetimes ++ showArguments needsComma (arguments.filter fun a => !a.isLifetime)

def operators : List (List Char) :=
  ["<<=", ">>=", "...", "..=", "&&", "||", "==", "!=", "<=", ">=", "<<", ">>", "+=", "-=", "*=",
    "/=", "%=", "^=", "&=", "|=", "..", "+", "-", "*", "/", "%", "^", "&", "|", "<", ">",
    "="].map String.toList

def takeMarks : List Char → List Token → Taken
  | [], ts => some ([], ts)
  | [c], ts => takeMark c ts
  | c :: rest, .mark d joint :: ts =>
    if c = d ∧ joint then (takeMarks rest ts).map fun (m, ts) => (.mark d joint :: m, ts) else none
  | _, _ => none

mutual

def takeType : (fuel : Nat) → (plus : Bool) → List Token → Option (TypeExpr × List Token)
  | 0, _, _ => none
  | fuel + 1, plus, ts => do
    let (binder, ts) ← takeBinder fuel ts
    let bound := !binder.isEmpty
    match ts with
    | .group .parenthesis content :: ts =>
      if bound then none
      let (more, ts) ← takeEnclosed fuel plus content ts
      return (.other (.group .parenthesis content :: more), ts)
    | .group .bracket content :: ts =>
      if bound then none
      let (element, rest) ← takeType fuel true content
      match rest with
      | [] => return (.other [.group .bracket element.tokens], ts)
      | _ =>
        let (semicolon, rest) ← takeMark ';' rest
        let (length, rest) ← takeExpr fuel rest
        if rest.isEmpty then
          return (.other [.group .bracket (element.tokens ++ semicolon ++ length)], ts)
        else none
    | .mark '*' j :: .name kind :: ts =>
      if bound ∨ (kind ≠ "const" ∧ kind ≠ "mut") then none
      let (target, ts) ← takeType fuel false ts
      return (.other (.mark '*' j :: .name kind :: target.tokens), ts)
    | .mark '&' j :: ts =>
      if bound then none
      let (lifetime, ts) := takeIf atLifetime ts
      let (mutable, ts) := takeIf (atWord "mut") ts
      let (target, ts) ← takeType fuel false ts
      return (.other (.mark '&' j :: lifetime ++ mutable ++ target.tokens), ts)
    | .mark '!' j :: ts => if bound then none else return (.other [.mark '!' j], ts)
    | .lifetime l :: ts =>
      if bound then none
      let (bounds, ts) ← takeBounds fuel plus true (.lifetime l :: ts)
      return (.other bounds, ts)
    | _ =>
      if atOneOf ["fn", "unsafe", "extern"] ts then
        let (function, ts) ← takeFunction fuel ts
        return (.other (binder ++ function), ts)
      else if atName ts || atOneOf ["super", "self", "Self", "crate"] ts ||
          (!bound && (atSeparator ts || atMark '<' ts)) then
        let (p, ts) ← takeTypePath fuel ts
        if p.rooted ∧ atMark '<' p.tokens then return (p.toType, ts)
        else if atMark '!' ts && !atMarks '!' '=' ts && p.plain then
          match ts with
          | bang :: .group d content :: ts =>
            return (.other (binder ++ p.tokens ++ [bang, .group d content]), ts)
          | _ => none
        else if bound ∨ (plus ∧ atMark '+' ts) then
          if plus then
            let (more, ts) ← takeMoreBounds fuel ts
            return (.other (binder ++ p.tokens ++ more), ts)
          else return (.other (binder ++ p.tokens), ts)
        else return (p.toType, ts)
      else if bound then none
      else match ts with
        | .name "dyn" :: ts =>
          let (star, ts) := takeIf (atMark '*') ts
          let (bounds, ts) ← takeBounds fuel plus true ts
          return (.other (.name "dyn" :: star ++ bounds), ts)
        | .name "impl" :: ts =>
          let (bounds, ts) ← takeBounds fuel plus true ts
          return (.other (.name "impl" :: bounds), ts)
        | .name "_" :: ts => return (.other [.name "_"], ts)
        | _ => none

/-- Checks what stands between the parentheses of a type and takes the bounds that are added behind
them. -/
def takeEnclosed : (fuel : Nat) → (plus : Bool) → (content behind : List Token) → Taken
  | 0, _, _, _ => none
  | fuel + 1, plus, content, ts => do
    if content.isEmpty then return ([], ts)
    if atLifetime content then
      let (_, rest) ← takeBounds fuel true true content
      if rest.isEmpty then return ([], ts) else none
    if atMark '?' content then
      let (_, rest) ← takeBound fuel content
      if rest.isEmpty then takeMoreBounds fuel ts else none
    else
      let (first, rest) ← takeType fuel true content
      if rest.isEmpty then
        match first with
        | .path _ _ _ => if plus ∧ atMark '+' ts then takeMoreBounds fuel ts else return ([], ts)
        | _ => return ([], ts)
      else
        let rest ← takeTypes fuel (← takeMark ',' rest).2
        if rest.isEmpty then return ([], ts) else none

def takeTypes : (fuel : Nat) → List Token → Option (List Token)
  | 0, _ => none
  | fuel + 1, ts => do
    if ts.isEmpty then return []
    let (_, ts) ← takeType fuel true ts
    if ts.isEmpty then return []
    takeTypes fuel (← takeMark ',' ts).2

/-- Takes a path in a type, with the parenthesized arguments that may follow it. -/
def takeTypePath : (fuel : Nat) → List Token → Option (PathExpr × List Token)
  | 0, _ => none
  | fuel + 1, ts => do
    let (p, ts) ← takePath fuel false ts
    takeCallArguments fuel p ts

def takeCallArguments : (fuel : Nat) → PathExpr → List Token → Option (PathExpr × List Token)
  | 0, _, _ => none
  | fuel + 1, p, ts => do
    let (separator, after) := takeSeparator ts
    match p.applied, after with
    | false, .group .parenthesis content :: after =>
      let rest ← takeTypes fuel content
      if !rest.isEmpty then none
      let (output, after) ← takeOutput fuel after
      let p := { p with
        tokens := p.tokens ++ separator ++ .group .parenthesis content :: output
        arguments := none
        applied := true
        plain := false }
      match output with
      | [_, _, .group .parenthesis _] => takePathRest fuel false p after
      | _ => return (p, after)
    | _, _ => return (p, ts)

def takeOutput : (fuel : Nat) → List Token → Taken
  | 0, _ => none
  | fuel + 1, ts => do
    if atMarks '-' '>' ts then
      let (t, rest) ← takeType fuel false (ts.drop 2)
      return (ts.take 2 ++ t.tokens, rest)
    else return ([], ts)

def takePath : (fuel : Nat) → (inExpression : Bool) → List Token →
    Option (PathExpr × List Token)
  | 0, _, _ => none
  | fuel + 1, inExpression, ts => do
    if atMark '<' ts then
      let (this, rest) ← takeType fuel true (ts.drop 1)
      let (trait, rest) ← takeAs fuel rest
      let (closing, rest) ← takeMark '>' rest
      if !atSeparator rest then none
      let start : PathExpr :=
        { tokens := ts.take 1 ++ this.tokens ++ trait ++ closing ++ rest.take 2
          rooted := true, count := 0, last := "", arguments := none
          applied := false, plain := true }
      let (p, rest) ← takeSegment fuel inExpression start (rest.drop 2)
      takePathRest fuel inExpression p rest
    else
      let (separator, rest) := takeSeparator ts
      let start : PathExpr :=
        { tokens := separator, rooted := !separator.isEmpty, count := 0, last := ""
          arguments := none, applied := false, plain := true }
      let (p, rest) ← takeSegment fuel inExpression start rest
      takePathRest fuel inExpression p rest

def takeAs : (fuel : Nat) → List Token → Taken
  | 0, _ => none
  | fuel + 1, ts => do
    if atWord "as" ts then
      let (p, rest) ← takePath fuel false (ts.drop 1)
      return (ts.take 1 ++ p.tokens, rest)
    else return ([], ts)

def takePathRest : (fuel : Nat) → (inExpression : Bool) → PathExpr → List Token →
    Option (PathExpr × List Token)
  | 0, _, _, _ => none
  | fuel + 1, inExpression, p, ts => do
    if atSeparator ts && !atGroup .parenthesis (ts.drop 2) then
      let p := { p with tokens := p.tokens ++ ts.take 2 }
      let (p, ts) ← takeSegment fuel inExpression p (ts.drop 2)
      takePathRest fuel inExpression p ts
    else return (p, ts)

def takeSegment : (fuel : Nat) → (inExpression : Bool) → PathExpr → List Token →
    Option (PathExpr × List Token)
  | 0, _, _, _ => none
  | fuel + 1, inExpression, p, ts => do
    match ts with
    | .name w :: ts =>
      let p := { p with
        tokens := p.tokens ++ [.name w], count := p.count + 1, last := w
        arguments := none, applied := false }
      if pathWords.contains w then return (p, ts)
      else if keywords.contains w ∧ w ≠ "Self" then none
      else
        let opens := !inExpression && atMark '<' ts && !atMarks '<' '=' ts
        let turbofish := atSeparator ts && atMark '<' (ts.drop 2)
        if opens || turbofish then
          let (separator, ts) := takeSeparator ts
          let (arguments, shown, ts) ← takeArguments fuel ts
          return ({ p with
            tokens := p.tokens ++ separator ++ shown
            arguments := some arguments, applied := true, plain := false }, ts)
        else return (p, ts)
    | _ => none

def takeArguments : (fuel : Nat) → List Token →
    Option (List GenericArgument × List Token × List Token)
  | 0, _ => none
  | fuel + 1, ts => do
    let (opening, ts) ← takeMark '<' ts
    let (arguments, ts) ← takeArgumentList fuel ts
    let (closing, ts) ← takeMark '>' ts
    return (arguments.map (·.meaning), opening ++ argumentTokens arguments ++ closing, ts)

def takeArgumentList : (fuel : Nat) → List Token →
    Option (List ArgumentExpr × List Token)
  | 0, _ => none
  | fuel + 1, ts => do
    if atMark '>' ts then return ([], ts)
    let (a, ts) ← takeArgument fuel ts
    if atMark '>' ts then return ([a], ts)
    let (comma, ts) ← takeMark ',' ts
    let (more, ts) ← takeArgumentList fuel ts
    return ({ a with comma := comma } :: more, ts)

def takeArgument : (fuel : Nat) → List Token → Option (ArgumentExpr × List Token)
  | 0, _ => none
  | fuel + 1, ts => do
    match ts with
    | .lifetime l :: rest =>
      if !atMark '+' rest then return (⟨[.lifetime l], .lifetime l, true, []⟩, rest)
    | _ => pure ()
    if atLiteral ts || atGroup .brace ts then
      let (value, ts) ← takeConstant ts
      return (⟨value, .other, false, []⟩, ts)
    let (t, rest) ← takeType fuel true ts
    match t with
    | .path tokens last arguments =>
      let single := match tokens with
        | .name _ :: more => more.isEmpty || (arguments.isSome && single fuel ts)
        | _ => false
      if single && atMark '=' rest then
        let after := rest.drop 1
        if atLiteral after || atGroup .brace after then
          let (value, after) ← takeConstant after
          return (⟨tokens ++ rest.take 1 ++ value, .other, false, []⟩, after)
        else
          let (u, after) ← takeType fuel true after
          return (⟨tokens ++ rest.take 1 ++ u.tokens, .other, false, []⟩, after)
      else if single && atMark ':' rest then
        let (bounds, after) ← takeOpenBounds fuel (fun ts => atMark ',' ts || atMark '>' ts)
          (rest.drop 1)
        return (⟨tokens ++ rest.take 1 ++ bounds, .other, false, []⟩, after)
      else return (⟨tokens, .type (.path tokens last arguments), false, []⟩, rest)
    | t => return (⟨t.tokens, .type t, false, []⟩, rest)

def single : (fuel : Nat) → List Token → Bool
  | 0, _ => false
  | fuel + 1, ts =>
    match takePath fuel false ts with
    | some (p, _) => p.count = 1 && !p.rooted
    | none => false

def takeConstant : List Token → Taken
  | .group .brace content :: ts => some ([.group .brace content], ts)
  | .mark '-' j :: .literal t :: ts => some ([.mark '-' j, .literal t], ts)
  | .literal t :: ts => some ([.literal t], ts)
  | .name w :: ts => if w = "true" ∨ w = "false" then some ([.name w], ts) else none
  | _ => none

/-- Takes bounds that plus signs join, one trait among them at least if `needsTrait`. -/
def takeBounds : (fuel : Nat) → (plus needsTrait : Bool) → List Token → Taken
  | 0, _, _, _ => none
  | fuel + 1, plus, needsTrait, ts => do
    let isTrait := !atLifetime ts
    let (bound, ts) ← takeBound fuel ts
    if plus ∧ atMark '+' ts then
      let sign := ts.take 1
      let ts := ts.drop 1
      if atAnyWord ts || atSeparator ts || atMark '?' ts || atLifetime ts ||
          atGroup .parenthesis ts then
        let (more, ts) ← takeBounds fuel plus (needsTrait && !isTrait) ts
        return (bound ++ sign ++ more, ts)
      else if needsTrait && !isTrait then none
      else return (bound ++ sign, ts)
    else if needsTrait && !isTrait then none
    else return (bound, ts)

def takeMoreBounds : (fuel : Nat) → List Token → Taken
  | 0, _ => none
  | fuel + 1, ts => do
    if !atMark '+' ts then return ([], ts)
    let sign := ts.take 1
    let ts := ts.drop 1
    if atAnyWord ts || atSeparator ts || atMark '?' ts || atLifetime ts ||
        atGroup .parenthesis ts then
      let (bound, ts) ← takeBound fuel ts
      let (more, ts) ← takeMoreBounds fuel ts
      return (sign ++ bound ++ more, ts)
    else return (sign, ts)

def takeOpenBounds : (fuel : Nat) → (ends : List Token → Bool) → List Token → Taken
  | 0, _, _ => none
  | fuel + 1, ends, ts => do
    if ends ts then return ([], ts)
    let (bound, ts) ← takeBound fuel ts
    if atMark '+' ts then
      let (more, rest) ← takeOpenBounds fuel ends (ts.drop 1)
      return (bound ++ ts.take 1 ++ more, rest)
    else return (bound, ts)

def takeBound : (fuel : Nat) → List Token → Taken
  | 0, _ => none
  | fuel + 1, ts => do
    match ts with
    | .lifetime l :: ts => return ([.lifetime l], ts)
    | .group .parenthesis content :: ts =>
      let (bound, rest) ← takeTraitBound fuel content
      if rest.isEmpty then return ([.group .parenthesis bound], ts) else none
    | _ => takeTraitBound fuel ts

def takeTraitBound : (fuel : Nat) → List Token → Taken
  | 0, _ => none
  | fuel + 1, ts => do
    let (binder, ts) ← takeBinder fuel ts
    let (maybe, ts) := takeIf (atMark '?') ts
    let (binder', ts) ← if binder.isEmpty && !maybe.isEmpty then takeBinder fuel ts
      else pure ([], ts)
    let (p, ts) ← takePath fuel false ts
    let (separator, after) := takeSeparator ts
    match p.applied, after with
    | false, .group .parenthesis content :: after =>
      let rest ← takeTypes fuel content
      if !rest.isEmpty then none
      let (output, after) ← takeOutput fuel after
      return (binder ++ maybe ++ binder' ++ p.tokens ++ separator ++
        .group .parenthesis content :: output, after)
    | _, _ => return (binder ++ maybe ++ binder' ++ p.tokens, ts)

def takeBinder : (fuel : Nat) → List Token → Taken
  | 0, _ => none
  | fuel + 1, ts => do
    if atWord "for" ts then
      let (opening, rest) ← takeMark '<' (ts.drop 1)
      let (inner, rest) ← takeBinderParameters fuel rest
      let (closing, rest) ← takeMark '>' rest
      return (ts.take 1 ++ opening ++ inner ++ closing, rest)
    else return ([], ts)

def takeBinderParameters : (fuel : Nat) → List Token → Taken
  | 0, _ => none
  | fuel + 1, ts => do
    match ts with
    | .lifetime l :: rest =>
      let (bounds, rest) ←
        if atMark ':' rest then do
          let (bounds, after) ← takeOpenBounds fuel
            (fun ts => atMark ',' ts || atMark '>' ts || !atLifetime ts) (rest.drop 1)
          pure (if bounds.isEmpty then [] else rest.take 1 ++ bounds, after)
        else pure ([], rest)
      if atMark ',' rest then
        let (more, after) ← takeBinderParameters fuel (rest.drop 1)
        return (.lifetime l :: bounds ++ rest.take 1 ++ more, after)
      else return (.lifetime l :: bounds, rest)
    | _ => if atMark '>' ts then return ([], ts) else none

def takeFunction : (fuel : Nat) → List Token → Taken
  | 0, _ => none
  | fuel + 1, ts => do
    let (unsafety, ts) := takeIf (atWord "unsafe") ts
    let (foreign, ts) := takeIf (atWord "extern") ts
    let (abi, ts) := if foreign.isEmpty then ([], ts) else takeIf atLiteral ts
    let (fn, ts) ← takeWord "fn" ts
    match ts with
    | .group .parenthesis content :: ts =>
      if !(← takeParameters fuel content).isEmpty then none
      let (output, ts) ← takeOutput fuel ts
      return (unsafety ++ foreign ++ abi ++ fn ++ .group .parenthesis content :: output, ts)
    | _ => none

def takeParameters : (fuel : Nat) → List Token → Option (List Token)
  | 0, _ => none
  | fuel + 1, ts => do
    if ts.isEmpty then return []
    let named := (atName ts || atWord "_" ts || atWord "self" ts) && atMark ':' (ts.drop 1) &&
      !atSeparator (ts.drop 1)
    let ts := if named then ts.drop 2 else ts
    match takeMarks ['.', '.', '.'] ts with
    | some (_, rest) =>
      if rest.isEmpty || atMark ',' rest && rest.length = 1 then return [] else none
    | none =>
      let (_, ts) ← takeType fuel true ts
      if ts.isEmpty then return []
      takeParameters fuel (← takeMark ',' ts).2

def takeExpr : (fuel : Nat) → List Token → Taken
  | 0, _ => none
  | fuel + 1, ts => do
    let (left, ts) ← takeUnary fuel ts
    if atWord "as" ts then
      let (t, rest) ← takeType fuel false (ts.drop 1)
      takeExprRest fuel (left ++ ts.take 1 ++ t.tokens) rest
    else takeExprRest fuel left ts

def takeExprRest : (fuel : Nat) → List Token → List Token → Taken
  | 0, _, _ => none
  | fuel + 1, left, ts => do
    if atWord "as" ts then
      let (t, rest) ← takeType fuel false (ts.drop 1)
      takeExprRest fuel (left ++ ts.take 1 ++ t.tokens) rest
    else if atMarks '=' '>' ts then return (left, ts)
    else match operators.findSome? (takeMarks · ts) with
      | some (operator, rest) =>
        let (right, rest) ← takeExpr fuel rest
        return (left ++ operator ++ right, rest)
      | none => return (left, ts)

def takeUnary : (fuel : Nat) → List Token → Taken
  | 0, _ => none
  | fuel + 1, ts => do
    match ts with
    | .mark c j :: rest =>
      if c = '-' ∨ c = '!' ∨ c = '*' then
        let (operand, rest) ← takeUnary fuel rest
        return (.mark c j :: operand, rest)
      else if c = '&' then
        let (mutable, rest) := takeIf (atWord "mut") rest
        let (operand, rest) ← takeUnary fuel rest
        return (.mark c j :: mutable ++ operand, rest)
      else
        let (atom, rest) ← takeAtom fuel ts
        takePostfix fuel atom rest
    | _ =>
      let (atom, rest) ← takeAtom fuel ts
      takePostfix fuel atom rest

def takePostfix : (fuel : Nat) → List Token → List Token → Taken
  | 0, _, _ => none
  | fuel + 1, left, ts => do
    match ts with
    | .group .parenthesis content :: ts =>
      if !(← takeExprs fuel content).isEmpty then none
      takePostfix fuel (left ++ [.group .parenthesis content]) ts
    | .group .bracket content :: ts =>
      let (_, rest) ← takeExpr fuel content
      if !rest.isEmpty then none
      takePostfix fuel (left ++ [.group .bracket content]) ts
    | .mark '?' j :: ts => takePostfix fuel (left ++ [.mark '?' j]) ts
    | .mark '.' j :: .name w :: ts =>
      if (keywords.contains w ∧ w ≠ "await") then none
      let (separator, after) := takeSeparator ts
      if !separator.isEmpty then
        let (_, shown, after) ← takeArguments fuel after
        takePostfix fuel (left ++ [.mark '.' j, .name w] ++ separator ++ shown) after
      else takePostfix fuel (left ++ [.mark '.' j, .name w]) ts
    | .mark '.' j :: .literal t :: ts => takePostfix fuel (left ++ [.mark '.' j, .literal t]) ts
    | _ => return (left, ts)

def takeExprs : (fuel : Nat) → List Token → Option (List Token)
  | 0, _ => none
  | fuel + 1, ts => do
    if ts.isEmpty then return []
    let (_, ts) ← takeExpr fuel ts
    if ts.isEmpty then return []
    takeExprs fuel (← takeMark ',' ts).2

/-- Takes an operand: a literal, a path, a call of a macro, or a group. -/
def takeAtom : (fuel : Nat) → List Token → Taken
  | 0, _ => none
  | fuel + 1, ts => do
    match ts with
    | .literal t :: ts => return ([.literal t], ts)
    | .group .parenthesis content :: ts =>
      if (← takeExprs fuel content).isEmpty then return ([.group .parenthesis content], ts)
      else none
    | .group .bracket content :: ts =>
      match takeExprs fuel content with
      | some [] => return ([.group .bracket content], ts)
      | _ =>
        let (_, rest) ← takeExpr fuel content
        let (_, rest) ← takeMark ';' rest
        let (_, rest) ← takeExpr fuel rest
        if rest.isEmpty then return ([.group .bracket content], ts) else none
    | .group .brace content :: ts => return ([.group .brace content], ts)
    | .name "true" :: ts => return ([.name "true"], ts)
    | .name "false" :: ts => return ([.name "false"], ts)
    | .name "unsafe" :: .group .brace content :: ts =>
      return ([.name "unsafe", .group .brace content], ts)
    | .name "const" :: .group .brace content :: ts =>
      return ([.name "const", .group .brace content], ts)
    | .name "loop" :: .group .brace content :: ts =>
      return ([.name "loop", .group .brace content], ts)
    | _ =>
      if atName ts || atOneOf ["super", "self", "Self", "crate"] ts || atSeparator ts ||
          atMark '<' ts then
        let (p, ts) ← takePath fuel true ts
        match ts with
        | .mark '!' j :: .group d content :: rest =>
          if p.plain then return (p.tokens ++ [.mark '!' j, .group d content], rest)
          else return (p.tokens, ts)
        | .group .brace content :: rest =>
          return (p.tokens ++ [.group .brace content], rest)
        | _ => return (p.tokens, ts)
      else none

end

end Depot.Code
