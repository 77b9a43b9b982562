import Depot.Yaml.Scalar
/-!
# Documents of YAML

`Yaml.readDocument` reads a text with one document at most into settings: block and flow
collections, plain and quoted texts and blocks of text.  A value can have a name, under which it
is repeated later, and a tag that declares its type.  Keys that are marked as such, as collections
would have to be, are not read.
-/

namespace Depot.Yaml

def addMember (ms : List (String × Setting)) (key : String) (value : Setting) :
    Option (List (String × Setting)) :=
  match ms.lookup key with
  | some _ => none
  | none => some (ms ++ [(key, value)])

def plainKey (origin word : String) : Option String :=
  match plainValue origin word with
  | some (.integer i) => some (toString i)
  | some (.nothing _) => none
  | some _ => some word
  | none => none

def readQuoted (p : Cursor) : Option (String × Cursor) :=
  let fuel := p.rest.length + 1
  let taken := match p.rest with
    | '"' :: _ => readDouble fuel (p.skip 1)
    | '\'' :: _ => readSingle fuel (p.skip 1)
    | _ => none
  taken.map fun (cs, p) => (String.ofList cs, p)

def startsQuoted (p : Cursor) : Bool := p.rest.head? = some '"' || p.rest.head? = some '\''

/-- Takes the values of a flow sequence up to its bracket, `fuel` of them at most. -/
def readFlowValues (value : Cursor → Option (Setting × Cursor)) :
    (fuel : Nat) → Cursor → Option (List Setting × Cursor)
  | 0, _ => none
  | fuel + 1, p => do
    let p := p.skipBlanks.2
    match p.rest with
    | ']' :: _ => return ([], p.skip 1)
    | _ =>
      let (v, p) ← value p
      let p := p.skipBlanks.2
      match p.rest with
      | ',' :: _ =>
        let (more, p) ← readFlowValues value fuel (p.skip 1)
        return (v :: more, p)
      | ']' :: _ => return ([v], p.skip 1)
      | _ => none

def readFlowKey (origin : String) (p : Cursor) : Option (String × Cursor) :=
  if startsQuoted p then readQuoted p
  else
    let (cs, p) := readPlain true (-1) (p.rest.length + 1) p
    (plainKey origin (String.ofList cs)).map (·, p)

/-- Takes the value behind a key of a flow mapping, which may be missing. -/
def readFlowMember (origin : String) (value : Cursor → Option (Setting × Cursor)) (p : Cursor) :
    Option (Setting × Cursor) :=
  match p.rest with
  | ':' :: _ =>
    let q := (p.skip 1).skipBlanks.2
    match q.rest with
    | ',' :: _ | '\x7d' :: _ => some (.nothing (some origin), q)
    | _ => value q
  | _ => some (.nothing (some origin), p)

/-- Takes the members of a flow mapping up to its brace, `fuel` of them at most. -/
def readFlowMembers (origin : String) (value : Cursor → Option (Setting × Cursor)) :
    (fuel : Nat) → List (String × Setting) → Cursor → Option (List (String × Setting) × Cursor)
  | 0, _, _ => none
  | fuel + 1, ms, p => do
    let p := p.skipBlanks.2
    match p.rest with
    | '\x7d' :: _ => return (ms, p.skip 1)
    | _ =>
      let (key, p) ← readFlowKey origin p
      let (v, p) ← readFlowMember origin value p.skipBlanks.2
      let ms ← addMember ms key v
      let p := p.skipBlanks.2
      match p.rest with
      | ',' :: _ => readFlowMembers origin value fuel ms (p.skip 1)
      | '\x7d' :: _ => return (ms, p.skip 1)
      | _ => none

inductive Property
  /-- The value can be repeated under this name. -/
  | name (name : String)
  | tag (tag : String)
deriving DecidableEq, Repr

def endsName (c : Char) : Bool := Cursor.isSpace c || c == '\n' || ",[]\x7b\x7d".toList.contains c

def readName (p : Cursor) : Option (String × Cursor) :=
  let name := (p.rest.drop 1).takeWhile (!endsName ·)
  if name = [] then none else some (String.ofList name, p.skip (1 + name.length))

def isForeignTag (tag : List Char) : Bool :=
  let body := tag.drop 1
  !(body.head? = some '!') && !(body.head? = some '<') && body.contains '!'

def readProperty (p : Cursor) : Option (Property × Cursor) :=
  match p.rest with
  | '&' :: _ => (readName p).map fun (name, p) => (.name name, p)
  | '!' :: _ =>
    let tag := p.rest.takeWhile (!endsName ·)
    if isForeignTag tag then none else some (.tag (String.ofList tag), p.skip tag.length)
  | _ => none

def readRepeated (p : Cursor) : Option (Setting × Cursor) := do
  let (name, p) ← readName p
  return (← p.named.lookup name, p)

def startsProperty (p : Cursor) : Bool := p.rest.head? = some '&' || p.rest.head? = some '!'

def readPropertied (origin : String) (tag : Option String)
    (read : Option String → Cursor → Option (Setting × Cursor)) (p : Cursor) :
    Option (Setting × Cursor) := do
  match ← readProperty p with
  | (.tag tag, p) => read (some tag) p
  | (.name name, p) =>
    let (value, p) ← read tag (p.withName name (.nothing (some origin)))
    return (value, p.withName name value)

def readFlow (origin : String) : (depth : Nat) → (tag : Option String) → Cursor →
    Option (Setting × Cursor)
  | 0, _, _ => none
  | depth + 1, tag, p => do
    let p := p.skipBlanks.2
    match p.rest with
    | '[' :: rest =>
      let (values, p) ← readFlowValues (readFlow origin depth none) (rest.length + 1) (p.skip 1)
      return (.list (some origin) values, p)
    | '\x7b' :: rest =>
      let (ms, p) ←
        readFlowMembers origin (readFlow origin depth none) (rest.length + 1) [] (p.skip 1)
      return (.table (some origin) ms, p)
    | '*' :: _ => readRepeated p
    | _ =>
      if startsProperty p then readPropertied origin tag (readFlow origin depth) p
      else if startsQuoted p then
        let (t, p) ← readQuoted p
        return (.text t, p)
      else
        let (cs, p) := readPlain true (-1) (p.rest.length + 1) p
        if cs = [] then none
        else return (← wordValue origin tag (String.ofList cs), p)

def isReserved (c : Char) : Bool :=
  ",[]\x7b\x7d#&*!|>%@".toList.contains c || c == Char.ofNat 0x60

def startsReserved (p : Cursor) : Bool :=
  p.rest.head?.any isReserved || Cursor.isIndicator '?' p.rest

def readKeyText (origin : String) (p : Cursor) : Option (String × Cursor) :=
  if startsQuoted p then readQuoted p
  else if startsReserved p then none
  else
    let line := plainLine false p.rest
    (plainKey origin (String.ofList (trimEnd line))).map (·, p.skip line.length)

def readNamedKey (origin : String) (p : Cursor) : Option (String × Cursor) := do
  match p.rest with
  | '&' :: _ =>
    let (name, p) ← readName p
    let (key, p) ← readKeyText origin p.skipSpaces
    return (key, p.withName name (.text key))
  | _ => readKeyText origin p

/-- Takes a key on one line, up to its colon; none if no key stands here. -/
def readKey (origin : String) (p : Cursor) : Option (String × Cursor) := do
  let (key, q) ← readNamedKey origin p
  let q := q.skipSpaces
  if Cursor.isIndicator ':' q.rest then return (key, q.skip 1) else none

/-- What is known about a value before it is read. -/
structure Slot where
  /-- The indentation of what the value belongs to. -/
  indent : Int
  /-- Whether a collection may begin on a line that something else began. -/
  inline : Bool
  /-- Whether the items of a sequence need not be indented further. -/
  flush : Bool
  tag : Option String

namespace Slot

def document (inline : Bool) : Slot := ⟨-1, inline, false, none⟩

def item (column : Nat) : Slot := ⟨column, true, false, none⟩

def member (column : Nat) : Slot := ⟨column, false, true, none⟩

def tagged (slot : Slot) (tag : Option String) : Slot := { slot with inline := false, tag := tag }

/-- Whether the items of a sequence begin at a place, on a new line. -/
def takesItems (slot : Slot) (q : Cursor) : Bool :=
  slot.flush && (q.column : Int) == slot.indent && Cursor.isIndicator '-' q.rest

end Slot

def isVacant (indent : Int) (q : Cursor) : Bool :=
  q.rest.isEmpty || (q.column : Int) ≤ indent || q.isBoundary

def vacantValue (origin : String) : Option String → Option Setting
  | some tag => declaredValue origin tag ""
  | none => some (.nothing (some origin))

mutual

def readBlock (origin : String) : (fuel : Nat) → Slot → Cursor → Option (Setting × Cursor)
  | 0, _, _ => none
  | fuel + 1, slot, p => do
    let (newLine, q) := p.skipBlanks
    let collections := newLine || slot.inline
    if newLine && slot.takesItems q then
      let (values, r) ← readItems origin fuel q.column q
      return (.list (some origin) values, r)
    else if isVacant slot.indent q then return (← vacantValue origin slot.tag, p)
    else if Cursor.isIndicator '-' q.rest then
      if collections then
        let (values, r) ← readItems origin fuel q.column q
        return (.list (some origin) values, r)
      else none
    else if (readKey origin q).isSome then
      if collections then
        let (ms, r) ← readPairs origin fuel q.column [] q
        return (.table (some origin) ms, r)
      else none
    else if startsProperty q then
      readPropertied origin slot.tag (fun tag => readBlock origin fuel (slot.tagged tag)) q
    else if startsQuoted q then
      let (t, r) ← readQuoted q
      return (.text t, r)
    else match q.rest with
      | '*' :: _ => readRepeated q
      | '|' :: _ | '>' :: _ =>
        let (cs, r) ← readBlockText slot.indent q
        return (.text (String.ofList cs), r)
      | '[' :: _ | '\x7b' :: _ => readFlow origin (q.rest.length + 1) none q
      | _ =>
        if startsReserved q then none
        else
          let (cs, r) := readPlain false slot.indent (q.rest.length + 1) q
          return (← wordValue origin slot.tag (String.ofList cs), r)

def readItems (origin : String) : (fuel : Nat) → (column : Nat) → Cursor →
    Option (List Setting × Cursor)
  | 0, _, _ => none
  | fuel + 1, column, p => do
    let (value, p) ← readBlock origin fuel (.item column) (p.skip 1)
    let (newLine, q) := p.skipBlanks
    if q.rest = [] ∨ q.isBoundary then return ([value], p)
    else if !newLine ∧ p.column ≠ 0 then none
    else if q.column = column ∧ Cursor.isIndicator '-' q.rest then
      let (more, p) ← readItems origin fuel column q
      return (value :: more, p)
    else if column < q.column then none
    else return ([value], p)

def readPairs (origin : String) : (fuel : Nat) → (column : Nat) → List (String × Setting) →
    Cursor → Option (List (String × Setting) × Cursor)
  | 0, _, _, _ => none
  | fuel + 1, column, ms, p => do
    let (key, p) ← readKey origin p
    let (value, p) ← readBlock origin fuel (.member column) p
    let ms ← addMember ms key value
    let (newLine, q) := p.skipBlanks
    if q.rest = [] ∨ q.isBoundary then return (ms, p)
    else if !newLine ∧ p.column ≠ 0 then none
    else if q.column = column then readPairs origin fuel column ms q
    else if column < q.column then none
    else return (ms, p)

end

def skipDirectives : (fuel : Nat) → Cursor → Cursor
  | 0, p => p
  | fuel + 1, p =>
    let q := p.skipBlanks.2
    if q.rest.head? = some '%' ∧ q.column = 0 then skipDirectives fuel q.skipLine else q

def plainBreaks : List Char → List Char
  | '\r' :: '\n' :: rest => '\n' :: plainBreaks rest
  | c :: rest => c :: plainBreaks rest
  | [] => []

/-- Reads a document; a text without one is an empty table.  `origin` tells where it comes from. -/
def readDocument (origin : String) (text : List Char) : Option Setting := do
  let text := plainBreaks text
  let fuel := 2 * text.length + 2
  let p := skipDirectives fuel (.start text)
  if p.rest = [] then return .table (some origin) []
  let (value, p) ←
    if p.isMarker ['-', '-', '-'] then readBlock origin fuel (.document false) (p.skip 3)
    else readBlock origin fuel (.document true) p
  let (newLine, q) := p.skipBlanks
  if q.rest = [] then return value
  else if !newLine ∧ p.column ≠ 0 then none
  else if q.isMarker ['.', '.', '.'] then
    if (q.skip 3).skipBlanks.2.rest = [] then return value else none
  else none

end Depot.Yaml
