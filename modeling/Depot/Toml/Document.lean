import Depot.Toml.Scalar
import Depot.Toml.Table
/-!
# Documents of TOML

`Toml.readDocument` reads a whole document into a table of settings; none if the document breaks a
rule of the format.
-/

namespace Depot.Toml

/-- Reads the elements of an array up to its closing bracket, `fuel` of them at most. -/
def readElements (element : Reader Node) (origin : String) : (fuel : Nat) → Reader (List Setting)
  | 0, _ => none
  | fuel + 1, s => do
    match skipBlanks s with
    | ']' :: s => return ([], s)
    | s =>
      let (node, s) ← element s
      match skipBlanks s with
      | ',' :: s =>
        let (rest, s) ← readElements element origin fuel s
        return (node.toSetting origin :: rest, s)
      | s => return ([node.toSetting origin], ← readMark ']' s)

/-- Reads the members of a table up to its closing brace, `fuel` of them at most. -/
def readMembers (value : Reader Node) : (fuel : Nat) → Members → Reader Members
  | 0, _, _ => none
  | fuel + 1, ms, s => do
    match skipBlanks s with
    | '\x7d' :: s => return (ms, s)
    | s =>
      let ((path, key), s) ← readKey s
      let (node, s) ← value (skipSpaces (← readMark '=' s))
      let ms ← ms.setKey path key node
      match skipBlanks s with
      | ',' :: s => readMembers value fuel ms s
      | s => return (ms, ← readMark '\x7d' s)

def readValue (origin : String) : (depth : Nat) → Reader Node
  | 0, _ => none
  | depth + 1, s => do
    match s with
    | '"' :: s =>
      let (t, s) ← readString '"' s
      return (.leaf (.text t), s)
    | '\'' :: s =>
      let (t, s) ← readString '\'' s
      return (.leaf (.text t), s)
    | '[' :: s =>
      if depth = 0 then none
      let (elements, s) ← readElements (readValue origin depth) origin (s.length + 1) s
      return (.leaf (.list (some origin) elements), s)
    | '\x7b' :: s =>
      if depth = 0 then none
      let (ms, s) ← readMembers (readValue origin depth) (s.length + 1) [] s
      return (.table .closed ms, s)
    | s =>
      let (value, s) ← readScalar s
      return (.leaf value, s)

def maxDepth : Nat := 81

structure Draft where
  root : Members
  /-- The path of the table that keys go to. -/
  path : List String

namespace Draft

def readHeader (d : Draft) : Reader Draft := fun s => do
  match s with
  | '[' :: s =>
    let ((path, key), s) ← readKey s
    let s ← readMark ']' (← readMark ']' s)
    return (⟨← d.root.openRow path key, path ++ [key]⟩, s)
  | s =>
    let ((path, key), s) ← readKey s
    let s ← readMark ']' s
    return (⟨← d.root.openTable path key, path ++ [key]⟩, s)

def readPair (origin : String) (d : Draft) : Reader Draft := fun s => do
  let ((path, key), s) ← readKey s
  let (node, s) ← readValue origin maxDepth (skipSpaces (← readMark '=' s))
  return ({ d with root := ← d.root.changeUnder (·.setKey path key node) d.path }, s)

/-- Reads statements up to the end of a text, `fuel` of them at most. -/
def readAll (origin : String) : (fuel : Nat) → Draft → List Char → Option Draft
  | 0, _, _ => none
  | fuel + 1, d, s => do
    match skipBlanks s with
    | [] => return d
    | '[' :: s =>
      let (d, s) ← d.readHeader s
      readAll origin fuel d (← finishLine s)
    | s =>
      let (d, s) ← d.readPair origin s
      readAll origin fuel d (← finishLine s)

end Draft

def readDocument (origin : String) (text : List Char) : Option Setting := do
  let d ← Draft.readAll origin (text.length + 1) ⟨[], []⟩ text
  return (Node.table .opened d.root).toSetting origin

end Depot.Toml
