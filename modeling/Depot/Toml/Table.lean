import Depot.Settings.Setting
/-!
# Tables of TOML under construction

While a document is read, a table remembers how it came to be, because that decides how it may grow:
a header opens a table once, dotted keys extend only tables that dotted keys made, and a table
between braces is closed for good.
-/

namespace Depot.Toml

inductive Standing
  /-- As part of the way to a table that was opened. -/
  | implied
  /-- As part of a dotted key. -/
  | dotted
  /-- By a header of its own. -/
  | opened
  | closed
deriving DecidableEq, Repr

inductive Node
  | leaf (value : Setting)
  | table (standing : Standing) (members : List (String × Node))
  /-- Tables that are opened one after the other; the last one is open. -/
  | rows (tables : List (List (String × Node)))
deriving Inhabited

abbrev Members := List (String × Node)

namespace Members

def replace (ms : Members) (key : String) (node : Node) : Members :=
  ms.map fun kv => if kv.1 = key then (key, node) else kv

def add? (ms : Members) (key : String) (node : Node) : Option Members :=
  match ms.lookup key with
  | some _ => none
  | none => some (ms ++ [(key, node)])

def changeLast (f : Members → Option Members) : List Members → Option (List Members)
  | [] => none
  | [t] => (f t).map fun t => [t]
  | t :: rest => (changeLast f rest).map (t :: ·)

/-- Changes the table at the end of a path; missing tables are made with a standing, and tables
with a standing that `enter` refuses are not entered. -/
def changeAt (made : Standing) (enter : Standing → Bool) (f : Members → Option Members) :
    List String → Members → Option Members
  | [], ms => f ms
  | key :: path, ms =>
    match ms.lookup key with
    | none => (changeAt made enter f path []).map fun inner => ms ++ [(key, .table made inner)]
    | some (.table standing inner) =>
      if enter standing then
        (changeAt made enter f path inner).map fun inner =>
          ms.replace key (.table standing inner)
      else none
    | some (.rows tables) =>
      (changeLast (changeAt made enter f path) tables).map fun tables =>
        ms.replace key (.rows tables)
    | some (.leaf _) => none

def changeUnder (f : Members → Option Members) (path : List String) (ms : Members) :
    Option Members :=
  changeAt .implied (· ≠ .closed) f path ms

def openTable (path : List String) (key : String) (ms : Members) : Option Members :=
  let step (ms : Members) : Option Members :=
    match ms.lookup key with
    | none => some (ms ++ [(key, .table .opened [])])
    | some (.table .implied inner) => some (ms.replace key (.table .opened inner))
    | some _ => none
  changeUnder step path ms

def openRow (path : List String) (key : String) (ms : Members) : Option Members :=
  let step (ms : Members) : Option Members :=
    match ms.lookup key with
    | none => some (ms ++ [(key, .rows [[]])])
    | some (.rows tables) => some (ms.replace key (.rows (tables ++ [[]])))
    | some _ => none
  changeUnder step path ms

/-- Whether the table at the end of a path, if there is one, was made by dotted keys. -/
def endsDotted : List String → Members → Bool
  | [], _ => true
  | [key], ms =>
    match ms.lookup key with
    | none => true
    | some (.table standing _) => standing = .dotted
    | some _ => false
  | key :: path, ms =>
    match ms.lookup key with
    | some (.table _ inner) => endsDotted path inner
    | _ => true

def setKey (path : List String) (key : String) (node : Node) (ms : Members) : Option Members :=
  if endsDotted path ms then
    changeAt .dotted (fun s => s = .dotted || s = .implied) (·.add? key node) path ms
  else none

end Members

namespace Node

mutual

def toSetting (origin : String) : Node → Setting
  | .leaf value => value
  | .table _ ms => .table (some origin) (membersSetting origin ms)
  | .rows tables => .list (some origin) (rowsSetting origin tables)

def membersSetting (origin : String) : List (String × Node) → List (String × Setting)
  | [] => []
  | (key, node) :: rest => (key, toSetting origin node) :: membersSetting origin rest

def rowsSetting (origin : String) : List (List (String × Node)) → List Setting
  | [] => []
  | ms :: rest => .table (some origin) (membersSetting origin ms) :: rowsSetting origin rest

end

end Node

end Depot.Toml
