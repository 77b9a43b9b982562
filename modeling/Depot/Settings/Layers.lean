import Depot.Settings.KeyPath
/-!
# Layers of settings

Settings come in layers, and a later layer wins: a file, the variables of the environment whose
names begin with `STOW__`, and last a directory given on the command line.

A layer is a map, and its entries are put in place in no certain order.  Where the paths of two keys
lie on one way, the order counts, so everything that is loaded depends on a `SettingOrder`.
-/

namespace Depot

/-- A layer: keys and the values that are put under them. -/
abbrev SettingLayer := List (String × Setting)

inductive SettingSource
  | file
  | environment
  | commandLine
deriving DecidableEq, Repr

/-- The order in which the entries of each layer are put in place. -/
structure SettingOrder where
  arrange : SettingSource → SettingLayer → SettingLayer
  perm : ∀ source layer, (arrange source layer).Perm layer

namespace SettingOrder

def asWritten : SettingOrder := ⟨fun _ layer => layer, fun _ layer => .refl layer⟩

def reversed : SettingOrder := ⟨fun _ layer => layer.reverse, fun _ layer => layer.reverse_perm⟩

end SettingOrder

namespace Setting

def withLayer (s : Setting) (layer : SettingLayer) : Setting :=
  layer.foldl (fun s kv => putAt (keyPath kv.1) kv.2 s) s

def ofLayers (layers : List SettingLayer) : Setting := layers.foldl withLayer emptyTable

end Setting

namespace SettingLayer

/-- A text without some characters at its front; none if it begins otherwise. -/
def dropFront? : List Char → List Char → Option (List Char)
  | [], s => some s
  | _ :: _, [] => none
  | p :: front, c :: s => if p = c then dropFront? front s else none

/-- A name with each pair of underscores, from the front on, made a point. -/
def pointed : List Char → List Char
  | '_' :: '_' :: rest => '.' :: pointed rest
  | c :: rest => c :: pointed rest
  | [] => []

/-- A character in lower case.  Of the characters beyond ASCII only the sign for kelvin becomes a
letter of ASCII; a key with any other of them leads nowhere else in either case. -/
def lowerChar (c : Char) : Char := if c = '\u212A' then 'k' else c.toLower

/-- The key that a variable of the environment sets; the case of its name does not matter. -/
def variableKey? (name : String) : Option String :=
  (dropFront? "stow__".toList (name.toList.map lowerChar)).map fun rest =>
    String.ofList (pointed rest)

/-- A layer with a value under a key, which replaces an earlier one. -/
def insert (layer : SettingLayer) (key : String) (value : Setting) : SettingLayer :=
  layer.filter (fun kv => kv.1 ≠ key) ++ [(key, value)]

def ofEnvironment (environment : List (String × String)) : SettingLayer :=
  environment.foldl (fun layer (name, value) =>
    match variableKey? name with
    | some key => layer.insert key (.text value)
    | none => layer) []

def ofRoot (root : String) : SettingLayer :=
  [("type", .text "filesystem"), ("filesystem.path", .text root)]

end SettingLayer

example : SettingLayer.variableKey? "Stow__Filesystem__Path" = some "filesystem.path" := by
  decide
example : SettingLayer.variableKey? "STOW_TYPE" = none := by decide

end Depot
