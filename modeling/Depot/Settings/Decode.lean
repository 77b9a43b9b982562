import Depot.Decimal.FloatText
import Depot.Settings.Setting
import Depot.Store.Config
import Depot.Text.Quoted
/-!
# Settings as the configuration of a store

`StorageConfig.ofSetting` reads a configuration from merged settings.  A missing `type` means a
store in files, a missing `filesystem` section stays missing; whatever else is there is passed
over.  A `Misfit` tells which setting has a wrong shape.
-/

namespace Depot

inductive Misfit.Problem
  /-- None of the names among which there is a choice. -/
  | unknownChoice (type name : String)
  /-- Neither a name nor a table with one key. -/
  | noChoice (type : String)
  | wrongType (found expected : String)
deriving DecidableEq, Repr

structure Misfit where
  problem : Misfit.Problem
  /-- Where the setting is among the merged ones. -/
  key : String
  origin : Option String
deriving DecidableEq, Repr

namespace Misfit

def Problem.message : Problem → String
  | unknownChoice type name => s!"enum {type} does not have variant constructor {name}"
  | noChoice type =>
    s!"value of enum {type} should be represented by either string or table with exactly one key"
  | wrongType found expected => s!"invalid type: {found}, expected {expected}"

def message (m : Misfit) : String :=
  let place := match m.origin with
    | some origin => s!" in {origin}"
    | none => ""
  s!"{m.problem.message} for key `{m.key}`{place}"

end Misfit

namespace Setting

def describe : Setting → String
  | .nothing _ => "unit value"
  | .boolean b => s!"boolean `{b}`"
  | .integer i => s!"integer `{i}`"
  | .real x => s!"floating point `{FloatStyle.pointed.text x}`"
  | .text s => "string " ++ quoted s
  | .list _ _ => "sequence"
  | .table _ _ => "map"

/-- Where a setting came from, as far as it is known. -/
def origin? : Setting → Option String
  | .nothing origin => origin
  | .list origin _ => origin
  | .table origin _ => origin
  | _ => none

def plainText? : Setting → Option String
  | .boolean b => some (toString b)
  | .integer i => some (toString i)
  | .real x => some (FloatStyle.plain.text x)
  | .text s => some s
  | _ => none

def toPath (key : String) (s : Setting) : Except Misfit Pathname :=
  match s.plainText? with
  | some t => .ok (.ofString t)
  | none => .error ⟨.wrongType s.describe "a string", key, s.origin?⟩

/-- Reads a section, which is a table, a list of its values in their order, or nothing. -/
def toSection (key : String) : Setting → Except Misfit (Option FsConfig)
  | .nothing _ => .ok none
  | .table origin ms =>
    match (Setting.table origin ms).member? "path" with
    | some s => do return some ⟨← s.toPath s!"{key}.path"⟩
    | none => .ok (some ⟨.empty⟩)
  | .list _ [] => .ok (some ⟨.empty⟩)
  | .list _ (s :: _) => do return some ⟨← s.toPath s!"{key}[0]"⟩
  | s => .error ⟨.wrongType s.describe "struct FsConfig", key, none⟩

/-- Reads a kind of store, which is a name or a table with the name as its only key. -/
def toKind (key : String) (s : Setting) : Except Misfit BackendKind :=
  let known (name : String) : Except Misfit BackendKind :=
    match BackendKind.ofName? name with
    | some kind => .ok kind
    | none => .error ⟨.unknownChoice "BackendKind" name, key, none⟩
  match s with
  | .text name => known name
  | .table _ [(name, _)] => known name
  | _ => .error ⟨.noChoice "BackendKind", key, none⟩

end Setting

def StorageConfig.ofSetting (s : Setting) : Except Misfit StorageConfig := do
  let kind ← match s.member? "type" with
    | some type => type.toKind "type"
    | none => pure .filesystem
  let filesystem ← match s.member? "filesystem" with
    | some files => files.toSection "filesystem"
    | none => pure none
  return ⟨kind, filesystem⟩

end Depot
