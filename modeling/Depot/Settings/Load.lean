import Depot.FileSystem.Content
import Depot.Json.Value
import Depot.Settings.Decode
import Depot.Settings.Layers
import Depot.Toml.Document
import Depot.Yaml.Document
/-!
# Loading the configuration of a store

`StorageConfig.load` merges the layers, each in some order of its entries: a file, if one is named,
the environment, and the directory of the command line.  The ending of the name of a file tells its
format; a name without a file may lack the ending.
-/

namespace Depot

inductive SettingFormat
  | toml
  | json
  | yaml
deriving DecidableEq, Repr

namespace SettingFormat

def endings : SettingFormat → List String
  | toml => ["toml"]
  | json => ["json"]
  | yaml => ["yaml", "yml"]

def all : List SettingFormat := [toml, json, yaml]

def ofEnding? (ending : Bytes) : Option SettingFormat :=
  all.find? fun format => format.endings.any fun e => Bytes.ofString e = ending

end SettingFormat

mutual

/-- The setting that a value of JSON stands for; of members of one name the last counts. -/
def Setting.ofJson (origin : String) : Json.Value → Setting
  | .null => .nothing (some origin)
  | .boolean b => .boolean b
  | .number (.natural n) => .integer n
  | .number (.negative n) => .integer (-(n + 1 : Nat))
  | .number (.real x) => .real x
  | .text s => .text s
  | .list elements => .list (some origin) (elementsOfJson origin elements)
  | .record ms => .table (some origin) (membersOfJson origin ms)

def elementsOfJson (origin : String) : List Json.Value → List Setting
  | [] => []
  | v :: rest => Setting.ofJson origin v :: elementsOfJson origin rest

/-- The settings that members stand for, without those that a later member replaces. -/
def membersOfJson (origin : String) : List (String × Json.Value) → List (String × Setting)
  | [] => []
  | (key, v) :: rest =>
    let later := membersOfJson origin rest
    if (later.lookup key).isSome then later else (key, Setting.ofJson origin v) :: later

end

/-- How deep the values of a file in JSON may be nested. -/
def jsonDepth : Nat := 128

def SettingFormat.read (format : SettingFormat) (origin text : String) : Option Setting :=
  match format with
  | toml => Toml.readDocument origin text.toList
  | yaml => Yaml.readDocument origin text.toList
  | json =>
    match Json.readWhole (Json.Value.read jsonDepth) text with
    | .ok v => some (.ofJson origin v)
    | .error _ => none

inductive LoadFault
  | noFile (name : Pathname)
  /-- The ending of the name stands for no format. -/
  | unknownFormat (path : Pathname)
  /-- The file breaks the rules of its format. -/
  | malformed (path : Pathname)
  /-- The merged settings are no configuration. -/
  | misfit (m : Misfit)
deriving DecidableEq, Repr

namespace LoadFault

/-- The text of a fault and its causes, the outermost first. -/
def chain : LoadFault → List String
  | noFile name => ["Failed to build config", s!"configuration file \"{name.display}\" not found"]
  | unknownFormat path =>
    ["Failed to build config",
      s!"configuration file \"{path.display}\" is not of a supported file format"]
  | malformed path => ["Failed to build config", s!"malformed text in {path.display}"]
  | misfit m => ["Failed to deserialize config", m.message]

end LoadFault

namespace Pathname

/-- The ending of a name, behind its last dot; a dot at the front begins no ending. -/
def endingOf (name : Bytes) : Option Bytes :=
  let ending := (name.reverse.takeWhile (· ≠ 46)).reverse
  if ending.length + 1 < name.length then some ending else none

/-- The components that lead from one place to another: up as far as the two part, then down. -/
def wayFrom : List Component → List Component → List Component
  | b :: base, c :: path =>
    if c = b then wayFrom base path else (b :: base).map (fun _ => .parent) ++ c :: path
  | base, path => base.map (fun _ => .parent) ++ path

def relativeTo (base p : Pathname) : Pathname :=
  match wayFrom base.components p.components with
  | [] => empty
  | c :: rest => (rest.map Component.bytes).foldl (fun p bytes => p.join ⟨bytes⟩) ⟨c.bytes⟩

end Pathname

namespace FileSystem

def leadsToFile (fs : FileSystem) (p : Pathname) : Bool :=
  match fs.stat p with
  | .ok entry => entry.isFile
  | .error _ => false

/-- The names under which a file of settings may be found: its own, or with an ending. -/
def settingFileNames (p : Pathname) : List (Pathname × SettingFormat) :=
  match p.parent?, p.fileName? with
  | some dir, some name =>
    SettingFormat.all.flatMap fun format => format.endings.map fun ending =>
      (dir.join ⟨name ++ 46 :: Bytes.ofString ending⟩, format)
  | _, _ => []

def findSettings (fs : FileSystem) (name : Pathname) :
    Except LoadFault (Pathname × SettingFormat) :=
  let path := (Pathname.ofRootNames fs.workingDir).join name
  if fs.leadsToFile path then
    match (path.fileName?.bind Pathname.endingOf).bind SettingFormat.ofEnding? with
    | some format => .ok (path, format)
    | none => .error (.unknownFormat path)
  else
    match (settingFileNames path).find? fun found => fs.leadsToFile found.1 with
    | some found => .ok found
    | none => .error (.noFile name)

/-- The bytes of a file without the mark at their front that names their encoding. -/
def withoutMark : Bytes → Bytes
  | 0xEF :: 0xBB :: 0xBF :: rest => rest
  | bytes => bytes

def readSettings (fs : FileSystem) (name : Pathname) : Except LoadFault SettingLayer := do
  let (path, format) ← fs.findSettings name
  let origin := ((Pathname.ofRootNames fs.workingDir).relativeTo path).display
  let bytes := match (fs.openRead path).bind fun handle => fs.readFrom handle 0 with
    | .ok bytes => bytes
    | .error _ => []
  match format.read origin (withoutMark bytes).lossy with
  | some (.table _ ms) => return ms
  | _ => throw (.malformed path)

end FileSystem

/-- The merged settings of a file, the environment and the directory of the command line. -/
def Setting.merged (file : SettingLayer) (environment : List (String × String))
    (root : Option String) (order : SettingOrder) : Setting :=
  .ofLayers [order.arrange .file file, order.arrange .environment (.ofEnvironment environment),
    order.arrange .commandLine ((root.map SettingLayer.ofRoot).getD [])]

def StorageConfig.load (file : Option Pathname) (environment : List (String × String))
    (root : Option Pathname) (fs : FileSystem) (order : SettingOrder := .asWritten) :
    Except LoadFault StorageConfig := do
  let layer ← match file with
    | some name => fs.readSettings name
    | none => pure []
  let merged := Setting.merged layer environment (root.map Pathname.display) order
  match StorageConfig.ofSetting merged with
  | .ok config => return config
  | .error m => throw (.misfit m)

end Depot
