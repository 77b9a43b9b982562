import Depot.FileSystem.Lookup
/-!
# Open files

A `Handle` is what opening a path yields.  It keeps the identity of the file, not its path: reading
and writing go to that file whatever happens to the position it was found at.

Main facts: `overwrite_end`, `setHandleMode_file`; writing beyond the end fills the gap with zeros.
-/

namespace Depot

inductive Handle
  | file (id : Nat)
  | directory
  | device
deriving DecidableEq, Repr, Inhabited

/-- The content after writing bytes at an offset; a gap before the offset is filled with zeros. -/
def overwrite (content : Bytes) (offset : Nat) (data : Bytes) : Bytes :=
  if data = [] then content
  else
    content.take offset ++ List.replicate (offset - content.length) 0 ++ data
      ++ content.drop (offset + data.length)

theorem overwrite_end (content data : Bytes) :
    overwrite content content.length data = content ++ data := by
  unfold overwrite
  split <;> simp_all

namespace FileSystem

def handleOf : Entry → Handle
  | .file id => .file id
  | .directory _ => .directory
  | _ => .device

/-- Opens what a path names for reading; directories can be opened, too. -/
def openRead (fs : FileSystem) (p : Pathname) : Except IoError Handle :=
  handleOf <$> fs.stat p

def readFrom (fs : FileSystem) (h : Handle) (offset : Nat) : Except IoError Bytes :=
  match h with
  | .file id => .ok (((fs.file? id).map (·.bytes.drop offset)).getD [])
  | .directory => .error .isDirectory
  | .device => .ok []

/-- Opens what a path names for writing, emptied or new: an existing file keeps its identity and
its mode, links are followed, and a link to nothing creates its target. -/
def create (fs : FileSystem) (p : Pathname) : Except IoError (FileSystem × Handle) := do
  if p.endsInSlash then
    let _ ← fs.locateLast p
    throw .isDirectory
  match ← fs.locate true p with
  | .occupied _ (.file id) =>
    let mode := ((fs.file? id).map (·.mode)).getD fileMode
    return (fs.store id ⟨[], mode, fs.clock⟩, .file id)
  | .occupied _ (.directory _) => throw .isDirectory
  | .occupied _ _ => return (fs, .device)
  | .vacant dir name =>
    let (fs, id) := fs.allocate ⟨[], fileMode, fs.clock⟩
    return (fs.bind (dir ++ [name]) (.file id), .file id)

/-- Opens what a path names for appending, new if nothing is there. -/
def openAppend (fs : FileSystem) (p : Pathname) : Except IoError (FileSystem × Handle) := do
  if p.endsInSlash then
    let _ ← fs.locateLast p
    throw .isDirectory
  match ← fs.locate true p with
  | .occupied _ (.file id) => return (fs, .file id)
  | .occupied _ (.directory _) => throw .isDirectory
  | .occupied _ _ => return (fs, .device)
  | .vacant dir name =>
    let (fs, id) := fs.allocate ⟨[], fileMode, fs.clock⟩
    return (fs.bind (dir ++ [name]) (.file id), .file id)

/-- Writes bytes at an offset of an open file; a device swallows them. -/
def writeAt (fs : FileSystem) (h : Handle) (offset : Nat) (data : Bytes) : FileSystem :=
  match h with
  | .file id =>
    match fs.file? id with
    | some f => fs.store id { f with bytes := overwrite f.bytes offset data, modified := fs.clock }
    | none => fs
  | _ => fs

def append (fs : FileSystem) (h : Handle) (data : Bytes) : FileSystem :=
  match h with
  | .file id => fs.writeAt h ((fs.file? id).map (·.bytes.length) |>.getD 0) data
  | _ => fs

/-- Sets the permission bits of an open file, as a privileged process may. -/
def setHandleMode (fs : FileSystem) (h : Handle) (mode : Nat) : Except IoError FileSystem :=
  match h with
  | .file id =>
    match fs.file? id with
    | some f => .ok (fs.store id { f with mode := mode })
    | none => .ok fs
  | _ => .ok fs

theorem setHandleMode_file {fs : FileSystem} {id : Nat} {f : File} (h : fs.file? id = some f)
    (mode : Nat) :
    fs.setHandleMode (.file id) mode = .ok (fs.store id { f with mode := mode }) := by
  rw [setHandleMode, h]

theorem setHandleMode_ne_error (fs : FileSystem) (h : Handle) (mode : Nat) (e : IoError) :
    fs.setHandleMode h mode ≠ .error e := by
  intro he
  unfold setHandleMode at he
  split at he
  · split at he <;> cases he
  · cases he

/-- Forces an open file to the medium; only files can be forced. -/
def sync (h : Handle) : Except IoError Unit :=
  match h with
  | .device => .error .invalid
  | _ => .ok ()

def lengthOf (fs : FileSystem) : Handle → Nat
  | .file id => ((fs.file? id).map (·.bytes.length)).getD 0
  | _ => 0

/-- Sets the time of the last change of the file that a path names. -/
def setModified (fs : FileSystem) (p : Pathname) (time : Int) : Except IoError FileSystem := do
  match ← fs.stat p with
  | .file id =>
    match fs.file? id with
    | some f => return fs.store id { f with modified := time }
    | none => return fs
  | _ => return fs

end FileSystem

end Depot
