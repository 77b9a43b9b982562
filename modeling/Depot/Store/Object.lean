import Depot.Store.Write
/-!
# Objects

Storing, reading, measuring, copying and deleting one object.
-/

namespace Depot

structure ObjectInfo where
  name : String
  size : Nat
deriving DecidableEq, Repr, Inhabited

structure Reader where
  handle : Handle
  offset : Nat
deriving DecidableEq, Repr, Inhabited

/-- Reads the next bytes, at most `limit` of them, or all that are left.  To read no bytes at all
never fails. -/
def Reader.read (r : Reader) (limit : Option Nat) (fs : FileSystem) :
    Except IoError (Bytes × Reader) :=
  if limit = some 0 then .ok ([], r)
  else do
    let rest ← fs.readFrom r.handle r.offset
    let bytes := match limit with
      | some n => rest.take n
      | none => rest
    return (bytes, { r with offset := r.offset + bytes.length })

namespace Store

def objectTarget : String := "stow_storage::engine"

/-- Opens the file of an object; `doing` is the context of its absence. -/
def openObject (path : Pathname) (doing : String) : Op StorageError Handle :=
  Op.mapError
    (fun e =>
      if e.kind = .notFound then .notFound path.display (some doing)
      else .during s!"open file '{path.display}'" e)
    (Op.query (·.openRead path))

def reportSize (name : String) (expected written : Nat) : Op StorageError Unit := do
  if written ≠ expected then
    Op.report
      { level := .debug
        target := objectTarget
        message := "Size hint differs from bytes written"
        fields := [("name", .quoted name), ("size_hint", .number expected),
          ("written", .number written)] }

def beginSave (s : Store) (name : String) : Op StorageError Writing := do
  let path ← s.resolve name
  beginWriting path

def endSave (name : String) (expected : Nat) (w : Writing) : Op StorageError Unit := do
  let written ← w.publish
  reportSize name expected written

/-- Stores what a source yields under a name; the expected size is only compared. -/
def saveFrom (s : Store) (name : String) (source : FileSystem → List Delivery)
    (expected : Nat) : Op StorageError Unit := do
  let w ← s.beginSave name
  let w ← w.receiveAll (source (← get).fs)
  endSave name expected w

def save (s : Store) (name : String) (source : List Delivery) (expected : Nat) :
    Op StorageError Unit :=
  s.saveFrom name (fun _ => source) expected

def saveBytes (s : Store) (name : String) (bytes : Bytes) : Op StorageError Unit :=
  s.save name [.chunk bytes] bytes.length

def openReader (s : Store) (name : String) : Op StorageError Reader := do
  let path ← s.resolve name
  let handle ← openObject path "open reader"
  return ⟨handle, 0⟩

def stat (s : Store) (name : String) : Op StorageError ObjectInfo := do
  let path ← s.resolve name
  match (← get).fs.stat path with
  | .error e =>
    if e.kind = .notFound then throw (.notFound path.display (some "stat"))
    else throw (.during s!"stat {path.display}" e)
  | .ok entry =>
    if entry.isDirectory then throw (.notFound path.display (some "stat"))
    else
      match (← get).fs.sizeOf entry with
      | 0 => throw (.empty path.display (some "stat"))
      | size => return ⟨name, size⟩

def copy (s : Store) (src dst : String) : Op StorageError Unit := do
  let source ← s.resolve src
  let target ← s.resolve dst
  let handle ← openObject source "open src"
  let written ← stageAndPublish target (deliveriesOf handle)
  Op.report
    { level := .debug
      target := objectTarget
      message := "Object copied"
      fields := [("src", .quoted src), ("dst", .quoted dst), ("bytes", .number written)] }

def delete (s : Store) (name : String) : Op StorageError Unit := do
  let path ← s.resolve name
  let absent (doing : String) (e : IoError) : StorageError :=
    if e.kind = .notFound then .notFound path.display (some "delete")
    else .during s!"{doing} {path.display}" e
  let entry ← Op.mapError (absent "stat") (Op.query (·.linkStat path))
  Op.mapError (absent "delete") <|
    if entry.isDirectory then removeTree path else Op.change_ (·.unlink path)
  Op.report
    { level := .debug
      target := objectTarget
      message := "Object deleted"
      fields := [("path", .plain path.display)] }

end Store

end Depot
