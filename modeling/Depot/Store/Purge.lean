import Depot.Store.Listing
/-!
# Purging staging files

A write that never ended leaves its staging file behind.  `Store.purge` removes the staging files
below the root that have not changed for some time.  What it removes is decided first, by
`Traversal.stale`, from the entries alone; `removeStale` then takes them away one after the other
and counts.
-/

namespace Depot

structure PurgeReport where
  removed : Nat
  failed : Nat
deriving DecidableEq, Repr, Inhabited

def isStagingName (leaf : Bytes) : Bool :=
  (Bytes.text? leaf).isSome && stagingSuffix.isSuffixOf leaf

/-- A file that has not changed for `maxAge`; a change after `now` counts as no change at all. -/
def isStale (now : Int) (maxAge : Nat) (modified : Int) : Bool :=
  if now < modified then true else decide ((maxAge : Int) ≤ now - modified)

/-- An entry that a purge tries to remove: a staging file, stale or with a path so long that its
age cannot be asked for. -/
def isPurged (fs : FileSystem) (now : Int) (maxAge : Nat) (path : Pathname)
    (leaf : Option Bytes) : Entry → Bool
  | .file id =>
    leaf.any isStagingName &&
      (!path.fits || ((fs.file? id).map fun f => isStale now maxAge f.modified).getD true)
  | _ => false

/-- The entries that a purge tries to remove, by path and position. -/
def Traversal.stale (t : Traversal) (fs : FileSystem) (root : Pathname) (maxAge : Nat) :
    List (Pathname × Position) :=
  let top := if isPurged fs fs.clock maxAge root root.fileName? t.topEntry then
    [(root, t.top)] else []
  let isStaleEntry (found : Position × Entry) : Bool :=
    isPurged fs fs.clock maxAge (entryPath root found.1) found.1.getLast? found.2
  top ++ (t.entries.filter isStaleEntry).map fun found =>
    (entryPath root found.1, t.base ++ found.1)

/-- Removes entries one after the other; what has too long a path stays. -/
def removeStale : List (Pathname × Position) → Op StorageError PurgeReport
  | [] => return ⟨0, 0⟩
  | (path, pos) :: rest => do
    if path.fits then
      Op.change_ fun fs => .ok (fs.unbind pos)
      let report ← removeStale rest
      return { report with removed := report.removed + 1 }
    else
      Op.report
        { level := .warn
          target := "stow_storage::maintenance"
          message := "Staging purge failed"
          fields := [("path", .plain path.display),
            ("error", .plain IoError.nameTooLong.message)] }
      let report ← removeStale rest
      return { report with failed := report.failed + 1 }

/-- Removes the staging files below the root that are at least `maxAge` old. -/
def Store.purge (s : Store) (maxAge : Nat) : Op StorageError PurgeReport := do
  let fs := (← get).fs
  let report ← removeStale <| match fs.traverse s.root with
    | .ok found => found.stale fs s.root maxAge
    | .error _ => []
  if report ≠ ⟨0, 0⟩ then
    Op.report
      { level := .info
        target := "stow_storage::maintenance"
        message := "Purged stale staging artifacts"
        fields := [("removed", .number report.removed), ("failed", .number report.failed)] }
  return report

end Depot
