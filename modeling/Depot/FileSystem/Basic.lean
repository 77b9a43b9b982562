import Depot.Data.Table
import Depot.Path.Pathname
/-!
# File systems

A `FileSystem` binds positions to entries.  A position is the list of names from the root directory
down to an entry, without links, dots or doubled slashes, so the entries of a directory are exactly
the positions one name longer.  Regular files are kept in a second table under an identity of their
own: two positions may share one (hard links), and a file that was opened lives on after the last
position of it is gone.

The process is taken to be privileged: modes are kept, and refuse it nothing.

`view` is what can be observed: the kind of every entry, its mode, its bytes or its target.
Main facts: `at?_bind`, `at?_unbind`, `file?_store`.
-/

namespace Depot

abbrev Position := List Bytes

structure File where
  bytes : Bytes
  mode : Nat
  /-- The time of its last change. -/
  modified : Int
deriving DecidableEq, Repr, Inhabited

inductive Entry
  | directory (mode : Nat)
  /-- A regular file, by its identity. -/
  | file (id : Nat)
  /-- A symbolic link, by the path written into it. -/
  | link (target : Pathname)
  /-- The device that swallows every write and is always at its end. -/
  | device
deriving DecidableEq, Repr, Inhabited

namespace Entry

def isDirectory : Entry → Bool
  | directory _ => true
  | _ => false

def isFile : Entry → Bool
  | file _ => true
  | _ => false

def isLink : Entry → Bool
  | link _ => true
  | _ => false

end Entry

def directoryMode : Nat := 0o755

def fileMode : Nat := 0o644

/-- A file system as one process sees it. -/
structure FileSystem where
  /-- The entries below the root directory, which is always there. -/
  entries : Table Position Entry
  /-- The regular files by their identity. -/
  files : Table Nat File
  /-- Every identity in use is smaller. -/
  nextId : Nat
  workingDir : Position
  clock : Int
deriving DecidableEq

namespace FileSystem

def empty : FileSystem where
  entries := .empty
  files := .empty
  nextId := 0
  workingDir := []
  clock := 0

instance : Inhabited FileSystem := ⟨empty⟩

def at? (fs : FileSystem) (pos : Position) : Option Entry :=
  if pos = [] then some (.directory directoryMode) else fs.entries.get? pos

def bind (fs : FileSystem) (pos : Position) (entry : Entry) : FileSystem :=
  { fs with entries := fs.entries.set pos entry }

def unbind (fs : FileSystem) (pos : Position) : FileSystem :=
  { fs with entries := fs.entries.remove pos }

/-- The file system without the entry at a position and everything below it. -/
def prune (fs : FileSystem) (pos : Position) : FileSystem :=
  { fs with entries := fs.entries.filter fun p _ => !pos.isPrefixOf p }

/-- The file system with nothing below a position, and the entry there. -/
def clear (fs : FileSystem) (pos : Position) : FileSystem :=
  { fs with entries := fs.entries.filter fun p _ => !pos.isPrefixOf p || p = pos }

def file? (fs : FileSystem) (id : Nat) : Option File := fs.files.get? id

def store (fs : FileSystem) (id : Nat) (file : File) : FileSystem :=
  { fs with files := fs.files.set id file }

/-- The file system with one more file, not yet bound to a position, and its identity. -/
def allocate (fs : FileSystem) (file : File) : FileSystem × Nat :=
  ({ fs.store fs.nextId file with nextId := fs.nextId + 1 }, fs.nextId)

/-- The entries strictly below a position, with their names from there. -/
def below (fs : FileSystem) (pos : Position) : List (Position × Entry) :=
  fs.entries.pairs.filterMap fun kv =>
    if pos.isPrefixOf kv.1 && kv.1 ≠ pos then some (kv.1.drop pos.length, kv.2) else none

def sizeOf (fs : FileSystem) : Entry → Nat
  | .file id => ((fs.file? id).map (·.bytes.length)).getD 0
  | _ => 0

/-- The content of an entry, where it is a regular file. -/
def bytesOf (fs : FileSystem) : Entry → Option Bytes
  | .file id => (fs.file? id).map (·.bytes)
  | _ => none

inductive Node
  | directory (mode : Nat)
  | file (bytes : Bytes) (mode : Nat)
  | link (target : Pathname)
  | device
deriving DecidableEq, Repr

def nodeOf (fs : FileSystem) : Entry → Option Node
  | .directory mode => some (.directory mode)
  | .file id => (fs.file? id).map fun f => .file f.bytes f.mode
  | .link target => some (.link target)
  | .device => some .device

def view (fs : FileSystem) (pos : Position) : Option Node := fs.at? pos >>= fs.nodeOf

/-! ## Facts -/

@[simp] theorem at?_root (fs : FileSystem) :
    fs.at? [] = some (.directory directoryMode) := rfl

theorem at?_bind {fs : FileSystem} {pos : Position} (h : pos ≠ []) (entry : Entry)
    (pos' : Position) :
    (fs.bind pos entry).at? pos' = if pos' = pos then some entry else fs.at? pos' := by
  by_cases hroot : pos' = []
  · subst hroot
    rw [if_neg (fun h' => h h'.symm)]
    rfl
  · rw [at?, if_neg hroot, bind, Table.get?_set, at?, if_neg hroot]

theorem at?_unbind {fs : FileSystem} {pos : Position} (h : pos ≠ []) (pos' : Position) :
    (fs.unbind pos).at? pos' = if pos' = pos then none else fs.at? pos' := by
  by_cases hroot : pos' = []
  · subst hroot
    rw [if_neg (fun h' => h h'.symm)]
    rfl
  · rw [at?, if_neg hroot, unbind, Table.get?_remove, at?, if_neg hroot]

theorem unbind_bind_of_ne {pos spot : Position} (h : pos ≠ spot) (fs : FileSystem) (entry : Entry) :
    (fs.bind pos entry).unbind spot = (fs.unbind spot).bind pos entry := by
  simp [bind, unbind, Table.remove_set_of_ne h]

@[simp] theorem unbind_bind_self (fs : FileSystem) (pos : Position) (entry : Entry) :
    (fs.bind pos entry).unbind pos = fs.unbind pos := by
  simp [bind, unbind]

@[simp] theorem unbind_unbind_self (fs : FileSystem) (pos : Position) :
    (fs.unbind pos).unbind pos = fs.unbind pos := by
  simp [unbind]

theorem unbind_comm (fs : FileSystem) (pos spot : Position) :
    (fs.unbind pos).unbind spot = (fs.unbind spot).unbind pos := by
  rw [unbind, unbind, unbind, unbind, Table.remove_comm]

theorem unbind_prune (fs : FileSystem) (pos spot : Position) :
    (fs.prune pos).unbind spot = (fs.unbind spot).prune pos := by
  simp [prune, unbind, Table.remove_filter]

@[simp] theorem file?_bind (fs : FileSystem) (pos : Position) (entry : Entry) (id : Nat) :
    (fs.bind pos entry).file? id = fs.file? id := rfl

@[simp] theorem file?_unbind (fs : FileSystem) (pos : Position) (id : Nat) :
    (fs.unbind pos).file? id = fs.file? id := rfl

@[simp] theorem file?_prune (fs : FileSystem) (pos : Position) (id : Nat) :
    (fs.prune pos).file? id = fs.file? id := rfl

@[simp] theorem file?_clear (fs : FileSystem) (pos : Position) (id : Nat) :
    (fs.clear pos).file? id = fs.file? id := rfl

theorem file?_store (fs : FileSystem) (id : Nat) (file : File) (id' : Nat) :
    (fs.store id file).file? id' = if id' = id then some file else fs.file? id' :=
  Table.get?_set ..

@[simp] theorem store_store (fs : FileSystem) (id : Nat) (file file' : File) :
    (fs.store id file).store id file' = fs.store id file' := by
  simp [store]

@[simp] theorem at?_store (fs : FileSystem) (id : Nat) (file : File) (pos : Position) :
    (fs.store id file).at? pos = fs.at? pos := rfl

@[simp] theorem at?_allocate (fs : FileSystem) (file : File) (pos : Position) :
    (fs.allocate file).1.at? pos = fs.at? pos := rfl

theorem file?_allocate (fs : FileSystem) (file : File) (id : Nat) :
    (fs.allocate file).1.file? id = if id = fs.nextId then some file else fs.file? id :=
  Table.get?_set ..

theorem at?_prune {fs : FileSystem} {pos : Position} (h : pos ≠ []) (pos' : Position) :
    (fs.prune pos).at? pos' = if pos <+: pos' then none else fs.at? pos' := by
  by_cases hroot : pos' = []
  · subst hroot
    have hnot : ¬ pos <+: [] := fun h' => h (List.prefix_nil.1 h')
    rw [if_neg hnot]
    rfl
  · rw [at?, if_neg hroot, prune, Table.get?_filter, at?, if_neg hroot]
    by_cases hp : pos <+: pos'
    · rw [if_pos hp]
      have hb : pos.isPrefixOf pos' = true := List.isPrefixOf_iff_prefix.2 hp
      cases fs.entries.get? pos' <;> simp [hb]
    · rw [if_neg hp]
      have hb : pos.isPrefixOf pos' = false :=
        Bool.eq_false_iff.2 fun h' => hp (List.isPrefixOf_iff_prefix.1 h')
      cases fs.entries.get? pos' <;> simp [hb]

theorem at?_clear (fs : FileSystem) (pos pos' : Position) :
    (fs.clear pos).at? pos' = if pos <+: pos' ∧ pos' ≠ pos then none else fs.at? pos' := by
  by_cases hroot : pos' = []
  · subst hroot
    rw [if_neg fun h => h.2 (List.prefix_nil.1 h.1).symm]
    rfl
  · rw [at?, if_neg hroot, clear, Table.get?_filter, at?, if_neg hroot]
    by_cases hbelow : pos <+: pos' ∧ pos' ≠ pos
    · have hb : pos.isPrefixOf pos' = true := List.isPrefixOf_iff_prefix.2 hbelow.1
      rw [if_pos hbelow]
      cases fs.entries.get? pos' <;> simp [hb, hbelow.2]
    · have hb : (!pos.isPrefixOf pos' || decide (pos' = pos)) = true := by
        rw [Bool.or_eq_true, Bool.not_eq_true', decide_eq_true_eq]
        by_cases hsame : pos' = pos
        · exact Or.inr hsame
        · exact Or.inl (Bool.eq_false_iff.2 fun h =>
            hbelow ⟨List.isPrefixOf_iff_prefix.1 h, hsame⟩)
      rw [if_neg hbelow]
      cases fs.entries.get? pos' <;> simp [hb]

/-- A tree goes by being emptied first. -/
theorem unbind_clear (fs : FileSystem) (pos : Position) :
    (fs.clear pos).unbind pos = fs.prune pos := by
  have hkeep (p : Position) : (decide (p ≠ pos) && (!pos.isPrefixOf p || decide (p = pos))) =
      !pos.isPrefixOf p := by
    by_cases hp : p = pos
    · subst hp
      simp
    · simp [hp]
  have hentries : (fs.clear pos).entries.remove pos = (fs.prune pos).entries := by
    apply Table.eq_of_pairs
    simp only [clear, prune, Table.remove, Table.filter, List.filter_filter, hkeep]
  rw [unbind, hentries]
  rfl

end FileSystem

end Depot
