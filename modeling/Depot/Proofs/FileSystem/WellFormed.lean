import Depot.FileSystem.Directory
import Depot.Proofs.Path.Names
/-!
# Well-formed file systems

The entries of a file system form a tree: whatever is bound stands in a directory and has a legal
name, and every regular file that is bound exists.  Each primitive change keeps this.

* `WellFormed.directory_of_append` — all positions above an entry are directories;
* `WellFormed.bind`, `WellFormed.unbind`, `WellFormed.prune`, `WellFormed.clear`,
  `WellFormed.store`, `WellFormed.allocate` — what each change has to respect;
* `PlainBelow` — a subtree of directories and singly linked regular files, and how the changes of
  a store keep it.
-/

namespace Depot

@[simp] theorem Entry.isDirectory_iff {entry : Entry} :
    entry.isDirectory = true ↔ ∃ mode, entry = .directory mode := by
  cases entry <;> simp [isDirectory]

theorem Entry.isLink_iff {entry : Entry} :
    entry.isLink = true ↔ ∃ target, entry = .link target := by
  cases entry <;> simp [isLink]

namespace FileSystem

/-- What can be the name of an entry. -/
structure IsEntryName (name : Bytes) : Prop extends Pathname.IsName name where
  length_le : name.length ≤ maxNameLength
  zero_notMem : 0 ∉ name

theorem isEntryName_letter {letter : UInt8} (h : letter ≠ 0 ∧ letter ≠ 46 ∧ letter ≠ 47) :
    IsEntryName [letter] := by
  obtain ⟨hzero, hdot, hslash⟩ := h
  exact ⟨⟨by simp, by simpa [Pathname.slash] using hslash.symm, by simpa [Pathname.dot] using hdot,
    by simp [Pathname.dotDot]⟩, by simp [maxNameLength], by simpa using hzero.symm⟩

/-- The entries form a tree, and the files that they name exist. -/
structure WellFormed (fs : FileSystem) : Prop where
  parent : ∀ {pos name entry}, fs.at? (pos ++ [name]) = some entry →
    ∃ mode, fs.at? pos = some (.directory mode)
  name : ∀ {pos name entry}, fs.at? (pos ++ [name]) = some entry → IsEntryName name
  file : ∀ {pos id}, fs.at? pos = some (.file id) → ∃ f, fs.file? id = some f
  fresh : ∀ {id f}, fs.file? id = some f → id < fs.nextId

namespace WellFormed

variable {fs : FileSystem}

theorem directory_of_append (h : fs.WellFormed) {pos rest : Position} {entry : Entry}
    (hrest : rest ≠ []) (he : fs.at? (pos ++ rest) = some entry) :
    ∃ mode, fs.at? pos = some (.directory mode) := by
  induction rest using List.reverseRecOn generalizing entry with
  | nil => exact absurd rfl hrest
  | append_singleton rest name ih =>
      rw [← List.append_assoc] at he
      obtain ⟨mode, hmode⟩ := h.parent he
      by_cases hnil : rest = []
      · exact ⟨mode, by simpa [hnil] using hmode⟩
      · exact ih hnil hmode

theorem names_of_append (h : fs.WellFormed) {pos rest : Position} {entry : Entry}
    (he : fs.at? (pos ++ rest) = some entry) : ∀ name ∈ rest, IsEntryName name := by
  induction rest using List.reverseRecOn generalizing entry with
  | nil => exact fun _ hname => absurd hname List.not_mem_nil
  | append_singleton rest last ih =>
      rw [← List.append_assoc] at he
      obtain ⟨mode, hmode⟩ := h.parent he
      intro name hname
      rcases List.mem_append.1 hname with hname | hname
      · exact ih hmode name hname
      · exact List.mem_singleton.1 hname ▸ h.name he

theorem directory_of_isPrefix (h : fs.WellFormed) {root pos : Position} {mode : Nat}
    (hroot : fs.at? root = some (.directory mode)) (hpos : pos <+: root) :
    ∃ mode, fs.at? pos = some (.directory mode) := by
  obtain ⟨rest, rfl⟩ := hpos
  by_cases hrest : rest = []
  · exact ⟨mode, by rwa [hrest, List.append_nil] at hroot⟩
  · exact h.directory_of_append hrest hroot

theorem isName (h : fs.WellFormed) {pos : Position} {entry : Entry}
    (he : fs.at? pos = some entry) : ∀ name ∈ pos, Pathname.IsName name := by
  have hentry : fs.at? ([] ++ pos) = some entry := he
  exact fun name hname => (h.names_of_append hentry name hname).toIsName

theorem at?_append_of_not_directory (h : fs.WellFormed) {pos rest : Position}
    (hpos : ∀ mode, fs.at? pos ≠ some (.directory mode)) (hrest : rest ≠ []) :
    fs.at? (pos ++ rest) = none := by
  cases he : fs.at? (pos ++ rest) with
  | none => rfl
  | some entry =>
      obtain ⟨mode, hmode⟩ := h.directory_of_append hrest he
      exact absurd hmode (hpos mode)

/-! ## The primitive changes -/

theorem bind (h : fs.WellFormed) {dir : Position} {name : Bytes} {entry : Entry} {mode : Nat}
    (hdir : fs.at? dir = some (.directory mode)) (hname : IsEntryName name)
    (hbelow : entry.isDirectory ∨ ∀ mode, fs.at? (dir ++ [name]) ≠ some (.directory mode))
    (hfile : ∀ id, entry = .file id → ∃ f, fs.file? id = some f) :
    (fs.bind (dir ++ [name]) entry).WellFormed where
  parent := by
    intro pos last entry' he
    rw [at?_bind (by simp)] at he ⊢
    split at he
    · rename_i heq
      obtain ⟨rfl, -⟩ := List.append_inj' heq rfl
      exact ⟨mode, by rw [if_neg (by simp), hdir]⟩
    · obtain ⟨mode', hmode'⟩ := h.parent he
      by_cases heq : pos = dir ++ [name]
      · rcases hbelow with hd | hd
        · obtain ⟨mode'', rfl⟩ := Entry.isDirectory_iff.1 hd
          exact ⟨mode'', by rw [if_pos heq]⟩
        · exact absurd (heq ▸ hmode') (hd mode')
      · exact ⟨mode', by rw [if_neg heq, hmode']⟩
  name := by
    intro pos last entry' he
    rw [at?_bind (by simp)] at he
    split at he
    · rename_i heq
      obtain ⟨-, hlast⟩ := List.append_inj' heq rfl
      rwa [List.singleton_inj.1 hlast]
    · exact h.name he
  file := by
    intro pos id he
    rw [at?_bind (by simp)] at he
    split at he
    · exact hfile id (Option.some.inj he)
    · exact h.file he
  fresh := h.fresh

theorem unbind (h : fs.WellFormed) {pos : Position} (hroot : pos ≠ [])
    (hpos : ∀ mode, fs.at? pos ≠ some (.directory mode)) : (fs.unbind pos).WellFormed where
  parent := by
    intro pos' name entry he
    rw [at?_unbind hroot] at he ⊢
    split at he
    · cases he
    · obtain ⟨mode, hmode⟩ := h.parent he
      refine ⟨mode, ?_⟩
      rw [if_neg (fun heq : pos' = pos => hpos mode (heq ▸ hmode)), hmode]
  name := by
    intro pos' name entry he
    rw [at?_unbind hroot] at he
    split at he
    · cases he
    · exact h.name he
  file := by
    intro pos' id he
    rw [at?_unbind hroot] at he
    split at he
    · cases he
    · exact h.file he
  fresh := h.fresh

theorem prune (h : fs.WellFormed) {pos : Position} (hroot : pos ≠ []) :
    (fs.prune pos).WellFormed where
  parent := by
    intro pos' name entry he
    rw [at?_prune hroot] at he ⊢
    split at he
    · cases he
    · rename_i hnot
      obtain ⟨mode, hmode⟩ := h.parent he
      refine ⟨mode, ?_⟩
      rw [if_neg (fun hp => hnot (hp.trans (List.prefix_append ..))), hmode]
  name := by
    intro pos' name entry he
    rw [at?_prune hroot] at he
    split at he
    · cases he
    · exact h.name he
  file := by
    intro pos' id he
    rw [at?_prune hroot] at he
    split at he
    · cases he
    · exact h.file he
  fresh := h.fresh

theorem clear (h : fs.WellFormed) (pos : Position) : (fs.clear pos).WellFormed where
  parent := by
    intro pos' name entry he
    rw [at?_clear] at he ⊢
    split at he
    · cases he
    · rename_i hnot
      obtain ⟨mode, hmode⟩ := h.parent he
      refine ⟨mode, ?_⟩
      rw [if_neg, hmode]
      rintro ⟨hbelow, -⟩
      refine hnot ⟨hbelow.trans (List.prefix_append ..), fun heq => ?_⟩
      have hlength := hbelow.length_le
      rw [← heq, List.length_append, List.length_singleton] at hlength
      omega
  name := by
    intro pos' name entry he
    rw [at?_clear] at he
    split at he
    · cases he
    · exact h.name he
  file := by
    intro pos' id he
    rw [at?_clear] at he
    split at he
    · cases he
    · exact h.file he
  fresh := h.fresh

theorem store (h : fs.WellFormed) {id : Nat} {f : File} (f' : File)
    (hid : fs.file? id = some f) : (fs.store id f').WellFormed where
  parent := h.parent
  name := h.name
  file := by
    intro pos id' he
    rw [file?_store]
    split
    · exact ⟨f', rfl⟩
    · exact h.file he
  fresh := by
    intro id' f'' hf
    rw [file?_store] at hf
    split at hf
    · rename_i heq
      subst heq
      exact h.fresh hid
    · exact h.fresh hf

theorem allocate (h : fs.WellFormed) (f : File) : (fs.allocate f).1.WellFormed where
  parent := h.parent
  name := h.name
  file := by
    intro pos id he
    rw [file?_allocate]
    split
    · exact ⟨f, rfl⟩
    · exact h.file he
  fresh := by
    intro id f' hf
    rw [file?_allocate] at hf
    split at hf
    · rename_i heq
      exact heq ▸ Nat.lt_succ_self _
    · exact Nat.lt_succ_of_lt (h.fresh hf)

theorem not_bound_nextId (h : fs.WellFormed) (pos : Position) :
    fs.at? pos ≠ some (.file fs.nextId) := by
  intro he
  obtain ⟨f, hf⟩ := h.file he
  exact absurd (h.fresh hf) (Nat.lt_irrefl _)

end WellFormed

/-! ## Subtrees without links -/

/-- Strictly below a position there are only directories and regular files that have no other
name anywhere. -/
def PlainBelow (fs : FileSystem) (root : Position) : Prop :=
  ∀ names entry, names ≠ [] → fs.at? (root ++ names) = some entry →
    (∃ mode, entry = .directory mode) ∨
      ∃ id, entry = .file id ∧ ∀ pos, fs.at? pos = some (.file id) → pos = root ++ names

namespace PlainBelow

variable {fs : FileSystem} {root : Position}

theorem eq_of_file (h : fs.PlainBelow root) {names pos : Position} {id : Nat} (hne : names ≠ [])
    (he : fs.at? (root ++ names) = some (.file id)) (hpos : fs.at? pos = some (.file id)) :
    pos = root ++ names := by
  rcases h names _ hne he with ⟨mode, hmode⟩ | ⟨id', hid, hone⟩
  · cases hmode
  · cases hid
    exact hone pos hpos

theorem bind_directory (h : fs.PlainBelow root) {pos : Position} (mode : Nat) (hpos : pos ≠ []) :
    (fs.bind pos (.directory mode)).PlainBelow root := by
  intro names entry hne he
  rw [at?_bind hpos] at he
  split at he
  · exact Or.inl ⟨mode, (Option.some.inj he).symm⟩
  · rcases h names entry hne he with hd | ⟨id, rfl, hone⟩
    · exact Or.inl hd
    · refine Or.inr ⟨id, rfl, ?_⟩
      intro pos' he'
      rw [at?_bind hpos] at he'
      split at he'
      · cases he'
      · exact hone pos' he'

theorem bind_file (h : fs.PlainBelow root) {pos : Position} {id : Nat} (hpos : pos ≠ [])
    (hid : ∀ pos', fs.at? pos' = some (.file id) → pos' = pos) :
    (fs.bind pos (.file id)).PlainBelow root := by
  intro names entry hne he
  rw [at?_bind hpos] at he
  split at he
  · rename_i heq
    refine Or.inr ⟨id, (Option.some.inj he).symm, ?_⟩
    intro pos' he'
    rw [at?_bind hpos] at he'
    split at he'
    · rename_i heq'
      rw [heq', heq]
    · rw [hid pos' he', heq]
  · rename_i hne'
    rcases h names entry hne he with hd | ⟨id', rfl, hone⟩
    · exact Or.inl hd
    · refine Or.inr ⟨id', rfl, ?_⟩
      intro pos' he'
      rw [at?_bind hpos] at he'
      split at he'
      · cases he'
        exact absurd (hid _ he) hne'
      · exact hone pos' he'

theorem of_at?_le (h : fs.PlainBelow root) {fs' : FileSystem}
    (hle : ∀ pos entry, fs'.at? pos = some entry → fs.at? pos = some entry) :
    fs'.PlainBelow root := by
  intro names entry hne he
  rcases h names entry hne (hle _ _ he) with hd | ⟨id, rfl, hone⟩
  · exact Or.inl hd
  · exact Or.inr ⟨id, rfl, fun pos' he' => hone pos' (hle _ _ he')⟩

theorem unbind (h : fs.PlainBelow root) {pos : Position} (hpos : pos ≠ []) :
    (fs.unbind pos).PlainBelow root := by
  apply h.of_at?_le
  intro pos' entry he
  rw [at?_unbind hpos] at he
  split at he
  · cases he
  · exact he

end PlainBelow

end FileSystem

end Depot
