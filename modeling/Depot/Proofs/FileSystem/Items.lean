import Depot.Proofs.FileSystem.WellFormed
/-!
# What stands at a position

`item?` is all that can be found out about a position: the kind and the mode of its entry, the
target of a link, the bytes of a file and the time of its last change, but not the identity of a
file, which differs between file systems with the same content.

* `item?_eq_none_iff`, `item?_eq_directory_iff`, `item?_eq_file_iff` — what an item says about the
  entry;
* `item?_bind`, `item?_unbind`, `item?_store`, `item?_allocate` — what each change does;
* `Twin` — entries of two file systems that look the same.
-/

namespace Depot

/-- An entry with the content of its file in place of the identity. -/
inductive Item
  | directory (mode : Nat)
  | file (content : File)
  | link (target : Pathname)
  | device
deriving DecidableEq

namespace FileSystem

variable {fs fs' : FileSystem} {pos : Position}

def itemOf (fs : FileSystem) : Entry → Option Item
  | .directory mode => some (.directory mode)
  | .file id => (fs.file? id).map .file
  | .link target => some (.link target)
  | .device => some .device

def item? (fs : FileSystem) (pos : Position) : Option Item := (fs.at? pos).bind fs.itemOf

theorem item?_eq_none_iff (h : fs.WellFormed) : fs.item? pos = none ↔ fs.at? pos = none := by
  rw [item?]
  cases he : fs.at? pos with
  | none => simp
  | some entry =>
      cases entry with
      | file id =>
          obtain ⟨f, hf⟩ := h.file he
          simp [itemOf, hf]
      | directory mode => simp [itemOf]
      | link target => simp [itemOf]
      | device => simp [itemOf]

theorem item?_eq_directory_iff {mode : Nat} :
    fs.item? pos = some (.directory mode) ↔ fs.at? pos = some (.directory mode) := by
  rw [item?, Option.bind_eq_some_iff]
  constructor
  · rintro ⟨entry, he, hitem⟩
    cases entry with
    | directory mode' =>
        cases hitem
        exact he
    | file id =>
        obtain ⟨f, -, hf⟩ := Option.map_eq_some_iff.1 hitem
        cases hf
    | link target => cases hitem
    | device => cases hitem
  · exact fun he => ⟨_, he, rfl⟩

theorem item?_eq_link_iff {target : Pathname} :
    fs.item? pos = some (.link target) ↔ fs.at? pos = some (.link target) := by
  rw [item?, Option.bind_eq_some_iff]
  constructor
  · rintro ⟨entry, he, hitem⟩
    cases entry with
    | link target' =>
        cases hitem
        exact he
    | file id =>
        obtain ⟨f, -, hf⟩ := Option.map_eq_some_iff.1 hitem
        cases hf
    | directory mode => cases hitem
    | device => cases hitem
  · exact fun he => ⟨_, he, rfl⟩

theorem item?_eq_file_iff {f : File} :
    fs.item? pos = some (.file f) ↔ ∃ id, fs.at? pos = some (.file id) ∧ fs.file? id = some f := by
  rw [item?, Option.bind_eq_some_iff]
  constructor
  · rintro ⟨entry, he, hitem⟩
    cases entry with
    | file id =>
        obtain ⟨f', hf, heq⟩ := Option.map_eq_some_iff.1 hitem
        cases heq
        exact ⟨id, he, hf⟩
    | directory mode => cases hitem
    | link target => cases hitem
    | device => cases hitem
  · rintro ⟨id, he, hf⟩
    exact ⟨_, he, by rw [itemOf, hf]; rfl⟩

theorem at?_of_item?_eq (hitem : fs'.item? pos = fs.item? pos) {entry : Entry}
    (hkind : entry.isDirectory ∨ entry.isLink) (he : fs.at? pos = some entry) :
    fs'.at? pos = some entry := by
  cases entry with
  | directory mode => rwa [← item?_eq_directory_iff, hitem, item?_eq_directory_iff]
  | link target => rwa [← item?_eq_link_iff, hitem, item?_eq_link_iff]
  | file id => simp [Entry.isDirectory, Entry.isLink] at hkind
  | device => simp [Entry.isDirectory, Entry.isLink] at hkind

/-! ## Changes -/

theorem itemOf_of_file?_eq (h : ∀ id, fs'.file? id = fs.file? id) : fs'.itemOf = fs.itemOf := by
  funext entry
  cases entry with
  | file id => rw [itemOf, itemOf, h]
  | directory mode => rfl
  | link target => rfl
  | device => rfl

theorem item?_bind (hpos : pos ≠ []) (entry : Entry) (pos' : Position) :
    (fs.bind pos entry).item? pos' = if pos' = pos then fs.itemOf entry else fs.item? pos' := by
  rw [item?, at?_bind hpos]
  split
  · rfl
  · rfl

theorem item?_unbind (hpos : pos ≠ []) (pos' : Position) :
    (fs.unbind pos).item? pos' = if pos' = pos then none else fs.item? pos' := by
  rw [item?, at?_unbind hpos]
  split
  · rfl
  · rfl

theorem item?_store (id : Nat) (f : File) (pos : Position) :
    (fs.store id f).item? pos =
      if fs.at? pos = some (.file id) then some (.file f) else fs.item? pos := by
  rw [item?, item?, at?_store]
  cases he : fs.at? pos with
  | none => rfl
  | some entry =>
      cases entry with
      | directory mode => simp [itemOf]
      | link target => simp [itemOf]
      | device => simp [itemOf]
      | file id' =>
          by_cases hid : id' = id
          · simp [itemOf, file?_store, hid]
          · simp [itemOf, file?_store, hid]

theorem item?_allocate (h : fs.WellFormed) (hpos : pos ≠ []) (f : File) (pos' : Position) :
    ((fs.allocate f).1.bind pos (.file fs.nextId)).item? pos' =
      if pos' = pos then some (.file f) else fs.item? pos' := by
  rw [item?_bind hpos]
  split
  · rw [itemOf, file?_allocate, if_pos rfl]
    rfl
  · have hstore : (fs.store fs.nextId f).item? pos' = _ := item?_store fs.nextId f pos'
    rw [if_neg (h.not_bound_nextId pos')] at hstore
    exact hstore

/-! ## Entries that look the same -/

/-- The same directory, or files with the same content. -/
inductive Twin (fs fs' : FileSystem) : Entry → Entry → Prop
  | directory (mode : Nat) : Twin fs fs' (.directory mode) (.directory mode)
  | file {id id' : Nat} {f : File} (hf : fs.file? id = some f) (hf' : fs'.file? id' = some f) :
    Twin fs fs' (.file id) (.file id')

variable {entry entry' : Entry}

theorem Twin.isDirectory_eq (h : Twin fs fs' entry entry') :
    entry'.isDirectory = entry.isDirectory := by
  cases h <;> rfl

theorem Twin.not_isLink (h : Twin fs fs' entry entry') : ¬ entry.isLink ∧ ¬ entry'.isLink := by
  cases h <;> exact ⟨nofun, nofun⟩

theorem Twin.sizeOf_eq (h : Twin fs fs' entry entry') : fs'.sizeOf entry' = fs.sizeOf entry := by
  cases h with
  | directory mode => rfl
  | file hf hf' => rw [sizeOf, sizeOf, hf, hf']

/-- Where a directory or a file stands and the other file system has the same item, it has the same
directory or a file with the same content. -/
theorem exists_twin (h : fs.WellFormed)
    (hkind : entry.isDirectory ∨ entry.isFile) (he : fs.at? pos = some entry)
    (hitem : fs'.item? pos = fs.item? pos) :
    ∃ entry', fs'.at? pos = some entry' ∧ Twin fs fs' entry entry' := by
  cases entry with
  | directory mode =>
      rw [← item?_eq_directory_iff, ← hitem, item?_eq_directory_iff] at he
      exact ⟨_, he, .directory mode⟩
  | file id =>
      obtain ⟨f, hf⟩ := h.file he
      have hfile := item?_eq_file_iff.2 ⟨id, he, hf⟩
      rw [← hitem, item?_eq_file_iff] at hfile
      obtain ⟨id', he', hf'⟩ := hfile
      exact ⟨_, he', .file hf hf'⟩
  | link target => simp [Entry.isDirectory, Entry.isFile] at hkind
  | device => simp [Entry.isDirectory, Entry.isFile] at hkind

end FileSystem

end Depot
