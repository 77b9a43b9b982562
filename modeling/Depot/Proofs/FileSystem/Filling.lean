import Depot.Proofs.FileSystem.Growing
/-!
# Filling a file

Opening a path for writing empties the file that it leads to, or makes one where it leads nowhere.
What is then written from the start of the file is all that it holds, and nothing else has changed.

* `Filled` — a path leads to a file with certain bytes, the rest is as it was;
* `Filled.of_create`, `Filled.writeAt` — how a file is filled;
* `Filled.spares`, `Filled.readFrom_eq_ok` — what other paths and open files are left with.
-/

namespace Depot

namespace FileSystem

variable {fs fs' : FileSystem}

theorem create_eq {p : Pathname} (hends : p.endsInSlash = false) :
    fs.create p = fs.locate true p >>= fun place => match place with
      | .occupied _ (.file id) =>
        .ok (fs.store id ⟨[], ((fs.file? id).map (·.mode)).getD fileMode, fs.clock⟩, .file id)
      | .occupied _ (.directory _) => .error .isDirectory
      | .occupied _ _ => .ok (fs, .device)
      | .vacant dir name =>
        .ok ((fs.allocate ⟨[], fileMode, fs.clock⟩).1.bind (dir ++ [name]) (.file fs.nextId),
          .file fs.nextId) := by
  rw [FileSystem.create, hends, if_neg (by simp)]
  rfl

/-! ## Filled files -/

/-- A path leads to a file that holds certain bytes: one that it led to before, or a new one.
Nothing else has changed. -/
structure Filled (fs : FileSystem) (p : Pathname) (id : Nat) (bytes : Bytes) (fs' : FileSystem) :
    Prop where
  leads : ∃ pos, fs'.locateEntry true p = .ok (pos, .file id)
  content : ∃ f, fs'.file? id = some f ∧ f.bytes = bytes
  origin : (∃ pos, fs.locateEntry true p = .ok (pos, .file id)) ∨
    (∃ dir name, fs.locate true p = .ok (.vacant dir name)) ∧ fs.file? id = none
  kept : ∀ {pos entry}, fs.at? pos = some entry → fs'.at? pos = some entry
  new : ∀ {pos entry}, fs.at? pos = none → fs'.at? pos = some entry → entry = .file id
  file?_eq : ∀ {id'}, id' ≠ id → fs'.file? id' = fs.file? id'
  workingDir : fs'.workingDir = fs.workingDir

namespace Filled

variable {p : Pathname} {id : Nat} {bytes : Bytes}

theorem locateEntry_store {pos : Position} {id' : Nat} (id : Nat) (f : File)
    (h : fs.locateEntry true p = .ok (pos, .file id')) :
    (fs.store id f).locateEntry true p = .ok (pos, .file id') := by
  have hkeep : fs.KeepsPaths (fs.store id f) := fun _ _ he _ => he
  have hat := at?_of_locateEntry h
  exact locateEntry_file_of_keeps hkeep rfl h hat

theorem keepsPaths (h : Filled fs p id bytes fs') : fs.KeepsPaths fs' := fun _ _ he _ => h.kept he

theorem store {pos : Position} {f : File} (h : fs.locateEntry true p = .ok (pos, .file id))
    (hempty : f.bytes = []) : Filled fs p id [] (fs.store id f) where
  leads := ⟨pos, locateEntry_store id f h⟩
  content := ⟨f, by rw [file?_store, if_pos rfl], hempty⟩
  origin := Or.inl ⟨pos, h⟩
  kept := fun he => he
  new := by
    intro pos' entry hnone he
    rw [at?_store, hnone] at he
    cases he
  file?_eq := by
    intro id' hne
    rw [file?_store, if_neg hne]
  workingDir := rfl

theorem allocate (hwf : fs.WellFormed) {dir : Position} {name : Bytes} {f : File}
    (h : fs.locate true p = .ok (.vacant dir name)) (hempty : f.bytes = []) :
    Filled fs p fs.nextId [] ((fs.allocate f).1.bind (dir ++ [name]) (.file fs.nextId)) := by
  obtain ⟨hcheck, hwalk⟩ := locate_eq_ok.1 h
  have hnone := (walk_vacant hwalk).2
  have hentry : ((fs.allocate f).1.bind (dir ++ [name]) (.file fs.nextId)).at? (dir ++ [name]) =
      some (.file fs.nextId) := by rw [at?_bind (by simp), if_pos rfl]
  have hkept : ∀ {pos entry}, fs.at? pos = some entry →
      ((fs.allocate f).1.bind (dir ++ [name]) (.file fs.nextId)).at? pos = some entry := by
    intro pos entry he
    rw [at?_bind (by simp), if_neg, at?_allocate, he]
    rintro rfl
    rw [hnone] at he
    cases he
  exact {
    leads := by
      refine ⟨dir ++ [name], locateEntry_eq_ok.2 (locate_eq_ok.2 ⟨hcheck, ?_⟩)⟩
      exact walk_made_of_keeps (fun _ _ he _ => hkept he) hwalk hentry
    content := ⟨f, by rw [file?_bind, file?_allocate, if_pos rfl], hempty⟩
    origin := by
      refine Or.inr ⟨⟨dir, name, h⟩, ?_⟩
      cases hf : fs.file? fs.nextId with
      | none => rfl
      | some f' => exact absurd (hwf.fresh hf) (Nat.lt_irrefl _)
    kept := hkept
    new := by
      intro pos entry hnone' he
      rw [at?_bind (by simp), at?_allocate, hnone'] at he
      split at he
      · cases he
        rfl
      · cases he
    file?_eq := by
      intro id' hne
      rw [file?_bind, file?_allocate, if_neg hne]
    workingDir := rfl }

theorem of_create (hwf : fs.WellFormed) {handle : Handle}
    (h : fs.create p = .ok (fs', handle)) :
    (handle = .device ∧ fs' = fs) ∨ ∃ id, handle = .file id ∧ Filled fs p id [] fs' := by
  unfold create at h
  dsimp only at h
  split at h
  · obtain ⟨last, -, hthrow⟩ := bind_eq_ok.1 h
    cases hthrow
  · obtain ⟨place, hplace, hopen⟩ := bind_eq_ok.1 h
    cases place with
    | occupied pos entry =>
        cases entry with
        | file id =>
            cases hopen
            exact Or.inr ⟨id, rfl, store (locateEntry_eq_ok.2 hplace) rfl⟩
        | directory mode => cases hopen
        | link target =>
            cases hopen
            exact Or.inl ⟨rfl, rfl⟩
        | device =>
            cases hopen
            exact Or.inl ⟨rfl, rfl⟩
    | vacant dir name =>
        cases hopen
        exact Or.inr ⟨fs.nextId, rfl, allocate hwf hplace rfl⟩

theorem writeAt (h : Filled fs p id [] fs') (bytes : Bytes) :
    Filled fs p id bytes (fs'.writeAt (.file id) 0 bytes) := by
  obtain ⟨f, hf, hempty⟩ := h.content
  have hwritten : fs'.writeAt (.file id) 0 bytes =
      fs'.store id { f with bytes := overwrite f.bytes 0 bytes, modified := fs'.clock } := by
    rw [FileSystem.writeAt, hf]
  have hbytes : overwrite f.bytes 0 bytes = bytes := by
    rw [hempty]
    exact overwrite_end [] bytes
  rw [hwritten]
  exact {
    leads := by
      obtain ⟨pos, hpos⟩ := h.leads
      exact ⟨pos, locateEntry_store id _ hpos⟩
    content := ⟨_, by rw [file?_store, if_pos rfl], hbytes⟩
    origin := h.origin
    kept := h.kept
    new := h.new
    file?_eq := by
      intro id' hne
      rw [file?_store, if_neg hne, h.file?_eq hne]
    workingDir := h.workingDir }

theorem spares (h : Filled fs p id bytes fs') {q : Pathname} {pos : Position} {id' : Nat} {f : File}
    (hq : fs.locateEntry true q = .ok (pos, .file id')) (hf : fs.file? id' = some f)
    (hother : ∀ pos', fs.locateEntry true p ≠ .ok (pos', .file id')) :
    fs'.locateEntry true q = .ok (pos, .file id') ∧ fs'.file? id' = some f := by
  have hkept := h.kept (at?_of_locateEntry hq)
  refine ⟨locateEntry_file_of_keeps h.keepsPaths h.workingDir hq hkept, ?_⟩
  rw [h.file?_eq, hf]
  rintro rfl
  rcases h.origin with ⟨pos', hpos'⟩ | ⟨-, hnone⟩
  · exact hother pos' hpos'
  · rw [hnone] at hf
    cases hf

theorem readFrom_eq_ok (h : Filled fs p id [] fs') {handle : Handle} {content : Bytes}
    (hread : fs'.readFrom handle 0 = .ok content) :
    ∃ before, fs.readFrom handle 0 = .ok before ∧
      content = if handle = .file id then [] else before := by
  cases handle with
  | directory => cases hread
  | device =>
      cases hread
      exact ⟨[], rfl, by simp⟩
  | file id' =>
      refine ⟨_, rfl, ?_⟩
      rw [readFrom] at hread
      by_cases hsame : id' = id
      · obtain ⟨f, hf, hempty⟩ := h.content
        rw [hsame, hf] at hread
        rw [if_pos (by rw [hsame])]
        cases hread
        simp [hempty]
      · rw [h.file?_eq hsame] at hread
        rw [if_neg (by simpa using hsame)]
        exact (Except.ok.inj hread).symm

end Filled

end FileSystem

end Depot
