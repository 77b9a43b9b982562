import Depot.Store.Object
import Depot.Proofs.Store.Footprint
/-!
# The states of a write

A write that has not been published is `Staged`: all that changed is at the staging path, and new
directories.  While its staging file is open and bound at the staging path it is `Live`; after the
rename it is `Published`.  Each lemma says which state one step of the file system leads to.

* `Staged.makeDirectory`, `Staged.create`, `Staged.store`, `Staged.unlink`, `Live.publish` — the
  steps of a write;
* `Staged.objectAt?_eq`, `Published.objectAt?_eq` — what the store holds in these states.
-/

namespace Depot

open FileSystem

theorem Key.leaf_ne (k : Key) : k.leaf ++ stagingSuffix ≠ k.leaf := by
  intro heq
  have hsuffix : stagingSuffix = [] := List.append_right_eq_self.1 heq
  exact absurd hsuffix (by decide)

namespace Store

variable {s : Store} {root : Position} {k : Key} {fs₀ fs fs' : FileSystem}

theorem LeadsTo.stagingPath_eq (h : s.LeadsTo fs root) (k : Key) :
    stagingPath (s.pathOf k.names) = s.pathOf k.staging :=
  Pathname.appended_join_ofNames h.bytes_ne_nil k.isName k.isName_staging

theorem Tidy.stagingPath_eq (h : s.Tidy fs root) (k : Key) :
    stagingPath (s.pathOf k.names) = s.pathOf k.staging :=
  h.leadsTo.stagingPath_eq k

/-- A write to an object that has touched nothing but its staging path, and this only if the system
takes it. -/
structure Staged (s : Store) (root : Position) (k : Key) (fs₀ fs : FileSystem) : Prop where
  tidy : s.Tidy fs root
  footprint : Footprint root k [root ++ k.staging] fs₀ fs
  taken : fs.at? (root ++ k.staging) = fs₀.at? (root ++ k.staging) ∨
    FileSystem.checkPath (s.pathOf k.staging) = .ok ()

/-- A write to an object whose bytes so far are in the file that is bound at the staging path. -/
structure Live (s : Store) (root : Position) (k : Key) (fs₀ : FileSystem) (w : Writing)
    (bytes : Bytes) (fs : FileSystem) : Prop extends Staged s root k fs₀ fs where
  target : w.target = s.pathOf k.names
  written : w.written = bytes.length
  checkPath : checkPath (s.pathOf k.staging) = .ok ()
  file : ∃ id time, w.handle = .file id ∧ fs.at? (root ++ k.staging) = some (.file id) ∧
    fs.file? id = some ⟨bytes, fileMode, time⟩

/-- A write to an object that is over: the object holds the bytes, and nothing is staged. -/
structure Published (s : Store) (root : Position) (k : Key) (fs₀ : FileSystem) (bytes : Bytes)
    (fs : FileSystem) : Prop where
  tidy : s.Tidy fs root
  footprint : Footprint root k [root ++ k.names, root ++ k.staging] fs₀ fs
  object : ∃ id time, fs.at? (root ++ k.names) = some (.file id) ∧
    fs.file? id = some ⟨bytes, fileMode, time⟩
  vacant : fs.at? (root ++ k.staging) = none
  checkPath : FileSystem.checkPath (s.pathOf k.names) = .ok ()
  /-- The file that was the object is not written. -/
  file?_eq : ∀ {id}, ¬ fs₀.Owns [root ++ k.staging] id → fs.file? id = fs₀.file? id

/-- No file that the system could reach is at the staging path. -/
def Cleared (s : Store) (k : Key) (fs : FileSystem) : Prop :=
  ∀ id, fs.linkStat (s.pathOf k.staging) ≠ .ok (.file id)

theorem Tidy.cleared_iff (h : s.Tidy fs root) :
    s.Cleared k fs ↔ FileSystem.checkPath (s.pathOf k.staging) = .ok () →
      ∀ id, fs.at? (root ++ k.staging) ≠ some (.file id) := by
  have hlink (id : Nat) : fs.linkStat (s.pathOf k.staging) = .ok (.file id) ↔
      FileSystem.checkPath (s.pathOf k.staging) = .ok () ∧
        fs.at? (root ++ k.staging) = some (.file id) :=
    h.linkStat_pathOf k.isName_staging
  constructor
  · intro hcleared hcheck id hid
    exact hcleared id ((hlink id).2 ⟨hcheck, hid⟩)
  · intro hfree id hid
    obtain ⟨hcheck, he⟩ := (hlink id).1 hid
    exact hfree hcheck id he

namespace Staged

theorem refl (h : s.Tidy fs root) : s.Staged root k fs fs := ⟨h, Footprint.refl .., Or.inl rfl⟩

theorem trans (h : s.Staged root k fs₀ fs) (h' : s.Staged root k fs fs') :
    s.Staged root k fs₀ fs' where
  tidy := h'.tidy
  footprint := h.footprint.trans h'.footprint
  taken := by
    rcases h.taken, h'.taken with ⟨hsame | hcheck, hsame' | hcheck'⟩
    · exact Or.inl (hsame'.trans hsame)
    · exact Or.inr hcheck'
    · exact Or.inr hcheck
    · exact Or.inr hcheck

theorem objectAt?_eq (h : s.Staged root k fs₀ fs) (h₀ : s.Tidy fs₀ root) :
    fs.objectAt? root = fs₀.objectAt? root :=
  h.footprint.objectAt?_eq h₀.wellFormed h₀.plain

theorem bind_directory (h : s.Tidy fs root) {dirs : List Bytes} {leaf : Bytes} {mode : Nat}
    (hfront : dirs ++ [leaf] <+: k.dirs) (hmode : fs.at? (root ++ dirs) = some (.directory mode))
    (hname : IsEntryName leaf) (hnone : fs.at? (root ++ (dirs ++ [leaf])) = none) :
    s.Staged root k fs (fs.bind (root ++ (dirs ++ [leaf])) (.directory directoryMode)) := by
  have hpos : root ++ (dirs ++ [leaf]) ≠ [] := by simp
  have habove : k.IsAbove root (root ++ (dirs ++ [leaf])) :=
    ⟨dirs ++ [leaf], by simp, hfront, rfl⟩
  have hstaging : root ++ k.staging ≠ root ++ (dirs ++ [leaf]) := by
    intro heq
    exact k.not_isAbove_staging root (heq ▸ habove)
  have hfoot : Footprint root k [root ++ k.staging] fs
      (fs.bind (root ++ (dirs ++ [leaf])) (.directory directoryMode)) := by
    refine Footprint.of_touch (fun pos => ?_) fun _ => rfl
    by_cases heq : pos = root ++ (dirs ++ [leaf])
    · subst heq
      exact .made (by simpa using hstaging.symm) habove hnone (by rw [at?_bind hpos, if_pos rfl])
    · exact .same (by rw [at?_bind hpos, if_neg heq])
  refine ⟨⟨?_, h.leadsTo.of_keeps hfoot.keepsPaths, h.plain.bind_directory _ hpos⟩, hfoot,
    Or.inl ?_⟩
  · rw [← List.append_assoc]
    exact h.wellFormed.bind hmode hname (Or.inl rfl) (by simp)
  · rw [at?_bind hpos, if_neg hstaging]

theorem makeDirectory (h : s.Tidy fs root) {front : List Bytes} (hne : front ≠ [])
    (hfront : front <+: k.dirs) (hmake : fs.makeDirectory (s.pathOf front) = .ok fs') :
    s.Staged root k fs fs' := by
  obtain ⟨dirs, leaf, rfl⟩ := (List.eq_nil_or_concat' front).resolve_left hne
  have hnames : ∀ name ∈ dirs ++ [leaf], Pathname.IsName name :=
    fun name hname => k.isName_of_mem_dirs (hfront.subset hname)
  obtain ⟨⟨mode, hmode⟩, hname, hnone, rfl⟩ := h.eq_of_makeDirectory hnames hmake
  exact bind_directory h hfront hmode hname hnone

theorem store (h : s.Tidy fs root) {id : Nat} (f : File)
    (hid : fs.at? (root ++ k.staging) = some (.file id)) :
    s.Staged root k fs (fs.store id f) := by
  obtain ⟨f₀, hf₀⟩ := h.wellFormed.file hid
  have howned : fs.Owns [root ++ k.staging] id := Or.inr ⟨_, List.mem_singleton_self _, hid⟩
  have hfoot : Footprint root k [root ++ k.staging] fs (fs.store id f) := by
    refine Footprint.of_written (fun _ => rfl) howned (fun id' hne => ?_) ?_
    · rw [file?_store, if_neg hne]
    · rw [file?_store, if_pos rfl]
      exact Option.some_ne_none f
  exact ⟨h.store f hf₀, hfoot, Or.inl rfl⟩

theorem allocate (h : s.Tidy fs root) {mode : Nat} (f : File)
    (hmode : fs.at? (root ++ k.dirs) = some (.directory mode))
    (hname : IsEntryName (k.leaf ++ stagingSuffix)) (hnone : fs.at? (root ++ k.staging) = none)
    (hcheck : FileSystem.checkPath (s.pathOf k.staging) = .ok ()) :
    s.Staged root k fs
      ((fs.allocate f).1.bind (root ++ k.staging) (.file fs.nextId)) := by
  have hpos : root ++ k.staging ≠ [] := by simp [k.staging_ne_nil]
  have hmem : root ++ k.staging ∈ [root ++ k.staging] := List.mem_singleton_self _
  have hfree : fs.file? fs.nextId = none := by
    cases hf : fs.file? fs.nextId with
    | none => rfl
    | some f' => exact absurd (h.wellFormed.fresh hf) (Nat.lt_irrefl _)
  -- The file is bound first and written then: it belongs to nobody only as long as it is missing.
  have hbound : Footprint root k [root ++ k.staging] fs
      (fs.bind (root ++ k.staging) (.file fs.nextId)) := by
    refine Footprint.of_touch (fun pos => ?_) fun _ => rfl
    by_cases heq : pos = root ++ k.staging
    · subst heq
      exact .bound hmem (by simp [hnone]) _ (Or.inl hfree) (by rw [at?_bind hpos, if_pos rfl])
    · exact .same (by rw [at?_bind hpos, if_neg heq])
  have hwritten : Footprint root k [root ++ k.staging]
      (fs.bind (root ++ k.staging) (.file fs.nextId))
      ((fs.allocate f).1.bind (root ++ k.staging) (.file fs.nextId)) := by
    refine Footprint.of_written (fun _ => rfl) (Or.inl hfree) (fun id hne => ?_) ?_
    · rw [file?_bind, file?_allocate, if_neg hne, file?_bind]
    · rw [file?_bind, file?_allocate, if_pos rfl]
      exact Option.some_ne_none f
  have hfoot := hbound.trans hwritten
  refine ⟨⟨?_, h.leadsTo.of_keeps hfoot.keepsPaths, ?_⟩, hfoot, Or.inr hcheck⟩
  · rw [Key.staging, ← List.append_assoc]
    apply (h.wellFormed.allocate f).bind (by rw [at?_allocate, hmode]) hname
    · refine Or.inr fun mode' hmode' => ?_
      rw [at?_allocate, List.append_assoc] at hmode'
      rw [show fs.at? (root ++ (k.dirs ++ [k.leaf ++ stagingSuffix])) = none from hnone] at hmode'
      cases hmode'
    · intro id hid
      cases hid
      exact ⟨f, by rw [file?_allocate, if_pos rfl]⟩
  · have hplain : (fs.allocate f).1.PlainBelow root := h.plain
    apply hplain.bind_file hpos
    intro pos he
    rw [at?_allocate] at he
    exact absurd he (h.wellFormed.not_bound_nextId pos)

theorem create (h : s.Tidy fs root) {handle : Handle}
    (hcreate : fs.create (s.pathOf k.staging) = .ok (fs', handle)) :
    s.Staged root k fs fs' ∧ FileSystem.checkPath (s.pathOf k.staging) = .ok () ∧
      ∃ id mode time, handle = .file id ∧ fs'.at? (root ++ k.staging) = some (.file id) ∧
        fs'.file? id = some ⟨[], mode, time⟩ := by
  obtain ⟨hcheck, hcases⟩ := h.eq_of_create k.isName_staging hcreate
  rcases hcases with ⟨id, f, hid, hf, rfl, rfl⟩ | ⟨⟨mode, hmode⟩, hname, hnone, rfl, rfl⟩
  · exact ⟨store h _ hid, hcheck, id, f.mode, fs.clock, rfl, hid, by rw [file?_store, if_pos rfl]⟩
  · refine ⟨allocate h _ hmode hname hnone hcheck, hcheck, fs.nextId, fileMode, fs.clock, rfl,
      ?_, ?_⟩
    · rw [Key.staging, at?_bind (by simp), if_pos rfl]
    · rw [file?_bind, file?_allocate, if_pos rfl]

theorem unlink (h : s.Tidy fs root) (hunlink : fs.unlink (s.pathOf k.staging) = .ok fs') :
    s.Staged root k fs fs' ∧ fs'.at? (root ++ k.staging) = none := by
  obtain ⟨hcheck, ⟨id, hid⟩, rfl⟩ :=
    (h.unlink_eq_ok k.isName_staging).1 hunlink
  rw [show k.dirs ++ [k.leaf ++ stagingSuffix] = k.staging from rfl] at hid ⊢
  have hpos : root ++ k.staging ≠ [] := by simp [k.staging_ne_nil]
  have hfoot : Footprint root k [root ++ k.staging] fs (fs.unbind (root ++ k.staging)) := by
    refine Footprint.of_touch (fun pos => ?_) fun _ => rfl
    by_cases heq : pos = root ++ k.staging
    · subst heq
      exact .vacated (List.mem_singleton_self _) (by simp [hid])
        (by rw [at?_unbind hpos, if_pos rfl])
    · exact .same (by rw [at?_unbind hpos, if_neg heq])
  refine ⟨⟨h.unbind k.staging_ne_nil fun mode hmode => ?_, hfoot, Or.inr hcheck⟩, ?_⟩
  · rw [hid] at hmode
    cases hmode
  · rw [at?_unbind hpos, if_pos rfl]

end Staged

/-! ## Renaming -/

/-- The file system after the staging file has taken the place of the object. -/
def moved (fs : FileSystem) (root : Position) (k : Key) (id : Nat) : FileSystem :=
  (fs.unbind (root ++ k.staging)).bind (root ++ k.names) (.file id)

theorem at?_moved (root : Position) (k : Key) (id : Nat) (pos : Position) :
    (moved fs root k id).at? pos = if pos = root ++ k.names then some (.file id)
      else if pos = root ++ k.staging then none else fs.at? pos := by
  rw [moved, at?_bind (by simp [k.names_ne_nil]), at?_unbind (by simp [k.staging_ne_nil])]

section

variable {id : Nat} {f : File}

theorem Tidy.wellFormed_moved (h : s.Tidy fs root)
    (hid : fs.at? (root ++ k.staging) = some (.file id)) (hf : fs.file? id = some f)
    (hname : IsEntryName k.leaf)
    (hdirectory : ∀ mode, fs.at? (root ++ k.names) ≠ some (.directory mode)) :
    (moved fs root k id).WellFormed := by
  have hstaging : root ++ k.staging ≠ [] := by simp [k.staging_ne_nil]
  have hnot : ∀ pos mode, fs.at? pos = some (.directory mode) → pos ≠ root ++ k.staging := by
    rintro pos mode hpos rfl
    rw [hid] at hpos
    cases hpos
  obtain ⟨mode, hmode⟩ : ∃ mode, fs.at? (root ++ k.dirs) = some (.directory mode) := by
    apply h.wellFormed.parent
    rw [List.append_assoc]
    exact hid
  have hunbind : (fs.unbind (root ++ k.staging)).WellFormed := by
    apply h.wellFormed.unbind hstaging
    exact fun mode' hmode' => hnot _ mode' hmode' rfl
  have hdir : (fs.unbind (root ++ k.staging)).at? (root ++ k.dirs) = some (.directory mode) := by
    rw [at?_unbind hstaging, if_neg (hnot _ mode hmode), hmode]
  rw [moved, Key.names, ← List.append_assoc]
  apply hunbind.bind hdir hname
  · refine Or.inr fun mode' hmode' => ?_
    rw [at?_unbind hstaging, List.append_assoc] at hmode'
    split at hmode'
    · cases hmode'
    · exact hdirectory mode' hmode'
  · intro id' hid'
    cases hid'
    exact ⟨f, hf⟩

theorem Tidy.plain_moved (h : s.Tidy fs root)
    (hid : fs.at? (root ++ k.staging) = some (.file id)) :
    (moved fs root k id).PlainBelow root := by
  have hstaging : root ++ k.staging ≠ [] := by simp [k.staging_ne_nil]
  apply (h.plain.unbind hstaging).bind_file (by simp [k.names_ne_nil])
  intro pos he
  rw [at?_unbind hstaging] at he
  split at he
  · cases he
  · rename_i hpos
    exact absurd (h.plain.eq_of_file k.staging_ne_nil hid he) hpos

theorem Tidy.footprint_moved (h : s.Tidy fs root)
    (hid : fs.at? (root ++ k.staging) = some (.file id))
    (hdirectory : ∀ mode, fs.at? (root ++ k.names) ≠ some (.directory mode)) :
    Footprint root k [root ++ k.names, root ++ k.staging] fs (moved fs root k id) := by
  refine Footprint.of_touch (fun pos => ?_) fun _ => rfl
  by_cases hobject : pos = root ++ k.names
  · subst hobject
    refine .bound (by simp) ?_ id (Or.inr ⟨_, by simp, hid⟩) (by rw [at?_moved, if_pos rfl])
    intro entry he
    rcases h.entry_below k.dirs k.leaf he with ⟨mode, rfl⟩ | hfile
    · exact absurd he (hdirectory mode)
    · exact hfile
  by_cases hstaging : pos = root ++ k.staging
  · subst hstaging
    exact .vacated (by simp) (by simp [hid]) (by rw [at?_moved, if_neg hobject, if_pos rfl])
  · exact .same (by rw [at?_moved, if_neg hobject, if_neg hstaging])

theorem Tidy.publish (h : s.Tidy fs root)
    (hid : fs.at? (root ++ k.staging) = some (.file id)) (hf : fs.file? id = some f)
    (hrename : fs.rename (s.pathOf k.staging) (s.pathOf k.names) = .ok fs') :
    s.Tidy fs' root ∧ Footprint root k [root ++ k.names, root ++ k.staging] fs fs' ∧
      fs'.at? (root ++ k.names) = some (.file id) ∧ (∀ id', fs'.file? id' = fs.file? id') ∧
        fs'.at? (root ++ k.staging) = none ∧
          FileSystem.checkPath (s.pathOf k.names) = .ok () := by
  obtain ⟨hname, hcheck, hdirectory, rfl⟩ := h.eq_of_rename
    k.isName_staging k.isName k.leaf_ne hid hrename
  have hne : root ++ k.names ≠ root ++ k.staging :=
    ne_staging_of_isObjectPosition _ (isObjectPosition_names k)
  have hfoot := h.footprint_moved hid hdirectory
  have htidy : s.Tidy (moved fs root k id) root :=
    ⟨h.wellFormed_moved hid hf hname hdirectory, h.leadsTo.of_keeps hfoot.keepsPaths,
      h.plain_moved hid⟩
  refine ⟨htidy, hfoot, ?_, fun _ => rfl, ?_, hcheck⟩
  · exact (at?_moved root k id _).trans (if_pos rfl)
  · exact (at?_moved root k id _).trans ((if_neg hne.symm).trans (if_pos rfl))

end

theorem Live.publish {w : Writing} {bytes : Bytes} (h : s.Live root k fs₀ w bytes fs)
    (hrename : fs.rename (s.pathOf k.staging) (s.pathOf k.names) = .ok fs') :
    s.Published root k fs₀ bytes fs' := by
  obtain ⟨id, time, -, hid, hf⟩ := h.file
  obtain ⟨htidy, hfoot, hobject, hfile, hvacant, hcheck⟩ := h.tidy.publish hid hf hrename
  have hmono : Footprint root k [root ++ k.names, root ++ k.staging] fs₀ fs := by
    apply h.footprint.mono (by simp)
    intro pos hpos
    rcases List.mem_pair.1 hpos with rfl | rfl
    · exact k.not_isAbove_names root
    · exact k.not_isAbove_staging root
  exact ⟨htidy, hmono.trans hfoot, ⟨id, time, hobject, (hfile id).trans hf⟩, hvacant, hcheck,
    fun hother => (hfile _).trans (h.footprint.file hother)⟩

theorem Published.objectAt?_eq {bytes : Bytes} (h : s.Published root k fs₀ bytes fs)
    (h₀ : s.Tidy fs₀ root) :
    fs.objectAt? root = Function.update (fs₀.objectAt? root) k.names (some bytes) := by
  obtain ⟨id, time, hid, hf⟩ := h.object
  exact h.footprint.objectAt?_publish h₀.wellFormed h₀.plain hid hf

end Store

end Depot
