import Depot.Proofs.Store.WriteCall
/-!
# Failed writes

A save or a copy that fails after it has begun changes no file but the one at its staging path,
leaves no file there, keeps every directory and adds only directories above the object.  One that
fails before it has begun — its name is refused, or its source cannot be opened — changes nothing,
so a staging file that an earlier write left behind is still there.

* `WriteCall.failureAtomic` — both outcomes of a call, for every tidy store;
* `WriteCall.leftover_survives_failed_copy` — why the source has to be opened first.
-/

namespace Depot

open FileSystem

theorem FileSystem.view_eq_file {fs : FileSystem} {pos : Position} {bytes : Bytes} {mode : Nat} :
    fs.view pos = some (.file bytes mode) ↔
      ∃ id f, fs.at? pos = some (.file id) ∧ fs.file? id = some f ∧ f.bytes = bytes ∧
        f.mode = mode := by
  rw [view]
  cases he : fs.at? pos with
  | none => simp
  | some entry =>
      cases entry with
      | directory mode' => simp [nodeOf]
      | link target => simp [nodeOf]
      | device => simp [nodeOf]
      | file id => cases hf : fs.file? id <;> simp [nodeOf, hf]

/-- What a write that failed leaves of a file system. -/
structure CleanFailure (s : Store) (root : Position) (k : Key) (fs fs' : FileSystem) : Prop where
  /-- Every other file is unchanged in position, bytes and mode, and there is no new one. -/
  file : ∀ pos bytes mode, pos ≠ root ++ k.staging →
    (fs'.view pos = some (.file bytes mode) ↔ fs.view pos = some (.file bytes mode))
  /-- No file is left at the staging path. -/
  staging : ∀ id, fs'.linkStat (stagingPath (s.pathOf k.names)) ≠ .ok (.file id)
  /-- Every directory is still there. -/
  directory : ∀ pos mode, fs.at? pos = some (.directory mode) →
    fs'.at? pos = some (.directory mode)
  /-- The only new entries are directories above the object. -/
  new : ∀ pos entry, fs.at? pos = none → fs'.at? pos = some entry →
    entry.isDirectory ∧ pos <+: root ++ k.names ∧ pos ≠ root ++ k.names

/-- What a write that ended leaves of a file system. -/
structure CleanSuccess (root : Position) (k : Key) (bytes : Bytes) (fs : FileSystem) : Prop where
  object : fs.view (root ++ k.names) = some (.file bytes 0o644)
  staging : fs.at? (root ++ k.staging) = none

namespace Store

variable {s : Store} {root : Position} {k : Key} {fs₀ fs : FileSystem}

theorem Staged.view_eq_file_iff (h : s.Staged root k fs₀ fs) (h₀ : s.Tidy fs₀ root)
    {pos : Position} {bytes : Bytes} {mode : Nat} (hpos : pos ≠ root ++ k.staging) :
    fs.view pos = some (.file bytes mode) ↔ fs₀.view pos = some (.file bytes mode) := by
  have hspot : pos ∉ [root ++ k.staging] := by simpa using hpos
  have hfile : ∀ {id}, fs₀.at? pos = some (.file id) → fs.file? id = fs₀.file? id := fun hid =>
    h.footprint.file?_eq h₀.wellFormed h₀.plain
      (fun pos hpos => ⟨k.staging, k.staging_ne_nil, List.mem_singleton.1 hpos⟩) hspot hid
  rw [view_eq_file, view_eq_file]
  constructor
  · rintro ⟨id, f, hid, hf, hshown⟩
    have hid₀ := (h.footprint.at?_eq_file_iff hspot).1 hid
    exact ⟨id, f, hid₀, by rw [← hfile hid₀, hf], hshown⟩
  · rintro ⟨id, f, hid, hf, hshown⟩
    exact ⟨id, f, (h.footprint.at?_eq_file_iff hspot).2 hid, by rw [hfile hid, hf], hshown⟩

theorem Staged.cleanFailure (h : s.Staged root k fs₀ fs) (h₀ : s.Tidy fs₀ root)
    (hcleared : s.Cleared k fs) : CleanFailure s root k fs₀ fs where
  file := fun _ _ _ hpos => h.view_eq_file_iff h₀ hpos
  staging := by
    rw [h₀.stagingPath_eq]
    exact hcleared
  directory := fun pos mode hmode => h.footprint.keepsPaths pos _ hmode (Or.inl rfl)
  new := by
    intro pos entry hnone he
    by_cases hpos : pos = root ++ k.staging
    · -- Only a file can be new at the staging path, and there is none.
      subst hpos
      rcases h.taken with hsame | hcheck
      · rw [hsame, hnone] at he
        cases he
      · rcases h.footprint.spot (List.mem_singleton_self _) he with hbefore | ⟨id, rfl⟩
        · rw [hnone] at hbefore
          cases hbefore
        · exact absurd he (h.tidy.cleared_iff.1 hcleared hcheck id)
    · obtain ⟨⟨front, -, hfront, rfl⟩, rfl⟩ := h.footprint.new (by simpa using hpos) hnone he
      have hstart : front <+: k.names := hfront.trans (List.prefix_append ..)
      refine ⟨rfl, (List.prefix_append_right_inj root).2 hstart, ?_⟩
      intro heq
      exact k.not_isAbove_names root ⟨front, by
        rw [List.append_cancel_left heq]
        exact k.names_ne_nil, hfront, heq.symm⟩

theorem Published.cleanSuccess {bytes : Bytes} (h : s.Published root k fs₀ bytes fs) :
    CleanSuccess root k bytes fs := by
  obtain ⟨id, time, hid, hf⟩ := h.object
  exact ⟨view_eq_file.2 ⟨id, _, hid, hf, rfl, rfl⟩, h.vacant⟩

end Store

namespace WriteCall

/-- A call that ends well leaves its object and nothing else behind.  One that fails has failed
cleanly, or it never began, as its name was refused or its source could not be opened, and has
changed nothing. -/
theorem failureAtomic {s : Store} {root : Position} (call : WriteCall) (w : World)
    (h : s.Tidy w.fs root) :
    match (call.perform s).run w with
    | (.ok _, w') => ∃ (k : Key) (bytes : Bytes), ObjectName.ofObject call.name = .ok k.names ∧
        call.payload? (w.fs.objectAt? root) = some bytes ∧ CleanSuccess root k bytes w'.fs
    | (.error _, w') =>
        (∃ k : Key, ObjectName.ofObject call.name = .ok k.names ∧ call.CanOpen s w.fs ∧
          CleanFailure s root k w.fs w'.fs) ∨
        ((∀ names, ObjectName.ofObject call.name ≠ .ok names) ∨ ¬ call.CanOpen s w.fs) ∧
          w'.fs = w.fs := by
  rcases hrun : (call.perform s).run w with ⟨result, w'⟩
  cases hname : ObjectName.ofObject call.name with
  | error fault =>
      have hruns := refused_runs s w.fs call hname
      cases result with
      | ok u => exact (hruns.of_ok rfl hrun).elim
      | error e => exact Or.inr ⟨Or.inl (by simp), hruns.of_error rfl hrun⟩
  | ok names =>
      obtain ⟨k, rfl, -⟩ := ObjectName.ofObject_eq_ok hname
      have hruns := runs h call hname
      cases result with
      | ok u =>
          obtain ⟨bytes, hbytes, hpublished⟩ := hruns.of_ok rfl hrun
          exact ⟨k, bytes, rfl, hbytes, hpublished.cleanSuccess⟩
      | error e =>
          rcases hruns.of_error rfl hrun with ⟨hsame, hclosed⟩ | ⟨hopen, hstaged, hcleared⟩
          · exact Or.inr ⟨Or.inr hclosed, hsame⟩
          · exact Or.inl ⟨k, rfl, hopen, hstaged.cleanFailure h hcleared⟩

/-! ### A staging file that was left behind -/

def abandoned : FileSystem :=
  ((Store.newDirectory [114]).allocate ⟨[108], fileMode, 0⟩).1.bind ([[114]] ++ Store.keyN.staging)
    (.file 0)

theorem abandoned_tidy : (Store.atTop [114]).Tidy abandoned [[114]] := by
  have hstaging : IsEntryName (Store.keyN.leaf ++ stagingSuffix) :=
    ⟨⟨by decide, by decide, by decide, by decide⟩, by decide, by decide⟩
  exact (@Store.Staged.allocate _ _ Store.keyN _ (Store.tidy_atTop Store.isEntryName_r)
    directoryMode _ rfl hstaging rfl rfl).tidy

theorem failureAtomic_abandoned :
    ∃ (e : StorageError) (w' : World) (k : Key),
      ((save "n" [.chunk [1], .fault .busy] 1).perform (Store.atTop [114])).run
        (.ofFileSystem abandoned) = (.error e, w') ∧ k.names = [[110]] ∧
        CleanFailure (Store.atTop [114]) [[114]] k abandoned w'.fs := by
  have h := failureAtomic (save "n" [.chunk [1], .fault .busy] 1) (.ofFileSystem abandoned)
    abandoned_tidy
  have hfails : (((save "n" [.chunk [1], .fault .busy] 1).perform (Store.atTop [114])).run
      (.ofFileSystem abandoned)).1.isOk = false := rfl
  rcases hrun : ((save "n" [.chunk [1], .fault .busy] 1).perform (Store.atTop [114])).run
    (.ofFileSystem abandoned) with ⟨result, w'⟩
  rw [hrun] at h hfails
  cases result with
  | ok u => cases hfails
  | error e =>
      rcases h with ⟨k, hk, -, hclean⟩ | ⟨hbegan, -⟩
      · exact ⟨e, w', k, rfl, (Except.ok.inj hk).symm, hclean⟩
      · rcases hbegan with hrefused | hclosed
        · exact absurd rfl (hrefused [[110]])
        · exact absurd trivial hclosed

/-- A copy whose source is missing leaves the staging file of an abandoned write. -/
theorem leftover_survives_failed_copy :
    ¬ ∀ (s : Store) (root : Position) (call : WriteCall) (k : Key) (w w' : World)
      (e : StorageError), s.Tidy w.fs root → ObjectName.ofObject call.name = .ok k.names →
        (call.perform s).run w = (.error e, w') → CleanFailure s root k w.fs w'.fs := by
  intro hall
  have hfails : (((copy "gone" "n").perform (Store.atTop [114])).run
      (.ofFileSystem abandoned)).1.isOk = false := rfl
  have hfs : (((copy "gone" "n").perform (Store.atTop [114])).run
      (.ofFileSystem abandoned)).2.fs = abandoned := rfl
  rcases hrun : ((copy "gone" "n").perform (Store.atTop [114])).run
    (.ofFileSystem abandoned) with ⟨result, w'⟩
  rw [hrun] at hfails hfs
  cases result with
  | ok u => cases hfails
  | error e =>
      have hclean := hall (Store.atTop [114]) [[114]] (copy "gone" "n") Store.keyN
        (.ofFileSystem abandoned) w' e abandoned_tidy rfl hrun
      apply hclean.staging 0
      rw [show w'.fs = abandoned from hfs]
      rfl

end WriteCall

end Depot
