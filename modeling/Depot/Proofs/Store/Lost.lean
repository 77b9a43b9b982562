import Depot.Proofs.Store.Writing
/-!
# Writes that have lost their staging file

While the source of a write is read, another write of the same object can take the staging file
away: it renames it over the object, or removes it.  The first write is `Lost` then.  Its bytes go
on into the file that it has opened, which is the object itself if the other write has ended well,
and it cannot end well any more.

* `Writing.hits` — a delivery that changes the object while it is written;
* `Lost.receive_runs`, `Lost.endSave_runs` — what a lost write still does.
-/

namespace Depot

open FileSystem

/-- The bytes of a delivery would go into the file that is bound at a position. -/
def Writing.hits (w : Writing) (fs : FileSystem) (pos : Position) : Delivery → Bool
  | .chunk (_ :: _) =>
    match w.handle with
    | .file id => fs.at? pos = some (.file id)
    | _ => false
  | _ => false

theorem FileSystem.objectAt?_store {fs : FileSystem} {root names : Position} {id : Nat} (f : File)
    (hid : fs.at? (root ++ names) ≠ some (.file id)) :
    (fs.store id f).objectAt? root names = fs.objectAt? root names := by
  rw [objectAt?, objectAt?, at?_store]
  cases he : fs.at? (root ++ names) with
  | none => rfl
  | some entry =>
      cases entry with
      | file id' =>
          have hne : id' ≠ id := fun heq => hid (by rw [he, heq])
          simp only [Option.bind_eq_bind, Option.bind_some, bytesOf, file?_store, if_neg hne]
      | directory mode => rfl
      | link target => rfl
      | device => rfl

namespace Store

variable {s : Store} {root : Position} {k : Key} {fs : FileSystem} {w : Writing}

/-- A staging path that the system takes, with no directory in its place. -/
structure Stageable (s : Store) (root : Position) (k : Key) (fs : FileSystem) : Prop where
  checkPath : checkPath (s.pathOf k.staging) = .ok ()
  not_directory : ∀ mode, fs.at? (root ++ k.staging) ≠ some (.directory mode)

theorem Stageable.vacant {fs₀ : FileSystem} (h : s.Stageable root k fs₀)
    (hstaged : s.Staged root k fs₀ fs) (hcleared : s.Cleared k fs) :
    fs.at? (root ++ k.staging) = none := by
  by_contra hsome
  obtain ⟨entry, he⟩ := Option.ne_none_iff_exists'.1 hsome
  have hfile : ∀ id, entry ≠ .file id := by
    rintro id rfl
    exact hstaged.tidy.cleared_iff.1 hcleared h.checkPath id he
  rcases hstaged.footprint.spot (List.mem_singleton_self _) he with hbefore | ⟨id, rfl⟩
  · rcases hstaged.tidy.entry_below k.dirs _ he with ⟨mode, rfl⟩ | ⟨id, rfl⟩
    · exact h.not_directory mode hbefore
    · exact hfile id rfl
  · exact hfile id rfl

theorem Live.stageable {fs₀ : FileSystem} {bytes : Bytes} (h : s.Live root k fs₀ w bytes fs) :
    s.Stageable root k fs := by
  obtain ⟨id, time, -, hid, -⟩ := h.file
  refine ⟨h.checkPath, fun mode hmode => ?_⟩
  rw [hid] at hmode
  cases hmode

theorem Live.stageable_before {fs₀ : FileSystem} {bytes : Bytes}
    (h : s.Live root k fs₀ w bytes fs) : s.Stageable root k fs₀ :=
  ⟨h.checkPath, fun mode hmode =>
    h.stageable.not_directory mode (h.footprint.keepsPaths _ _ hmode (Or.inl rfl))⟩

theorem Live.hits_eq_false {fs₀ : FileSystem} {bytes : Bytes} (h : s.Live root k fs₀ w bytes fs)
    (d : Delivery) : w.hits fs (root ++ k.names) d = false := by
  obtain ⟨id, time, hhandle, hid, -⟩ := h.file
  have hother : fs.at? (root ++ k.names) ≠ some (.file id) := by
    intro hbound
    have hone := h.tidy.plain.eq_of_file k.names_ne_nil hbound hid
    exact ne_staging_of_isObjectPosition _ (isObjectPosition_names k) hone.symm
  cases d with
  | fault e => rfl
  | chunk data =>
      cases data with
      | nil => rfl
      | cons b data =>
          rw [Writing.hits, hhandle]
          exact decide_eq_false hother

/-- A write without anything at its staging path. -/
structure Lost (s : Store) (root : Position) (k : Key) (w : Writing) (fs : FileSystem) : Prop where
  tidy : s.Tidy fs root
  target : w.target = s.pathOf k.names
  checkPath : FileSystem.checkPath (s.pathOf k.staging) = .ok ()
  handle : ∃ id, w.handle = .file id
  vacant : fs.at? (root ++ k.staging) = none

theorem Lost.stageable (h : s.Lost root k w fs) : s.Stageable root k fs := by
  refine ⟨h.checkPath, fun mode hmode => ?_⟩
  rw [h.vacant] at hmode
  cases hmode

theorem Live.lost {fs₀ fs' : FileSystem} {bytes : Bytes} (h : s.Live root k fs₀ w bytes fs)
    (htidy : s.Tidy fs' root) (hvacant : fs'.at? (root ++ k.staging) = none) :
    s.Lost root k w fs' := by
  obtain ⟨id, time, hhandle, -⟩ := h.file
  exact ⟨htidy, h.target, h.checkPath, ⟨id, hhandle⟩, hvacant⟩

theorem discard_vacant_runs (h : s.Tidy fs root) (hvacant : fs.at? (root ++ k.staging) = none) :
    (discard (s.pathOf k.staging)).Runs fs (fun _ => False) (fun _ st => st = fs)
      (fun _ _ => False) := by
  refine runs_discard (fun fs' hunlink => ?_) fun _ _ => rfl
  obtain ⟨-, ⟨id, hid⟩, -⟩ := (h.unlink_eq_ok k.isName_staging).1 hunlink
  rw [show k.dirs ++ [k.leaf ++ stagingSuffix] = k.staging from rfl, hvacant] at hid
  cases hid

theorem discarding_vacant_runs {α : Type} {op : Op StorageError α} (h : s.Tidy fs root)
    (hvacant : fs.at? (root ++ k.staging) = none)
    (hop : op.Runs fs (fun _ => False) (fun _ _ => False) (fun _ st => st = fs)) :
    (discarding (s.pathOf k.names) op).Runs fs (fun _ => False) (fun _ _ => False)
      (fun _ st => st = fs) := by
  refine runs_discarding (h.stagingPath_eq k) hop ?_
  rintro st rfl
  exact discard_vacant_runs h hvacant

namespace Lost

theorem append_runs (h : s.Lost root k w fs) (b : UInt8) (data : Bytes) :
    (w.append (b :: data)).Runs fs
      (fun st => w.hits fs (root ++ k.names) (.chunk (b :: data)) = false →
        st.objectAt? root k.names = fs.objectAt? root k.names)
      (fun w' st => s.Lost root k w' st ∧
        (w.hits fs (root ++ k.names) (.chunk (b :: data)) = false →
          st.objectAt? root k.names = fs.objectAt? root k.names))
      (fun _ _ => False) := by
  obtain ⟨id, hid⟩ := h.handle
  have hafter : s.Lost root k w (fs.writeAt w.handle w.written (b :: data)) ∧
      (w.hits fs (root ++ k.names) (.chunk (b :: data)) = false →
        (fs.writeAt w.handle w.written (b :: data)).objectAt? root k.names =
          fs.objectAt? root k.names) := by
    rw [hid, writeAt]
    cases hf : fs.file? id with
    | none => exact ⟨h, fun _ => rfl⟩
    | some f =>
        refine ⟨⟨h.tidy.store _ hf, h.target, h.checkPath, h.handle, h.vacant⟩, fun hhits => ?_⟩
        apply objectAt?_store
        rw [Writing.hits, hid] at hhits
        exact of_decide_eq_false hhits
  rw [Writing.append]
  refine Op.Runs.bind (fun _ st => s.Lost root k w st ∧
    (w.hits fs (root ++ k.names) (.chunk (b :: data)) = false →
      st.objectAt? root k.names = fs.objectAt? root k.names)) ?_ ?_
  · apply Op.Runs.change_
    · intro fs' hok
      cases hok
      exact ⟨hafter.2, hafter⟩
    · intro e he
      cases he
  · rintro _ st ⟨hlost, hsame⟩
    exact Op.Runs.pure
      ⟨⟨hlost.tidy, hlost.target, hlost.checkPath, hlost.handle, hlost.vacant⟩, hsame⟩

theorem receive_runs (h : s.Lost root k w fs) (d : Delivery) :
    (w.receive d).Runs fs
      (fun st => w.hits fs (root ++ k.names) d = false →
        st.objectAt? root k.names = fs.objectAt? root k.names)
      (fun received st => match received with
        | .ended w' => st = fs ∧ s.Lost root k w' st
        | .more w' => s.Lost root k w' st ∧ (w.hits fs (root ++ k.names) d = false →
            st.objectAt? root k.names = fs.objectAt? root k.names))
      (fun _ st => st = fs) := by
  cases d with
  | chunk data =>
      cases data with
      | nil => exact Op.Runs.pure ⟨rfl, h⟩
      | cons b data =>
          apply Op.Runs.map
          exact (h.append_runs b data).weaken (fun _ hst => hst) (fun _ _ hst => hst)
            fun _ _ hst => hst.elim
  | fault e =>
      rw [Writing.receive]
      split
      · exact Op.Runs.pure ⟨h, fun _ => rfl⟩
      · apply Op.Runs.map
        rw [Writing.abort, h.target]
        exact (discarding_vacant_runs h.tidy h.vacant (Op.Runs.throw rfl)).refused
          fun _ _ hst => hst

theorem endSave_runs (h : s.Lost root k w fs) (name : String) (expected : Nat) :
    (endSave name expected w).Runs fs (fun _ => False) (fun _ _ => False)
      (fun _ st => st = fs) := by
  rw [endSave, Writing.publish, h.target, h.tidy.stagingPath_eq]
  refine Op.Runs.bind (fun _ _ => False) ?_ fun _ _ hst => hst.elim
  refine Op.Runs.bind (fun _ _ => False) ?_ fun _ _ hst => hst.elim
  apply discarding_vacant_runs h.tidy h.vacant
  refine Op.Runs.bind (fun _ st => st = fs) ?_ ?_
  · apply Op.Runs.mapError
    exact Op.Runs.query (fun _ _ => rfl) fun _ _ => rfl
  · rintro _ st rfl
    apply Op.Runs.mapError
    apply Op.Runs.change_
    · intro fs' hrename
      exact absurd hrename (h.tidy.rename_of_vacant k.leaf
        k.isName_staging h.vacant fs')
    · exact fun _ _ => rfl

end Lost

end Store

end Depot
