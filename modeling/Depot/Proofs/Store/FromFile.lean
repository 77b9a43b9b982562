import Depot.Proofs.FileSystem.Growing
import Depot.Proofs.Store.Writing
/-!
# Writing an object from an open file

The source of a write may be a file that was opened before the write began, below the root or
elsewhere.  The write touches no file but the one at the staging path, so it publishes what the
source has held, unless the source is that very file: it was emptied when the write began.

* `takenFrom` — what such a write publishes;
* `Tidy.saveFrom_file_runs` — saving from a file;
* `Published.file_of_source` — what is left of the source.
-/

namespace Depot

open FileSystem

/-! ## Parts of a write, whatever the store -/

section

variable {fs : FileSystem} {target : Pathname}

theorem checkPath_of_create {fs' : FileSystem} {p : Pathname} {handle : Handle}
    (h : fs.create p = .ok (fs', handle)) : checkPath p = .ok () := by
  unfold create at h
  dsimp only at h
  split at h
  · obtain ⟨last, -, hthrow⟩ := bind_eq_ok.1 h
    cases hthrow
  · obtain ⟨place, hplace, -⟩ := bind_eq_ok.1 h
    exact (locate_eq_ok.1 hplace).1

theorem discarding_done {α : Type} {op : Op StorageError α} {done : α → FileSystem → Prop}
    (hop : op.Runs fs (fun _ => True) done fun _ _ => True) :
    (discarding target op).Runs fs (fun _ => True) done fun _ _ => True :=
  runs_discarding rfl hop fun _ _ => runs_discard (fun _ _ => ⟨trivial, trivial⟩) fun _ _ => trivial

theorem beginWriting_checked :
    (beginWriting target).Runs fs (fun _ => True)
      (fun _ _ => checkPath (stagingPath target) = .ok ()) (fun _ _ => True) := by
  have hopen (st : FileSystem) : (createStaging target).Runs st (fun _ => True)
      (fun _ _ => checkPath (stagingPath target) = .ok ()) (fun _ _ => True) :=
    runs_createStaging rfl
      (fun _ _ hcreate => ⟨trivial, fun _ _ => ⟨trivial, checkPath_of_create hcreate⟩⟩)
      fun _ _ => trivial
  apply discarding_done
  rw [openStaging]
  dsimp only
  split
  · refine Op.Runs.bind (fun _ _ => True) ?_ fun _ st _ => hopen st
    apply Op.Runs.mapError
    exact makeDirectories_keeps (fun _ _ _ _ _ _ => trivial) trivial
  · exact hopen fs

end

namespace Store

variable {s : Store} {root q : Position} {k : Key} {fs₀ fs : FileSystem} {id : Nat} {f : File}

/-- What a write yields whose source is a file at a position. -/
def takenFrom (root : Position) (k : Key) (q : Position) (bytes : Bytes) : Bytes :=
  if q = root ++ k.staging then [] else bytes

theorem openStaging_handle (h₀ : s.Tidy fs₀ root)
    (hid : fs₀.at? (root ++ k.staging) = some (.file id)) :
    (openStaging (s.pathOf k.names)).Runs fs₀ (fun _ => True) (fun w _ => w.handle = .file id)
      (fun _ _ => True) := by
  obtain ⟨parent, hparent, -⟩ := h₀.leadsTo.parent?_staging k
  rw [openStaging_of_parent (h₀.stagingPath_eq k) hparent]
  refine Op.Runs.bind (fun _ st => Grown fs₀ st) ?_ ?_
  · apply Op.Runs.mapError
    exact (makeDirectories_grown parent (Grown.refl h₀.wellFormed)).weaken (fun _ _ => trivial)
      (fun _ _ hst => hst) fun _ _ _ => trivial
  · intro _ st hgrown
    have htidy : s.Tidy st root :=
      ⟨hgrown.wellFormed, h₀.leadsTo.of_keeps hgrown.keepsPaths, hgrown.plainBelow h₀.plain⟩
    refine runs_createStaging (htidy.stagingPath_eq k) (fun st' handle hcreate => ?_)
      fun _ _ => trivial
    refine ⟨trivial, fun _ _ => ⟨trivial, ?_⟩⟩
    have hkept := hgrown.kept hid
    obtain ⟨-, hcases⟩ := htidy.eq_of_create k.isName_staging hcreate
    rcases hcases with ⟨id', f, hid', -, rfl, -⟩ | ⟨-, -, hnone, -, -⟩
    · obtain rfl : id = id' := by
        have hsame := hkept.symm.trans hid'
        cases hsame
        rfl
      rfl
    · exact absurd (hkept.symm.trans hnone) (by simp)

theorem Live.payload_source {w : Writing} (h₀ : s.Tidy fs₀ root)
    (h : s.Live root k fs₀ w [] fs) (hid : fs₀.at? q = some (.file id))
    (hf : fs₀.file? id = some f)
    (hhandle : fs₀.at? (root ++ k.staging) = some (.file id) → w.handle = .file id) :
    payload (deliveriesOf (.file id) fs) = some (takenFrom root k q f.bytes) := by
  have hread : ∀ f' : File, fs.file? id = some f' →
      payload (deliveriesOf (.file id) fs) = some f'.bytes := by
    intro f' hf'
    rw [deliveriesOf, readFrom, hf']
    exact payload_buffersOf f'.bytes
  rw [takenFrom]
  split
  · rename_i hstaging
    obtain ⟨id', time, hid', -, hempty⟩ := h.file
    have hsame := (hhandle (hstaging ▸ hid)).symm.trans hid'
    cases hsame
    exact hread _ hempty
  · rename_i hother
    apply hread
    rw [← hf]
    exact h.footprint.file?_eq h₀.wellFormed h₀.plain
      (fun pos hpos => ⟨k.staging, k.staging_ne_nil, List.mem_singleton.1 hpos⟩)
      (by simpa using hother) hid

theorem Tidy.saveFrom_file_runs (h₀ : s.Tidy fs₀ root) {name : String}
    (hname : s.resolve name = .ok (s.pathOf k.names)) (hid : fs₀.at? q = some (.file id))
    (hf : fs₀.file? id = some f) (expected : Nat) :
    (s.saveFrom name (deliveriesOf (.file id)) expected).Runs fs₀ (fun _ => True)
      (fun _ st => s.Published root k fs₀ (takenFrom root k q f.bytes) st) (fun _ _ => True) := by
  have hbegin : (s.beginSave name).Runs fs₀ (fun _ => True)
      (fun w st => s.Live root k fs₀ w [] st ∧
        (fs₀.at? (root ++ k.staging) = some (.file id) → w.handle = .file id))
      (fun _ _ => True) := by
    have hlive := beginSave_runs h₀ hname
    by_cases hstaged : fs₀.at? (root ++ k.staging) = some (.file id)
    · have hhandle : (s.beginSave name).Runs fs₀ (fun _ => True)
          (fun w _ => w.handle = .file id) (fun _ _ => True) := by
        rw [beginSave, hname]
        apply Op.Runs.lift_ok
        exact discarding_done (openStaging_handle h₀ hstaged)
      exact (hlive.and hhandle).weaken (fun _ _ => trivial) (fun _ _ hst => ⟨hst.1, fun _ => hst.2⟩)
        fun _ _ _ => trivial
    · exact hlive.weaken (fun _ _ => trivial) (fun _ _ hst => ⟨hst, fun h => absurd h hstaged⟩)
        fun _ _ _ => trivial
  rw [saveFrom]
  refine Op.Runs.bind _ hbegin ?_
  rintro w st ⟨hlive, hhandle⟩
  have hsource := hlive.payload_source h₀ hid hf hhandle
  refine (hlive.fill_runs (deliveriesOf (.file id)) h₀ hsource (fun _ _ => trivial) ?_).weaken
    (fun _ hst => hst) (fun _ _ hst => hst) fun _ _ _ => trivial
  intro w' bytes st' hbytes hlive'
  cases hbytes
  exact (hlive'.endSave_runs h₀ name expected).passing fun _ _ => trivial

theorem Published.file_of_source (h₀ : s.Tidy fs₀ root)
    (h : s.Published root k fs₀ (takenFrom root k q f.bytes) fs)
    (hid : fs₀.at? q = some (.file id)) (hf : fs₀.file? id = some f)
    (hq : q ≠ root ++ k.staging) :
    ∃ id' f', fs.at? q = some (.file id') ∧ fs.file? id' = some f' ∧ f'.bytes = f.bytes := by
  by_cases hobject : q = root ++ k.names
  · subst hobject
    obtain ⟨id', time, hid', hf'⟩ := h.object
    exact ⟨id', _, hid', hf', if_neg hq⟩
  · have hspot : q ∉ [root ++ k.names, root ++ k.staging] := by simp [hobject, hq]
    refine ⟨id, f, (h.footprint.at?_eq_file_iff hspot).2 hid, ?_, rfl⟩
    rw [← hf]
    refine h.footprint.file?_eq h₀.wellFormed h₀.plain (fun pos hpos => ?_) hspot hid
    rcases List.mem_pair.1 hpos with rfl | rfl
    · exact ⟨k.names, k.names_ne_nil, rfl⟩
    · exact ⟨k.staging, k.staging_ne_nil, rfl⟩

end Store

end Depot
