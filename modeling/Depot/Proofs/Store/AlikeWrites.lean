import Depot.Proofs.Store.AlikeSteps
import Depot.Proofs.Store.Keeping
/-!
# Writes in stores that look alike

A write that is made in two file systems that look alike goes the same way in both: both get to the
same point, fail with the same failure or end well, and what they leave still looks alike.

* `AlikeWriting` — a write in progress, in both;
* `beginWriting_pairs`, `AlikeWriting.writesAlike`, `publish_pairs` — the parts of a write;
* `save_pairs`, `copy_pairs` — whole writes.
-/

namespace Depot

open FileSystem

namespace Store

variable {s : Store} {root : Position} {k : Key} {g g' fs fs' : FileSystem} {w w' : Writing}

/-- A write of an object in two file systems that look alike: each has its staging file open. -/
structure AlikeWriting (s : Store) (root : Position) (k : Key) (g g' : FileSystem) (w w' : Writing)
    (fs fs' : FileSystem) : Prop where
  alike : s.Alike root g g' fs fs'
  target : w.target = s.pathOf k.names
  target' : w'.target = s.pathOf k.names
  written : w'.written = w.written
  file : ∃ id id', w.handle = .file id ∧ w'.handle = .file id' ∧
    fs.at? (root ++ k.staging) = some (.file id) ∧ fs'.at? (root ++ k.staging) = some (.file id')

theorem discarding_alike {α : Type} {op op' : Op StorageError α}
    {done : α → α → FileSystem → FileSystem → Prop} (hroot : s.LeadsTo g root)
    (hop : op.Pairs op' fs fs' done (s.Alike root g g')) :
    (discarding (s.pathOf k.names) op).Pairs (discarding (s.pathOf k.names) op') fs fs' done
      (s.Alike root g g') := by
  refine discarding_pairs id (fun hst => ?_) hop
  rw [hroot.stagingPath_eq]
  exact hst.unlink k.isName_staging

/-! ## The parts of a write -/

theorem openStaging_pairs (h : s.Alike root g g' fs fs') :
    (openStaging (s.pathOf k.names)).Pairs (openStaging (s.pathOf k.names)) fs fs'
      (s.AlikeWriting root k g g') (s.Alike root g g') := by
  have hroot := h.start.left.leadsTo
  obtain ⟨parent, hparent, -⟩ := hroot.parent?_staging k
  rw [openStaging_of_parent (hroot.stagingPath_eq k) hparent]
  refine Op.Pairs.bind (fun _ _ st st' => s.Alike root g g' st st')
    (makeDirectories_pairs h hparent).mapError ?_
  intro _ _ st st' hst
  refine createStaging_pairs (fun handle handle' st st' => s.Alike root g g' st st' ∧
    ∃ id id', handle = .file id ∧ handle' = .file id' ∧
      st.at? (root ++ k.staging) = some (.file id) ∧
        st'.at? (root ++ k.staging) = some (.file id')) ?_ ?_
  · rw [hroot.stagingPath_eq]
    exact (hst.create k).weaken (fun _ _ _ _ hcreated => hcreated) fun _ => hst
  · rintro _ _ st st' ⟨hst, id, id', rfl, rfl, hid, hid'⟩
    obtain ⟨f, hf, hf'⟩ := hst.file hid hid'
    rw [setHandleMode_file hf, setHandleMode_file hf']
    exact .ok ⟨hst.store k.staging_ne_nil hid hid' _, rfl, rfl, rfl, id, id', rfl, rfl, hid, hid'⟩

theorem beginWriting_pairs (h : s.Alike root g g' fs fs') :
    (beginWriting (s.pathOf k.names)).Pairs (beginWriting (s.pathOf k.names)) fs fs'
      (s.AlikeWriting root k g g') (s.Alike root g g') :=
  discarding_alike h.start.left.leadsTo (openStaging_pairs h)

theorem append_pairs (h : s.AlikeWriting root k g g' w w' fs fs') (data : Bytes) :
    (w.append data).Pairs (w'.append data) fs fs' (s.AlikeWriting root k g g')
      (s.Alike root g g') := by
  obtain ⟨id, id', hhandle, hhandle', hid, hid'⟩ := h.file
  obtain ⟨f, hf, hf'⟩ := h.alike.file hid hid'
  rw [Writing.append, Writing.append, hhandle, hhandle', h.written]
  refine Op.Pairs.bind (fun _ _ st st' => s.Alike root g g' st st' ∧
    st.at? (root ++ k.staging) = some (.file id) ∧
      st'.at? (root ++ k.staging) = some (.file id')) ?_ ?_
  · apply Op.Pairs.change_
    rw [writeAt, writeAt, hf, hf', h.alike.clock]
    exact .ok ⟨h.alike.store k.staging_ne_nil hid hid' _, hid, hid'⟩
  · rintro _ _ st st' ⟨hst, hid, hid'⟩
    exact Op.Pairs.pure ⟨hst, h.target, h.target', rfl, id, id', rfl, rfl, hid, hid'⟩

theorem abort_pairs (h : s.AlikeWriting root k g g' w w' fs fs') (e : IoError) :
    (w.abort e).Pairs (w'.abort e) fs fs' (s.AlikeWriting root k g g') (s.Alike root g g') := by
  rw [Writing.abort, Writing.abort, h.target, h.target']
  exact discarding_alike h.alike.start.left.leadsTo (Op.Pairs.throw h.alike)

theorem AlikeWriting.writesAlike :
    WritesAlike (s.AlikeWriting root k g g') (s.Alike root g g') :=
  ⟨fun h data => append_pairs h data, fun h e => abort_pairs h e⟩

theorem publish_pairs (h : s.AlikeWriting root k g g' w w' fs fs') :
    w.publish.Pairs w'.publish fs fs'
      (fun written written' st st' => written' = written ∧ s.Alike root g g' st st')
      (s.Alike root g g') := by
  have hroot := h.alike.start.left.leadsTo
  obtain ⟨id, id', hhandle, hhandle', hid, hid'⟩ := h.file
  rw [Writing.publish, Writing.publish, h.target, h.target', hhandle, hhandle', h.written,
    hroot.stagingPath_eq]
  refine Op.Pairs.bind (fun _ _ st st' => s.Alike root g g' st st') ?_ ?_
  · apply discarding_alike hroot
    refine Op.Pairs.bind (fun _ _ st st' => st = fs ∧ st' = fs') ?_ ?_
    · apply Op.Pairs.mapError
      exact Op.Pairs.query (.ok ⟨rfl, rfl⟩)
    · rintro _ _ st st' ⟨rfl, rfl⟩
      apply Op.Pairs.mapError
      apply Op.Pairs.change_
      exact (h.alike.rename hid hid').weaken (fun _ _ _ _ hst => hst) fun _ => h.alike
  · intro _ _ st st' hst
    refine Op.Pairs.bind (fun _ _ st st' => s.Alike root g g' st st') (Op.Pairs.report hst) ?_
    exact fun _ _ _ _ hst' => Op.Pairs.pure ⟨rfl, hst'⟩

/-! ## Whole writes -/

theorem save_pairs (h : s.Alike root g g' fs fs') (name : String) (source : List Delivery)
    (expected : Nat) :
    (s.save name source expected).Pairs (s.save name source expected) fs fs'
      (fun _ _ st st' => s.Alike root g g' st st') (s.Alike root g g') := by
  rw [save, saveFrom, beginSave]
  cases hname : s.resolve name with
  | error fault => exact Op.Pairs.lift_error h
  | ok path =>
      obtain ⟨k, -, rfl, -⟩ := resolve_eq_ok hname
      refine Op.Pairs.bind _ (Op.Pairs.lift_ok (beginWriting_pairs h)) ?_
      intro w w' st st' hw
      apply Op.Pairs.get
      rintro - - - -
      refine Op.Pairs.bind _ (AlikeWriting.writesAlike.receiveAll_pairs hw source) ?_
      intro w w' st st' hw
      rw [endSave, endSave]
      refine Op.Pairs.bind _ (publish_pairs hw) ?_
      rintro _ written st st' ⟨rfl, hst⟩
      rw [reportSize]
      split
      · exact Op.Pairs.report hst
      · exact Op.Pairs.pure hst

theorem Opened.sameHandle {k' : Key} {handle handle' : Handle} {st st' : FileSystem}
    (h : s.Opened root k fs w st) (h' : s.Opened root k fs' w' st')
    (hsame : SameHandle root k'.names fs fs' handle handle') :
    SameHandle root k'.names st st' handle handle' := by
  have hspot : root ++ k'.names ∉ [root ++ k.staging] := by
    rw [List.mem_singleton]
    exact ne_staging_of_isObjectPosition _ (isObjectPosition_names k')
  obtain ⟨st₀, hgrown, -, hlive⟩ := h
  obtain ⟨st₀', hgrown', -, hlive'⟩ := h'
  cases hsame with
  | directory => exact .directory
  | file hid hid' =>
      exact .file (hlive.footprint.kept hspot (hgrown.kept hid))
        (hlive'.footprint.kept hspot (hgrown'.kept hid'))

theorem copy_pairs (h : s.Alike root g g' fs fs') (src dst : String) :
    (s.copy src dst).Pairs (s.copy src dst) fs fs'
      (fun _ _ st st' => s.Alike root g g' st st') (s.Alike root g g') := by
  rw [copy]
  cases hsrc : s.resolve src with
  | error fault => exact Op.Pairs.lift_error h
  | ok source =>
      apply Op.Pairs.lift_ok
      cases hdst : s.resolve dst with
      | error fault => exact Op.Pairs.lift_error h
      | ok target =>
          apply Op.Pairs.lift_ok
          obtain ⟨k', -, rfl, -⟩ := resolve_eq_ok hsrc
          obtain ⟨k, -, rfl, -⟩ := resolve_eq_ok hdst
          refine Op.Pairs.bind (fun handle handle' st st' => st = fs ∧ st' = fs' ∧
            SameHandle root k'.names fs fs' handle handle') ?_ ?_
          · rw [openObject]
            apply Op.Pairs.mapError
            apply Op.Pairs.query
            exact (h.openRead k'.isName).weaken (fun _ _ _ _ hsame => ⟨rfl, rfl, hsame⟩) fun _ => h
          rintro handle handle' st st' ⟨rfl, rfl, hsame⟩
          rw [stageAndPublish, stageAndPublish]
          refine Op.Pairs.bind (fun written written' st st' =>
            written' = written ∧ s.Alike root g g' st st') ?_ ?_
          · refine Op.Pairs.bind _ ((beginWriting_pairs h).and_runs
              (beginWriting_prepared h.left.toGrounded)
              (beginWriting_prepared h.right.toGrounded)) ?_
            rintro w w' st st' ⟨hw, hopened, hopened'⟩
            apply Op.Pairs.get
            rintro w₁ w₁' rfl rfl
            have hread := hw.alike.readFrom (hopened.sameHandle hopened' hsame) 0
            rw [deliveriesOf, deliveriesOf, hread]
            exact (AlikeWriting.writesAlike.receiveAll_pairs hw _).bind _
              fun _ _ _ _ hw => publish_pairs hw
          · rintro _ written st st' ⟨rfl, hst⟩
            exact Op.Pairs.report hst

end Store

end Depot
