import Depot.Proofs.Store.Aside
import Depot.Proofs.Store.FailureAtomicity
/-!
# Writes among links

A write opens its staging file by path.  When no link stands at the staging path and the file that
stands there has no other name, it is the write's own, whatever links there are elsewhere: every
file but the two of the write is spared, and the object is a real file with the payload in the end.
A link at the staging path leads the write into a file of another name.

* `StagesFreely` — what has to hold of the staging path;
* `beginWriting_begun`, `Begun.receiveAll_begun`, `Begun.publish_ended` — the parts of a write;
* `WriteCall.spares_others` — calls that write;
* `WriteCall.link_is_followed` — a link at the staging path.
-/

namespace Depot

open FileSystem

namespace Store

variable {s : Store} {root home : Position} {k : Key} {fs₀ fs fs' : FileSystem} {w : Writing}
  {bytes : Bytes}

/-- The staging path is free for a write: no link is there, and a file that is there has no other
name but that of the object. -/
structure StagesFreely (s : Store) (k : Key) (fs : FileSystem) : Prop where
  not_link : ∀ pos target, fs.placeOf (s.pathOf k.staging) = some pos →
    fs.at? pos ≠ some (.link target)
  single : ∀ pos id, fs.placeOf (s.pathOf k.staging) = some pos → fs.at? pos = some (.file id) →
    ∀ pos', fs.at? pos' = some (.file id) →
      pos' = pos ∨ fs.placeOf (s.pathOf k.names) = some pos'

/-- A file system that a write with a free staging path starts from. -/
structure Starts (s : Store) (root : Position) (k : Key) (fs : FileSystem) : Prop where
  leadsTo : s.LeadsTo fs root
  wellFormed : fs.WellFormed
  free : s.StagesFreely k fs

/-- The home of an object, where it was there before, or a directory that is new. -/
def IsHome (s : Store) (k : Key) (fs₀ : FileSystem) (home : Position) : Prop :=
  fs₀.placeOf (s.pathOf k.staging) = some (stagingAt k home) ∨ fs₀.at? home = none

/-- Every file but those at the two paths of a write keeps its bytes and its mode. -/
def SparesOthers (s : Store) (k : Key) (fs₀ fs : FileSystem) : Prop :=
  ∀ pos bytes mode, fs₀.placeOf (s.pathOf k.names) ≠ some pos →
    fs₀.placeOf (s.pathOf k.staging) ≠ some pos →
      fs₀.view pos = some (.file bytes mode) → fs.view pos = some (.file bytes mode)

/-- A write that was begun in the home of its object. -/
def Begun (s : Store) (k : Key) (fs₀ : FileSystem) (bytes : Bytes) (w : Writing)
    (fs : FileSystem) : Prop :=
  ∃ home, s.IsHome k fs₀ home ∧ s.Filling k home fs₀ w bytes fs

/-- A write that is about to fail: it was begun in the home of its object, or it has only made
directories. -/
def Failing (s : Store) (k : Key) (fs₀ fs : FileSystem) : Prop :=
  (∃ home, s.IsHome k fs₀ home ∧ s.Aside k home fs₀ fs) ∨
    Grown fs₀ fs ∧ ∀ home, fs.placeOf (s.pathOf k.staging) = some (stagingAt k home) →
      s.IsHome k fs₀ home

/-- A write that has ended in the home of its object. -/
def Ended (s : Store) (k : Key) (fs₀ : FileSystem) (bytes : Bytes) (fs : FileSystem) : Prop :=
  ∃ home, s.IsHome k fs₀ home ∧ s.Finished k home fs₀ bytes fs

theorem IsHome.placeOf_staging (h : s.IsHome k fs₀ home) (hwf : fs₀.WellFormed) {pos : Position}
    (hpos : pos = stagingAt k home ∨ pos = objectAt k home) {entry : Entry}
    (he : fs₀.at? pos = some entry) :
    fs₀.placeOf (s.pathOf k.staging) = some (stagingAt k home) := by
  rcases h with hplace | hnone
  · exact hplace
  · have hvacant (name : Bytes) : fs₀.at? (home ++ [name]) = none :=
      hwf.at?_append_of_not_directory (by simp [hnone]) (by simp)
    rcases hpos with rfl | rfl
    · rw [stagingAt, hvacant] at he
      cases he
    · rw [objectAt, hvacant] at he
      cases he

theorem Starts.not_link (h : s.Starts root k fs₀)
    (hcheck : FileSystem.checkPath (s.pathOf k.staging) = .ok ())
    (hfound : s.Reaches fs₀ k.dirs home ∨ fs₀.at? home = none) (target : Pathname) :
    fs₀.at? (stagingAt k home) ≠ some (.link target) := by
  intro ht
  rcases hfound with hreach | hnone
  · have hname : IsEntryName (k.leaf ++ stagingSuffix) := h.wellFormed.name ht
    exact h.free.not_link _ target
      (h.leadsTo.placeOf_staging.2 ⟨hcheck, hname.length_le, home, hreach, rfl⟩) ht
  · rw [stagingAt, h.wellFormed.at?_append_of_not_directory (by simp [hnone]) (by simp)] at ht
    cases ht

theorem FindsHome.isHome (h : s.FindsHome k fs₀ fs) (hroot : s.LeadsTo fs₀ root)
    (hplace : fs.placeOf (s.pathOf k.staging) = some (stagingAt k home)) :
    s.IsHome k fs₀ home := by
  obtain ⟨-, found, hreach, hfound⟩ := h
  obtain ⟨hcheck, hlength, home', hreach', heq⟩ := hroot.placeOf_staging.1 hplace
  obtain rfl : home = home' := (List.append_inj' heq rfl).1
  obtain rfl := hreach.unique hreach'
  exact hfound.imp_left fun hbefore =>
    hroot.placeOf_staging.2 ⟨hcheck, hlength, found, hbefore, rfl⟩

/-! ## What is spared -/

theorem sparesOthers_of_grown (h : Grown fs₀ fs) : s.SparesOthers k fs₀ fs := by
  intro pos bytes mode _ _ hview
  obtain ⟨id, f, hid, hf, hshown⟩ := view_eq_file.1 hview
  exact view_eq_file.2 ⟨id, f, h.kept hid, (h.file?_eq id).trans hf, hshown⟩

theorem Spared.sparesOthers {spots : List Position} (hstart : s.Starts root k fs₀)
    (hhome : s.IsHome k fs₀ home)
    (hspots : ∀ pos ∈ spots, pos = stagingAt k home ∨ pos = objectAt k home)
    (h : Spared (stagingAt k home) spots fs₀ fs) : s.SparesOthers k fs₀ fs := by
  intro pos bytes mode hobject hstaging hview
  obtain ⟨id, f, hid, hf, hshown⟩ := view_eq_file.1 hview
  have hspot : pos ∉ spots := by
    intro hmem
    have hplace := hhome.placeOf_staging hstart.wellFormed (hspots pos hmem) hid
    rcases hspots pos hmem with rfl | rfl
    · exact hstaging hplace
    · exact hobject (hstart.leadsTo.placeOf_objectAt hplace)
  have howned : ¬ fs₀.Owns [stagingAt k home] id := by
    rintro (hnone | ⟨pos', hpos', hid'⟩)
    · rw [hf] at hnone
      cases hnone
    · obtain rfl := List.mem_singleton.1 hpos'
      have hplace := hhome.placeOf_staging hstart.wellFormed (Or.inl rfl) hid'
      rcases hstart.free.single _ _ hplace hid' _ hid with rfl | hother
      · exact hstaging hplace
      · exact hobject hother
  exact view_eq_file.2 ⟨id, f, h.kept hspot hid, (h.file?_eq howned).trans hf, hshown⟩

theorem Failing.sparesOthers (hstart : s.Starts root k fs₀) (h : s.Failing k fs₀ fs) :
    s.SparesOthers k fs₀ fs := by
  rcases h with ⟨home, hhome, haside⟩ | ⟨hgrown, -⟩
  · exact haside.toSpared.sparesOthers hstart hhome fun _ hpos => Or.inl (List.mem_singleton.1 hpos)
  · exact sparesOthers_of_grown hgrown

theorem Failing.unlink (hstart : s.Starts root k fs₀) (h : s.Failing k fs₀ fs)
    (hunlink : fs.unlink (s.pathOf k.staging) = .ok fs') : s.SparesOthers k fs₀ fs' := by
  have hroot := hstart.leadsTo
  rcases h with ⟨home, hhome, haside⟩ | ⟨hgrown, hhomes⟩
  · exact (haside.unlink hroot hunlink).sparesOthers hstart hhome
      fun _ hpos => Or.inl (List.mem_singleton.1 hpos)
  · obtain ⟨last, hlast, -⟩ := bind_eq_ok.1 hunlink
    cases last with
    | special => exact absurd hlast (locateLast_ne_special k.isName_staging)
    | name dir name =>
        obtain ⟨-, -, hreach, rfl⟩ := (hroot.locateLast_pathOf k.isName_staging).1 hlast
        have hhome := hhomes dir (placeOf_eq_some_iff.2 ⟨dir, _, hlast, rfl⟩)
        exact ((Aside.of_grown hgrown hreach).unlink hroot hunlink).sparesOthers hstart hhome
          fun _ hpos => Or.inl (List.mem_singleton.1 hpos)

/-! ## The parts of a write -/

theorem discard_spares (hstart : s.Starts root k fs₀) (h : s.Failing k fs₀ fs) :
    (discard (s.pathOf k.staging)).Runs fs (fun _ => True) (fun _ => s.SparesOthers k fs₀)
      (fun _ _ => False) :=
  runs_discard (fun _ hunlink => ⟨trivial, h.unlink hstart hunlink⟩)
    fun _ _ => h.sparesOthers hstart

theorem discarding_spares {α : Type} {op : Op StorageError α} {done : α → FileSystem → Prop}
    (hstart : s.Starts root k fs₀)
    (h : op.Runs fs (fun _ => True) done fun _ => s.Failing k fs₀) :
    (discarding (s.pathOf k.names) op).Runs fs (fun _ => True) done
      (fun _ => s.SparesOthers k fs₀) :=
  runs_discarding (hstart.leadsTo.stagingPath_eq k) h fun _ hst => discard_spares hstart hst

/-- After the directories were made, the home of the object is known, or the staging path is of no
use. -/
theorem makeDirectories_homes (hstart : s.Starts root k fs₀) {parent : Pathname}
    (hparent : (s.pathOf k.staging).parent? = some parent) :
    (makeDirectories parent).Runs fs₀ (fun _ => True)
      (fun _ st => s.FindsHome k fs₀ st ∨
        Grown fs₀ st ∧ FileSystem.checkPath (s.pathOf k.staging) ≠ .ok ())
      (fun _ => s.Failing k fs₀) := by
  by_cases hcheck : FileSystem.checkPath (s.pathOf k.staging) = .ok ()
  · refine (hstart.leadsTo.makeDirectories_reaches hstart.wellFormed hcheck hparent).weaken
      (fun _ _ => trivial) (fun _ _ hst => Or.inl hst) ?_
    rintro _ st ⟨hgrown, hhomeless⟩
    refine Or.inr ⟨hgrown, fun home hplace => ?_⟩
    obtain ⟨-, -, home', hreach, -⟩ := hstart.leadsTo.placeOf_staging.1 hplace
    exact absurd hreach (hhomeless home')
  · refine (makeDirectories_grown parent (Grown.refl hstart.wellFormed)).weaken
      (fun _ _ => trivial) (fun _ _ hst => Or.inr ⟨hst, hcheck⟩) ?_
    exact fun _ _ hst => Or.inr
      ⟨hst, fun _ hplace => absurd (hstart.leadsTo.placeOf_staging.1 hplace).1 hcheck⟩

theorem openStaging_begun (hstart : s.Starts root k fs₀) :
    (openStaging (s.pathOf k.names)).Runs fs₀ (fun _ => True) (s.Begun k fs₀ [])
      (fun _ => s.Failing k fs₀) := by
  have hroot := hstart.leadsTo
  obtain ⟨parent, hparent, -⟩ := hroot.parent?_staging k
  rw [openStaging_of_parent (hroot.stagingPath_eq k) hparent]
  refine Op.Runs.bind _ (Op.Runs.mapError (makeDirectories_homes hstart hparent)) ?_
  intro _ fs h
  refine runs_createStaging (hroot.stagingPath_eq k) (fun st handle hcreate => ⟨trivial, ?_⟩) ?_
  · have hcheck : FileSystem.checkPath (s.pathOf k.staging) = .ok () := by
      rw [FileSystem.create, Key.staging, s.not_endsInSlash_pathOf k.isName_staging,
        if_neg (by simp), bind_eq_ok] at hcreate
      obtain ⟨place, hplace, -⟩ := hcreate
      exact (locate_eq_ok.1 hplace).1
    rcases h with hfound | ⟨-, hno⟩
    · obtain ⟨hgrown, home, hreach, hbefore⟩ := id hfound
      obtain ⟨hplace, haside, hhandle⟩ := Aside.create hroot hgrown hreach
        (hstart.not_link hcheck hbefore) hcreate
      intro st' hmode
      refine ⟨trivial, home, hfound.isHome hroot hplace, ?_⟩
      rcases hhandle with rfl | ⟨id, mode, time, rfl, howned, hid, hf⟩
      · cases hmode
        exact ⟨haside, rfl, rfl, Or.inl rfl⟩
      · rw [setHandleMode_file hf] at hmode
        cases hmode
        exact ⟨haside.store howned _, rfl, rfl, Or.inr ⟨id, time, rfl, howned, hid,
          by rw [file?_store, if_pos rfl]⟩⟩
    · exact absurd hcheck hno
  · intro e _
    refine Or.inr ?_
    rcases h with hfound | ⟨hgrown, hno⟩
    · exact ⟨hfound.1, fun home hplace => hfound.isHome hroot hplace⟩
    · exact ⟨hgrown, fun _ hplace => absurd (hroot.placeOf_staging.1 hplace).1 hno⟩

theorem beginWriting_begun (hstart : s.Starts root k fs₀) :
    (beginWriting (s.pathOf k.names)).Runs fs₀ (fun _ => True) (s.Begun k fs₀ [])
      (fun _ => s.SparesOthers k fs₀) :=
  discarding_spares hstart (openStaging_begun hstart)

namespace Begun

theorem failing (h : s.Begun k fs₀ bytes w fs) : s.Failing k fs₀ fs := by
  obtain ⟨home, hhome, hfilling⟩ := h
  exact Or.inl ⟨home, hhome, hfilling.toAside⟩

theorem target (h : s.Begun k fs₀ bytes w fs) : w.target = s.pathOf k.names := by
  obtain ⟨home, -, hfilling⟩ := h
  exact hfilling.target

theorem append_begun (h : s.Begun k fs₀ bytes w fs) (data : Bytes) :
    (w.append data).Runs fs (fun _ => True) (s.Begun k fs₀ (bytes ++ data)) (fun _ _ => False) := by
  obtain ⟨home, hhome, hfilling⟩ := h
  rw [Writing.append]
  refine Op.Runs.bind (fun _ => s.Begun k fs₀ (bytes ++ data)
    { w with written := w.written + data.length }) ?_ fun _ _ hst => Op.Runs.pure hst
  apply Op.Runs.change_
  · intro fs' hwrite
    cases hwrite
    have hwritten : w.written + data.length = (bytes ++ data).length := by
      rw [hfilling.written, List.length_append]
    refine ⟨trivial, home, hhome, ?_⟩
    rcases hfilling.handle with hdevice | ⟨id, time, hfile, howned, hid, hf⟩
    · have hswallowed : fs.writeAt w.handle w.written data = fs := by
        rw [hdevice]
        rfl
      rw [hswallowed]
      exact ⟨hfilling.toAside, hfilling.target, hwritten, Or.inl hdevice⟩
    · have hstored : fs.writeAt w.handle w.written data =
          fs.store id ⟨bytes ++ data, fileMode, fs.clock⟩ := by
        rw [hfile, writeAt, hf]
        simp only [hfilling.written, overwrite_end]
      rw [hstored]
      exact ⟨hfilling.toAside.store howned _, hfilling.target, hwritten, Or.inr ⟨id, fs.clock,
        hfile, howned, hid, by rw [file?_store, if_pos rfl]⟩⟩
  · intro e he
    cases he

theorem abort_spares (hstart : s.Starts root k fs₀) (h : s.Begun k fs₀ bytes w fs)
    (e : IoError) :
    (w.abort e).Runs fs (fun _ => True) (fun _ _ => False) (fun _ => s.SparesOthers k fs₀) := by
  rw [Writing.abort, h.target]
  exact discarding_spares hstart (Op.Runs.throw h.failing)

theorem receive_begun (hstart : s.Starts root k fs₀) (h : s.Begun k fs₀ bytes w fs)
    (d : Delivery) :
    (w.receive d).Runs fs (fun _ => True)
      (fun received st => match received with
        | .ended w' => d = .chunk [] ∧ s.Begun k fs₀ bytes w' st
        | .more w' => d ≠ .chunk [] ∧
            ∃ data, d.bytes? = some data ∧ s.Begun k fs₀ (bytes ++ data) w' st)
      (fun _ st => d.bytes? = none ∧ s.SparesOthers k fs₀ st) :=
  runs_receive d h (by rwa [List.append_nil]) h.append_begun (h.abort_spares hstart)

theorem receiveAll_begun (hstart : s.Starts root k fs₀) (h : s.Begun k fs₀ bytes w fs)
    (source : List Delivery) :
    (w.receiveAll source).Runs fs (fun _ => True)
      (fun w' st => ∃ more, payload source = some more ∧ s.Begun k fs₀ (bytes ++ more) w' st)
      (fun _ => s.SparesOthers k fs₀) :=
  (runs_receiveAll (fun bytes w => s.Begun k fs₀ bytes w) h
    (fun hbegun d => hbegun.receive_begun hstart d) source).weaken (fun _ hst => hst)
      (fun _ _ hst => hst) fun _ _ hst => hst.2

theorem publish_ended (hstart : s.Starts root k fs₀) (h : s.Begun k fs₀ bytes w fs) :
    w.publish.Runs fs (fun _ => True) (fun _ => s.Ended k fs₀ bytes)
      (fun _ => s.SparesOthers k fs₀) := by
  rw [Writing.publish, h.target, hstart.leadsTo.stagingPath_eq]
  refine Op.Runs.bind (fun _ => s.Ended k fs₀ bytes) ?_ ?_
  · apply discarding_spares hstart
    refine Op.Runs.bind (fun _ st => st = fs ∧ w.handle ≠ .device) ?_ ?_
    · apply Op.Runs.mapError
      apply Op.Runs.query
      · intro _ hsync
        refine ⟨rfl, fun hdevice => ?_⟩
        rw [hdevice] at hsync
        cases hsync
      · exact fun _ _ => h.failing
    · rintro _ _ ⟨rfl, hhandle⟩
      apply Op.Runs.mapError
      apply Op.Runs.change_
      · intro fs' hrename
        obtain ⟨home, hhome, hfilling⟩ := h
        exact ⟨trivial, home, hhome, hfilling.rename hstart.leadsTo hhandle hrename⟩
      · exact fun _ _ => h.failing
  · intro _ fs' h'
    refine Op.Runs.bind (fun _ => s.Ended k fs₀ bytes) (Op.Runs.report h') ?_
    exact fun _ _ hst => Op.Runs.pure hst

end Begun

theorem Ended.sparesOthers (hstart : s.Starts root k fs₀) (h : s.Ended k fs₀ bytes fs) :
    s.SparesOthers k fs₀ fs := by
  obtain ⟨home, hhome, hfinished⟩ := h
  exact hfinished.toSpared.sparesOthers hstart hhome fun _ hpos => by simpa [or_comm] using hpos

theorem Ended.object (hstart : s.Starts root k fs₀) (h : s.Ended k fs₀ bytes fs) :
    ∃ pos, (fs₀.placeOf (s.pathOf k.names)).or (fs.placeOf (s.pathOf k.names)) = some pos ∧
      fs.view pos = some (.file bytes fileMode) := by
  obtain ⟨home, hhome, hfinished⟩ := h
  have hroot := hstart.leadsTo
  obtain ⟨id, time, hid, hf⟩ := hfinished.object
  refine ⟨objectAt k home, ?_, view_eq_file.2 ⟨id, _, hid, hf, rfl, rfl⟩⟩
  rcases hhome with hplace | hnone
  · rw [hroot.placeOf_objectAt hplace]
    rfl
  have hvacant (name : Bytes) : fs₀.at? (home ++ [name]) = none :=
    hstart.wellFormed.at?_append_of_not_directory (by simp [hnone]) (by simp)
  have hreach : s.Reaches fs k.dirs home :=
    hfinished.reaches fun target => by simp [objectAt, hvacant]
  have hafter : fs.placeOf (s.pathOf k.names) = some (objectAt k home) :=
    hroot.placeOf_names.2 ⟨hfinished.checkPath, hfinished.length_le, home, hreach, rfl⟩
  -- Whatever led to a home before still does, and the new one was not there.
  have hbefore : fs₀.placeOf (s.pathOf k.names) = none := by
    cases hplace : fs₀.placeOf (s.pathOf k.names) with
    | none => rfl
    | some pos =>
        obtain ⟨-, -, home', hreach', -⟩ := hroot.placeOf_names.1 hplace
        have hkeep : fs₀.KeepsPaths fs := by
          intro pos' entry he _
          refine hfinished.kept ?_ he
          rw [List.mem_cons, List.mem_singleton]
          rintro (rfl | rfl)
          · rw [objectAt, hvacant] at he
            cases he
          · rw [stagingAt, hvacant] at he
            cases he
        obtain rfl := (hreach'.of_keeps hkeep).unique hreach
        obtain ⟨mode, hmode⟩ := hreach'.at?
        rw [hnone] at hmode
        cases hmode
  rw [hbefore, hafter]
  rfl

/-! ## Saving and copying -/

theorem payload_deliveriesOf_eq (handle : Handle) (fs : FileSystem) :
    payload (deliveriesOf handle fs) = (fs.readFrom handle 0).toOption := by
  cases handle with
  | directory => rfl
  | device => rfl
  | file id => exact payload_buffersOf _

theorem Begun.readFrom_eq (hstart : s.Starts root k fs₀) (h : s.Begun k fs₀ bytes w fs)
    {path : Pathname} {handle : Handle} (hopen : fs₀.openRead path = .ok handle)
    (hapart : ∀ id pos, handle = .file id → fs₀.placeOf (s.pathOf k.staging) = some pos →
      fs₀.at? pos ≠ some (.file id)) :
    fs.readFrom handle 0 = fs₀.readFrom handle 0 := by
  obtain ⟨entry, hstat, rfl⟩ := map_eq_ok.1 hopen
  cases entry with
  | directory mode => rfl
  | link target => rfl
  | device => rfl
  | file id =>
      obtain ⟨home, hhome, hfilling⟩ := h
      have howned : ¬ fs₀.Owns [stagingAt k home] id := by
        rintro (hnone | ⟨pos, hpos, hid⟩)
        · obtain ⟨pos, hlocate⟩ := stat_eq_ok.1 hstat
          obtain ⟨f, hf⟩ := hstart.wellFormed.file (walk_occupied (locate_eq_ok.1 hlocate).2)
          rw [hf] at hnone
          cases hnone
        · obtain rfl := List.mem_singleton.1 hpos
          have hplace := hhome.placeOf_staging hstart.wellFormed (Or.inl rfl) hid
          exact hapart id _ rfl hplace hid
      rw [handleOf, readFrom, readFrom, hfilling.file?_eq howned]

theorem save_ended (hstart : s.Starts root k fs₀) {name : String}
    (hname : s.resolve name = .ok (s.pathOf k.names)) (source : List Delivery) (expected : Nat) :
    (s.save name source expected).Runs fs₀ (fun _ => True)
      (fun _ st => ∃ bytes, payload source = some bytes ∧ s.Ended k fs₀ bytes st)
      (fun _ => s.SparesOthers k fs₀) := by
  rw [save, saveFrom, beginSave, hname]
  refine Op.Runs.bind _ (Op.Runs.lift_ok (beginWriting_begun hstart)) ?_
  intro w fs h
  apply Op.Runs.get
  intro world _
  refine Op.Runs.bind _ (h.receiveAll_begun hstart source) ?_
  rintro w' st ⟨bytes, hbytes, hbegun⟩
  rw [endSave]
  refine Op.Runs.bind _ (hbegun.publish_ended hstart) ?_
  intro written st' hended
  rw [reportSize]
  split
  · exact Op.Runs.report ⟨bytes, hbytes, hended⟩
  · exact Op.Runs.pure ⟨bytes, hbytes, hended⟩

theorem copy_ended (hstart : s.Starts root k fs₀) {src dst : String} {path : Pathname}
    (hsrc : s.resolve src = .ok path) (hdst : s.resolve dst = .ok (s.pathOf k.names))
    (hapart : ∀ id pos, fs₀.openRead path = .ok (.file id) →
      fs₀.placeOf (s.pathOf k.staging) = some pos → fs₀.at? pos ≠ some (.file id)) :
    (s.copy src dst).Runs fs₀ (fun _ => True)
      (fun _ st => ∃ handle bytes, fs₀.openRead path = .ok handle ∧
        fs₀.readFrom handle 0 = .ok bytes ∧ s.Ended k fs₀ bytes st)
      (fun _ => s.SparesOthers k fs₀) := by
  rw [copy, hsrc, hdst]
  apply Op.Runs.lift_ok
  apply Op.Runs.lift_ok
  refine Op.Runs.bind (fun handle st => st = fs₀ ∧ fs₀.openRead path = .ok handle) ?_ ?_
  · apply Op.Runs.mapError
    apply Op.Runs.query
    · exact fun handle hopen => ⟨rfl, hopen⟩
    · exact fun _ _ => sparesOthers_of_grown (Grown.refl hstart.wellFormed)
  rintro handle st ⟨rfl, hopen⟩
  refine Op.Runs.bind (fun _ st' => ∃ bytes, st.readFrom handle 0 = .ok bytes ∧
    s.Ended k st bytes st') ?_ fun _ st' hst => Op.Runs.report ?_
  · refine Op.Runs.bind _ (beginWriting_begun hstart) ?_
    intro w fs h
    apply Op.Runs.get
    rintro world rfl
    refine Op.Runs.bind _ (h.receiveAll_begun hstart _) ?_
    rintro w' st' ⟨bytes, hbytes, hbegun⟩
    rw [payload_deliveriesOf_eq, h.readFrom_eq hstart hopen fun id pos hid hplace =>
      hapart id pos (hid ▸ hopen) hplace] at hbytes
    refine (hbegun.publish_ended hstart).weaken (fun _ hst => hst) ?_ fun _ _ hst => hst
    intro _ st'' hended
    cases hread : st.readFrom handle 0 with
    | error e =>
        rw [hread] at hbytes
        cases hbytes
    | ok content =>
        rw [hread] at hbytes
        cases hbytes
        exact ⟨_, rfl, hended⟩
  · obtain ⟨bytes, hread, hended⟩ := hst
    exact ⟨handle, bytes, hopen, hread, hended⟩

end Store

namespace WriteCall

variable {s : Store} {root : Position} {k : Key}

/-- The bytes that a call is to write, whatever links lead to its source. -/
def yields? (s : Store) (fs : FileSystem) : WriteCall → Option Bytes
  | save _ source _ => payload source
  | copy src _ => do
    let path ← (s.resolve src).toOption
    let handle ← (fs.openRead path).toOption
    (fs.readFrom handle 0).toOption

/-- The staging path of a call is free, and what is there is not what the call reads. -/
def WritesApart (s : Store) (k : Key) (fs : FileSystem) : WriteCall → Prop
  | save .. => s.StagesFreely k fs
  | copy src _ => s.StagesFreely k fs ∧ ∀ path id pos, s.resolve src = .ok path →
      fs.openRead path = .ok (.file id) → fs.placeOf (s.pathOf k.staging) = some pos →
        fs.at? pos ≠ some (.file id)

theorem WritesApart.free {call : WriteCall} {fs : FileSystem} (h : call.WritesApart s k fs) :
    s.StagesFreely k fs := by
  cases call with
  | save name source expected => exact h
  | copy src dst => exact h.1

theorem ended {fs₀ : FileSystem} (call : WriteCall) (hstart : s.Starts root k fs₀)
    (hname : ObjectName.ofObject call.name = .ok k.names) (hapart : call.WritesApart s k fs₀) :
    (call.perform s).Runs fs₀ (fun _ => True)
      (fun _ st => ∃ bytes, call.yields? s fs₀ = some bytes ∧ s.Ended k fs₀ bytes st)
      (fun _ => s.SparesOthers k fs₀) := by
  cases call with
  | save name source expected =>
      exact Store.save_ended hstart (resolve_of_ofObject hname) source expected
  | copy src dst =>
      cases hsrc : s.resolve src with
      | error fault =>
          refine (Store.copy_refused_runs (Or.inl ⟨fault, hsrc⟩)).refused ?_
          rintro _ st rfl
          exact Store.sparesOthers_of_grown (Grown.refl hstart.wellFormed)
      | ok path =>
          refine (Store.copy_ended hstart hsrc (resolve_of_ofObject hname)
            fun id pos => hapart.2 path id pos hsrc).weaken (fun _ hst => hst) ?_
              fun _ _ hst => hst
          rintro _ st ⟨handle, bytes, hopen, hread, hended⟩
          refine ⟨bytes, ?_, hended⟩
          rw [yields?, hsrc]
          simp only [Except.toOption, Option.bind_eq_bind, Option.bind_some, hopen, hread]

/-- Where the staging path is free, a call changes no file but those at its two paths, whatever
links there are.  If it ends well, a real file with what it was to write stands at the path of its
object; that place is the one before the call, for a name may lead through the link that it
replaces. -/
theorem spares_others (call : WriteCall) (w : World) (hroot : s.LeadsTo w.fs root)
    (hwf : w.fs.WellFormed)
    (hapart : ∀ k : Key, ObjectName.ofObject call.name = .ok k.names →
      call.WritesApart s k w.fs) :
    match (call.perform s).run w with
    | (.ok _, w') => ∃ (k : Key) (bytes : Bytes) (pos : Position),
        ObjectName.ofObject call.name = .ok k.names ∧ s.SparesOthers k w.fs w'.fs ∧
          call.yields? s w.fs = some bytes ∧
            (w.fs.placeOf (s.pathOf k.names)).or (w'.fs.placeOf (s.pathOf k.names)) = some pos ∧
              w'.fs.view pos = some (.file bytes 0o644)
    | (.error _, w') =>
        (∃ k : Key, ObjectName.ofObject call.name = .ok k.names ∧ s.SparesOthers k w.fs w'.fs) ∨
          (∀ names, ObjectName.ofObject call.name ≠ .ok names) ∧ w'.fs = w.fs := by
  rcases hrun : (call.perform s).run w with ⟨result, w'⟩
  cases hname : ObjectName.ofObject call.name with
  | error fault =>
      have hruns := refused_runs s w.fs call hname
      cases result with
      | ok u => exact (hruns.of_ok rfl hrun).elim
      | error e => exact Or.inr ⟨by simp, hruns.of_error rfl hrun⟩
  | ok names =>
      obtain ⟨k, rfl, -⟩ := ObjectName.ofObject_eq_ok hname
      have hstart : s.Starts root k w.fs := ⟨hroot, hwf, (hapart k hname).free⟩
      have hruns := call.ended hstart hname (hapart k hname)
      cases result with
      | ok u =>
          obtain ⟨bytes, hbytes, hended⟩ := hruns.of_ok rfl hrun
          obtain ⟨pos, hpos, hobject⟩ := hended.object hstart
          exact ⟨k, bytes, pos, rfl, hended.sparesOthers hstart, hbytes, hpos, hobject⟩
      | error e => exact Or.inl ⟨k, rfl, hruns.of_error rfl hrun⟩

/-! ### A link at a staging path -/

/-- A store with an object o, and a link to it where n is staged. -/
def linked : FileSystem :=
  (((Store.newDirectory [114]).allocate ⟨[108], fileMode, 0⟩).1.bind [[114], [111]]
    (.file 0)).bind ([[114]] ++ Store.keyN.staging) (.link ⟨[111]⟩)

theorem linked_wellFormed : linked.WellFormed := by
  have hobject : IsEntryName [111] := isEntryName_letter (by decide)
  have hstaging : IsEntryName (Store.keyN.leaf ++ stagingSuffix) :=
    ⟨⟨by decide, by decide, by decide, by decide⟩, by decide, by decide⟩
  have hnew := (Store.newDirectory_wellFormed Store.isEntryName_r).allocate ⟨[108], fileMode, 0⟩
  have hbound := @WellFormed.bind _ hnew [[114]] _ (.file 0) _ rfl hobject
    (Or.inr fun _ hmode => by cases hmode) fun id hid => ⟨_, by cases hid; rfl⟩
  exact @WellFormed.bind _ hbound [[114]] _ (.link ⟨[111]⟩) _ rfl hstaging
    (Or.inr fun _ hmode => by cases hmode) fun id hid => by cases hid

theorem linked_leadsTo : (Store.atTop [114]).LeadsTo linked [[114]] :=
  ⟨rfl, by decide, directoryMode, rfl⟩

def keyO : Key :=
  ⟨[], [111], by simpa using ⟨by decide, by decide, by decide, by decide⟩, by decide⟩

theorem linked_writesApart {k : Key} (hk : k.names = keyO.names) :
    (save "o" [.chunk [1]] 1).WritesApart (Store.atTop [114]) k linked := by
  obtain ⟨dirs, leaf, hnames, hleaf⟩ := k
  obtain ⟨rfl, heq⟩ := List.append_inj' hk rfl
  obtain rfl := List.singleton_inj.1 heq
  have hplace : linked.placeOf ((Store.atTop [114]).pathOf keyO.staging) =
      some ([[114]] ++ keyO.staging) := rfl
  have hvacant : linked.at? ([[114]] ++ keyO.staging) = none := rfl
  refine ⟨fun pos target hpos ht => ?_, fun pos id hpos hid => ?_⟩
  · obtain rfl := Option.some.inj (hplace.symm.trans hpos)
    rw [hvacant] at ht
    cases ht
  · obtain rfl := Option.some.inj (hplace.symm.trans hpos)
    rw [hvacant] at hid
    cases hid

/-- A save of o replaces it and leaves the link alone. -/
theorem spares_others_linked :
    ∃ (w' : World) (k : Key) (pos : Position),
      ((save "o" [.chunk [1]] 1).perform (Store.atTop [114])).run (.ofFileSystem linked) =
        (.ok (), w') ∧ k.names = [[111]] ∧ (Store.atTop [114]).SparesOthers k linked w'.fs ∧
          w'.fs.view pos = some (.file [1] 0o644) := by
  have hapart : ∀ k : Key, ObjectName.ofObject (save "o" [.chunk [1]] 1).name = .ok k.names →
      (save "o" [.chunk [1]] 1).WritesApart (Store.atTop [114]) k linked :=
    fun k hname => linked_writesApart (Except.ok.inj hname).symm
  have h := spares_others (save "o" [.chunk [1]] 1) (.ofFileSystem linked) linked_leadsTo
    linked_wellFormed hapart
  have hok : (((save "o" [.chunk [1]] 1).perform (Store.atTop [114])).run
      (.ofFileSystem linked)).1.isOk = true := rfl
  rcases hrun : ((save "o" [.chunk [1]] 1).perform (Store.atTop [114])).run
    (.ofFileSystem linked) with ⟨result, w'⟩
  rw [hrun] at h hok
  cases result with
  | error e => cases hok
  | ok u =>
      obtain ⟨k, bytes, pos, hname, hspares, hbytes, -, hview⟩ := h
      cases hbytes
      exact ⟨w', k, pos, rfl, (Except.ok.inj hname).symm, hspares, hview⟩

/-- A save of n follows the link at its staging path: it empties and writes o, and the link becomes
the object. -/
theorem link_is_followed :
    ¬ ∀ (s : Store) (root : Position) (call : WriteCall) (k : Key) (w w' : World),
      s.LeadsTo w.fs root → w.fs.WellFormed →
        ObjectName.ofObject call.name = .ok k.names → (call.perform s).run w = (.ok (), w') →
          s.SparesOthers k w.fs w'.fs ∧ ∃ bytes pos, call.yields? s w.fs = some bytes ∧
            (w.fs.placeOf (s.pathOf k.names)).or (w'.fs.placeOf (s.pathOf k.names)) = some pos ∧
              w'.fs.view pos = some (.file bytes 0o644) := by
  intro hall
  have hok : (((save "n" [.chunk [1]] 1).perform (Store.atTop [114])).run
      (.ofFileSystem linked)).1.isOk = true := rfl
  have hafter : (((save "n" [.chunk [1]] 1).perform (Store.atTop [114])).run
      (.ofFileSystem linked)).2.fs.view [[114], [111]] = some (.file [1] 0o644) := rfl
  rcases hrun : ((save "n" [.chunk [1]] 1).perform (Store.atTop [114])).run
    (.ofFileSystem linked) with ⟨result, w'⟩
  rw [hrun] at hok hafter
  cases result with
  | error e => cases hok
  | ok u =>
      obtain ⟨hspares, -⟩ := hall (Store.atTop [114]) [[114]] _ Store.keyN _ w' linked_leadsTo
        linked_wellFormed rfl hrun
      have hkept := hspares [[114], [111]] [108] fileMode (by decide) (by decide) rfl
      rw [hkept] at hafter
      cases hafter

end WriteCall

end Depot
