import Depot.Proofs.FileSystem.RelinkedSteps
import Depot.Proofs.Store.Aside
import Depot.Proofs.Store.PairedWrites
/-!
# Writes in stores that differ in one link

Two file systems differ in one link, and the names of an object and of its staging file lead the
same way in both.  Then a write of the object does the same in both, and they still differ in the
link only.

* `OnWay` — before the staging file is opened, when directories may still be made;
* `Underway` — afterwards, when the directory of the object is known;
* `OnWay.beginWriting_pairs`, `Underway.receiveAll_pairs`, `Underway.publish_pairs` — the parts of
  a write.
-/

namespace Depot

open FileSystem

namespace Store

variable {s : Store} {root spot : Position} {k : Key} {g fs fs' : FileSystem} {w : Writing}

/-- The names, from the root directory, of an object or of its staging file. -/
def IsWay (s : Store) (k : Key) (names : List Bytes) : Prop :=
  names = s.root.names ++ k.names ∨ names = s.root.names ++ k.staging

/-- All that differs is a link that is not asked for on the way to an object. -/
structure OnWay (s : Store) (k : Key) (spot : Position) (fs fs' : FileSystem) : Prop where
  relinked : Relinked spot fs fs'
  way : ∀ names, s.IsWay k names → Bypass spot fs fs' names

/-- The directory of an object has been reached, and all that differs is a link elsewhere. -/
structure Underway (s : Store) (k : Key) (spot : Position) (fs fs' : FileSystem) : Prop where
  relinked : Relinked spot fs fs'
  home : ∃ home, s.Reaches fs k.dirs home ∧ s.Reaches fs' k.dirs home ∧
    objectAt k home ≠ spot ∧ stagingAt k home ≠ spot ∧
      ∀ mode, fs.at? (stagingAt k home) ≠ some (.directory mode)

/-- A write of an object that is in progress in both. -/
structure RelinkedWriting (s : Store) (k : Key) (spot : Position) (w w' : Writing)
    (fs fs' : FileSystem) : Prop where
  eq : w' = w
  target : w.target = s.pathOf k.names
  underway : s.Underway k spot fs fs'

theorem LeadsTo.isAbsolute_pathOf (h : s.LeadsTo g root) {names : List Bytes}
    (hnames : ∀ name ∈ names, Pathname.IsName name) : (s.pathOf names).isAbsolute := by
  rw [pathOf, Pathname.isAbsolute_join_ofNames h.bytes_ne_nil hnames, h.isAbsolute]

theorem LeadsTo.steps_pathOf (h : s.LeadsTo g root) {dirs : List Bytes} {leaf : Bytes}
    (hnames : ∀ name ∈ dirs ++ [leaf], Pathname.IsName name) :
    (s.pathOf (dirs ++ [leaf])).steps = s.root.names ++ (dirs ++ [leaf]) :=
  Pathname.steps_join_ofNames h.bytes_ne_nil hnames

theorem LeadsTo.locateLast_eq_of_reaches (h : s.LeadsTo g root) {dirs : List Bytes} {leaf : Bytes}
    (hnames : ∀ name ∈ dirs ++ [leaf], Pathname.IsName name) {dir : Position}
    (hreach : s.Reaches fs dirs dir) (hreach' : s.Reaches fs' dirs dir) :
    fs'.locateLast (s.pathOf (dirs ++ [leaf])) = fs.locateLast (s.pathOf (dirs ++ [leaf])) := by
  cases hcheck : checkPath (s.pathOf (dirs ++ [leaf])) with
  | ok u =>
      rw [h.locateLast_of_reaches hnames hcheck hreach,
        h.locateLast_of_reaches hnames hcheck hreach']
  | error e =>
      rw [locateLast, locateLast, hcheck]
      rfl

namespace OnWay

/-! ## Before the staging file is opened -/

theorem names (h : s.OnWay k spot fs fs') : Bypass spot fs fs' (s.root.names ++ k.names) :=
  h.way _ (Or.inl rfl)

theorem staging (h : s.OnWay k spot fs fs') : Bypass spot fs fs' (s.root.names ++ k.staging) :=
  h.way _ (Or.inr rfl)

theorem dirs_isPrefix {names : List Bytes} (hway : s.IsWay k names) :
    s.root.names ++ k.dirs <+: names := by
  rcases hway with rfl | rfl
  · rw [Key.names, ← List.append_assoc]
    exact List.prefix_append ..
  · rw [Key.staging, ← List.append_assoc]
    exact List.prefix_append ..

theorem makesAlike {p : Pathname} (hp : s.IsAlong k p) : MakesAlike (s.OnWay k spot) p where
  make := by
    intro st st' h
    refine (Bypass.makeDirectory h.relinked h.way hp.isAbsolute
      (fun names hway => hp.names.trans (dirs_isPrefix hway)) ⟨_, Or.inl rfl⟩).weaken ?_ id
    exact fun _ _ _ _ hmade => ⟨hmade.1, hmade.2⟩
  leads := by
    intro st st' h
    have hlocate : st'.locate true p = st.locate true p := by
      refine h.names.locate_eq h.relinked hp.isAbsolute ?_ true
      rw [hp.steps]
      exact hp.names.trans (dirs_isPrefix (Or.inl rfl))
    rw [leadsToDirectory, leadsToDirectory, FileSystem.stat, FileSystem.stat, locateEntry,
      locateEntry, hlocate]

theorem makeDirectories_pairs (h : s.OnWay k spot fs fs') (hroot : s.LeadsTo g root)
    {parent : Pathname} (hparent : (s.pathOf k.staging).parent? = some parent) :
    (makeDirectories parent).Pairs (makeDirectories parent) fs fs'
      (fun _ _ st st' => s.OnWay k spot st st') (s.OnWay k spot) := by
  have hall := (hroot.isAlong_parent hparent).ancestors hroot (parent.bytes.length + 1)
  exact makeFrom_pairs h (fun q hq => makesAlike (hall q hq)) (by simp)

theorem unlink (h : s.OnWay k spot fs fs') (hroot : s.LeadsTo g root) :
    Both (fun st st' => Relinked spot st st') True (fs.unlink (s.pathOf k.staging))
      (fs'.unlink (s.pathOf k.staging)) := by
  have habs := hroot.isAbsolute_pathOf k.isName_staging
  have hnames := s.names_pathOf k.isName_staging
  have hprefix : (s.pathOf k.staging).names <+: s.root.names ++ k.staging :=
    hnames ▸ List.prefix_rfl
  exact h.relinked.unlink (h.staging.locateLast_eq habs hprefix)
    fun dir name hlast => h.staging.ne_spot_of_locateLast habs hprefix hlast

theorem create_keeps (h : fs.WellFormed) (hroot : s.LeadsTo g root) {handle : Handle}
    {st : FileSystem} (hcreate : fs.create (s.pathOf k.staging) = .ok (st, handle)) :
    fs.KeepsPaths st ∧ ∃ home, s.Reaches fs k.dirs home ∧
      ∀ mode, st.at? (stagingAt k home) ≠ some (.directory mode) := by
  have hsteps := hroot.steps_pathOf k.isName_staging
  have hends := s.not_endsInSlash_pathOf k.isName_staging
  rw [← Key.staging] at hsteps hends
  have hopen := hcreate
  rw [create_eq hends, bind_eq_ok] at hopen
  obtain ⟨place, hplace, hopen⟩ := hopen
  have hwalk := (locate_eq_ok.1 hplace).2
  rw [hroot.startOf_pathOf k.isName_staging, hsteps, Key.staging, ← List.append_assoc] at hwalk
  obtain ⟨home, mode, links, hhome, -⟩ := walk_front (by simp) hwalk
  have hfree : ∀ mode, fs.at? (stagingAt k home) ≠ some (.directory mode) := by
    intro mode' hmode
    rw [walk_concat_directory hhome (h.name hmode) hmode] at hwalk
    cases hwalk
    cases hopen
  rcases Filled.of_create h hcreate with ⟨-, rfl⟩ | ⟨id, -, hfilled⟩
  · exact ⟨KeepsPaths.refl _, home, ⟨mode, hhome⟩, hfree⟩
  · refine ⟨hfilled.keepsPaths, home, ⟨mode, hhome⟩, fun mode' hmode => ?_⟩
    cases hbefore : fs.at? (stagingAt k home) with
    | none => cases hfilled.new hbefore hmode
    | some entry =>
        rw [hfilled.kept hbefore] at hmode
        cases hmode
        exact hfree mode' hbefore

theorem create (h : s.OnWay k spot fs fs') (hroot : s.LeadsTo g root) :
    Both (fun created created' => created'.2 = created.2 ∧ s.Underway k spot created.1 created'.1)
      True (fs.create (s.pathOf k.staging)) (fs'.create (s.pathOf k.staging)) := by
  have hends := s.not_endsInSlash_pathOf k.isName_staging
  have hsteps := hroot.steps_pathOf k.isName_staging
  rw [← Key.staging] at hends hsteps
  have hlocate := h.staging.locate_eq h.relinked (hroot.isAbsolute_pathOf k.isName_staging)
    (hsteps ▸ List.prefix_rfl) true
  refine (h.relinked.create hends hlocate).weaken ?_ id
  rintro ⟨st, handle⟩ ⟨st', handle'⟩ hcreate hcreate' ⟨hhandle, hrelinked⟩
  obtain ⟨hkeep, home, hreach, hfree⟩ :=
    create_keeps h.relinked.left.toWellFormed hroot hcreate
  obtain ⟨hkeep', -⟩ := create_keeps h.relinked.right.toWellFormed hroot hcreate'
  obtain ⟨mode, hwalk⟩ := hreach
  have hwalk' : fs'.walk true linkLimit [] (s.root.names ++ k.dirs) =
      .ok (.occupied home (.directory mode)) := by
    rw [h.names.same (dirs_isPrefix (Or.inl rfl)), hwalk]
  have hbeside {name : Bytes} (hway : s.IsWay k (s.root.names ++ (k.dirs ++ [name]))) :
      home ++ [name] ≠ spot := by
    rw [← List.append_assoc] at hway
    exact (h.way _ hway).beside List.prefix_rfl hwalk
  exact ⟨hhandle, hrelinked, home, Reaches.of_keeps ⟨mode, hwalk⟩ hkeep,
    Reaches.of_keeps ⟨mode, hwalk'⟩ hkeep', hbeside (Or.inl rfl), hbeside (Or.inr rfl), hfree⟩

end OnWay

namespace Underway

/-! ## While the staging file is open -/

theorem store (h : s.Underway k spot fs fs') {id : Nat} {f₀ : File} (hf₀ : fs.file? id = some f₀)
    (f : File) : s.Underway k spot (fs.store id f) (fs'.store id f) := by
  obtain ⟨home, hreach, hreach', hhome⟩ := h.home
  exact ⟨h.relinked.store hf₀ f, home, hreach.of_keeps fun _ _ he _ => he,
    hreach'.of_keeps fun _ _ he _ => he, hhome⟩

theorem writeAt (h : s.Underway k spot fs fs') (handle : Handle) (offset : Nat) (data : Bytes) :
    s.Underway k spot (fs.writeAt handle offset data) (fs'.writeAt handle offset data) := by
  cases handle with
  | directory => exact h
  | device => exact h
  | file id =>
      rw [FileSystem.writeAt, FileSystem.writeAt, h.relinked.file?_eq, h.relinked.clock_eq]
      cases hf : fs.file? id with
      | none => exact h
      | some f => exact h.store hf _

theorem setHandleMode (h : s.Underway k spot fs fs') (handle : Handle) (mode : Nat) {p : Prop} :
    Both (s.Underway k spot) p (fs.setHandleMode handle mode) (fs'.setHandleMode handle mode) := by
  cases handle with
  | directory => exact .ok h
  | device => exact .ok h
  | file id =>
      rw [FileSystem.setHandleMode, FileSystem.setHandleMode, h.relinked.file?_eq]
      cases hf : fs.file? id with
      | none => exact .ok h
      | some f => exact .ok (h.store hf _)

theorem unlink (h : s.Underway k spot fs fs') (hroot : s.LeadsTo g root) :
    Both (fun st st' => Relinked spot st st') True (fs.unlink (s.pathOf k.staging))
      (fs'.unlink (s.pathOf k.staging)) := by
  obtain ⟨home, hreach, hreach', -, hstaging, -⟩ := h.home
  refine h.relinked.unlink (hroot.locateLast_eq_of_reaches k.isName_staging hreach hreach') ?_
  intro dir name hlast
  obtain ⟨-, -, hdir, rfl⟩ := (hroot.locateLast_pathOf k.isName_staging).1 hlast
  rw [hdir.unique hreach]
  exact hstaging

theorem rename (h : s.Underway k spot fs fs') (hroot : s.LeadsTo g root) :
    Both (fun st st' => Relinked spot st st') True
      (fs.rename (s.pathOf k.staging) (s.pathOf k.names))
      (fs'.rename (s.pathOf k.staging) (s.pathOf k.names)) := by
  obtain ⟨home, hreach, hreach', hobject, hstaging, hfree⟩ := h.home
  refine h.relinked.rename (hroot.locateLast_eq_of_reaches k.isName_staging hreach hreach')
    (hroot.locateLast_eq_of_reaches k.isName hreach hreach') ?_ ?_
  · intro dir name hlast
    obtain ⟨-, -, hdir, rfl⟩ := (hroot.locateLast_pathOf k.isName_staging).1 hlast
    rw [hdir.unique hreach]
    exact ⟨hstaging, hfree⟩
  · intro dir name hlast
    obtain ⟨-, -, hdir, rfl⟩ := (hroot.locateLast_pathOf k.isName).1 hlast
    rw [hdir.unique hreach]
    exact hobject

end Underway

/-! ## The parts of a write -/

theorem openStaging_relinked (h : s.OnWay k spot fs fs') (hroot : s.LeadsTo g root) :
    (openStaging (s.pathOf k.names)).Pairs (openStaging (s.pathOf k.names)) fs fs'
      (s.RelinkedWriting k spot) (s.OnWay k spot) := by
  obtain ⟨parent, hparent, -⟩ := hroot.parent?_staging k
  rw [openStaging_of_parent (hroot.stagingPath_eq k) hparent]
  refine Op.Pairs.bind (fun _ _ st st' => s.OnWay k spot st st')
    (h.makeDirectories_pairs hroot hparent).mapError ?_
  intro _ _ st st' hst
  refine createStaging_pairs
    (fun handle handle' st st' => handle' = handle ∧ s.Underway k spot st st') ?_ ?_
  · rw [hroot.stagingPath_eq]
    exact (hst.create hroot).weaken (fun _ _ _ _ hcreated => hcreated) fun _ => hst
  · rintro _ handle st st' ⟨rfl, hst⟩
    exact (hst.setHandleMode handle fileMode).weaken (fun _ _ _ _ hst => ⟨rfl, rfl, hst⟩) id

theorem beginWriting_relinked (h : s.OnWay k spot fs fs') (hroot : s.LeadsTo g root) :
    (beginWriting (s.pathOf k.names)).Pairs (beginWriting (s.pathOf k.names)) fs fs'
      (s.RelinkedWriting k spot) (Relinked spot) := by
  refine discarding_pairs OnWay.relinked (fun hst => ?_) (openStaging_relinked h hroot)
  rw [hroot.stagingPath_eq]
  exact hst.unlink hroot

namespace RelinkedWriting

variable {w' : Writing}

theorem append_pairs (h : s.RelinkedWriting k spot w w' fs fs') (data : Bytes) :
    (w.append data).Pairs (w'.append data) fs fs' (s.RelinkedWriting k spot) (Relinked spot) := by
  obtain rfl := h.eq
  rw [Writing.append]
  refine Op.Pairs.bind (fun _ _ st st' => s.Underway k spot st st') ?_ ?_
  · apply Op.Pairs.change_
    exact .ok (h.underway.writeAt ..)
  · exact fun _ _ st st' hst => Op.Pairs.pure ⟨rfl, h.target, hst⟩

theorem discarding_pairs {α : Type} {op : Op StorageError α}
    {done : α → α → FileSystem → FileSystem → Prop} (h : s.RelinkedWriting k spot w w' fs fs')
    (hroot : s.LeadsTo g root) (hop : op.Pairs op fs fs' done (s.Underway k spot)) :
    (discarding w.target op).Pairs (discarding w'.target op) fs fs' done (Relinked spot) := by
  rw [h.eq, h.target]
  refine Depot.discarding_pairs Underway.relinked (fun hst => ?_) hop
  rw [hroot.stagingPath_eq]
  exact hst.unlink hroot

theorem abort_pairs (h : s.RelinkedWriting k spot w w' fs fs') (hroot : s.LeadsTo g root)
    (e : IoError) :
    (w.abort e).Pairs (w'.abort e) fs fs' (s.RelinkedWriting k spot) (Relinked spot) := by
  obtain rfl := h.eq
  exact h.discarding_pairs hroot (Op.Pairs.throw h.underway)

theorem writesAlike (hroot : s.LeadsTo g root) :
    WritesAlike (s.RelinkedWriting k spot) (Relinked spot) :=
  ⟨fun h data => h.append_pairs data, fun h e => h.abort_pairs hroot e⟩

theorem publish_pairs (h : s.RelinkedWriting k spot w w' fs fs') (hroot : s.LeadsTo g root) :
    w.publish.Pairs w'.publish fs fs'
      (fun written written' st st' => written' = written ∧ Relinked spot st st')
      (Relinked spot) := by
  obtain rfl := h.eq
  rw [Writing.publish, h.target, hroot.stagingPath_eq]
  refine Op.Pairs.bind (fun _ _ st st' => Relinked spot st st') ?_ ?_
  · rw [← h.target]
    apply h.discarding_pairs hroot
    refine Op.Pairs.bind (fun _ _ st st' => st = fs ∧ st' = fs') ?_ ?_
    · apply Op.Pairs.mapError
      apply Op.Pairs.query
      cases sync w'.handle with
      | ok u => exact .ok ⟨rfl, rfl⟩
      | error e => exact .error e h.underway
    · rintro _ _ st st' ⟨rfl, rfl⟩
      apply Op.Pairs.mapError
      apply Op.Pairs.change_
      rw [h.target]
      exact (h.underway.rename hroot).weaken (fun _ _ _ _ hst => hst) fun _ => h.underway
  · intro _ _ st st' hst
    refine Op.Pairs.bind (fun _ _ st st' => Relinked spot st st') (Op.Pairs.report hst) ?_
    exact fun _ _ _ _ hst' => Op.Pairs.pure ⟨rfl, hst'⟩

end RelinkedWriting

/-! ## Whole writes -/

theorem save_relinked {name : String} (h : ∀ k, ObjectName.ofObject name = .ok k.names →
      s.OnWay k spot fs fs') (hrelinked : Relinked spot fs fs') (hroot : s.LeadsTo g root)
    (source : List Delivery) (expected : Nat) :
    (s.save name source expected).Pairs (s.save name source expected) fs fs'
      (fun _ _ st st' => Relinked spot st st') (Relinked spot) := by
  rw [save, saveFrom, beginSave]
  cases hname : s.resolve name with
  | error fault => exact Op.Pairs.lift_error hrelinked
  | ok path =>
      obtain ⟨k, hk, rfl, -⟩ := resolve_eq_ok hname
      refine Op.Pairs.bind _ (Op.Pairs.lift_ok (beginWriting_relinked (h k hk) hroot)) ?_
      intro w w' st st' hw
      apply Op.Pairs.get
      rintro - - - -
      refine Op.Pairs.bind _ ((RelinkedWriting.writesAlike hroot).receiveAll_pairs hw source) ?_
      intro w w' st st' hw
      rw [endSave, endSave]
      refine Op.Pairs.bind _ (hw.publish_pairs hroot) ?_
      rintro _ written st st' ⟨rfl, hst⟩
      rw [reportSize]
      split
      · exact Op.Pairs.report hst
      · exact Op.Pairs.pure hst

end Store

end Depot
