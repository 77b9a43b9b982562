import Depot.Proofs.Store.Blind
import Depot.Proofs.Store.FailureAtomicity
import Depot.Proofs.Store.Lookups
import Depot.Proofs.Store.Writable
/-!
# What a save depends on

The outcome of a save depends on what its source yields before its end, and on nothing else: not on
how the bytes are cut, not on interruptions, not on what the source would yield after its end, not
on the expected size, and not on the file that was left at the staging path.

* `delivered` — what a source yields, and how it ends;
* `Writing.receiveAll_same` — a source does what all its bytes at once would do;
* `beginSave_leftover_same` — the file that is left at the staging path is overwritten;
* `save_depends_on_delivered` — two saves, and the object that they publish.
-/

namespace Depot

open FileSystem

/-- The bytes that a source yields before its end, and the failure that it ends with, if it does. -/
def delivered : List Delivery → Bytes × Option IoError
  | [] => ([], none)
  | .chunk [] :: _ => ([], none)
  | .chunk (b :: data) :: rest => (b :: data ++ (delivered rest).1, (delivered rest).2)
  | .fault e :: rest => if e.kind = .interrupted then delivered rest else ([], some e)

theorem delivered_fault {e : IoError} (he : e.kind ≠ .interrupted) (rest : List Delivery) :
    delivered (.fault e :: rest) = ([], some e) := by
  rw [delivered, if_neg he]

theorem delivered_append_empty (source rest : List Delivery) :
    delivered (source ++ .chunk [] :: rest) = delivered source := by
  induction source with
  | nil => rfl
  | cons d source ih =>
      cases d with
      | chunk data =>
          cases data with
          | nil => rfl
          | cons b data => rw [List.cons_append, delivered, delivered, ih]
      | fault e => rw [List.cons_append, delivered, delivered, ih]

theorem payload_eq_some_iff {source : List Delivery} {bytes : Bytes} :
    payload source = some bytes ↔ delivered source = (bytes, none) := by
  induction source generalizing bytes with
  | nil => simp [payload, delivered]
  | cons d source ih =>
      cases d with
      | fault e =>
          by_cases he : e.kind = .interrupted
          · have hnothing : (Delivery.fault e).bytes? = some [] := by
              rw [Delivery.bytes?, if_pos he]
            rw [payload_cons (by simp) hnothing, delivered, if_pos he, ← ih]
            simp
          · rw [payload, if_neg (by simp), Delivery.bytes?, if_neg he, delivered, if_neg he]
            simp
      | chunk data =>
          cases data with
          | nil => simp [payload, delivered]
          | cons b data =>
              rw [payload_cons (by simp) rfl, delivered, Option.map_eq_map, Option.map_eq_some_iff,
                Prod.mk.injEq]
              constructor
              · rintro ⟨more, hmore, rfl⟩
                rw [ih.1 hmore]
                exact ⟨rfl, rfl⟩
              · rintro ⟨rfl, hend⟩
                exact ⟨(delivered source).1, ih.2 (Prod.ext rfl hend), rfl⟩

namespace Writing

variable {w : Writing}

/-! ## A source that is read piece by piece -/

def fill (w : Writing) (data : Bytes) : Op StorageError Writing :=
  if data = [] then return w else w.append data

/-- Goes on with a write after its source, which failed or did not. -/
def finish (w : Writing) : Option IoError → Op StorageError Writing
  | none => return w
  | some e => w.abort e

theorem fill_blind (w : Writing) (data : Bytes) : (w.fill data).IsBlind := by
  rw [fill]
  split
  · exact Op.IsBlind.pure w
  · exact append_blind w data

theorem finish_blind (w : Writing) (failure : Option IoError) : (w.finish failure).IsBlind := by
  cases failure with
  | none => exact Op.IsBlind.pure w
  | some e => exact abort_blind w e

/-- The open file of a write holds as many bytes as were written. -/
def Holds (w : Writing) (fs : FileSystem) : Prop :=
  ∃ id f, w.handle = .file id ∧ fs.file? id = some f ∧ f.bytes.length = w.written

def advanced (w : Writing) (data : Bytes) : Writing := { w with written := w.written + data.length }

/-- The file system after bytes were added, if there are any. -/
def filled (w : Writing) (fs : FileSystem) (data : Bytes) : FileSystem :=
  if data = [] then fs else fs.writeAt w.handle w.written data

theorem filled_of_file {fs : FileSystem} {id : Nat} {f : File} {data : Bytes}
    (hhandle : w.handle = .file id) (hf : fs.file? id = some f)
    (hlength : f.bytes.length = w.written) (hne : data ≠ []) :
    w.filled fs data = fs.store id ⟨f.bytes ++ data, f.mode, fs.clock⟩ := by
  rw [filled, if_neg hne, hhandle, writeAt, hf]
  simp only [← hlength, overwrite_end]

theorem Holds.advanced {fs : FileSystem} (h : w.Holds fs) (data : Bytes) :
    (w.advanced data).Holds (w.filled fs data) := by
  obtain ⟨id, f, hhandle, hf, hlength⟩ := h
  by_cases hne : data = []
  · subst hne
    exact ⟨id, f, hhandle, hf, hlength⟩
  · refine ⟨id, ⟨f.bytes ++ data, f.mode, fs.clock⟩, hhandle, ?_, ?_⟩
    · rw [filled_of_file hhandle hf hlength hne, file?_store, if_pos rfl]
    · rw [List.length_append, hlength]
      rfl

theorem filled_append {fs : FileSystem} (h : w.Holds fs) (data more : Bytes) :
    (w.advanced data).filled (w.filled fs data) more = w.filled fs (data ++ more) := by
  by_cases hmore : more = []
  · rw [hmore, List.append_nil, filled, if_pos rfl]
  by_cases hdata : data = []
  · rw [hdata]
    rfl
  obtain ⟨id, f, hhandle, hf, hlength⟩ := h
  have hfilled := filled_of_file hhandle hf hlength hdata
  have hf' : (w.filled fs data).file? id = some ⟨f.bytes ++ data, f.mode, fs.clock⟩ := by
    rw [hfilled, file?_store, if_pos rfl]
  have hlength' : (f.bytes ++ data).length = (w.advanced data).written := by
    rw [List.length_append, hlength]
    rfl
  have hhandle' : (w.advanced data).handle = .file id := hhandle
  rw [filled_of_file hhandle' hf' hlength' hmore, hfilled,
    filled_of_file hhandle hf hlength (by simp [hdata]), store_store, ← List.append_assoc]
  rfl

theorem run_fill (w : Writing) (data : Bytes) (world : World) :
    ((w.fill data).run world).1 = .ok (w.advanced data) ∧
      ((w.fill data).run world).2.fs = w.filled world.fs data := by
  rw [fill, filled]
  by_cases hdata : data = []
  · rw [if_pos hdata, if_pos hdata, hdata]
    exact ⟨rfl, rfl⟩
  · rw [if_neg hdata, if_neg hdata]
    exact ⟨rfl, rfl⟩

theorem fill_runs {fs : FileSystem} (h : w.Holds fs) (data : Bytes) :
    (w.fill data).Runs fs (fun _ => True) (fun w' st => w'.Holds st) fun _ _ => False := by
  rw [fill]
  split
  · exact Op.Runs.pure h
  · rename_i hdata
    refine Op.Runs.bind (fun _ st => (w.advanced data).Holds st) ?_ fun _ _ hst => Op.Runs.pure hst
    apply Op.Runs.change_
    · intro fs' hok
      cases hok
      have hfilled := h.advanced data
      rw [filled, if_neg hdata] at hfilled
      exact ⟨trivial, hfilled⟩
    · intro e he
      cases he

theorem fill_append {fs : FileSystem} (h : w.Holds fs) (data more : Bytes) :
    (w.fill data >>= fun w' => w'.fill more).Same (w.fill (data ++ more)) fs fs := by
  refine Op.Same.of_eq fun world world' hworld hworld' => ?_
  obtain ⟨hresult, hfs⟩ := run_fill w data world
  obtain ⟨hall, hfsAll⟩ := run_fill w (data ++ more) world'
  rw [Op.run_bind]
  rcases hrun : (w.fill data).run world with ⟨result, mid⟩
  rw [hrun] at hresult hfs
  obtain rfl : result = .ok (w.advanced data) := hresult
  obtain ⟨hrest, hfsRest⟩ := run_fill (w.advanced data) more mid
  rw [show mid.fs = w.filled world.fs data from hfs, hworld, filled_append h] at hfsRest
  rw [hworld'] at hfsAll
  refine ⟨hall.trans (Eq.trans ?_ hrest.symm), hfsAll.trans hfsRest.symm⟩
  simp only [advanced, List.length_append, Nat.add_assoc]

theorem same_of_alwaysFails {ε α : Type} {op : Op ε α} (hblind : op.IsBlind)
    (hfails : op.AlwaysFails) (next : α → Op ε α) (fs : FileSystem) :
    (op >>= next).Same op fs fs := by
  refine Op.Same.of_eq fun world world' hworld hworld' => ?_
  obtain ⟨hresult, hfs⟩ := (hblind fs).eq hworld hworld'
  obtain ⟨e, mid, hrun⟩ := hfails world
  rw [hrun] at hresult hfs
  rw [Op.run_bind, hrun]
  exact ⟨hresult, hfs⟩

/-- However a source is cut and interrupted, reading it does what adding all its bytes at once and
ending as it ends would do. -/
theorem receiveAll_same {fs : FileSystem} (h : w.Holds fs) (source : List Delivery) :
    (w.receiveAll source).Same
      (w.fill (delivered source).1 >>= fun w' => w'.finish (delivered source).2) fs fs := by
  have hnone (w : Writing) : w.fill [] = pure w := if_pos rfl
  induction source generalizing w fs with
  | nil =>
      rw [delivered, hnone, pure_bind]
      exact Op.IsBlind.pure w fs
  | cons d rest ih =>
      rw [receiveAll]
      cases d with
      | chunk data =>
          cases data with
          | nil =>
              rw [delivered, hnone, pure_bind]
              exact Op.IsBlind.pure w fs
          | cons b data =>
              have hfill : w.fill (b :: data) = w.append (b :: data) := if_neg (by simp)
              rw [receive, ← hfill, bind_map_left, delivered]
              · -- What is left is added at once, and together with the first bytes.
                have hrest := (fill_blind w (b :: data) fs).bind_runs (fill_runs h (b :: data))
                  fun w' st hholds => ih hholds
                refine Op.Same.trans hrest ?_
                rw [← bind_assoc]
                exact (fill_append h _ _).bind fun w' st => finish_blind w' _ st
              · simp
      | fault e =>
          rw [receive]
          by_cases he : e.kind = .interrupted
          · rw [if_pos he, delivered, if_pos he, pure_bind]
            exact ih h
          · rw [if_neg he, delivered_fault he, bind_map_left, hnone, pure_bind]
            exact same_of_alwaysFails (abort_blind w e)
              (Op.AlwaysFails.discarding (Op.AlwaysFails.throw _)) _ fs

end Writing

/-! ## A staging file that was left behind -/

namespace Store

variable {s : Store} {root : Position} {k : Key} {fs : FileSystem} {name : String}

theorem makeDirectory_there (h : s.Tidy fs root) {dirs : List Bytes} {leaf : Bytes} {mode : Nat}
    (hnames : ∀ name ∈ dirs ++ [leaf], Pathname.IsName name)
    (hcheck : checkPath (s.pathOf (dirs ++ [leaf])) = .ok ())
    (hmode : fs.at? (root ++ (dirs ++ [leaf])) = some (.directory mode)) :
    fs.makeDirectory (s.pathOf (dirs ++ [leaf])) = .error .alreadyExists ∧
      fs.leadsToDirectory (s.pathOf (dirs ++ [leaf])) = true := by
  have hlength := (h.wellFormed.names_of_append hmode leaf (by simp)).length_le
  have habove : ∃ mode', fs.at? (root ++ dirs) = some (.directory mode') := by
    rw [← List.append_assoc] at hmode
    exact h.wellFormed.parent hmode
  constructor
  · rw [makeDirectory, (h.locateLast_pathOf hnames).2 ⟨hcheck, hlength, habove, rfl⟩, ok_bind]
    dsimp only
    rw [List.append_assoc, hmode]
    rfl
  · rw [leadsToDirectory, (h.stat_pathOf hnames).2 ⟨hcheck, hmode⟩]
    rfl

theorem makeDirectories_leftover_runs (h : s.Tidy fs root) {id : Nat}
    (hcheck : checkPath (s.pathOf k.staging) = .ok ())
    (hid : fs.at? (root ++ k.staging) = some (.file id)) {parent : Pathname}
    (hparent : (s.pathOf k.staging).parent? = some parent) :
    (makeDirectories parent).Runs fs (fun _ => True) (fun _ st => st = fs) (fun _ _ => False) := by
  obtain ⟨parent', hparent', hcases⟩ := h.leadsTo.parent?_staging k
  obtain rfl : parent = parent' := Option.some.inj (hparent.symm.trans hparent')
  rcases hcases with ⟨hdirs, rfl⟩ | ⟨-, hroot⟩
  · obtain ⟨dirs, leaf, hconcat⟩ := (List.eq_nil_or_concat' k.dirs).resolve_left hdirs
    have hnames : ∀ name ∈ dirs ++ [leaf], Pathname.IsName name :=
      fun name hname => k.isName_of_mem_dirs (hconcat ▸ hname)
    have hmode : ∃ mode, fs.at? (root ++ k.dirs) = some (.directory mode) := by
      rw [Key.staging, ← List.append_assoc] at hid
      exact h.wellFormed.parent hid
    obtain ⟨mode, hmode⟩ := hmode
    have hfront := h.leadsTo.checkPath_front hcheck (List.prefix_refl k.dirs)
    rw [hconcat] at hmode hfront ⊢
    obtain ⟨hmake, hleads⟩ := makeDirectory_there h hnames hfront hmode
    exact (makeFrom_there_runs hmake hleads _).passing fun _ _ => trivial
  · exact (h.leadsTo.makeFrom_root_runs hroot _).passing fun _ _ => trivial

/-- Whatever a staging file that was left behind holds, opening it leaves it empty and with the mode
of objects. -/
theorem openStaging_leftover_runs (h : s.Tidy fs root) {id : Nat}
    (hleft : fs.linkStat (s.pathOf k.staging) = .ok (.file id)) :
    (openStaging (s.pathOf k.names)).Runs fs (fun _ => True)
      (fun w st => w = ⟨s.pathOf k.names, .file id, 0⟩ ∧ st = fs.store id ⟨[], fileMode, fs.clock⟩)
      (fun _ _ => False) := by
  obtain ⟨hcheck, hid⟩ := (h.linkStat_pathOf k.isName_staging).1 hleft
  obtain ⟨parent, hparent, -⟩ := h.leadsTo.parent?_staging k
  rw [openStaging_of_parent (h.stagingPath_eq k) hparent]
  refine Op.Runs.bind (fun _ st => st = fs)
    (Op.Runs.mapError (makeDirectories_leftover_runs h hcheck hid hparent)) ?_
  rintro _ st rfl
  obtain ⟨f, hf⟩ := h.wellFormed.file hid
  have hcreate : st.create (s.pathOf k.staging) =
      .ok (st.store id ⟨[], f.mode, st.clock⟩, .file id) := by
    obtain ⟨pos, hlocate⟩ := stat_eq_ok.1 ((h.stat_pathOf k.isName_staging).2 ⟨hcheck, hid⟩)
    rw [create, Key.staging, s.not_endsInSlash_pathOf k.isName_staging, if_neg (by simp)]
    rw [hlocate, ok_bind]
    dsimp only
    rw [hf]
    rfl
  refine runs_createStaging (h.stagingPath_eq k) (fun st' handle hok => ⟨trivial, ?_⟩) ?_
  · rw [hcreate] at hok
    cases hok
    intro st'' hmode
    rw [setHandleMode_file (by rw [file?_store, if_pos rfl])] at hmode
    cases hmode
    exact ⟨trivial, rfl, store_store ..⟩
  · intro e he
    rw [hcreate] at he
    cases he

theorem beginSave_leftover_same (h : s.Tidy fs root)
    (hname : s.resolve name = .ok (s.pathOf k.names)) {id : Nat}
    (hleft : fs.linkStat (s.pathOf k.staging) = .ok (.file id)) (f : File) :
    (s.beginSave name).Same (s.beginSave name) fs (fs.store id f) := by
  obtain ⟨hcheck, hid⟩ := (h.linkStat_pathOf k.isName_staging).1 hleft
  obtain ⟨f₀, hf₀⟩ := h.wellFormed.file hid
  have h' : s.Tidy (fs.store id f) root := h.store f hf₀
  have hleft' : (fs.store id f).linkStat (s.pathOf k.staging) = .ok (.file id) :=
    (h'.linkStat_pathOf k.isName_staging).2 ⟨hcheck, hid⟩
  rw [beginSave, hname]
  apply Op.Pairs.lift_ok
  refine Op.Pairs.of_runs (discarding_safe (openStaging_leftover_runs h hleft))
    (discarding_safe (openStaging_leftover_runs h' hleft')) ?_
  rintro _ _ _ _ ⟨rfl, rfl⟩ ⟨rfl, rfl⟩
  exact ⟨rfl, store_store ..⟩

/-! ## Saving -/

theorem beginSave_blind (s : Store) (name : String) : (s.beginSave name).IsBlind :=
  Op.IsBlind.bind (Op.IsBlind.lift _) fun path => beginWriting_blind path

theorem beginSave_holds (h : s.Tidy fs root) (name : String) :
    (s.beginSave name).Runs fs (fun _ => True) (fun w st => w.Holds st) (fun _ _ => True) := by
  cases hname : s.resolve name with
  | error fault =>
      rw [beginSave, hname]
      exact Op.Runs.lift_error trivial
  | ok path =>
      obtain ⟨k, -, rfl, -⟩ := resolve_eq_ok hname
      refine (beginSave_runs h hname).weaken (fun _ _ => trivial) ?_ fun _ _ _ => trivial
      intro w st hlive
      obtain ⟨id, time, hhandle, -, hf⟩ := hlive.file
      exact ⟨id, _, hhandle, hf, hlive.written.symm⟩

theorem endSave_same (name : String) (expected expected' : Nat) (w : Writing) (fs : FileSystem) :
    (endSave name expected w).Same (endSave name expected' w) fs fs := by
  refine (w.publish_blind fs).bind fun written st => ?_
  refine Op.Same.of_eq fun world world' hworld hworld' => ?_
  have hreport (expected : Nat) (world : World) :
      ((reportSize name expected written).run world).1 = .ok () ∧
        ((reportSize name expected written).run world).2.fs = world.fs := by
    rw [reportSize]
    split
    · exact ⟨rfl, rfl⟩
    · exact ⟨rfl, rfl⟩
  obtain ⟨hresult, hfs⟩ := hreport expected world
  obtain ⟨hresult', hfs'⟩ := hreport expected' world'
  exact ⟨hresult'.trans hresult.symm, by rw [hfs', hfs, hworld, hworld']⟩

theorem save_same {fs' : FileSystem} (h : s.Tidy fs root) {source source' : List Delivery}
    (hbegin : (s.beginSave name).Same (s.beginSave name) fs fs')
    (hsame : delivered source = delivered source') (expected expected' : Nat) :
    (s.save name source expected).Same (s.save name source' expected') fs fs' := by
  refine hbegin.bind_runs (beginSave_holds h name) fun w st hholds => ?_
  refine Op.Pairs.get fun world world' _ _ => ?_
  have hreceive := w.receiveAll_same hholds source'
  rw [← hsame] at hreceive
  exact ((w.receiveAll_same hholds source).trans hreceive.symm).bind
    fun w' st' => endSave_same name expected expected' w' st'

/-- Two saves whose sources deliver the same end with the same result and leave the same file
system: however the bytes are cut and interrupted, whatever size is expected, and whatever file was
left at the staging path.  On success the object holds the delivered bytes and nothing else.  What
comes after no bytes at all makes no difference. -/
theorem save_depends_on_delivered {s : Store} {root : Position} {w w' : World}
    (h : s.Tidy w.fs root) (name : String)
    (hstart : w'.fs = w.fs ∨ ∃ path id f, s.resolve name = .ok path ∧
      w.fs.linkStat (stagingPath path) = .ok (.file id) ∧ w'.fs = w.fs.store id f)
    {source source' : List Delivery} (hsame : delivered source = delivered source')
    (expected expected' : Nat) :
    (((s.save name source' expected').run w').1 = ((s.save name source expected).run w).1 ∧
      ((s.save name source' expected').run w').2.fs =
        ((s.save name source expected).run w).2.fs) ∧
    (∀ saved, (s.save name source expected).run w = (.ok (), saved) →
      ∃ k : Key, ObjectName.ofObject name = .ok k.names ∧ (delivered source).2 = none ∧
        CleanSuccess root k (delivered source).1 saved.fs) ∧
    ∀ rest, ((s.save name (source ++ .chunk [] :: rest) expected).run w).1 =
        ((s.save name source expected).run w).1 ∧
      ((s.save name (source ++ .chunk [] :: rest) expected).run w).2.fs =
        ((s.save name source expected).run w).2.fs := by
  refine ⟨?_, fun saved hrun => ?_, fun rest => ?_⟩
  · have hbegin : (s.beginSave name).Same (s.beginSave name) w.fs w'.fs := by
      rcases hstart with hfs | ⟨path, id, f, hname, hleft, hfs⟩
      · rw [hfs]
        exact beginSave_blind s name w.fs
      · obtain ⟨k, -, rfl, -⟩ := resolve_eq_ok hname
        rw [h.stagingPath_eq] at hleft
        rw [hfs]
        exact beginSave_leftover_same h hname hleft f
    exact (save_same h hbegin hsame expected expected').eq rfl rfl
  · cases hname : ObjectName.ofObject name with
    | error fault =>
        exact ((save_refused_runs (WriteCall.resolve_of_refused hname) source expected).of_ok rfl
          hrun).elim
    | ok names =>
        obtain ⟨k, rfl, -⟩ := ObjectName.ofObject_eq_ok hname
        obtain ⟨bytes, hbytes, hpublished⟩ :=
          (save_runs h (WriteCall.resolve_of_ofObject hname) source expected).of_ok rfl hrun
        rw [payload_eq_some_iff.1 hbytes]
        exact ⟨k, rfl, rfl, hpublished.cleanSuccess⟩
  · exact (save_same h (beginSave_blind s name w.fs) (delivered_append_empty source rest).symm
      expected expected).eq rfl rfl

/-- Cut into two pieces, interrupted and with a wrong size, or at once, with bytes behind the end
and over another staging file: the object is the same. -/
theorem save_depends_on_delivered_abandoned :
    ∃ saved saved', ((atTop [114]).save "n" [.chunk [1], .fault (.os 4), .chunk [2]] 7).run
        (.ofFileSystem WriteCall.abandoned) = (.ok (), saved) ∧
      ((atTop [114]).save "n" [.chunk [1, 2], .chunk [], .chunk [9]] 0).run
        (.ofFileSystem (WriteCall.abandoned.store 0 ⟨[5, 5, 5], 0o400, 77⟩)) = (.ok (), saved') ∧
      saved'.fs = saved.fs ∧ saved.fs.view ([[114]] ++ keyN.names) = some (.file [1, 2] 0o644) := by
  have hleft : WriteCall.abandoned.linkStat (stagingPath (.ofString "/r/n")) = .ok (.file 0) := rfl
  obtain ⟨⟨hresult, hfs⟩, hdone, -⟩ :=
    @save_depends_on_delivered (atTop [114]) [[114]] (.ofFileSystem WriteCall.abandoned)
      (.ofFileSystem (WriteCall.abandoned.store 0 ⟨[5, 5, 5], 0o400, 77⟩))
      WriteCall.abandoned_tidy "n" (Or.inr ⟨_, 0, _, rfl, hleft, rfl⟩)
      [.chunk [1], .fault (.os 4), .chunk [2]] [.chunk [1, 2], .chunk [], .chunk [9]] rfl 7 0
  have hok : (((atTop [114]).save "n" [.chunk [1], .fault (.os 4), .chunk [2]] 7).run
      (.ofFileSystem WriteCall.abandoned)).1 = .ok () := by decide +kernel
  rcases hrun : ((atTop [114]).save "n" [.chunk [1], .fault (.os 4), .chunk [2]] 7).run
    (.ofFileSystem WriteCall.abandoned) with ⟨result, saved⟩
  rcases hrun' : ((atTop [114]).save "n" [.chunk [1, 2], .chunk [], .chunk [9]] 0).run
    (.ofFileSystem (WriteCall.abandoned.store 0 ⟨[5, 5, 5], 0o400, 77⟩)) with ⟨result', saved'⟩
  rw [hrun] at hok hresult hfs hdone
  rw [hrun'] at hresult hfs
  obtain rfl : result = .ok () := hok
  obtain rfl : result' = .ok () := hresult
  obtain ⟨k, hk, -, hclean⟩ := hdone saved rfl
  have hnames : k.names = keyN.names := (Except.ok.inj hk).symm
  rw [← hnames]
  exact ⟨saved, saved', rfl, rfl, hfs, hclean.object⟩

end Store

end Depot
