import Depot.Proofs.Store.Parents
/-!
# What a write does

Specifications of the parts of a write and of the operations made of them.  A write that fails, at
whatever point, is only staged and leaves no file at the staging path; one that ends has published
exactly what its source yielded.

* `runs_discarding`, `runs_receive`, `runs_receiveAll` — the parts of any write, whatever is to hold
  of it;
* `beginWriting_runs`, `Live.append_runs`, `Live.receive_runs`, `Live.publish_runs` — the parts;
* `Live.receiveAll_runs` — a whole source;
* `save_runs`, `copy_runs` — saving and copying.
-/

namespace Depot

open FileSystem

/-- The bytes that a delivery adds; none if it is a failure. -/
def Delivery.bytes? : Delivery → Option Bytes
  | chunk bytes => some bytes
  | fault e => if e.kind = .interrupted then some [] else none

/-- What a source yields up to its end; none if it fails before. -/
def payload : List Delivery → Option Bytes
  | [] => some []
  | d :: rest =>
    if d = .chunk [] then some []
    else d.bytes? >>= fun data => (fun more => data ++ more) <$> payload rest

theorem payload_chunks {pieces : List Bytes} (h : ∀ piece ∈ pieces, piece ≠ []) :
    payload (pieces.map .chunk) = some pieces.flatten := by
  induction pieces with
  | nil => rfl
  | cons piece rest ih =>
      have hpiece : Delivery.chunk piece ≠ .chunk [] := by simpa using h piece List.mem_cons_self
      rw [List.map_cons, payload, if_neg hpiece, Delivery.bytes?,
        ih fun other hother => h other (List.mem_cons_of_mem _ hother)]
      rfl

theorem flatten_buffers (bytes : Bytes) (n : Nat) :
    ((List.range n).map fun i => (bytes.drop (bufferSize * i)).take bufferSize).flatten =
      bytes.take (bufferSize * n) := by
  induction n with
  | zero => rfl
  | succ n ih =>
      rw [List.range_succ, List.map_append, List.flatten_append, ih, List.map_singleton,
        List.flatten_singleton, Nat.mul_succ, List.take_add]

theorem payload_buffersOf (bytes : Bytes) :
    payload ((buffersOf bytes).map .chunk) = some bytes := by
  have hsize : bufferSize = 8192 := rfl
  have hpieces : ∀ piece ∈ buffersOf bytes, piece ≠ [] := by
    intro piece hpiece
    obtain ⟨i, hi, rfl⟩ := List.mem_map.1 hpiece
    rw [List.mem_range, hsize] at hi
    have hlength : 8192 * i < bytes.length := by omega
    rw [← List.length_pos_iff, List.length_take, List.length_drop, hsize]
    omega
  rw [payload_chunks hpieces, buffersOf, flatten_buffers, List.take_of_length_le]
  rw [hsize]
  omega

theorem payload_cons {d : Delivery} {data : Bytes} (hd : d ≠ .chunk [])
    (hdata : d.bytes? = some data) (rest : List Delivery) :
    payload (d :: rest) = (fun more => data ++ more) <$> payload rest := by
  rw [payload, if_neg hd, hdata]
  rfl

/-! ## The parts of any write -/

section

variable {fs : FileSystem} {passes failed : FileSystem → Prop}

theorem runs_discard {staging : Pathname}
    (hok : ∀ fs', fs.unlink staging = .ok fs' → passes fs' ∧ failed fs')
    (herror : ∀ e, fs.unlink staging = .error e → failed fs) :
    (discard staging).Runs fs passes (fun _ => failed) (fun _ _ => False) := by
  rw [discard]
  refine Op.Runs.bind (fun _ => failed) ?_ ?_
  · apply Op.Runs.attempt
    exact Op.Runs.change_ hok herror
  · intro result st hst
    cases result with
    | ok _ => exact Op.Runs.report hst
    | error e =>
        dsimp only
        split
        · exact Op.Runs.pure hst
        · exact Op.Runs.report hst

theorem runs_discarding {α : Type} {target staging : Pathname} {op : Op StorageError α}
    {done : α → FileSystem → Prop} {failing : FileSystem → Prop}
    (hstaging : stagingPath target = staging) (hop : op.Runs fs passes done fun _ => failing)
    (hdiscard : ∀ st, failing st →
      (discard staging).Runs st passes (fun _ => failed) fun _ _ => False) :
    (discarding target op).Runs fs passes done fun _ => failed := by
  rw [discarding, hstaging]
  refine Op.Runs.bind (Op.Outcome done fun _ => failing) (Op.Runs.attempt hop) ?_
  intro result st hst
  cases result with
  | ok a => exact Op.Runs.pure hst
  | error e =>
      refine Op.Runs.bind (fun _ => failed) ?_ fun _ _ hst' => Op.Runs.throw hst'
      exact (hdiscard st hst).weaken (fun _ hst' => hst') (fun _ _ hst' => hst')
        fun _ _ hst' => hst'.elim

/-- Opening the staging file is to create it and to set its mode, which nothing forbids. -/
theorem runs_createStaging {target staging : Pathname} {done : Writing → FileSystem → Prop}
    (hstaging : stagingPath target = staging)
    (hcreate : ∀ st handle, fs.create staging = .ok (st, handle) → passes st ∧
      ∀ st', st.setHandleMode handle fileMode = .ok st' →
        passes st' ∧ done ⟨target, handle, 0⟩ st')
    (herror : ∀ e, fs.create staging = .error e → failed fs) :
    (createStaging target).Runs fs passes done fun _ => failed := by
  rw [createStaging, hstaging]
  refine Op.Runs.bind (fun handle st => ∀ st', st.setHandleMode handle fileMode = .ok st' →
    passes st' ∧ done ⟨target, handle, 0⟩ st') ?_ ?_
  · exact Op.Runs.mapError (Op.Runs.change hcreate herror)
  · intro handle st hmode
    refine Op.Runs.bind (fun _ => done ⟨target, handle, 0⟩) ?_ fun _ _ hst => Op.Runs.pure hst
    exact Op.Runs.mapError (Op.Runs.change_ hmode
      fun e he => absurd he (setHandleMode_ne_error st handle fileMode e))

theorem runs_receive {w : Writing} {received : Bytes → Writing → FileSystem → Prop}
    {ended : Writing → FileSystem → Prop} (d : Delivery) (hended : ended w fs)
    (hnothing : received [] w fs)
    (happend : ∀ data, (w.append data).Runs fs passes (received data) fun _ _ => False)
    (habort : ∀ e, (w.abort e).Runs fs passes (fun _ _ => False) fun _ => failed) :
    (w.receive d).Runs fs passes
      (fun result st => match result with
        | .ended w' => d = .chunk [] ∧ ended w' st
        | .more w' => d ≠ .chunk [] ∧ ∃ data, d.bytes? = some data ∧ received data w' st)
      (fun _ st => d.bytes? = none ∧ failed st) := by
  cases d with
  | chunk data =>
      cases data with
      | nil => exact Op.Runs.pure ⟨rfl, hended⟩
      | cons b data =>
          apply Op.Runs.map
          exact (happend (b :: data)).weaken (fun _ hst => hst)
            (fun _ _ hst => ⟨by simp, _, rfl, hst⟩) fun _ _ hst => hst.elim
  | fault e =>
      rw [Writing.receive, Delivery.bytes?]
      split
      · exact Op.Runs.pure ⟨by simp, [], rfl, hnothing⟩
      · apply Op.Runs.map
        exact (habort e).weaken (fun _ hst => hst) (fun _ _ hst => hst.elim)
          fun _ _ hst => ⟨rfl, hst⟩

theorem runs_receiveAll (received : Bytes → Writing → FileSystem → Prop) {w : Writing}
    {bytes : Bytes} (h : received bytes w fs)
    (hreceive : ∀ {bytes w fs}, received bytes w fs → ∀ d : Delivery,
      (w.receive d).Runs fs passes
        (fun result st => match result with
          | .ended w' => d = .chunk [] ∧ received bytes w' st
          | .more w' => d ≠ .chunk [] ∧
              ∃ data, d.bytes? = some data ∧ received (bytes ++ data) w' st)
        (fun _ st => d.bytes? = none ∧ failed st))
    (source : List Delivery) :
    (w.receiveAll source).Runs fs passes
      (fun w' st => ∃ more, payload source = some more ∧ received (bytes ++ more) w' st)
      (fun _ st => payload source = none ∧ failed st) := by
  induction source generalizing w bytes fs with
  | nil => exact Op.Runs.pure ⟨[], rfl, by rwa [List.append_nil]⟩
  | cons d rest ih =>
      rw [Writing.receiveAll]
      refine Op.Runs.bind _ ((hreceive h d).weaken (fun _ hst => hst) (fun _ _ hst => hst)
        fun _ st hst => ⟨?_, hst.2⟩) ?_
      · rw [payload, if_neg, hst.1]
        · rfl
        · rintro rfl
          cases hst.1
      · intro result fs' h'
        cases result with
        | ended w' =>
            obtain ⟨rfl, hreceived⟩ := h'
            exact Op.Runs.pure ⟨[], rfl, by rwa [List.append_nil]⟩
        | more w' =>
            obtain ⟨hd, data, hdata, hreceived⟩ := h'
            rw [payload_cons hd hdata]
            refine (ih hreceived).weaken (fun _ hst => hst) ?_ ?_
            · rintro w'' st ⟨more, hmore, hst⟩
              exact ⟨data ++ more, by rw [hmore]; rfl, by rwa [← List.append_assoc]⟩
            · rintro e st ⟨hnone, hst⟩
              exact ⟨by rw [hnone]; rfl, hst⟩

end

namespace Store

variable {s : Store} {root : Position} {k : Key} {fs₀ fs : FileSystem}

theorem discard_runs (h : s.Staged root k fs₀ fs) :
    (discard (s.pathOf k.staging)).Runs fs (s.Staged root k fs₀)
      (fun _ st => s.Staged root k fs₀ st ∧ s.Cleared k st) (fun _ _ => False) := by
  apply runs_discard
  · intro fs' hunlink
    obtain ⟨hstep, hvacant⟩ := Staged.unlink h.tidy hunlink
    have hstaged := h.trans hstep
    refine ⟨hstaged, hstaged, hstaged.tidy.cleared_iff.2 fun _ id hid => ?_⟩
    rw [hvacant] at hid
    cases hid
  · intro e he
    refine ⟨h, h.tidy.cleared_iff.2 fun hcheck id hid => ?_⟩
    have hok := (h.tidy.unlink_eq_ok k.isName_staging).2 ⟨hcheck, ⟨id, hid⟩, rfl⟩
    rw [Key.staging, hok] at he
    cases he

theorem discarding_runs {α : Type} {op : Op StorageError α} {passes : FileSystem → Prop}
    {done : α → FileSystem → Prop} (h₀ : s.Tidy fs₀ root)
    (h : op.Runs fs passes done fun _ => s.Staged root k fs₀)
    (hpasses : ∀ st, s.Staged root k fs₀ st → passes st) :
    (discarding (s.pathOf k.names) op).Runs fs passes done
      (fun _ st => s.Staged root k fs₀ st ∧ s.Cleared k st) := by
  refine runs_discarding (h₀.stagingPath_eq k) h fun st hst => ?_
  exact (discard_runs hst).weaken hpasses (fun _ _ hst' => hst') fun _ _ hst' => hst'

/-- What is discarded was only staged. -/
theorem discarding_failsWithin {α : Type} {op : Op StorageError α} {passes : FileSystem → Prop}
    {done : α → FileSystem → Prop} (h₀ : s.Tidy fs₀ root)
    (hop : op.Runs fs passes done fun _ => s.Staged root k fs₀)
    (hfails : op.FailsWithin fs (s.Staged root k fs₀)) :
    (discarding (s.pathOf k.names) op).FailsWithin fs (s.Staged root k fs₀) := by
  intro w w' e hw hrun
  rw [discarding, h₀.stagingPath_eq, Op.run_bind] at hrun
  rcases hop' : op.run w with ⟨result, w''⟩
  have hattempt : (Op.attempt op : Op StorageError _).run w = (.ok result, w'') := by
    change (Except.ok (op.run w).1, (op.run w).2) = _
    rw [hop']
  rw [hattempt] at hrun
  cases result with
  | ok a => cases hrun
  | error e' =>
      obtain ⟨visited, hstates, hvisited⟩ := hfails w w'' e' hw hop'
      -- Behind the failure only the staging file is discarded.
      have hrest : (discard (s.pathOf k.staging) >>= fun _ => (throw e' : Op StorageError α)).Runs
          w''.fs (s.Staged root k fs₀) (fun _ _ => True) (fun _ _ => True) :=
        Op.Runs.bind _ ((discard_runs (hop.of_error hw hop')).weaken (fun _ hst => hst)
          (fun _ _ _ => trivial) fun _ _ hst => hst.elim) fun _ _ _ => Op.Runs.throw trivial
      obtain ⟨visited', hstates', hvisited'⟩ :=
        Op.FailsWithin.of_runs hrest w'' w' e rfl hrun
      refine ⟨visited' ++ visited, by rw [hstates', hstates, List.append_assoc], ?_⟩
      intro st hst
      exact (List.mem_append.1 hst).elim (hvisited' st) (hvisited st)

theorem createStaging_runs (h : s.Staged root k fs₀ fs) :
    (createStaging (s.pathOf k.names)).Runs fs
      (s.Staged root k fs₀) (fun w => s.Live root k fs₀ w []) (fun _ => s.Staged root k fs₀) := by
  refine runs_createStaging (h.tidy.stagingPath_eq k) (fun st handle hcreate => ?_) fun _ _ => h
  obtain ⟨hstep, hcheck, id, mode, time, rfl, hid, hf⟩ := Staged.create h.tidy hcreate
  have hopened := h.trans hstep
  refine ⟨hopened, fun st' hmode => ?_⟩
  rw [setHandleMode_file hf] at hmode
  cases hmode
  have hstaged := hopened.trans (Staged.store hopened.tidy ⟨[], fileMode, time⟩ hid)
  exact ⟨hstaged, hstaged, rfl, rfl, hcheck, id, time, rfl, hid, by rw [file?_store, if_pos rfl]⟩

theorem openStaging_runs (h₀ : s.Tidy fs₀ root) :
    (openStaging (s.pathOf k.names)).Runs fs₀ (s.Staged root k fs₀)
      (fun w => s.Live root k fs₀ w []) (fun _ => s.Staged root k fs₀) := by
  obtain ⟨parent, hparent, -⟩ := h₀.leadsTo.parent?_staging k
  rw [openStaging_of_parent (h₀.stagingPath_eq k) hparent]
  refine Op.Runs.bind (fun _ => s.Staged root k fs₀) ?_ fun _ fs h => createStaging_runs h
  exact Op.Runs.mapError (makeDirectories_runs (Staged.refl h₀) hparent)

theorem beginWriting_runs (h₀ : s.Tidy fs₀ root) :
    (beginWriting (s.pathOf k.names)).Runs fs₀ (s.Staged root k fs₀)
      (fun w => s.Live root k fs₀ w []) (fun _ st => s.Staged root k fs₀ st ∧ s.Cleared k st) :=
  discarding_runs h₀ (openStaging_runs h₀) fun _ hst => hst

namespace Live

variable {w : Writing} {bytes : Bytes} {doing doing' : String}

theorem append_runs (h : s.Live root k fs₀ w bytes fs) (data : Bytes) :
    (w.append data).Runs fs (s.Staged root k fs₀)
      (fun w' => s.Live root k fs₀ w' (bytes ++ data)) (fun _ _ => False) := by
  obtain ⟨id, time, hhandle, hid, hf⟩ := h.file
  have hwrite : fs.writeAt w.handle w.written data =
      fs.store id ⟨bytes ++ data, fileMode, fs.clock⟩ := by
    rw [hhandle, writeAt, hf]
    simp only [h.written, overwrite_end]
  rw [Writing.append]
  refine Op.Runs.bind (fun _ st =>
    s.Live root k fs₀ { w with written := w.written + data.length } (bytes ++ data) st) ?_ ?_
  · apply Op.Runs.change_
    · intro fs' hok
      rw [Except.ok.injEq, hwrite] at hok
      subst hok
      have hstaged := h.toStaged.trans
        (Staged.store h.tidy ⟨bytes ++ data, fileMode, fs.clock⟩ hid)
      refine ⟨hstaged, hstaged, h.target, ?_, h.checkPath, id, fs.clock, hhandle, hid, ?_⟩
      · rw [List.length_append, h.written]
      · rw [file?_store, if_pos rfl]
    · intro e he
      cases he
  · exact fun _ st hst => Op.Runs.pure hst

theorem abort_runs (h₀ : s.Tidy fs₀ root) (h : s.Live root k fs₀ w bytes fs) (e : IoError) :
    (w.abort e).Runs fs (s.Staged root k fs₀) (fun _ _ => False)
      (fun _ st => s.Staged root k fs₀ st ∧ s.Cleared k st) := by
  rw [Writing.abort, h.target]
  exact discarding_runs h₀ (Op.Runs.throw h.toStaged) fun _ hst => hst

theorem receive_runs (h₀ : s.Tidy fs₀ root) (h : s.Live root k fs₀ w bytes fs) (d : Delivery) :
    (w.receive d).Runs fs (s.Staged root k fs₀)
      (fun received st => match received with
        | .ended w' => d = .chunk [] ∧ s.Live root k fs₀ w' bytes st
        | .more w' => d ≠ .chunk [] ∧
            ∃ data, d.bytes? = some data ∧ s.Live root k fs₀ w' (bytes ++ data) st)
      (fun _ st => d.bytes? = none ∧ s.Staged root k fs₀ st ∧ s.Cleared k st) :=
  runs_receive d h (by rwa [List.append_nil]) h.append_runs (h.abort_runs h₀)

/-- A source that is read to its end leaves a live write with all it has yielded. -/
theorem receiveAll_runs (h₀ : s.Tidy fs₀ root) (h : s.Live root k fs₀ w bytes fs)
    (source : List Delivery) :
    (w.receiveAll source).Runs fs (s.Staged root k fs₀)
      (fun w' st => ∃ more, payload source = some more ∧ s.Live root k fs₀ w' (bytes ++ more) st)
      (fun _ st => payload source = none ∧ s.Staged root k fs₀ st ∧ s.Cleared k st) :=
  runs_receiveAll (fun bytes w => s.Live root k fs₀ w bytes) h
    (fun hlive d => hlive.receive_runs h₀ d) source

theorem rename_runs (h : s.Live root k fs₀ w bytes fs) :
    (do Op.during doing (Op.query fun _ => FileSystem.sync w.handle)
        Op.during doing' (Op.change_ (·.rename (s.pathOf k.staging) (s.pathOf k.names)))).Runs fs
      (s.Published root k fs₀ bytes) (fun _ => s.Published root k fs₀ bytes)
      (fun _ => s.Staged root k fs₀) := by
  refine Op.Runs.bind (fun _ st => s.Live root k fs₀ w bytes st) ?_ ?_
  · apply Op.Runs.mapError
    apply Op.Runs.query
    · exact fun _ _ => h
    · exact fun _ _ => h.toStaged
  · intro _ fs' h'
    apply Op.Runs.mapError
    apply Op.Runs.change_
    · exact fun fs'' hrename => ⟨h'.publish hrename, h'.publish hrename⟩
    · exact fun _ _ => h'.toStaged

theorem rename_failsWithin (passes : FileSystem → Prop) :
    Op.FailsWithin (do
        Op.during doing (Op.query fun _ => FileSystem.sync w.handle)
        Op.during doing' (Op.change_ (·.rename (s.pathOf k.staging) (s.pathOf k.names)))) fs
      passes := by
  refine Op.FailsWithin.bind (fun _ _ => True) (fun _ _ => True) ?_ ?_
  · apply Op.Runs.mapError
    exact Op.Runs.query (fun _ _ => trivial) fun _ _ => trivial
  · intro _ fs' _
    exact Op.FailsWithin.mapError Op.FailsWithin.change_

theorem publish_runs (h₀ : s.Tidy fs₀ root) (h : s.Live root k fs₀ w bytes fs) :
    w.publish.Runs fs (fun st => s.Staged root k fs₀ st ∨ s.Published root k fs₀ bytes st)
      (fun written st => written = bytes.length ∧ s.Published root k fs₀ bytes st)
      (fun _ st => s.Staged root k fs₀ st ∧ s.Cleared k st) := by
  rw [Writing.publish, h.target, h₀.stagingPath_eq]
  refine Op.Runs.bind (fun _ st => s.Published root k fs₀ bytes st) ?_ ?_
  · apply discarding_runs h₀
    · exact h.rename_runs.passing fun _ hst => Or.inr hst
    · exact fun _ hst => Or.inl hst
  · intro _ fs' h'
    refine Op.Runs.bind (fun _ st => s.Published root k fs₀ bytes st) (Op.Runs.report h') ?_
    exact fun _ st hst => Op.Runs.pure ⟨h.written, hst⟩

theorem publish_failsWithin (h₀ : s.Tidy fs₀ root) (h : s.Live root k fs₀ w bytes fs) :
    w.publish.FailsWithin fs (s.Staged root k fs₀) := by
  rw [Writing.publish, h.target, h₀.stagingPath_eq]
  refine Op.FailsWithin.bind_of_safe ?_ ?_
  · exact discarding_failsWithin h₀ h.rename_runs (rename_failsWithin _)
  · intro _ fs'
    refine Op.Runs.bind (fun _ _ => True) (Op.Runs.report trivial) ?_
    exact fun _ _ _ => Op.Runs.pure trivial

end Live

/-! ## Saving and copying -/

/-- The object is published with what the source yields. -/
def Delivered (s : Store) (root : Position) (k : Key) (fs₀ : FileSystem) (yielded : Option Bytes)
    (fs : FileSystem) : Prop :=
  ∃ bytes, yielded = some bytes ∧ s.Published root k fs₀ bytes fs

theorem Live.fill_runs {w : Writing} {β : Type} {finish : Writing → Op StorageError β}
    {yielded : Option Bytes} {passes : FileSystem → Prop} {done : β → FileSystem → Prop}
    (h : s.Live root k fs₀ w [] fs) (source : FileSystem → List Delivery) (h₀ : s.Tidy fs₀ root)
    (hsource : payload (source fs) = yielded) (hpasses : ∀ st, s.Staged root k fs₀ st → passes st)
    (hfinish : ∀ w bytes st, yielded = some bytes → s.Live root k fs₀ w bytes st →
      (finish w).Runs st passes done fun _ st => s.Staged root k fs₀ st ∧ s.Cleared k st) :
    (do let w ← w.receiveAll (source (← get).fs)
        finish w).Runs fs passes done fun _ st => s.Staged root k fs₀ st ∧ s.Cleared k st := by
  apply Op.Runs.get
  rintro world rfl
  refine Op.Runs.bind _ ((h.receiveAll_runs h₀ (source world.fs)).weaken hpasses
    (fun _ _ hst => hst) fun _ _ hst => hst.2) ?_
  rintro w' st ⟨bytes, hbytes, hlive⟩
  exact hfinish w' bytes st (hsource.symm.trans hbytes) hlive

theorem stageAndPublish_runs (h₀ : s.Tidy fs₀ root) {source : FileSystem → List Delivery}
    {yielded : Option Bytes}
    (hsource : ∀ st, s.Staged root k fs₀ st → payload (source st) = yielded) :
    (stageAndPublish (s.pathOf k.names) source).Runs fs₀
      (fun st => s.Staged root k fs₀ st ∨ s.Delivered root k fs₀ yielded st)
      (fun _ st => s.Delivered root k fs₀ yielded st)
      (fun _ st => s.Staged root k fs₀ st ∧ s.Cleared k st) := by
  refine Op.Runs.bind _ ((beginWriting_runs h₀).passing fun _ hst => Or.inl hst) ?_
  intro w fs h
  refine h.fill_runs _ h₀ (hsource fs h.toStaged) (fun _ hst => Or.inl hst) ?_
  intro w' bytes st hbytes hlive
  refine (hlive.publish_runs h₀).weaken ?_ ?_ (fun _ _ hst => hst)
  · exact fun _ hst => hst.imp_right fun hpublished => ⟨bytes, hbytes, hpublished⟩
  · exact fun _ _ hst => ⟨bytes, hbytes, hst.2⟩

theorem beginSave_runs (h₀ : s.Tidy fs₀ root) {name : String}
    (hname : s.resolve name = .ok (s.pathOf k.names)) :
    (s.beginSave name).Runs fs₀ (s.Staged root k fs₀) (fun w => s.Live root k fs₀ w [])
      (fun _ st => s.Staged root k fs₀ st ∧ s.Cleared k st) := by
  rw [beginSave, hname]
  apply Op.Runs.lift_ok
  exact beginWriting_runs h₀

theorem Live.endSave_runs {w : Writing} {bytes : Bytes} (h₀ : s.Tidy fs₀ root)
    (h : s.Live root k fs₀ w bytes fs) (name : String) (expected : Nat) :
    (endSave name expected w).Runs fs
      (fun st => s.Staged root k fs₀ st ∨ s.Published root k fs₀ bytes st)
      (fun _ st => s.Published root k fs₀ bytes st)
      (fun _ st => s.Staged root k fs₀ st ∧ s.Cleared k st) := by
  rw [endSave]
  refine Op.Runs.bind _ (h.publish_runs h₀) ?_
  rintro written st ⟨-, hst⟩
  rw [reportSize]
  split
  · exact Op.Runs.report hst
  · exact Op.Runs.pure hst

theorem Live.endSave_failsWithin {w : Writing} {bytes : Bytes} (h₀ : s.Tidy fs₀ root)
    (h : s.Live root k fs₀ w bytes fs) (name : String) (expected : Nat) :
    (endSave name expected w).FailsWithin fs (s.Staged root k fs₀) := by
  rw [endSave]
  refine Op.FailsWithin.bind_of_safe (h.publish_failsWithin h₀) fun written fs' => ?_
  rw [reportSize]
  split
  · exact Op.Runs.report trivial
  · exact Op.Runs.pure trivial

theorem save_runs (h₀ : s.Tidy fs₀ root) {name : String}
    (hname : s.resolve name = .ok (s.pathOf k.names)) (source : List Delivery) (expected : Nat) :
    (s.save name source expected).Runs fs₀
      (fun st => s.Staged root k fs₀ st ∨ s.Delivered root k fs₀ (payload source) st)
      (fun _ st => s.Delivered root k fs₀ (payload source) st)
      (fun _ st => s.Staged root k fs₀ st ∧ s.Cleared k st) := by
  rw [save, saveFrom]
  refine Op.Runs.bind _ ((beginSave_runs h₀ hname).passing fun _ hst => Or.inl hst) ?_
  intro w fs h
  refine h.fill_runs (fun _ => source) h₀ rfl (fun _ hst => Or.inl hst) ?_
  intro w' bytes st hbytes hlive
  refine (hlive.endSave_runs h₀ name expected).weaken ?_ ?_ (fun _ _ hst => hst)
  · exact fun _ hst => hst.imp_right fun hpublished => ⟨bytes, hbytes, hpublished⟩
  · exact fun _ _ hst => ⟨bytes, hbytes, hst⟩

theorem save_refused_runs {name : String} {fault : StorageError}
    (hname : s.resolve name = .error fault) (source : List Delivery) (expected : Nat) :
    (s.save name source expected).Runs fs (fun _ => False) (fun _ _ => False)
      (fun _ st => st = fs) := by
  rw [save, saveFrom, beginSave, hname]
  refine Op.Runs.bind (fun _ _ => False) ?_ (fun _ _ hst => hst.elim)
  exact Op.Runs.lift_error rfl

theorem payload_deliveriesOf (h₀ : s.Tidy fs₀ root) {k' : Key} {handle : Handle}
    (hopen : fs₀.openRead (s.pathOf k'.names) = .ok handle) (h : s.Staged root k fs₀ fs) :
    payload (deliveriesOf handle fs) = fs₀.objectAt? root k'.names := by
  obtain ⟨entry, hentry, rfl⟩ := map_eq_ok.1 hopen
  obtain ⟨-, he⟩ := (h₀.stat_pathOf k'.isName).1 hentry
  rw [objectAt?, if_pos (isObjectPosition_names k'), Key.names, he]
  rcases h₀.entry_below _ _ he with ⟨mode, rfl⟩ | ⟨id, rfl⟩
  · rfl
  · obtain ⟨f, hf⟩ := h₀.wellFormed.file he
    have hspot : root ++ (k'.dirs ++ [k'.leaf]) ∉ [root ++ k.staging] := by
      rw [List.mem_singleton]
      exact ne_staging_of_isObjectPosition _ (isObjectPosition_names k')
    have hsame := h.footprint.file?_eq h₀.wellFormed h₀.plain
      (fun pos hpos => ⟨k.staging, k.staging_ne_nil, List.mem_singleton.1 hpos⟩) hspot he
    have hread : fs.readFrom (.file id) 0 = .ok f.bytes := by
      rw [readFrom, hsame, hf]
      rfl
    have hbytes : (some (Entry.file id) >>= fs₀.bytesOf) = some f.bytes := by
      rw [Option.bind_eq_bind, Option.bind_some, bytesOf, hf]
      rfl
    rw [handleOf, deliveriesOf, hread, hbytes]
    exact payload_buffersOf f.bytes

theorem copy_runs (h₀ : s.Tidy fs₀ root) {k' : Key} {src dst : String}
    (hsrc : s.resolve src = .ok (s.pathOf k'.names))
    (hdst : s.resolve dst = .ok (s.pathOf k.names)) :
    (s.copy src dst).Runs fs₀
      (fun st => s.Staged root k fs₀ st ∨
        s.Delivered root k fs₀ (fs₀.objectAt? root k'.names) st)
      (fun _ st => s.Delivered root k fs₀ (fs₀.objectAt? root k'.names) st)
      (fun _ st => (st = fs₀ ∧ ∀ handle, fs₀.openRead (s.pathOf k'.names) ≠ .ok handle) ∨
        (∃ handle, fs₀.openRead (s.pathOf k'.names) = .ok handle) ∧
          s.Staged root k fs₀ st ∧ s.Cleared k st) := by
  rw [copy, hsrc, hdst]
  apply Op.Runs.lift_ok
  apply Op.Runs.lift_ok
  refine Op.Runs.bind (fun handle st =>
    st = fs₀ ∧ fs₀.openRead (s.pathOf k'.names) = .ok handle) ?_ ?_
  · apply Op.Runs.mapError
    apply Op.Runs.query
    · exact fun handle hopen => ⟨rfl, hopen⟩
    · intro e he
      refine Or.inl ⟨rfl, fun handle hopen => ?_⟩
      rw [he] at hopen
      cases hopen
  rintro handle st ⟨rfl, hopen⟩
  refine Op.Runs.bind _ ((stageAndPublish_runs h₀ fun _ hst =>
    payload_deliveriesOf h₀ hopen hst).weaken (fun _ hst => hst) (fun _ _ hst => hst)
      fun _ _ hst => Or.inr ⟨⟨handle, hopen⟩, hst⟩) ?_
  exact fun _ _ hst => Op.Runs.report hst

theorem copy_refused_runs {src dst : String}
    (h : (∃ fault, s.resolve src = .error fault) ∨ ∃ fault, s.resolve dst = .error fault) :
    (s.copy src dst).Runs fs (fun _ => False) (fun _ _ => False) (fun _ st => st = fs) := by
  rw [copy]
  cases hsrc : s.resolve src with
  | error fault => exact Op.Runs.lift_error rfl
  | ok path =>
      apply Op.Runs.lift_ok
      rcases h with ⟨fault, hfault⟩ | ⟨fault, hfault⟩
      · rw [hsrc] at hfault
        cases hfault
      · rw [hfault]
        exact Op.Runs.lift_error rfl

theorem copy_failsWithin (h₀ : s.Tidy fs₀ root) (src : String) {dst : String}
    (hdst : s.resolve dst = .ok (s.pathOf k.names)) :
    (s.copy src dst).FailsWithin fs₀ (s.Staged root k fs₀) := by
  cases hsrc : s.resolve src with
  | error fault =>
      exact Op.FailsWithin.of_runs
        ((copy_refused_runs (Or.inl ⟨fault, hsrc⟩)).passing fun _ hst => hst.elim)
  | ok path =>
      obtain ⟨k', -, rfl, -⟩ := resolve_eq_ok hsrc
      rw [copy, hsrc, hdst]
      change Op.FailsWithin (openObject (s.pathOf k'.names) "open src" >>= _) fs₀ _
      refine Op.FailsWithin.bind (fun _ st => st = fs₀) (fun _ _ => True) ?_ ?_
      · apply Op.Runs.mapError
        exact Op.Runs.query (fun _ _ => rfl) fun _ _ => trivial
      rintro handle st rfl
      refine Op.FailsWithin.bind_of_safe ?_ fun _ _ => Op.Runs.report trivial
      refine Op.FailsWithin.bind _ _ (beginWriting_runs h₀) fun w fs hlive => ?_
      apply Op.FailsWithin.get
      rintro world rfl
      refine Op.FailsWithin.bind _ _ (hlive.receiveAll_runs h₀ _) ?_
      rintro w' fs' ⟨more, -, hmore⟩
      exact hmore.publish_failsWithin h₀

end Store

end Depot
