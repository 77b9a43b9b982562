import Depot.Proofs.Pairs
import Depot.Store.Write
/-!
# Parts of writes side by side

Some parts of a write do the same for every relation between two file systems: if a single step
comes to the same in both and keeps them related, so does the whole part.

* `MakesAlike`, `makeDirectories_pairs` — the directories above an object;
* `discarding_pairs` — what becomes of a staging file when a part fails;
* `WritesAlike`, `WritesAlike.receiveAll_pairs` — what a source yields.
-/

namespace Depot

variable {rel rel' : FileSystem → FileSystem → Prop} {fs fs' : FileSystem} {p : Pathname}

/-! ## Directories above an object -/

/-- A directory is made, or found to be there, in both or in none. -/
structure MakesAlike (rel : FileSystem → FileSystem → Prop) (p : Pathname) : Prop where
  make : ∀ {st st'}, rel st st' →
    Both (fun st st' => rel st st') True (st.makeDirectory p) (st'.makeDirectory p)
  leads : ∀ {st st'}, rel st st' → st'.leadsToDirectory p = st.leadsToDirectory p

variable {pending above : List Pathname}

theorem attempt_makeDirectory_pairs {ε : Type} {failed : FileSystem → FileSystem → Prop}
    (h : rel fs fs') (hp : MakesAlike rel p) :
    (Op.attempt (Op.change_ (·.makeDirectory p)) : Op ε (Except IoError Unit)).Pairs
      (Op.attempt (Op.change_ (·.makeDirectory p))) fs fs'
      (fun result result' st st' => result' = result ∧ rel st st') failed := by
  apply Op.Pairs.attempt
  apply Op.Pairs.change_
  refine (hp.make h).weaken (fun _ _ _ _ hst => ⟨rfl, hst⟩) fun _ => ?_
  exact fun e => ⟨rfl, h⟩

theorem makePending_pairs (h : rel fs fs') (hpending : ∀ p ∈ pending, MakesAlike rel p) :
    (makePending pending).Pairs (makePending pending) fs fs' (fun _ _ st st' => rel st st')
      rel := by
  induction pending generalizing fs fs' with
  | nil => exact Op.Pairs.pure h
  | cons p rest ih =>
      have hp := hpending p List.mem_cons_self
      have hrest := fun q hq => hpending q (List.mem_cons_of_mem p hq)
      rw [makePending]
      refine Op.Pairs.bind _ (attempt_makeDirectory_pairs h hp) ?_
      rintro _ result st st' ⟨rfl, hst⟩
      cases result with
      | ok _ => exact ih hst hrest
      | error e =>
          apply Op.Pairs.get
          rintro w w' rfl rfl
          rw [hp.leads hst]
          split
          · exact ih hst hrest
          · exact Op.Pairs.throw hst

theorem makeFrom_pairs (h : rel fs fs') (habove : ∀ p ∈ above, MakesAlike rel p)
    (hpending : ∀ p ∈ pending, MakesAlike rel p) :
    (makeFrom pending above).Pairs (makeFrom pending above) fs fs' (fun _ _ st st' => rel st st')
      rel := by
  induction above generalizing pending fs fs' with
  | nil => exact makePending_pairs h hpending
  | cons p rest ih =>
      have hp := habove p List.mem_cons_self
      rw [makeFrom]
      split
      · exact makePending_pairs h hpending
      · refine Op.Pairs.bind _ (attempt_makeDirectory_pairs h hp) ?_
        rintro _ result st st' ⟨rfl, hst⟩
        cases result with
        | ok _ => exact makePending_pairs hst hpending
        | error e =>
            dsimp only
            split
            · exact ih hst (fun q hq => habove q (List.mem_cons_of_mem p hq))
                (List.forall_mem_cons.2 ⟨hp, hpending⟩)
            · apply Op.Pairs.get
              rintro w w' rfl rfl
              rw [hp.leads hst]
              split
              · exact makePending_pairs hst hpending
              · exact Op.Pairs.throw hst

/-! ## Staging files that are discarded -/

theorem discard_pairs (h : rel fs fs') {staging : Pathname}
    (hrel : ∀ {st st'}, rel st st' → rel' st st')
    (hunlink : Both (fun st st' => rel' st st') True (fs.unlink staging) (fs'.unlink staging)) :
    (discard staging).Pairs (discard staging) fs fs' (fun _ _ st st' => rel' st st') rel' := by
  rw [discard]
  refine Op.Pairs.bind (fun result result' st st' => result' = result ∧ rel' st st') ?_ ?_
  · apply Op.Pairs.attempt
    apply Op.Pairs.change_
    exact hunlink.weaken (fun _ _ _ _ hst => ⟨rfl, hst⟩) fun _ _ => ⟨rfl, hrel h⟩
  · rintro _ result st st' ⟨rfl, hst⟩
    cases result with
    | ok _ => exact Op.Pairs.report hst
    | error e =>
        dsimp only
        split
        · exact Op.Pairs.pure hst
        · exact Op.Pairs.report hst

theorem discarding_pairs {α α' : Type} {op : Op StorageError α} {op' : Op StorageError α'}
    {done : α → α' → FileSystem → FileSystem → Prop} {target : Pathname}
    (hrel : ∀ {st st'}, rel st st' → rel' st st')
    (hunlink : ∀ {st st'}, rel st st' → Both (fun st st' => rel' st st') True
      (st.unlink (stagingPath target)) (st'.unlink (stagingPath target)))
    (hop : op.Pairs op' fs fs' done rel) :
    (discarding target op).Pairs (discarding target op') fs fs' done rel' := by
  rw [discarding, discarding]
  refine Op.Pairs.bind (fun result result' st st' =>
    Both (fun a a' => done a a' st st') (rel st st') result result') ?_ ?_
  · apply Op.Pairs.attempt
    exact hop.weaken (fun _ _ _ _ hst => .ok hst) fun _ _ hst e => .error e hst
  · intro result result' st st' hresult
    cases hresult with
    | ok hst => exact Op.Pairs.pure hst
    | error e hst =>
        exact (discard_pairs hst hrel (hunlink hst)).bind _ fun _ _ _ _ hst' =>
          Op.Pairs.throw hst'

/-! ## Staging files that are opened -/

theorem createStaging_pairs {target : Pathname}
    (opened : Handle → Handle → FileSystem → FileSystem → Prop)
    {done : Writing → Writing → FileSystem → FileSystem → Prop}
    (hcreate : Both (fun r r' => opened r.2 r'.2 r.1 r'.1) (rel fs fs')
      (fs.create (stagingPath target)) (fs'.create (stagingPath target)))
    (hmode : ∀ handle handle' st st', opened handle handle' st st' →
      Both (done ⟨target, handle, 0⟩ ⟨target, handle', 0⟩) (rel st st')
        (st.setHandleMode handle fileMode) (st'.setHandleMode handle' fileMode)) :
    (createStaging target).Pairs (createStaging target) fs fs' done rel := by
  rw [createStaging]
  refine Op.Pairs.bind opened (Op.Pairs.change hcreate).mapError fun handle handle' st st' hst => ?_
  exact (Op.Pairs.change_ (hmode handle handle' st st' hst)).mapError.bind
    (fun _ _ => done ⟨target, handle, 0⟩ ⟨target, handle', 0⟩) fun _ _ _ _ => Op.Pairs.pure

/-! ## Sources that are received -/

variable {writing : Writing → Writing → FileSystem → FileSystem → Prop}
  {failed : FileSystem → FileSystem → Prop}

/-- Either more is to come in both, or both have ended. -/
inductive PairedReceived (writing : Writing → Writing → FileSystem → FileSystem → Prop) :
    Received → Received → FileSystem → FileSystem → Prop
  | more {w w' : Writing} {fs fs' : FileSystem} (h : writing w w' fs fs') :
    PairedReceived writing (.more w) (.more w') fs fs'
  | ended {w w' : Writing} {fs fs' : FileSystem} (h : writing w w' fs fs') :
    PairedReceived writing (.ended w) (.ended w') fs fs'

/-- With each delivery, a write goes on in both or fails in both. -/
structure WritesAlike (writing : Writing → Writing → FileSystem → FileSystem → Prop)
    (failed : FileSystem → FileSystem → Prop) : Prop where
  append : ∀ {w w' st st'}, writing w w' st st' → ∀ data,
    (w.append data).Pairs (w'.append data) st st' writing failed
  abort : ∀ {w w' st st'}, writing w w' st st' → ∀ e,
    (w.abort e).Pairs (w'.abort e) st st' writing failed

namespace WritesAlike

variable {w w' : Writing}

theorem receive_pairs (h : WritesAlike writing failed) (hw : writing w w' fs fs') (d : Delivery) :
    (w.receive d).Pairs (w'.receive d) fs fs' (PairedReceived writing) failed := by
  cases d with
  | chunk data =>
      cases data with
      | nil => exact Op.Pairs.pure (.ended hw)
      | cons b data =>
          apply Op.Pairs.map
          exact (h.append hw (b :: data)).weaken (fun _ _ _ _ => .more) fun _ _ hst => hst
  | fault e =>
      rw [Writing.receive, Writing.receive]
      split
      · exact Op.Pairs.pure (.more hw)
      · apply Op.Pairs.map
        exact (h.abort hw e).weaken (fun _ _ _ _ => .more) fun _ _ hst => hst

theorem receiveAll_pairs (h : WritesAlike writing failed) (hw : writing w w' fs fs')
    (source : List Delivery) :
    (w.receiveAll source).Pairs (w'.receiveAll source) fs fs' writing failed := by
  induction source generalizing w w' fs fs' with
  | nil => exact Op.Pairs.pure hw
  | cons d rest ih =>
      rw [Writing.receiveAll, Writing.receiveAll]
      refine Op.Pairs.bind _ (h.receive_pairs hw d) ?_
      intro received received' st st' hreceived
      cases hreceived with
      | more hst => exact ih hst
      | ended hst => exact Op.Pairs.pure hst

end WritesAlike

end Depot
