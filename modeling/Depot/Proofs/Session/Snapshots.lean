import Depot.Proofs.Session.Calls
import Depot.Proofs.Session.Overlap
import Depot.Proofs.Store.FailureAtomicity
import Depot.Proofs.Store.Reading
/-!
# Readers are snapshots

A reader holds the file that it has opened, and no call of the store writes into a file that is, or
was, an object.  So whatever becomes of the name, of what is above it and of the object meanwhile,
the reader yields the content that the object had when it was opened, and nothing else.

* `readsOf` — what a reader is asked for and answers in some steps;
* `Reading.read` — one answer;
* `reader_snapshot` — all answers of a reader together.
-/

namespace Depot

open FileSystem

namespace Session

/-- What is asked of a reader in some steps, and its answers. -/
def readsOf (key : String) : List Step → Session → List (Option Nat × Answer)
  | [], _ => []
  | step :: rest, session =>
    let ran := (runStep step).run session
    match step with
    | .readMore reader limit =>
      if reader = key then (limit, ran.1) :: readsOf key rest ran.2 else readsOf key rest ran.2
    | _ => readsOf key rest ran.2

variable {s : Store} {root : Position} {k : Key} {key name : String} {content : Bytes}
  {offset : Nat} {session session' : Session}

/-- A reader at an offset of some content, in a file that is bound nowhere but as the object that
was opened. -/
structure Reading (s : Store) (root : Position) (k : Key) (key : String) (content : Bytes)
    (offset : Nat) (session : Session) : Prop where
  grounded : s.Grounded root session.world.fs
  file : ∃ id f, session.readers.get? key = some ⟨.file id, offset⟩ ∧
    Guarded (root ++ k.names) id f session.world.fs ∧ f.bytes = content

namespace Reading

theorem of_called (h : Reading s root k key content offset session)
    (hcalled : Called s root (fun _ => True) (· ≠ key) session session') :
    Reading s root k key content offset session' := by
  obtain ⟨id, f, hreader, hguarded, hbytes⟩ := h.file
  refine ⟨hcalled.kept.grounded, id, f, ?_, hcalled.kept.guarded ?_ hguarded, hbytes⟩
  · rw [hcalled.readers key (by simp), hreader]
  · intro k' _ heq
    exact ne_staging_of_isObjectPosition _ (isObjectPosition_names k) heq.symm

theorem read (h : Reading s root k key content offset session) (limit : Option Nat) :
    ∃ bytes offset', ((readMore key limit).run session).1 = .data bytes ∧
      Reading s root k key content offset' ((readMore key limit).run session).2 ∧
        bytes ++ content.drop offset' = content.drop offset ∧
          (limit = none → bytes = content.drop offset) ∧
            (limit ≠ some 0 → bytes = [] → content.drop offset = []) := by
  obtain ⟨id, f, hreader, hguarded, hbytes⟩ := h.file
  have hrest : session.world.fs.readFrom (.file id) offset = .ok (content.drop offset) := by
    rw [readFrom, hguarded.file, ← hbytes]
    rfl
  obtain ⟨bytes, hread, hfront, hall, hend⟩ := Reader.read_of_readFrom hrest limit
  rw [run_readMore hreader, hread]
  refine ⟨bytes, offset + bytes.length, rfl, ⟨h.grounded, id, f, ?_, hguarded, hbytes⟩, ?_, hall,
    hend⟩
  · exact Table.get?_set_self ..
  · rw [← List.drop_drop]
    exact (List.prefix_iff_eq_append.1 hfront)

end Reading

theorem reads_from {steps : List Step} (h : Reading s root k key content offset session)
    (hsteps : ∀ step ∈ steps, step.IsCall session.stores s (fun _ => True) (· ≠ key) ∨
      ∃ limit, step = .readMore key limit) :
    ∃ (pieces : List (Option Nat × Bytes)) (offset' : Nat),
      readsOf key steps session = pieces.map (fun piece => (piece.1, .data piece.2)) ∧
        Reading s root k key content offset' ((runSteps steps).run session).2 ∧
          (pieces.map Prod.snd).flatten ++ content.drop offset' = content.drop offset ∧
            ∀ piece ∈ pieces, piece.1 ≠ some 0 → piece.2 = [] → content.drop offset' = [] := by
  induction steps generalizing session offset with
  | nil =>
      rw [runSteps]
      exact ⟨[], offset, rfl, h, rfl, fun _ hmem => absurd hmem List.not_mem_nil⟩
  | cons step rest ih =>
      have hfirst := hsteps step List.mem_cons_self
      have hrest : ∀ other ∈ rest, other.IsCall session.stores s (fun _ => True) (· ≠ key) ∨
          ∃ limit, other = .readMore key limit :=
        fun other hother => hsteps other (List.mem_cons_of_mem _ hother)
      rw [run_runSteps_cons]
      rcases hfirst with hcall | ⟨limit, rfl⟩
      · have hcalled := called_step hcall h.grounded
        have hreads : readsOf key (step :: rest) session =
            readsOf key rest ((runStep step).run session).2 := by
          cases step with
          | readMore reader limit => rw [readsOf, if_neg hcall]
          | _ => rfl
        rw [hreads]
        exact ih (h.of_called hcalled) (hcalled.stores ▸ hrest)
      · obtain ⟨bytes, offset₁, hanswer, hreading, hsplit, -, hend⟩ := h.read limit
        have hany : Called s root (fun _ => True) (fun _ => True) session
            ((readMore key limit).run session).2 := called_readMore h.grounded trivial limit
        obtain ⟨pieces, offset', hreads, hreading', hflatten, hlast⟩ :=
          ih hreading (hany.stores ▸ hrest)
        have hrun : runStep (.readMore key limit) = readMore key limit := by rw [runStep]
        refine ⟨(limit, bytes) :: pieces, offset', ?_, ?_, ?_, ?_⟩
        · rw [readsOf, hrun, if_pos rfl, hanswer, hreads]
          rfl
        · rw [hrun]
          exact hreading'
        · rw [List.map_cons, List.flatten_cons, List.append_assoc, hflatten, hsplit]
        · intro piece hpiece hlimit hnone
          rcases List.mem_cons.1 hpiece with rfl | hpiece
          · -- Nothing was left when the end was met, so nothing is left now.
            have hnone' : bytes = [] := hnone
            have hnil := hend hlimit hnone'
            rw [hnone', List.nil_append] at hsplit
            rw [hsplit, hnil] at hflatten
            exact (List.append_eq_nil_iff.1 hflatten).2
          · exact hlast piece hpiece hlimit hnone

theorem reading_of_openReader {session₀ : Session} {opened : OpenStore} {storeKey : String}
    {mode : Nat} (h : s.Tidy session₀.world.fs root)
    (hopened : session₀.stores.get? storeKey = some opened) (hstore : opened.store = s)
    (hname : ObjectName.ofObject name = .ok k.names)
    (hfile : session₀.world.fs.view (root ++ k.names) = some (.file content mode))
    (hopen : (runStep (.openReader storeKey name key)).run session₀ = (.done, session)) :
    session.stores = session₀.stores ∧ Reading s root k key content 0 session := by
  subst hstore
  rw [runStep, run_withStore hopened, run_openReader] at hopen
  rcases hrun : (perform (opened.store.openReader name)).run session₀ with ⟨result, session₁⟩
  obtain ⟨hstores, -, -, -, hok, -⟩ := exists_visited
    (Store.openReader_runs (WriteCall.resolve_of_ofObject hname)) hrun
  rw [hrun] at hopen
  cases result with
  | error e => cases hopen
  | ok reader =>
      obtain ⟨hsame, entry, hstat, rfl⟩ := hok reader rfl
      obtain ⟨id, f, he, hf, rfl, rfl⟩ := view_eq_file.1 hfile
      obtain ⟨-, he'⟩ := (h.stat_pathOf k.isName).1 hstat
      obtain rfl : entry = .file id := Option.some.inj (he'.symm.trans he)
      have hsession : { session₁ with
          readers := session₁.readers.set key ⟨.file id, 0⟩ } = session := (Prod.mk.inj hopen).2
      subst hsession
      refine ⟨hstores, hsame ▸ h.grounded, id, f, Table.get?_set_self .., ?_, rfl⟩
      rw [hsame]
      exact ⟨hf, fun pos hpos => h.plain.eq_of_file k.names_ne_nil he hpos⟩

/-- Whatever calls a store serves meanwhile, a reader of an object answers piece by piece with the
content that the object had when it was opened: what it has answered and what it still has to answer
are this content together, and once it has answered with no bytes nothing is left. -/
theorem reader_snapshot {session₀ : Session} {steps : List Step} {opened : OpenStore}
    {storeKey : String} {mode : Nat} (h : s.Tidy session₀.world.fs root)
    (hopened : session₀.stores.get? storeKey = some opened) (hstore : opened.store = s)
    (hname : ObjectName.ofObject name = .ok k.names)
    (hfile : session₀.world.fs.view (root ++ k.names) = some (.file content mode))
    (hopen : (runStep (.openReader storeKey name key)).run session₀ = (.done, session))
    (hsteps : ∀ step ∈ steps, step.IsCall session₀.stores s (fun _ => True) (· ≠ key) ∨
      ∃ limit, step = .readMore key limit) :
    ∃ (pieces : List (Option Nat × Bytes)) (rest : Bytes),
      readsOf key steps session = pieces.map (fun piece => (piece.1, .data piece.2)) ∧
        ((readMore key none).run ((runSteps steps).run session).2).1 = .data rest ∧
          (pieces.map Prod.snd).flatten ++ rest = content ∧
            ∀ piece ∈ pieces, piece.1 ≠ some 0 → piece.2 = [] → rest = [] := by
  obtain ⟨hstores, hreading⟩ := reading_of_openReader h hopened hstore hname hfile hopen
  obtain ⟨pieces, offset, hreads, hreading', hflatten, hlast⟩ :=
    reads_from hreading (hstores ▸ hsteps)
  obtain ⟨rest, -, hanswer, -, -, hall, -⟩ := hreading'.read none
  rw [← hall rfl] at hflatten hlast
  exact ⟨pieces, rest, hreads, hanswer, hflatten, hlast⟩

/-! ### A reader of an object that is replaced and deleted -/

def holding : Session :=
  ((runStep (.save "s" "n" [.delivery (.chunk [1, 2, 3])] 3)).run overtaken).2

theorem holding_tidy : (Store.atTop [114]).Tidy holding.world.fs [[114]] := by
  have hstep : (Step.save "s" "n" [.delivery (.chunk [1, 2, 3])] 3).WritesOnly overtaken.stores
      (Store.atTop [114]) Store.keyN.names := ⟨⟨_, rfl, rfl⟩, rfl, trivial⟩
  exact (followed_step _ overtaken (Store.tidy_atTop Store.isEntryName_r) hstep).tidy

theorem reader_snapshot_replaced :
    let session := ((runStep (.openReader "s" "n" "r")).run holding).2
    let steps : List Step := [.readMore "r" (some 1),
      .save "s" "n" [.delivery (.chunk [9])] 1, .delete "s" "n", .readMore "r" (some 1)]
    ∃ (pieces : List (Option Nat × Bytes)) (rest : Bytes),
      readsOf "r" steps session = pieces.map (fun piece => (piece.1, .data piece.2)) ∧
        ((readMore "r" none).run ((runSteps steps).run session).2).1 = .data rest ∧
          (pieces.map Prod.snd).flatten ++ rest = [1, 2, 3] := by
  intro session steps
  have hsteps : ∀ step ∈ steps, step.IsCall holding.stores (Store.atTop [114]) (fun _ => True)
      (· ≠ "r") ∨ ∃ limit, step = .readMore "r" limit := by
    have hstore : ∃ opened, holding.stores.get? "s" = some opened ∧
        opened.store = Store.atTop [114] := ⟨_, rfl, rfl⟩
    simp only [steps, List.forall_mem_cons]
    exact ⟨Or.inr ⟨_, rfl⟩, Or.inl ⟨hstore, ⟨[.chunk [9]], rfl⟩, fun _ _ => trivial⟩,
      Or.inl hstore, Or.inr ⟨_, rfl⟩, fun _ hmem => absurd hmem List.not_mem_nil⟩
  obtain ⟨pieces, rest, hreads, hanswer, hflatten, -⟩ :=
    reader_snapshot (k := Store.keyN) holding_tidy
      (show holding.stores.get? "s" = some ⟨Store.atTop [114], false⟩ from rfl) rfl
      (show ObjectName.ofObject "n" = .ok Store.keyN.names from rfl)
      (show holding.world.fs.view ([[114]] ++ Store.keyN.names) =
        some (.file [1, 2, 3] fileMode) from rfl)
      (Prod.ext rfl rfl : (runStep (.openReader "s" "n" "r")).run holding = (.done, session)) hsteps
  exact ⟨pieces, rest, hreads, hanswer, hflatten⟩

end Session

end Depot
