import Depot.Proofs.Store.Purging
import Depot.Proofs.Store.Reopening
import Depot.Proofs.Store.FailureAtomicity
/-!
# Crash safety

Wherever a save or a copy is abandoned, the store holds the objects from before, or these and the
whole new object.  Opening the store again and purging it keeps them, and takes away the staging
file that the call has left.

* `WriteCall.passes_outcome` — every state that a call passes through;
* `WriteCall.crashSafe` — every state, and what recovery makes of it.
-/

namespace Depot

open FileSystem

/-- The objects that a call may leave behind: those from before, or these with the object that is
written. -/
def WriteCall.IsOutcome (call : WriteCall) (root : Position) (before : FileSystem)
    (objects : Position → Option Bytes) : Prop :=
  objects = before.objectAt? root ∨
    ∃ names bytes, ObjectName.ofObject call.name = .ok names ∧
      call.payload? (before.objectAt? root) = some bytes ∧
        objects = Function.update (before.objectAt? root) names (some bytes)

/-- The store at a root, opened again and purged, holds certain objects, and no file that the system
could reach is at the staging path of any name. -/
def Store.Recovers (s : Store) (root : Position) (st : FileSystem)
    (objects : Position → Option Bytes) : Prop :=
  ∀ create, ∃ s' w report w',
    (Store.openAt s.root create).run (.ofFileSystem st) = (.ok s', w) ∧
    (s'.purge 0).run w = (.ok report, w') ∧
    s'.LeadsTo w'.fs root ∧ w'.fs.objectAt? root = objects ∧
    ∀ name path, s'.resolve name = .ok path →
      ∀ id, w'.fs.linkStat (stagingPath path) ≠ .ok (.file id)

namespace Store

variable {s : Store} {root : Position} {fs : FileSystem}

theorem Tidy.recovers (h : s.Tidy fs root) : s.Recovers root fs (fs.objectAt? root) := by
  intro create
  have hopen := h.leadsTo.openAt_runs create
  rcases hrun : (Store.openAt s.root create).run (.ofFileSystem fs) with ⟨result, w⟩
  cases result with
  | error e => exact (hopen.of_error rfl hrun).elim
  | ok s' =>
      obtain ⟨hfs, hleads⟩ := hopen.of_ok rfl hrun
      have htidy : s'.Tidy w.fs root := by
        rw [hfs]
        exact ⟨h.wellFormed, hleads, h.plain⟩
      -- A purge that asks for no age takes everything that is staged.
      have hpurge := purge_runs htidy 0
      rcases hrun' : (s'.purge 0).run w with ⟨result', w'⟩
      cases result' with
      | error e => exact (hpurge.of_error rfl hrun').elim
      | ok report =>
          obtain ⟨htidy', hobjects, hcleared⟩ := hpurge.of_ok rfl hrun'
          refine ⟨s', w, report, w', rfl, hrun', htidy'.leadsTo, by rw [hobjects, hfs], ?_⟩
          intro name path hpath
          obtain ⟨k, -, rfl, htext⟩ := resolve_eq_ok hpath
          obtain ⟨t, ht⟩ := htext k.leaf (by simp [Key.names])
          rw [htidy'.stagingPath_eq]
          exact hcleared rfl k t ht

end Store

namespace WriteCall

/-- In every state that a call passes through, the store is tidy and holds one of the two sets of
objects. -/
theorem passes_outcome {s : Store} {root : Position} (call : WriteCall) (w : World)
    (h : s.Tidy w.fs root) :
    ∃ since, ((call.perform s).run w).2.states = since ++ w.past ∧
      ∀ st ∈ since, s.Tidy st root ∧ call.IsOutcome root w.fs (st.objectAt? root) := by
  have hnow : s.Tidy w.fs root ∧ call.IsOutcome root w.fs (w.fs.objectAt? root) := ⟨h, Or.inl rfl⟩
  cases hname : ObjectName.ofObject call.name with
  | error fault =>
      obtain ⟨since, hstates, hall⟩ :=
        (refused_runs s w.fs call hname).exists_states rfl
      refine ⟨since, hstates, fun st hst => ?_⟩
      rcases hall st hst with rfl | hpassed
      · exact hnow
      · exact hpassed.elim
  | ok names =>
      obtain ⟨k, rfl, -⟩ := ObjectName.ofObject_eq_ok hname
      obtain ⟨since, hstates, hall⟩ := (runs h call hname).exists_states rfl
      refine ⟨since, hstates, fun st hst => ?_⟩
      rcases hall st hst with rfl | hstaged | ⟨bytes, hbytes, hpublished⟩
      · exact hnow
      · exact ⟨hstaged.tidy, Or.inl (hstaged.objectAt?_eq h)⟩
      · exact ⟨hpublished.tidy,
          Or.inr ⟨k.names, bytes, hname, hbytes, hpublished.objectAt?_eq h⟩⟩

/-- Wherever a call is abandoned, the store holds the objects from before or these with the whole
new one, and opening and purging it at any later time keeps these objects and leaves nothing
staged. -/
theorem crashSafe {s : Store} {root : Position} (call : WriteCall) (w : World)
    (h : s.Tidy w.fs root) :
    ∃ since, ((call.perform s).run w).2.states = since ++ w.past ∧
      ∀ st ∈ since, call.IsOutcome root w.fs (st.objectAt? root) ∧
        ∀ time, s.Recovers root { st with clock := time } (st.objectAt? root) := by
  obtain ⟨since, hstates, hall⟩ := call.passes_outcome w h
  refine ⟨since, hstates, fun st hst => ?_⟩
  obtain ⟨htidy, houtcome⟩ := hall st hst
  exact ⟨houtcome, fun time => (htidy.atTime time).recovers⟩

/-- A save whose source fails after some bytes, in a store where an earlier save was abandoned. -/
theorem crashSafe_abandoned :
    ∃ since, (((save "n" [.chunk [1], .fault .busy] 1).perform (Store.atTop [114])).run
        (.ofFileSystem abandoned)).2.states = since ++ [] ∧
      ∀ st ∈ since, (save "n" [.chunk [1], .fault .busy] 1).IsOutcome [[114]] abandoned
          (st.objectAt? [[114]]) ∧
        ∀ time, (Store.atTop [114]).Recovers [[114]] { st with clock := time }
          (st.objectAt? [[114]]) :=
  crashSafe (save "n" [.chunk [1], .fault .busy] 1) (.ofFileSystem abandoned) abandoned_tidy

end WriteCall

end Depot
