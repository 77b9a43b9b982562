import Depot.Store.Object
import Depot.Proofs.Store.Footprint
/-!
# Reading and measuring

Reading an object to its end yields its content, and measuring it yields the length, or the failure
that says that there is an object without bytes.  Neither changes anything.  Every other failure
says that there is no object, unless its path is one that the system does not take.

* `Reader.read_of_readFrom` — reading on;
* `readWhole_runs`, `stat_runs` — in a tidy store.
-/

namespace Depot

open FileSystem

theorem Reader.read_of_readFrom {fs : FileSystem} {handle : Handle} {offset : Nat} {rest : Bytes}
    (h : fs.readFrom handle offset = .ok rest) (limit : Option Nat) :
    ∃ bytes, (⟨handle, offset⟩ : Reader).read limit fs =
        .ok (bytes, ⟨handle, offset + bytes.length⟩) ∧
      bytes <+: rest ∧ (limit = none → bytes = rest) ∧
        (limit ≠ some 0 → bytes = [] → rest = []) := by
  rw [Reader.read]
  by_cases hzero : limit = some 0
  · rw [if_pos hzero]
    refine ⟨[], rfl, List.nil_prefix, fun hnone => ?_, fun hne => absurd hzero hne⟩
    rw [hzero] at hnone
    cases hnone
  rw [if_neg hzero, h]
  cases limit with
  | none => exact ⟨rest, rfl, List.prefix_rfl, fun _ => rfl, fun _ hnil => hnil⟩
  | some n =>
      refine ⟨rest.take n, rfl, List.take_prefix n rest, fun hnone => ?_, fun hne hnil => ?_⟩
      · cases hnone
      rcases List.take_eq_nil_iff.1 hnil with hn | hrest
      · exact absurd (congrArg some hn) hne
      · exact hrest

namespace Store

def readWhole (s : Store) (name : String) : Op StorageError Bytes := do
  let reader ← s.openReader name
  let (bytes, _) ← Op.mapError (fun e => .io e none) (Op.query (reader.read none))
  return bytes

variable {s : Store} {root : Position} {k : Key} {fs : FileSystem} {name : String}

theorem Tidy.stat_of_objectAt? (h : s.Tidy fs root) {bytes : Bytes}
    (hcheck : checkPath (s.pathOf k.names) = .ok ())
    (hobject : fs.objectAt? root k.names = some bytes) :
    ∃ id f, fs.stat (s.pathOf k.names) = .ok (.file id) ∧ fs.file? id = some f ∧
      f.bytes = bytes := by
  obtain ⟨-, id, f, hid, hf, hbytes⟩ := objectAt?_eq_some_iff.1 hobject
  exact ⟨id, f, (h.stat_pathOf k.isName).2 ⟨hcheck, hid⟩, hf, hbytes⟩

theorem Tidy.object_of_stat (h : s.Tidy fs root) {entry : Entry}
    (hstat : fs.stat (s.pathOf k.names) = .ok entry) :
    (∃ mode, entry = .directory mode ∧ fs.objectAt? root k.names = none) ∨
      ∃ id f, entry = .file id ∧ fs.file? id = some f ∧
        fs.objectAt? root k.names = some f.bytes := by
  obtain ⟨-, he⟩ := (h.stat_pathOf k.isName).1 hstat
  rcases h.entry_below _ _ he with ⟨mode, rfl⟩ | ⟨id, rfl⟩
  · refine Or.inl ⟨mode, rfl, ?_⟩
    rw [objectAt?, if_pos (isObjectPosition_names k), Key.names, he]
    rfl
  · obtain ⟨f, hf⟩ := h.wellFormed.file he
    exact Or.inr ⟨id, f, rfl, hf,
      objectAt?_eq_some_iff.2 ⟨isObjectPosition_names k, id, f, he, hf, rfl⟩⟩

theorem openReader_runs {path : Pathname} (hname : s.resolve name = .ok path) :
    (s.openReader name).Runs fs (fun _ => False)
      (fun reader st => st = fs ∧ ∃ entry, fs.stat path = .ok entry ∧ reader = ⟨handleOf entry, 0⟩)
      (fun _ st => st = fs ∧ ∀ entry, fs.stat path ≠ .ok entry) := by
  rw [openReader, hname]
  apply Op.Runs.lift_ok
  refine Op.Runs.bind (fun handle st => st = fs ∧ fs.openRead path = .ok handle) ?_ ?_
  · apply Op.Runs.mapError
    apply Op.Runs.query
    · exact fun handle hopen => ⟨rfl, hopen⟩
    · intro e he
      refine ⟨rfl, fun entry hstat => ?_⟩
      rw [openRead, hstat] at he
      cases he
  · rintro handle st ⟨rfl, hopen⟩
    obtain ⟨entry, hstat, rfl⟩ := map_eq_ok.1 hopen
    exact Op.Runs.pure ⟨rfl, entry, hstat, rfl⟩

theorem readWhole_runs (h : s.Tidy fs root) (hname : s.resolve name = .ok (s.pathOf k.names)) :
    (s.readWhole name).Runs fs (fun _ => False)
      (fun bytes st => st = fs ∧ fs.objectAt? root k.names = some bytes)
      (fun _ st => st = fs ∧
        (checkPath (s.pathOf k.names) = .ok () → fs.objectAt? root k.names = none)) := by
  rw [readWhole]
  refine Op.Runs.bind _ ((openReader_runs hname).weaken (fun _ hst => hst) (fun _ _ hst => hst)
    fun _ _ hst => ⟨hst.1, fun hcheck => ?_⟩) ?_
  · by_contra hsome
    obtain ⟨bytes, hbytes⟩ := Option.ne_none_iff_exists'.1 hsome
    obtain ⟨id, f, hstat, -⟩ := h.stat_of_objectAt? hcheck hbytes
    exact hst.2 _ hstat
  · -- A directory can be opened, but not read.
    rintro reader st ⟨rfl, entry, hstat, rfl⟩
    refine Op.Runs.bind (fun found st' => st' = st ∧
      st.objectAt? root k.names = some found.1) ?_ fun _ _ hst => Op.Runs.pure hst
    apply Op.Runs.mapError
    apply Op.Runs.query
    · intro found hread
      rw [Reader.read, if_neg (by simp)] at hread
      rcases h.object_of_stat hstat with ⟨mode, rfl, -⟩ | ⟨id, f, rfl, hf, hobject⟩
      · cases hread
      · simp only [handleOf, readFrom, hf, ok_bind] at hread
        cases hread
        exact ⟨rfl, hobject⟩
    · intro e he
      rcases h.object_of_stat hstat with ⟨mode, rfl, hnone⟩ | ⟨id, f, rfl, -, -⟩
      · exact ⟨rfl, fun _ => hnone⟩
      · cases he

theorem stat_runs (h : s.Tidy fs root) (hname : s.resolve name = .ok (s.pathOf k.names)) :
    (s.stat name).Runs fs (fun _ => False)
      (fun info st => st = fs ∧ ∃ bytes, fs.objectAt? root k.names = some bytes ∧ bytes ≠ [] ∧
        info = ⟨name, bytes.length⟩)
      (fun e st => st = fs ∧
        ((e.isEmptyObject = true ∧ fs.objectAt? root k.names = some []) ∨
          e.isEmptyObject = false ∧
            (checkPath (s.pathOf k.names) = .ok () → fs.objectAt? root k.names = none))) := by
  rw [Store.stat, hname]
  apply Op.Runs.lift_ok
  apply Op.Runs.get
  rintro w rfl
  cases hstat : w.fs.stat (s.pathOf k.names) with
  | error e =>
      have hnone : checkPath (s.pathOf k.names) = .ok () →
          w.fs.objectAt? root k.names = none := by
        intro hcheck
        by_contra hsome
        obtain ⟨bytes, hbytes⟩ := Option.ne_none_iff_exists'.1 hsome
        obtain ⟨id, f, hfound, -⟩ := h.stat_of_objectAt? hcheck hbytes
        rw [hstat] at hfound
        cases hfound
      dsimp only
      split
      · exact Op.Runs.throw ⟨rfl, Or.inr ⟨rfl, hnone⟩⟩
      · exact Op.Runs.throw ⟨rfl, Or.inr ⟨rfl, hnone⟩⟩
  | ok entry =>
      dsimp only
      rcases h.object_of_stat hstat with ⟨mode, rfl, hnone⟩ | ⟨id, f, rfl, hf, hobject⟩
      · rw [if_pos (by simp [Entry.isDirectory])]
        exact Op.Runs.throw ⟨rfl, Or.inr ⟨rfl, fun _ => hnone⟩⟩
      · rw [if_neg (by simp [Entry.isDirectory])]
        apply Op.Runs.get
        intro w' hw'
        have hsize : w'.fs.sizeOf (.file id) = f.bytes.length := by
          rw [hw', FileSystem.sizeOf, hf]
          rfl
        rw [hsize]
        split
        · rename_i hzero
          rw [List.length_eq_zero_iff.1 hzero] at hobject
          exact Op.Runs.throw ⟨rfl, Or.inl ⟨rfl, hobject⟩⟩
        · rename_i hpositive
          refine Op.Runs.pure ⟨rfl, f.bytes, hobject, ?_, rfl⟩
          exact fun hnil => hpositive (by rw [hnil]; rfl)

theorem readWhole_refused_runs {fault : StorageError} (hname : s.resolve name = .error fault) :
    (s.readWhole name).Runs fs (fun _ => False) (fun _ _ => False) (fun _ st => st = fs) := by
  rw [readWhole, openReader, hname]
  refine Op.Runs.bind (fun _ _ => False) ?_ fun _ _ hst => hst.elim
  exact Op.Runs.lift_error rfl

theorem stat_refused_runs {fault : StorageError} (hname : s.resolve name = .error fault) :
    (s.stat name).Runs fs (fun _ => False) (fun _ _ => False)
      (fun e st => st = fs ∧ e = fault) := by
  rw [Store.stat, hname]
  exact Op.Runs.lift_error ⟨rfl, rfl⟩

end Store

end Depot
