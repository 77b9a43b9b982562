import Depot.Store.Purge
import Depot.Proofs.FileSystem.KeptPaths
import Depot.Proofs.Program
/-!
# Removing entries one after the other

A purge decides first what to remove and then removes it entry by entry.  What this comes to can be
said in one step: the entries whose paths the system takes are gone, and nothing else has changed.

* `at?_unbindAll`, `WellFormed.unbindAll`, `keepsPaths_unbindAll` — a file system without some
  entries;
* `removeStale_exact` — what a list of removals leads to, and what is reported about it;
* `purge_of_traverse` — what a purge leads to, by what its walk finds.
-/

namespace Depot

namespace FileSystem

variable {fs : FileSystem} {positions : List Position}

def unbindAll (fs : FileSystem) (positions : List Position) : FileSystem :=
  positions.foldl unbind fs

@[simp] theorem file?_unbindAll (fs : FileSystem) (positions : List Position) (id : Nat) :
    (fs.unbindAll positions).file? id = fs.file? id := by
  induction positions generalizing fs with
  | nil => rfl
  | cons pos rest ih => exact ih (fs.unbind pos)

@[simp] theorem clock_unbindAll (fs : FileSystem) (positions : List Position) :
    (fs.unbindAll positions).clock = fs.clock := by
  induction positions generalizing fs with
  | nil => rfl
  | cons pos rest ih => exact ih (fs.unbind pos)

@[simp] theorem workingDir_unbindAll (fs : FileSystem) (positions : List Position) :
    (fs.unbindAll positions).workingDir = fs.workingDir := by
  induction positions generalizing fs with
  | nil => rfl
  | cons pos rest ih => exact ih (fs.unbind pos)

theorem nodeOf_unbindAll (fs : FileSystem) (positions : List Position) :
    (fs.unbindAll positions).nodeOf = fs.nodeOf := by
  funext entry
  cases entry with
  | file id => rw [nodeOf, nodeOf, file?_unbindAll]
  | directory mode => rfl
  | link target => rfl
  | device => rfl

theorem pairs_unbindAll (fs : FileSystem) (positions : List Position) :
    (fs.unbindAll positions).entries.pairs.Sublist fs.entries.pairs := by
  induction positions generalizing fs with
  | nil => exact List.Sublist.refl _
  | cons pos rest ih => exact (ih (fs.unbind pos)).trans List.filter_sublist

theorem at?_unbindAll (h : ∀ pos ∈ positions, pos ≠ []) (pos : Position) :
    (fs.unbindAll positions).at? pos = if pos ∈ positions then none else fs.at? pos := by
  induction positions generalizing fs with
  | nil => rfl
  | cons first rest ih =>
      have hrest : ∀ pos ∈ rest, pos ≠ [] := fun pos hmem => h pos (List.mem_cons_of_mem _ hmem)
      have hunbind := @at?_unbind fs first (h first List.mem_cons_self) pos
      change ((fs.unbind first).unbindAll rest).at? pos = _
      rw [ih hrest, hunbind]
      by_cases hfirst : pos = first
      · simp [hfirst]
      · simp [hfirst]

theorem WellFormed.unbindAll (hwf : fs.WellFormed)
    (h : ∀ pos ∈ positions, pos ≠ [] ∧ ∀ mode, fs.at? pos ≠ some (.directory mode)) :
    (fs.unbindAll positions).WellFormed := by
  induction positions generalizing fs with
  | nil => exact hwf
  | cons first rest ih =>
      obtain ⟨hfirst, hkind⟩ := h first List.mem_cons_self
      refine ih (hwf.unbind hfirst hkind) fun pos hmem => ?_
      obtain ⟨hpos, hkind'⟩ := h pos (List.mem_cons_of_mem _ hmem)
      refine ⟨hpos, fun mode hmode => ?_⟩
      rw [at?_unbind hfirst] at hmode
      split at hmode
      · cases hmode
      · exact hkind' mode hmode

theorem keepsPaths_unbindAll
    (h : ∀ pos ∈ positions, pos ≠ [] ∧ ∃ id, fs.at? pos = some (.file id)) :
    fs.KeepsPaths (fs.unbindAll positions) := by
  intro pos entry he hkind
  rw [at?_unbindAll fun pos hmem => (h pos hmem).1]
  split
  · rename_i hmem
    obtain ⟨-, id, hid⟩ := h pos hmem
    rw [he] at hid
    cases hid
    rcases hkind with hkind | hkind
    · cases hkind
    · cases hkind
  · exact he

end FileSystem

namespace Store

def tally (stale : List (Pathname × Position)) : PurgeReport :=
  ⟨stale.countP fun entry => entry.1.fits, stale.countP fun entry => !entry.1.fits⟩

/-- The positions of a list of removals whose paths the system takes. -/
def fitting (stale : List (Pathname × Position)) : List Position :=
  (stale.filter fun entry => entry.1.fits).map Prod.snd

theorem mem_fitting {stale : List (Pathname × Position)} {pos : Position} :
    pos ∈ fitting stale ↔ ∃ path : Pathname, (path, pos) ∈ stale ∧ path.fits = true := by
  rw [fitting, List.mem_map]
  constructor
  · rintro ⟨⟨path, pos'⟩, hmem, rfl⟩
    obtain ⟨hmem, hfits⟩ := List.mem_filter.1 hmem
    exact ⟨path, hmem, hfits⟩
  · rintro ⟨path, hmem, hfits⟩
    exact ⟨(path, pos), List.mem_filter.2 ⟨hmem, hfits⟩, rfl⟩

theorem length_fitting (stale : List (Pathname × Position)) :
    (fitting stale).length = (tally stale).removed := by
  rw [fitting, List.length_map, tally, List.countP_eq_length_filter]

theorem removeStale_exact (stale : List (Pathname × Position)) (fs : FileSystem) :
    (removeStale stale).Runs fs (fun _ => True)
      (fun report fs' => report = tally stale ∧ fs' = fs.unbindAll (fitting stale))
      (fun _ _ => False) := by
  induction stale generalizing fs with
  | nil => exact Op.Runs.pure ⟨rfl, rfl⟩
  | cons first rest ih =>
      obtain ⟨path, pos⟩ := first
      rw [removeStale]
      split
      · rename_i hfits
        refine Op.Runs.bind (fun _ fs' => fs' = fs.unbind pos) ?_ ?_
        · refine Op.Runs.change_ (fun fs' hok => ⟨trivial, (Except.ok.inj hok).symm⟩) fun e he => ?_
          cases he
        · rintro _ fs' rfl
          refine Op.Runs.bind _ (ih (fs.unbind pos)) ?_
          rintro _ fs' ⟨rfl, rfl⟩
          refine Op.Runs.pure ⟨?_, ?_⟩
          · simp [tally, hfits]
          · simp [fitting, hfits, FileSystem.unbindAll]
      · rename_i hlong
        refine Op.Runs.bind (fun _ fs' => fs' = fs) (Op.Runs.report rfl) ?_
        rintro _ fs' rfl
        refine Op.Runs.bind _ (ih fs') ?_
        rintro _ fs'' ⟨rfl, rfl⟩
        refine Op.Runs.pure ⟨?_, ?_⟩
        · simp [tally, hlong]
        · simp [fitting, hlong]

theorem purge_of_traverse {s : Store} {fs : FileSystem} {found : Traversal}
    (htraverse : fs.traverse s.root = .ok found) (maxAge : Nat) :
    (s.purge maxAge).Runs fs (fun _ => True)
      (fun report fs' => report = tally (found.stale fs s.root maxAge) ∧
        fs' = fs.unbindAll (fitting (found.stale fs s.root maxAge)))
      (fun _ _ => False) := by
  rw [Store.purge]
  apply Op.Runs.get
  rintro w rfl
  dsimp only
  rw [htraverse]
  refine Op.Runs.bind _ (removeStale_exact _ w.fs) ?_
  intro report fs' hremoved
  split
  · refine Op.Runs.bind (fun _ st => st = fs') (Op.Runs.report rfl) ?_
    rintro _ st rfl
    exact Op.Runs.pure hremoved
  · exact Op.Runs.pure hremoved

end Store

end Depot
