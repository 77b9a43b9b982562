import Depot.Store.Object
import Depot.Proofs.FileSystem.RemovedTrees
import Depot.Proofs.Store.Footprint
/-!
# Deleting

A deletion that ends well takes away an entry with everything below it, be it one file or a
directory; one that fails changes nothing.  If the path of the root leads through a directory that
is deleted, the directory itself may stay, with nothing in it.

* `Pruned.objectAt?_eq` — the objects that are left;
* `delete_runs` — a deletion in a tidy store.
-/

namespace Depot

open FileSystem

namespace FileSystem

/-- The second file system is the first without what is at some names below a position and below
that; an empty directory may be left there. -/
structure Pruned (root names : Position) (fs fs' : FileSystem) : Prop where
  wellFormed : fs'.WellFormed
  outside : ∀ pos, ¬ root ++ names <+: pos → fs'.at? pos = fs.at? pos
  inside : ∀ {pos entry}, root ++ names <+: pos → fs'.at? pos = some entry →
    pos = root ++ names ∧ entry.isDirectory ∧ fs.at? pos = some entry
  file?_eq : ∀ id, fs'.file? id = fs.file? id

namespace Pruned

variable {root names : Position} {fs fs' : FileSystem}

theorem at?_le (h : Pruned root names fs fs') {pos : Position} {entry : Entry}
    (he : fs'.at? pos = some entry) : fs.at? pos = some entry := by
  by_cases hbelow : root ++ names <+: pos
  · exact (h.inside hbelow he).2.2
  · rwa [h.outside pos hbelow] at he

theorem objectAt?_eq (h : Pruned root names fs fs') :
    fs'.objectAt? root =
      fun names' => if names <+: names' then none else fs.objectAt? root names' := by
  have hbytes : fs'.bytesOf = fs.bytesOf := by
    funext entry
    cases entry with
    | file id => rw [bytesOf, bytesOf, h.file?_eq]
    | directory mode => rfl
    | link target => rfl
    | device => rfl
  funext names'
  by_cases hbelow : names <+: names'
  · rw [if_pos hbelow]
    by_contra hsome
    obtain ⟨bytes, hbytes'⟩ := Option.ne_none_iff_exists'.1 hsome
    obtain ⟨-, id, f, hid, -⟩ := objectAt?_eq_some_iff.1 hbytes'
    have hdirectory := (h.inside ((List.prefix_append_right_inj root).2 hbelow) hid).2.1
    cases hdirectory
  · rw [if_neg hbelow, objectAt?, objectAt?, hbytes,
      h.outside _ fun hprefix => hbelow ((List.prefix_append_right_inj root).1 hprefix)]

end Pruned

theorem WellFormed.pruned_clear {root names : Position} {fs : FileSystem} {mode : Nat}
    (h : fs.WellFormed) (hmode : fs.at? (root ++ names) = some (.directory mode)) :
    Pruned root names fs (fs.clear (root ++ names)) where
  wellFormed := h.clear _
  outside := fun pos hpos => by rw [at?_clear, if_neg fun hbelow => hpos hbelow.1]
  inside := by
    intro pos entry hbelow he
    rw [at?_clear] at he
    split at he
    · cases he
    · rename_i hnot
      obtain rfl : pos = root ++ names := by
        by_contra hne
        exact hnot ⟨hbelow, hne⟩
      rw [hmode] at he
      cases he
      exact ⟨rfl, rfl, hmode⟩
  file?_eq := fun _ => rfl

theorem WellFormed.pruned_prune {root names : Position} {fs : FileSystem} (h : fs.WellFormed)
    (hne : names ≠ []) : Pruned root names fs (fs.prune (root ++ names)) where
  wellFormed := h.prune (by simp [hne])
  outside := fun pos hpos => by rw [at?_prune (by simp [hne]), if_neg hpos]
  inside := by
    intro pos entry hbelow he
    rw [at?_prune (by simp [hne]), if_pos hbelow] at he
    cases he
  file?_eq := fun _ => rfl

theorem WellFormed.pruned_unbind {root names : Position} {fs : FileSystem} (h : fs.WellFormed)
    (hne : names ≠ []) (hfile : ∀ mode, fs.at? (root ++ names) ≠ some (.directory mode)) :
    Pruned root names fs (fs.unbind (root ++ names)) := by
  have hpos : root ++ names ≠ [] := by simp [hne]
  refine ⟨h.unbind hpos hfile, fun pos houtside => ?_, fun {pos entry} hbelow he => ?_,
    fun _ => rfl⟩
  · rw [at?_unbind hpos, if_neg fun heq : pos = root ++ names => houtside (heq ▸ List.prefix_rfl)]
  · obtain ⟨rest, rfl⟩ := hbelow
    rw [at?_unbind hpos] at he
    split at he
    · cases he
    · rename_i hsame
      have hrest : rest ≠ [] := fun hnil => hsame (by rw [hnil, List.append_nil])
      rw [h.at?_append_of_not_directory hfile hrest] at he
      cases he

end FileSystem

namespace Store

variable {s : Store} {root : Position} {k : Key} {fs fs' : FileSystem} {name : String}

namespace Tidy

variable {dirs : List Bytes} {leaf : Bytes}

theorem removeTree_prunes (h : s.Tidy fs root)
    (hnames : ∀ name ∈ dirs ++ [leaf], Pathname.IsName name) :
    (removeTree (s.pathOf (dirs ++ [leaf]))).Runs fs (Pruned root (dirs ++ [leaf]) fs)
      (fun _ => Pruned root (dirs ++ [leaf]) fs) (fun _ st => st = fs) := by
  have hfound : ∀ pos mode, fs.locateEntry false (s.pathOf (dirs ++ [leaf])) =
      .ok (pos, .directory mode) → Pruned root (dirs ++ [leaf]) fs (fs.clear pos) ∧
        Pruned root (dirs ++ [leaf]) fs (fs.prune pos) := by
    intro pos mode hlocate
    obtain ⟨-, rfl, hmode⟩ := (h.locate_occupied_iff hnames).1 (locateEntry_eq_ok.1 hlocate)
    exact ⟨h.wellFormed.pruned_clear hmode, h.wellFormed.pruned_prune (by simp)⟩
  refine removeTree_runs (s.endsInName_pathOf hnames) ?_ ?_ fun _ => rfl
  · exact fun pos mode hlocate => ⟨(hfound pos mode hlocate).1, (hfound pos mode hlocate).1⟩
  · exact fun pos mode hlocate => ⟨(hfound pos mode hlocate).2, (hfound pos mode hlocate).2⟩

theorem pruned_of_unlink (h : s.Tidy fs root)
    (hnames : ∀ name ∈ dirs ++ [leaf], Pathname.IsName name)
    (hunlink : fs.unlink (s.pathOf (dirs ++ [leaf])) = .ok fs') :
    Pruned root (dirs ++ [leaf]) fs fs' := by
  obtain ⟨-, ⟨id, hid⟩, rfl⟩ := (h.unlink_eq_ok hnames).1 hunlink
  apply h.wellFormed.pruned_unbind (by simp)
  intro mode hmode
  rw [hid] at hmode
  cases hmode

end Tidy

theorem delete_runs (h : s.Tidy fs root) (hname : s.resolve name = .ok (s.pathOf k.names)) :
    (s.delete name).Runs fs (Pruned root k.names fs) (fun _ => Pruned root k.names fs)
      (fun _ st => st = fs) := by
  rw [delete, hname]
  apply Op.Runs.lift_ok
  refine Op.Runs.bind (fun _ st => st = fs) ?_ ?_
  · apply Op.Runs.mapError
    exact Op.Runs.query (fun _ _ => rfl) fun _ _ => rfl
  rintro entry st rfl
  refine Op.Runs.bind (fun _ => Pruned root k.names st) ?_
    fun _ _ hst => Op.Runs.report hst
  apply Op.Runs.mapError
  split
  · exact h.removeTree_prunes k.isName
  · apply Op.Runs.change_
    · exact fun fs' hunlink =>
        ⟨h.pruned_of_unlink k.isName hunlink, h.pruned_of_unlink k.isName hunlink⟩
    · exact fun _ _ => rfl

theorem delete_refused_runs {fault : StorageError} (hname : s.resolve name = .error fault) :
    (s.delete name).Runs fs (fun _ => False) (fun _ _ => False) (fun _ st => st = fs) := by
  rw [delete, hname]
  exact Op.Runs.lift_error rfl

end Store

end Depot
