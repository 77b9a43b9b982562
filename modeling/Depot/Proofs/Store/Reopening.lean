import Depot.Store.Root
import Depot.Proofs.Path.Absolute
import Depot.Proofs.Store.Tidy
/-!
# Opening a store again

The path of an open store can be opened again.  The path may be written differently afterwards, but
it leads to the same directory, and nothing in the file system changes.
-/

namespace Depot

open FileSystem

theorem makeAbsolute_runs {fs : FileSystem} {p : Pathname} {entry : Entry}
    (hstart : fs.at? (fs.startOf p) = some entry) :
    (makeAbsolute p).Runs fs (fun _ => False) (fun root st => st = fs ∧ root = absolutePath fs p)
      (fun _ _ => False) := by
  have habs : fs.absolute p = .ok (absolutePath fs p) := by
    rw [FileSystem.absolute, hstart]
  refine Op.Runs.mapError (Op.Runs.query (fun root hok => ?_) fun e he => ?_)
  · rw [habs] at hok
    cases hok
    exact ⟨rfl, rfl⟩
  · rw [habs] at he
    cases he

namespace Store

variable {s : Store} {fs : FileSystem} {root : Position}

theorem LeadsTo.absolute (h : s.LeadsTo fs root) (workingDir : Pathname) :
    (⟨Pathname.absolute workingDir s.root⟩ : Store).LeadsTo fs root := by
  obtain ⟨habs, hnames, hsteps⟩ := Pathname.names_absolute workingDir h.isAbsolute h.dot_notMem
  have hsub := Pathname.absolute_bytes_sublist workingDir h.isAbsolute h.dot_notMem
  obtain ⟨mode, hmode⟩ := h.isDirectory
  obtain ⟨hcheck, hwalk⟩ := locate_eq_ok.1 (locateEntry_eq_ok.1 hmode)
  refine ⟨habs, by rw [hnames]; exact h.dot_notMem, mode, ?_⟩
  rw [locateEntry_eq_ok, locate_eq_ok]
  constructor
  · rw [checkPath_eq_ok] at hcheck ⊢
    refine ⟨fun hzero => hcheck.1 (hsub.subset hzero), ?_,
      Nat.lt_of_le_of_lt hsub.length_le hcheck.2.2⟩
    intro hnil
    rw [Pathname.isAbsolute, hnil] at habs
    cases habs
  · rw [startOf, if_pos habs, hsteps]
    rwa [startOf, if_pos h.isAbsolute] at hwalk

theorem LeadsTo.openAt_runs (h : s.LeadsTo fs root) (create : Bool) :
    (Store.openAt s.root create).Runs fs (fun _ => False)
      (fun s' fs' => fs' = fs ∧ s'.LeadsTo fs root) (fun _ _ => False) := by
  obtain ⟨mode, hmode⟩ := h.isDirectory
  have hstat : fs.linkStat s.root = .ok (.directory mode) := by
    rw [linkStat, hmode]
    rfl
  have hne : s.root ≠ Pathname.empty := fun heq => h.bytes_ne_nil (by rw [heq]; rfl)
  rw [Store.openAt]
  refine Op.Runs.bind (fun path fs' => fs' = fs ∧ (⟨path⟩ : Store).LeadsTo fs root) ?_ ?_
  · rw [resolveRoot, if_neg hne]
    apply Op.Runs.get
    rintro w rfl
    rw [hstat]
    dsimp only
    refine Op.Runs.bind (fun found fs' => fs' = w.fs ∧
      found = (absolutePath w.fs s.root, .directory mode)) ?_ ?_
    · rw [existingRoot, if_neg (by simp [Entry.isLink])]
      obtain ⟨entry, hstart⟩ := start_of_linkStat hstat
      refine Op.Runs.bind _ (makeAbsolute_runs hstart) ?_
      rintro _ st ⟨rfl, rfl⟩
      exact Op.Runs.pure ⟨rfl, rfl⟩
    · rintro ⟨path, entry⟩ fs' ⟨rfl, hfound⟩
      cases hfound
      dsimp only
      rw [if_pos (by simp [Entry.isDirectory])]
      exact Op.Runs.pure ⟨rfl, h.absolute _⟩
  · rintro path fs' ⟨rfl, hpath⟩
    refine Op.Runs.bind (fun _ fs'' => fs'' = fs') (Op.Runs.report rfl) ?_
    rintro _ fs'' rfl
    exact Op.Runs.pure ⟨rfl, hpath⟩

end Store

end Depot
