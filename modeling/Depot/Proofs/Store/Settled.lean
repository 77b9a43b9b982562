import Depot.Proofs.Store.Deleting
import Depot.Proofs.Store.WriteCall
/-!
# Stores that were only used as stores

A store that began empty and has only been used through its operations is `Settled`: no staging file
is left, and every file below its root is an object, with a path that the system takes and names
that are text.  Writes and removals keep this, whether they end well or not.

* `Settled.objectAt?_eq_some_iff` — the files below the root are the objects;
* `IsNew.settled` — a new store;
* `Settled.of_staged`, `Settled.of_published`, `Settled.of_pruned` — what operations lead to.
-/

namespace Depot

open FileSystem

namespace Store

variable {s : Store} {root : Position} {k : Key} {fs₀ fs fs' : FileSystem}

/-- A store whose root is an empty directory. -/
structure IsNew (s : Store) (root : Position) (fs : FileSystem) : Prop where
  wellFormed : fs.WellFormed
  leadsTo : s.LeadsTo fs root
  empty : ∀ names, names ≠ [] → fs.at? (root ++ names) = none

/-- A store that was new in one file system and was only used as a store up to another. -/
structure Settled (s : Store) (root : Position) (fs₀ fs : FileSystem) : Prop where
  new : s.IsNew root fs₀
  keeps : fs₀.KeepsPaths fs
  tidy : s.Tidy fs root
  isObject : ∀ {names id}, fs.at? (root ++ names) = some (.file id) →
    isObjectPosition names = true
  taken : ∀ {names id}, fs.at? (root ++ names) = some (.file id) →
    checkPath (s.pathOf names) = .ok ()
  isText : ∀ {names id}, fs.at? (root ++ names) = some (.file id) →
    ∀ name ∈ names, ∃ t, Bytes.text? name = some t

theorem IsNew.tidy (h : s.IsNew root fs) : s.Tidy fs root := by
  refine ⟨h.wellFormed, h.leadsTo, ?_⟩
  intro names entry hne he
  rw [h.empty names hne] at he
  cases he

theorem IsNew.settled (h : s.IsNew root fs) : s.Settled root fs fs := by
  have hnone : ∀ {names id}, fs.at? (root ++ names) ≠ some (.file id) := by
    intro names id he
    by_cases hne : names = []
    · obtain ⟨mode, hmode⟩ := h.leadsTo.at?_root
      rw [hne, List.append_nil, hmode] at he
      cases he
    · rw [h.empty names hne] at he
      cases he
  exact ⟨h, KeepsPaths.refl fs, h.tidy, fun he => absurd he hnone, fun he => absurd he hnone,
    fun he => absurd he hnone⟩

namespace Settled

theorem objectAt?_eq_some_iff (h : s.Settled root fs₀ fs) {names : Position} {bytes : Bytes} :
    fs.objectAt? root names = some bytes ↔
      ∃ id f, fs.at? (root ++ names) = some (.file id) ∧ fs.file? id = some f ∧
        f.bytes = bytes := by
  rw [FileSystem.objectAt?_eq_some_iff]
  constructor
  · exact fun hobject => hobject.2
  · rintro ⟨id, f, he, hf, hbytes⟩
    exact ⟨h.isObject he, id, f, he, hf, hbytes⟩

theorem of_staged (h : s.Settled root fs₀ fs) (hstaged : s.Staged root k fs fs')
    (hcleared : s.Cleared k fs') : s.Settled root fs₀ fs' := by
  have hfile : ∀ {names id}, fs'.at? (root ++ names) = some (.file id) →
      fs.at? (root ++ names) = some (.file id) := by
    intro names id he
    by_cases hnames : names = k.staging
    · subst hnames
      rcases hstaged.taken with hsame | hcheck
      · rwa [hsame] at he
      · exact absurd he (hstaged.tidy.cleared_iff.1 hcleared hcheck id)
    · refine (hstaged.footprint.at?_eq_file_iff ?_).1 he
      simpa using hnames
  exact ⟨h.new, h.keeps.trans hstaged.footprint.keepsPaths, hstaged.tidy,
    fun he => h.isObject (hfile he), fun he => h.taken (hfile he), fun he => h.isText (hfile he)⟩

theorem of_published (h : s.Settled root fs₀ fs) {bytes : Bytes}
    (hpublished : s.Published root k fs bytes fs')
    (htext : ∀ name ∈ k.names, ∃ t, Bytes.text? name = some t) : s.Settled root fs₀ fs' := by
  have hfile : ∀ {names id}, fs'.at? (root ++ names) = some (.file id) →
      names = k.names ∨ fs.at? (root ++ names) = some (.file id) := by
    intro names id he
    by_cases hnames : names = k.names
    · exact Or.inl hnames
    · by_cases hstaging : names = k.staging
      · rw [hstaging, hpublished.vacant] at he
        cases he
      · refine Or.inr ((hpublished.footprint.at?_eq_file_iff ?_).1 he)
        simpa using ⟨hnames, hstaging⟩
  refine ⟨h.new, h.keeps.trans hpublished.footprint.keepsPaths, hpublished.tidy, ?_, ?_, ?_⟩
  · intro names id he
    rcases hfile he with rfl | he
    · exact isObjectPosition_names k
    · exact h.isObject he
  · intro names id he
    rcases hfile he with rfl | he
    · exact hpublished.checkPath
    · exact h.taken he
  · intro names id he
    rcases hfile he with rfl | he
    · exact htext
    · exact h.isText he

theorem of_pruned (h : s.Settled root fs₀ fs) {names : Position} (hne : names ≠ [])
    (hpruned : Pruned root names fs fs') : s.Settled root fs₀ fs' := by
  have hkeeps : fs₀.KeepsPaths fs' := by
    intro pos entry he hkind
    rw [hpruned.outside, h.keeps pos entry he hkind]
    rintro ⟨rest, rfl⟩
    rw [List.append_assoc, h.new.empty _ (by simp [hne])] at he
    cases he
  have htidy : s.Tidy fs' root := ⟨hpruned.wellFormed, h.new.leadsTo.of_keeps hkeeps,
    h.tidy.plain.of_at?_le fun _ _ => hpruned.at?_le⟩
  exact ⟨h.new, hkeeps, htidy, fun he => h.isObject (hpruned.at?_le he),
    fun he => h.taken (hpruned.at?_le he), fun he => h.isText (hpruned.at?_le he)⟩

theorem atTime (h : s.Settled root fs₀ fs) (time : Int) :
    s.Settled root fs₀ { fs with clock := time } :=
  ⟨h.new, h.keeps, h.tidy.atTime time, h.isObject, h.taken, h.isText⟩

theorem checkPath_of_objectAt? (h : s.Settled root fs₀ fs) {names : Position} {bytes : Bytes}
    (hobject : fs.objectAt? root names = some bytes) : checkPath (s.pathOf names) = .ok () := by
  obtain ⟨id, f, hid, -⟩ := h.objectAt?_eq_some_iff.1 hobject
  exact h.taken hid

end Settled

end Store

end Depot
