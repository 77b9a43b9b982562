import Depot.Proofs.Store.Lookups
import Depot.Proofs.Store.Rooted
/-!
# Absent objects

Nothing stands at the path of a name.  Whether the operations on the name say so depends on what
the system tells them, and this depends on the way down from the root: on a well-formed way some
directory lacks the next name.  The way may also lead through a regular file, or the next name may
be too long for any directory; then every operation fails as if the system were at fault.

* `straight_of_absent` — how a walk to nothing ends;
* `RootedAt.linkStat_of_absent` — what the system says about the path of an absent object;
* `reportsAbsence_iff` — when the operations report the absence.
-/

namespace Depot

open FileSystem

namespace FileSystem

variable {fs : FileSystem} {pos names rest : Position} {name : Bytes} {mode : Nat}

/-- A directory on the way from a position down to a place lacks the next name, and could have
it. -/
def HasGap (fs : FileSystem) (pos names : Position) : Prop :=
  ∃ front name rest mode, names = front ++ name :: rest ∧
    fs.at? (pos ++ front) = some (.directory mode) ∧
    fs.at? (pos ++ front ++ [name]) = none ∧ name.length ≤ maxNameLength

theorem hasGap_cons (hpos : fs.at? pos = some (.directory mode)) :
    fs.HasGap pos (name :: rest) ↔
      (fs.at? (pos ++ [name]) = none ∧ name.length ≤ maxNameLength) ∨
        fs.HasGap (pos ++ [name]) rest := by
  constructor
  · rintro ⟨front, next, tail, mode', heq, hdir, hnone, hlength⟩
    cases front with
    | nil =>
        cases heq
        rw [List.append_nil] at hnone
        exact Or.inl ⟨hnone, hlength⟩
    | cons first front =>
        cases heq
        have happend : pos ++ name :: front = pos ++ [name] ++ front := by simp
        rw [happend] at hdir hnone
        exact Or.inr ⟨front, next, tail, mode', rfl, hdir, hnone, hlength⟩
  · rintro (⟨hnone, hlength⟩ | ⟨front, next, tail, mode', rfl, hdir, hnone, hlength⟩)
    · refine ⟨[], name, rest, mode, rfl, ?_, ?_, hlength⟩
      · rwa [List.append_nil]
      · rwa [List.append_nil]
    · have happend : pos ++ name :: front = pos ++ [name] ++ front := by simp
      refine ⟨name :: front, next, tail, mode', rfl, ?_, ?_, hlength⟩
      · rwa [happend]
      · rwa [happend]

theorem not_hasGap (hwf : fs.WellFormed) (hpos : ∀ mode, fs.at? pos ≠ some (.directory mode)) :
    ¬ fs.HasGap pos names := by
  rintro ⟨front, next, tail, mode, -, hdir, -, -⟩
  by_cases hfront : front = []
  · rw [hfront, List.append_nil] at hdir
    exact hpos mode hdir
  · obtain ⟨mode', hmode⟩ := hwf.directory_of_append hfront hdir
    exact hpos mode' hmode

theorem straight_of_absent (hwf : fs.WellFormed) (hpos : fs.at? pos = some (.directory mode))
    (hnone : fs.at? (pos ++ names) = none) :
    (fs.HasGap pos names ∧ (fs.straight pos names = .error .noEntry ∨
        ∃ dir name, fs.straight pos names = .ok (.vacant dir name))) ∨
      (¬ fs.HasGap pos names ∧ (fs.straight pos names = .error .nameTooLong ∨
        fs.straight pos names = .error .notDirectory)) := by
  induction names generalizing pos mode with
  | nil =>
      rw [List.append_nil, hpos] at hnone
      cases hnone
  | cons name rest ih =>
      have happend : pos ++ name :: rest = pos ++ [name] ++ rest := by simp
      rw [happend] at hnone
      rw [hasGap_cons hpos, straight, hpos]
      dsimp only
      by_cases hlong : maxNameLength < name.length
      · -- What has such a name cannot be bound, so no gap is further down.
        have hunbound : ∀ mode', fs.at? (pos ++ [name]) ≠ some (.directory mode') :=
          fun mode' hmode' => Nat.not_lt.2 (hwf.name hmode').length_le hlong
        rw [if_pos hlong]
        refine Or.inr ⟨?_, Or.inl rfl⟩
        rintro (⟨-, hlength⟩ | hgap)
        · omega
        · exact not_hasGap hwf hunbound hgap
      · rw [if_neg hlong]
        cases hchild : fs.at? (pos ++ [name]) with
        | none =>
            refine Or.inl ⟨Or.inl ⟨rfl, Nat.not_lt.1 hlong⟩, ?_⟩
            by_cases hrest : rest = []
            · exact Or.inr ⟨pos, name, by rw [if_pos hrest]⟩
            · exact Or.inl (by rw [if_neg hrest])
        | some child =>
            have hgap : (some child = none ∧ name.length ≤ maxNameLength) ∨
                fs.HasGap (pos ++ [name]) rest ↔ fs.HasGap (pos ++ [name]) rest := by simp
            rw [hgap]
            by_cases hkind : child.isDirectory = true
            · obtain ⟨mode', rfl⟩ := Entry.isDirectory_iff.1 hkind
              exact ih hchild hnone
            · have hblocked : ∀ mode', fs.at? (pos ++ [name]) ≠ some (.directory mode') := by
                intro mode' hmode'
                rw [hchild] at hmode'
                cases hmode'
                exact hkind rfl
              have hrest : rest ≠ [] := by
                rintro rfl
                rw [List.append_nil, hchild] at hnone
                cases hnone
              refine Or.inr ⟨not_hasGap hwf hblocked, Or.inr ?_⟩
              obtain ⟨next, rest, rfl⟩ := List.exists_cons_of_ne_nil hrest
              rw [straight, hchild]
              cases child with
              | directory mode' => exact absurd rfl hkind
              | file id => rfl
              | link target => rfl
              | device => rfl

theorem kind_of_checkPath_error {p : Pathname} {e : IoError} (hne : p.bytes ≠ [])
    (h : checkPath p = .error e) : e.kind ≠ .notFound := by
  by_cases hzero : 0 ∈ p.bytes
  · rw [checkPath, if_pos hzero] at h
    cases h
    decide
  by_cases hlong : pathLimit ≤ p.bytes.length
  · rw [checkPath, if_neg hzero, if_neg hne, if_pos hlong] at h
    cases h
    decide
  · rw [checkPath, if_neg hzero, if_neg hne, if_neg hlong] at h
    cases h

end FileSystem

namespace Store

variable {s : Store} {fs : FileSystem} {root : Position} {dirs : List Bytes} {leaf : Bytes}

/-- The system says that there is nothing at the path of an absent object exactly if the path is
one that it takes and a directory on the way lacks the next name. -/
theorem RootedAt.linkStat_of_absent (h : s.RootedAt fs root) (hwf : fs.WellFormed)
    (hnames : ∀ name ∈ dirs ++ [leaf], Pathname.IsName name)
    (hunlinked : Unlinked fs root (dirs ++ [leaf]))
    (hnone : fs.at? (root ++ (dirs ++ [leaf])) = none) :
    ∃ e, fs.linkStat (s.pathOf (dirs ++ [leaf])) = .error e ∧
      (e.kind = .notFound ↔ checkPath (s.pathOf (dirs ++ [leaf])) = .ok () ∧
        fs.HasGap root (dirs ++ [leaf])) := by
  have hlocate := h.locate_pathOf hnames hunlinked false
  rw [linkStat, locateEntry, hlocate]
  cases hcheck : checkPath (s.pathOf (dirs ++ [leaf])) with
  | error e =>
      have hne : (s.pathOf (dirs ++ [leaf])).bytes ≠ [] := by
        rw [pathOf, Pathname.join_ofNames h.bytes_ne_nil hnames]
        simp
      refine ⟨e, rfl, ?_⟩
      simp [kind_of_checkPath_error hne hcheck]
  | ok u =>
      obtain ⟨mode, hmode⟩ := h.at?_root
      rcases straight_of_absent hwf hmode hnone with ⟨hgap, hend⟩ | ⟨hgap, hend⟩
      · refine ⟨.noEntry, ?_, by simp [hgap]; decide⟩
        rcases hend with hend | ⟨dir, name, hend⟩
        · rw [hend]
          rfl
        · rw [hend]
          rfl
      · rcases hend with hend | hend
        · refine ⟨.nameTooLong, ?_, by simp [hgap]; decide⟩
          rw [hend]
          rfl
        · refine ⟨.notDirectory, ?_, by simp [hgap]; decide⟩
          rw [hend]
          rfl

/-- Every operation on the name says that there is no object, a listing of it shows nothing, and
nothing is changed. -/
structure ReportsAbsence (s : Store) (name : String) (w : World) : Prop where
  stat : ∃ e, (s.stat name).run w = (.error e, w) ∧ e.isNotFound = true
  openReader : ∃ e, (s.openReader name).run w = (.error e, w) ∧ e.isNotFound = true
  delete : ∃ e, (s.delete name).run w = (.error e, w) ∧ e.isNotFound = true
  copy : ∀ dst target, s.resolve dst = .ok target →
    ∃ e, (s.copy name dst).run w = (.error e, w) ∧ e.isNotFound = true
  list : ∀ ending, (s.list name ending).run w = (.ok [], w)

theorem Unfound.reports_iff {name : String} {path : Pathname} {e : IoError} {w : World}
    (h : s.Unfound name path e w) : s.ReportsAbsence name w ↔ e.kind = .notFound := by
  constructor
  · intro hreports
    obtain ⟨e', hrun, hkind⟩ := hreports.stat
    rw [h.stat] at hrun
    cases hrun
    exact StorageError.isNotFound_ofLookup.1 hkind
  · intro hkind
    exact
      { stat := ⟨_, h.stat, StorageError.isNotFound_ofLookup.2 hkind⟩
        openReader := ⟨_, h.openReader, StorageError.isNotFound_ofLookup.2 hkind⟩
        delete := ⟨_, h.delete, StorageError.isNotFound_ofLookup.2 hkind⟩
        copy := fun dst target hdst =>
          ⟨_, h.copy dst target hdst, StorageError.isNotFound_ofLookup.2 hkind⟩
        list := fun ending => by rw [h.list ending, if_pos hkind] }

/-- In a store of directories and files, the absence of an object is reported exactly if the system
takes its path and a directory on the way down lacks the next name.  Otherwise every operation
fails with the failure of the system, and changes nothing, either. -/
theorem reportsAbsence_iff {name : String} {names : Position} {w : World} (hwf : w.fs.WellFormed)
    (hroot : s.RootedAt w.fs root) (hplain : w.fs.LinkFree root)
    (hname : ObjectName.ofObject name = .ok names) (habsent : w.fs.at? (root ++ names) = none) :
    (s.ReportsAbsence name w ↔
        checkPath (s.pathOf names) = .ok () ∧ w.fs.HasGap root names) ∧
      (¬ s.ReportsAbsence name w →
        ∃ e : IoError, e.kind ≠ .notFound ∧ s.Unfound name (s.pathOf names) e w) := by
  have hpath : s.resolve name = .ok (s.pathOf names) := by rw [resolve, hname]
  obtain ⟨k, rfl, -⟩ := ObjectName.ofObject_eq_ok hname
  obtain ⟨e, hlink, hkind⟩ :=
    hroot.linkStat_of_absent hwf k.isName (unlinked_of_linkFree hplain k.names) habsent
  have hunfound := unfound_of_linkStat hpath hlink
  exact ⟨hunfound.reports_iff.trans hkind,
    fun hnot => ⟨e, fun h => hnot (hunfound.reports_iff.2 h), hunfound⟩⟩

/-! ### Beside an object and through it -/

def furnished : FileSystem :=
  (((newDirectory [114]).allocate ⟨[108], fileMode, 0⟩).1.bind [[114], [110]] (.file 0)).bind
    [[114], [100]] (.directory directoryMode)

theorem furnished_wellFormed : furnished.WellFormed := by
  have hobject : IsEntryName [110] := isEntryName_letter (by decide)
  have hdirectory : IsEntryName [100] := isEntryName_letter (by decide)
  have hnew := (newDirectory_wellFormed isEntryName_r).allocate ⟨[108], fileMode, 0⟩
  have hbound := @WellFormed.bind _ hnew [[114]] _ (.file 0) _ rfl hobject
    (Or.inr fun _ hmode => by cases hmode) fun id hid => ⟨_, by cases hid; rfl⟩
  exact @WellFormed.bind _ hbound [[114]] _ (.directory directoryMode) _ rfl hdirectory
    (Or.inl rfl) fun id hid => by cases hid

theorem furnished_rootedAt : (atTop [114]).RootedAt furnished [[114]] := ⟨directoryMode, rfl⟩

theorem furnished_linkFree : furnished.LinkFree [[114]] := by
  have hnew : (newDirectory [114]).LinkFree [[114]] := by
    intro names target hlink
    rw [at?_newDirectory] at hlink
    split at hlink
    · cases hlink
    split at hlink
    · cases hlink
    · cases hlink
  have hallocated : ((newDirectory [114]).allocate ⟨[108], fileMode, 0⟩).1.LinkFree [[114]] := hnew
  exact (hallocated.bind (by simp) (by simp [Entry.isLink])).bind (by simp) (by simp [Entry.isLink])

/-- The directory d lacks x, and every operation on d/x says so. -/
theorem reportsAbsence_iff_lacking :
    furnished.at? [[114], [100], [120]] = none ∧
      (atTop [114]).ReportsAbsence "d/x" (.ofFileSystem furnished) := by
  have habsent : furnished.at? ([[114]] ++ [[100], [120]]) = none := rfl
  have hgap : furnished.HasGap [[114]] [[100], [120]] :=
    ⟨[[100]], [120], [], directoryMode, rfl, rfl, rfl, by decide⟩
  have hname : ObjectName.ofObject "d/x" = .ok [[100], [120]] := rfl
  have hreports := reportsAbsence_iff (w := .ofFileSystem furnished) furnished_wellFormed
    furnished_rootedAt furnished_linkFree hname habsent
  exact ⟨habsent, hreports.1.2 ⟨rfl, hgap⟩⟩

/-- A name that runs through an object names nothing, and the failure is one of the system. -/
theorem absence_is_not_reported :
    ¬ ∀ (s : Store) (root names : Position) (name : String) (w : World), w.fs.WellFormed →
      s.RootedAt w.fs root → w.fs.LinkFree root → ObjectName.ofObject name = .ok names →
        w.fs.at? (root ++ names) = none → s.ReportsAbsence name w := by
  intro hall
  have hreports := hall (atTop [114]) [[114]] [[110], [120]] "n/x" (.ofFileSystem furnished)
    furnished_wellFormed furnished_rootedAt furnished_linkFree rfl rfl
  obtain ⟨e, hrun, hkind⟩ := hreports.stat
  have hstat : ((atTop [114]).stat "n/x").run (.ofFileSystem furnished) =
      (.error (.during "stat /r/n/x" .notDirectory), .ofFileSystem furnished) := rfl
  rw [hstat] at hrun
  cases hrun
  cases hkind

end Store

end Depot
