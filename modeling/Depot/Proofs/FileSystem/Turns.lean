import Depot.Proofs.FileSystem.WellFormed
/-!
# Turns

What one name does on a walk.  A name that is no dot has to be looked up in a directory, and then
the entry of this name decides; everything else about a turn is settled by the position alone.

* `LooksUp`, `turn_cases` — what a name in a directory is;
* `turn_of_directories`, `turn_congr` — turns in two file systems;
* `turn_eq_into_iff`, `turn_eq_missing_iff`, `turn_eq_link_iff` — what a name does, and why.
-/

namespace Depot

namespace FileSystem

variable {fs fs' : FileSystem} {mode : Nat} {pos pos' : Position} {name : Bytes} {entry : Entry}
  {target : Pathname}

/-- Where the names lead that are not looked up. -/
inductive DotsTo (pos : Position) : Bytes → Position → Prop
  | dot : DotsTo pos Pathname.dot pos
  | dotDot : DotsTo pos Pathname.dotDot pos.dropLast

/-- A name that has to be looked up, in a directory that is there. -/
structure LooksUp (fs : FileSystem) (pos : Position) (name : Bytes) : Prop where
  isDirectory : ∃ mode, fs.at? pos = some (.directory mode)
  ne_dot : name ≠ Pathname.dot
  ne_dotDot : name ≠ Pathname.dotDot
  length_le : name.length ≤ maxNameLength

theorem turn_of_none (hpos : fs.at? pos = none) (name : Bytes) :
    fs.turn pos name = .refused .noEntry := by
  rw [turn, hpos]

theorem turn_of_not_directory (hpos : fs.at? pos = some entry) (hentry : ¬ entry.isDirectory)
    (name : Bytes) : fs.turn pos name = .refused .notDirectory := by
  rw [turn, hpos]
  cases entry with
  | directory mode => exact absurd rfl hentry
  | file id => rfl
  | link target => rfl
  | device => rfl

theorem turn_dots (hpos : fs.at? pos = some (.directory mode)) (h : DotsTo pos name pos') :
    fs.turn pos name = .into pos' := by
  rw [turn, hpos]
  cases h with
  | dot => rfl
  | dotDot => rfl

theorem turn_tooLong (hpos : fs.at? pos = some (.directory mode)) (hname : Pathname.IsName name)
    (hlong : maxNameLength < name.length) : fs.turn pos name = .refused .nameTooLong := by
  rw [turn, hpos]
  dsimp only
  rw [if_neg hname.ne_dot, if_neg hname.ne_dotDot, if_pos hlong]

namespace LooksUp

theorem of_isName (hpos : fs.at? pos = some (.directory mode)) (hname : Pathname.IsName name)
    (hlength : name.length ≤ maxNameLength) : fs.LooksUp pos name :=
  ⟨⟨mode, hpos⟩, hname.ne_dot, hname.ne_dotDot, hlength⟩

theorem of_directory (h : fs.LooksUp pos name)
    (hpos : ∃ mode, fs'.at? pos = some (.directory mode)) :
    fs'.LooksUp pos name :=
  ⟨hpos, h.ne_dot, h.ne_dotDot, h.length_le⟩

theorem turn_eq (h : fs.LooksUp pos name) :
    fs.turn pos name = match fs.at? (pos ++ [name]) with
      | none => .missing
      | some (.link target) => .link target
      | some _ => .into (pos ++ [name]) := by
  obtain ⟨mode, hpos⟩ := h.isDirectory
  rw [turn, hpos]
  dsimp only
  exact (if_neg h.ne_dot).trans ((if_neg h.ne_dotDot).trans (if_neg (Nat.not_lt.2 h.length_le)))

theorem turn_missing (h : fs.LooksUp pos name) (hnone : fs.at? (pos ++ [name]) = none) :
    fs.turn pos name = .missing := by
  rw [h.turn_eq, hnone]

theorem turn_link (h : fs.LooksUp pos name) (ht : fs.at? (pos ++ [name]) = some (.link target)) :
    fs.turn pos name = .link target := by
  rw [h.turn_eq, ht]

theorem turn_into (h : fs.LooksUp pos name) (he : fs.at? (pos ++ [name]) = some entry)
    (hlink : ¬ entry.isLink) : fs.turn pos name = .into (pos ++ [name]) := by
  rw [h.turn_eq, he]
  cases entry with
  | link target => exact absurd rfl hlink
  | directory mode => rfl
  | file id => rfl
  | device => rfl

end LooksUp

/-- In a directory, a name is a dot or a double dot, too long, or looked up. -/
theorem turn_cases (hpos : fs.at? pos = some (.directory mode)) (name : Bytes) :
    (∃ pos', DotsTo pos name pos') ∨ fs.LooksUp pos name ∨
      ∀ {fs' : FileSystem} {mode' : Nat}, fs'.at? pos = some (.directory mode') →
        fs'.turn pos name = .refused .nameTooLong := by
  by_cases hdot : name = Pathname.dot
  · exact Or.inl ⟨pos, hdot ▸ .dot⟩
  by_cases hup : name = Pathname.dotDot
  · exact Or.inl ⟨pos.dropLast, hup ▸ .dotDot⟩
  by_cases hlong : maxNameLength < name.length
  · refine Or.inr (Or.inr fun hpos' => ?_)
    rw [turn, hpos']
    dsimp only
    rw [if_neg hdot, if_neg hup, if_pos hlong]
  · exact Or.inr (Or.inl ⟨⟨mode, hpos⟩, hdot, hup, Nat.not_lt.1 hlong⟩)

/-- What a name does in a directory depends only on what it is looked up as. -/
theorem turn_of_directories {mode' : Nat} (hpos : fs.at? pos = some (.directory mode))
    (hpos' : fs'.at? pos = some (.directory mode')) (name : Bytes) :
    fs'.turn pos name = fs.turn pos name ∨ fs.LooksUp pos name ∧ fs'.LooksUp pos name := by
  rcases turn_cases hpos name with ⟨next, hdots⟩ | hlooks | hlong
  · exact Or.inl ((turn_dots hpos' hdots).trans (turn_dots hpos hdots).symm)
  · exact Or.inr ⟨hlooks, hlooks.of_directory ⟨mode', hpos'⟩⟩
  · exact Or.inl ((hlong hpos').trans (hlong hpos).symm)

theorem turn_congr (hpos : fs'.at? pos = fs.at? pos)
    (hchild : fs'.at? (pos ++ [name]) = fs.at? (pos ++ [name])) :
    fs'.turn pos name = fs.turn pos name := by
  rw [turn, turn, hpos, hchild]

theorem directory_of_turn {turn : Turn} (hturn : fs.turn pos name = turn)
    (hgoes : ∀ e, turn ≠ .refused e) : ∃ mode, fs.at? pos = some (.directory mode) := by
  subst hturn
  cases hpos : fs.at? pos with
  | none => exact absurd (turn_of_none hpos name) (hgoes _)
  | some entry =>
      by_cases hentry : entry.isDirectory
      · obtain ⟨mode, rfl⟩ := Entry.isDirectory_iff.1 hentry
        exact ⟨mode, rfl⟩
      · exact absurd (turn_of_not_directory hpos hentry name) (hgoes _)

theorem turn_eq_into_iff :
    fs.turn pos name = .into pos' ↔
      (∃ mode, fs.at? pos = some (.directory mode)) ∧ DotsTo pos name pos' ∨
      fs.LooksUp pos name ∧ pos' = pos ++ [name] ∧
        ∃ entry, fs.at? (pos ++ [name]) = some entry ∧ ¬ entry.isLink := by
  constructor
  · intro h
    obtain ⟨mode, hpos⟩ := directory_of_turn h (by simp)
    rcases turn_cases hpos name with ⟨next, hdots⟩ | hlooks | hlong
    · rw [turn_dots hpos hdots] at h
      cases h
      exact Or.inl ⟨⟨mode, hpos⟩, hdots⟩
    · refine Or.inr ⟨hlooks, ?_⟩
      rw [hlooks.turn_eq] at h
      split at h
      · cases h
      · cases h
      · rename_i entry hlink he
        cases h
        refine ⟨rfl, entry, he, fun hentry => ?_⟩
        obtain ⟨target, rfl⟩ := Entry.isLink_iff.1 hentry
        exact hlink target rfl
    · rw [hlong hpos] at h
      cases h
  · rintro (⟨⟨mode, hpos⟩, hdots⟩ | ⟨hlooks, rfl, entry, he, hlink⟩)
    · exact turn_dots hpos hdots
    · exact hlooks.turn_into he hlink

theorem looksUp_of_turn {turn : Turn} (hturn : fs.turn pos name = turn)
    (hgoes : ∀ e, turn ≠ .refused e) (hstays : ∀ next, turn ≠ .into next) :
    fs.LooksUp pos name := by
  obtain ⟨mode, hpos⟩ := directory_of_turn hturn hgoes
  rcases turn_cases hpos name with ⟨next, hdots⟩ | hlooks | hlong
  · exact absurd (hturn.symm.trans (turn_dots hpos hdots)) (hstays next)
  · exact hlooks
  · exact absurd (hturn.symm.trans (hlong hpos)) (hgoes _)

theorem turn_eq_missing_iff :
    fs.turn pos name = .missing ↔ fs.LooksUp pos name ∧ fs.at? (pos ++ [name]) = none := by
  refine ⟨fun h => ?_, fun ⟨hlooks, hnone⟩ => hlooks.turn_missing hnone⟩
  have hlooks := looksUp_of_turn h (by simp) (by simp)
  refine ⟨hlooks, ?_⟩
  rw [hlooks.turn_eq] at h
  split at h
  · assumption
  · cases h
  · cases h

theorem turn_eq_link_iff :
    fs.turn pos name = .link target ↔
      fs.LooksUp pos name ∧ fs.at? (pos ++ [name]) = some (.link target) := by
  refine ⟨fun h => ?_, fun ⟨hlooks, ht⟩ => hlooks.turn_link ht⟩
  have hlooks := looksUp_of_turn h (by simp) (by simp)
  refine ⟨hlooks, ?_⟩
  rw [hlooks.turn_eq] at h
  split at h
  · cases h
  · cases h
    assumption
  · cases h

end FileSystem

end Depot
