import Depot.Proofs.FileSystem.Located
/-!
# Walks after removals

Where entries only go, a walk does what it did before until it comes to a place that has lost its
entry, and then it finds nothing.  So nothing is found by a path whose entry has gone, whatever
links it leads through and whatever else has gone with it.

* `turn_of_thinned`, `walk_of_thinned` — a name and a walk after removals;
* `linkStat_of_removed` — the path of an entry that is gone.
-/

namespace Depot

namespace FileSystem

variable {fs fs' : FileSystem}

/-- All entries of the second file system are those of the first. -/
def Thinned (fs fs' : FileSystem) : Prop :=
  ∀ {pos entry}, fs'.at? pos = some entry → fs.at? pos = some entry

theorem none_of_thinned (h : Thinned fs fs') {pos : Position} (hnone : fs.at? pos = none) :
    fs'.at? pos = none := by
  cases hpos : fs'.at? pos with
  | none => rfl
  | some entry =>
      rw [h hpos] at hnone
      cases hnone

/-- A walk that finds a directory but not the entry in it, or not even that. -/
def IsMissing : Except IoError Place → Prop
  | .ok (.vacant _ _) => True
  | .error e => e = .noEntry
  | _ => False

theorem turn_of_thinned (h : Thinned fs fs') (pos : Position) (name : Bytes) :
    fs'.turn pos name = fs.turn pos name ∨ fs'.turn pos name = .refused .noEntry ∨
      fs'.turn pos name = .missing := by
  cases hpos : fs'.at? pos with
  | none => exact Or.inr (Or.inl (turn_of_none hpos name))
  | some entry =>
      have hpos' := h hpos
      by_cases hentry : entry.isDirectory
      · obtain ⟨mode, rfl⟩ := Entry.isDirectory_iff.1 hentry
        rcases turn_of_directories hpos' hpos name with hsame | ⟨hlooks, hlooks'⟩
        · exact Or.inl hsame
        cases hchild : fs'.at? (pos ++ [name]) with
        | none => exact Or.inr (Or.inr (hlooks'.turn_missing hchild))
        | some child =>
            exact Or.inl (turn_congr (hpos.trans hpos'.symm) (hchild.trans (h hchild).symm))
      · exact Or.inl ((turn_of_not_directory hpos hentry name).trans
          (turn_of_not_directory hpos' hentry name).symm)

theorem walk_of_thinned (h : Thinned fs fs') (follow : Bool) (links : Nat) (pos : Position)
    (steps : List Bytes) :
    fs'.walk follow links pos steps = fs.walk follow links pos steps ∨
      IsMissing (fs'.walk follow links pos steps) := by
  induction links, pos, steps using walk_induction with
  | nil links pos =>
      cases hpos : fs'.at? pos with
      | none =>
          rw [walk_nil_of_none hpos]
          exact Or.inr rfl
      | some entry => exact Or.inl (by rw [walk_nil hpos, walk_nil (h hpos)])
  | cons links pos name rest ihRest ihLinks =>
      rcases turn_of_thinned h pos name with hsame | hrefused | hmissing
      · cases hturn : fs.turn pos name with
        | refused e => exact Or.inl (by rw [walk_refused (hsame.trans hturn), walk_refused hturn])
        | into next =>
            rw [walk_into (hsame.trans hturn), walk_into hturn]
            exact ihRest next
        | missing => exact Or.inl (by rw [walk_missing (hsame.trans hturn), walk_missing hturn])
        | link target =>
            rw [walk_cons, walk_cons, hsame, hturn]
            dsimp only
            split
            · exact Or.inl rfl
            · cases links with
              | zero => exact Or.inl rfl
              | succ links => exact ihLinks links rfl _ _
      · rw [walk_refused hrefused]
        exact Or.inr rfl
      · rw [walk_missing hmissing]
        refine Or.inr ?_
        split
        · trivial
        · rfl

/-- What was found at a position that has lost its entry is not found any more. -/
theorem linkStat_of_removed (h : Thinned fs fs') (hdir : fs'.workingDir = fs.workingDir)
    {p : Pathname} {pos : Position} {entry : Entry}
    (hlocate : fs.locateEntry false p = .ok (pos, entry)) (hgone : fs'.at? pos = none) :
    fs'.linkStat p = .error .noEntry := by
  obtain ⟨hcheck, hwalk⟩ := locate_eq_ok.1 (locateEntry_eq_ok.1 hlocate)
  have hstart : fs'.startOf p = fs.startOf p := by rw [startOf, startOf, hdir]
  have hmissing : IsMissing (fs'.walk false linkLimit (fs.startOf p) p.steps) := by
    rcases walk_of_thinned h false linkLimit (fs.startOf p) p.steps with hsame | hmissing
    · rw [hwalk] at hsame
      rw [walk_occupied hsame] at hgone
      cases hgone
    · exact hmissing
  rw [linkStat, locateEntry, locate, hcheck, ok_bind, hstart]
  generalize fs'.walk false linkLimit (fs.startOf p) p.steps = result at hmissing ⊢
  rcases result with e | ⟨pos', entry'⟩ | ⟨dir, name⟩
  · obtain rfl : e = .noEntry := hmissing
    rfl
  · exact hmissing.elim
  · rfl

end FileSystem

end Depot
