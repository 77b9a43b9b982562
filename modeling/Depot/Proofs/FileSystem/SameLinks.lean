import Depot.Proofs.FileSystem.Growing
/-!
# Walks over the same links

Where a walk goes is decided by its names and by the links that it meets.  In two file systems with
the same links, a walk that comes to a directory in the one and somewhere in the other has come to
the same position, whatever directories were made or removed on its way.

* `turn_of_sameLinks` — one name;
* `walk_of_sameLinks` — a whole walk.
-/

namespace Depot

namespace FileSystem

def SameLinks (fs fs' : FileSystem) : Prop :=
  ∀ pos target, fs.at? pos = some (.link target) ↔ fs'.at? pos = some (.link target)

namespace SameLinks

variable {fs fs' fs'' : FileSystem}

theorem refl (fs : FileSystem) : SameLinks fs fs := fun _ _ => Iff.rfl

theorem trans (h : SameLinks fs fs') (h' : SameLinks fs' fs'') : SameLinks fs fs'' :=
  fun pos target => (h pos target).trans (h' pos target)

theorem of_grown (h : Grown fs fs') : SameLinks fs fs' :=
  fun _ _ => (h.at?_eq_some_iff (by simp [Entry.isDirectory])).symm

end SameLinks

variable {fs fs' : FileSystem}

/-- What a name does that leads somewhere or to a link: over the same links it leads there, too, or
is refused, or missing at the end of the way. -/
theorem turn_of_sameLinks (h : SameLinks fs fs') {pos : Position} {name : Bytes} {turn : Turn}
    (hturn : fs.turn pos name = turn) (hgoes : ∀ e, turn ≠ .refused e) (hfound : turn ≠ .missing) :
    fs'.turn pos name = turn ∨ (∃ e, fs'.turn pos name = .refused e) ∨
      fs'.turn pos name = .missing ∧ turn = .into (pos ++ [name]) := by
  obtain ⟨mode, hpos⟩ := directory_of_turn hturn hgoes
  by_cases hrefused : ∃ e, fs'.turn pos name = .refused e
  · exact Or.inr (Or.inl hrefused)
  obtain ⟨mode', hpos'⟩ := directory_of_turn rfl (not_exists.1 hrefused)
  rcases turn_of_directories hpos hpos' name with hsame | ⟨hlooks, hlooks'⟩
  · exact Or.inl (hsame.trans hturn)
  rw [hlooks.turn_eq] at hturn
  split at hturn
  · exact absurd hturn.symm hfound
  · rename_i target ht
    exact Or.inl ((hlooks'.turn_link ((h _ _).1 ht)).trans hturn)
  · rename_i entry hlink he
    subst hturn
    cases hchild : fs'.at? (pos ++ [name]) with
    | none => exact Or.inr (Or.inr ⟨hlooks'.turn_missing hchild, rfl⟩)
    | some child =>
        refine Or.inl (hlooks'.turn_into hchild fun hchildLink => ?_)
        obtain ⟨target, rfl⟩ := Entry.isLink_iff.1 hchildLink
        exact hlink target (Option.some.inj (he.symm.trans ((h _ _).2 hchild)))

/-- A walk that comes to a directory over the same links comes to the same position.  What it does
there does not depend on whether a last link is followed, for it meets none. -/
theorem walk_of_sameLinks (h : SameLinks fs fs') {follow follow' : Bool}
    (hfollow : follow = true → follow' = true) {links mode : Nat} {pos pos' : Position}
    {steps : List Bytes} {place : Place}
    (hwalk : fs.walk follow links pos steps = .ok (.occupied pos' (.directory mode)))
    (hwalk' : fs'.walk follow' links pos steps = .ok place) :
    place.position = pos' ∧ fs'.walk follow links pos steps = .ok place := by
  generalize hend : Place.occupied pos' (.directory mode) = found at hwalk
  induction walksTo_of_walk hwalk with
  | @here links pos entry hpos =>
      cases hend
      cases hpos' : fs'.at? pos' with
      | none =>
          rw [walk_nil_of_none hpos'] at hwalk'
          cases hwalk'
      | some entry =>
          rw [walk_nil hpos'] at hwalk' ⊢
          cases hwalk'
          exact ⟨rfl, rfl⟩
  | @into links pos next name rest found hturn hrest ih =>
      rcases turn_of_sameLinks h hturn (by simp) (by simp) with hsame | ⟨e, he⟩ | ⟨hmissing, hnext⟩
      · rw [walk_into hsame] at hwalk' ⊢
        exact ih hwalk' hend hrest.walk_eq
      · rw [walk_refused he] at hwalk'
        cases hwalk'
      · -- The walk in the second file system has ended, so it must have been at its last name.
        rw [walk_missing hmissing] at hwalk' ⊢
        refine ⟨?_, hwalk'⟩
        split at hwalk'
        · subst rest
          cases hwalk'
          cases hnext
          cases hrest with
          | here _ =>
              cases hend
              rfl
        · cases hwalk'
  | vacant _ => cases hend
  | atLink _ _ => cases hend
  | @link links pos name rest target found hturn hgo hrest ih =>
      rcases turn_of_sameLinks h hturn (by simp) (by simp) with hsame | ⟨e, he⟩ | ⟨-, hnext⟩
      · rw [walk_link hsame (hgo.imp_right hfollow)] at hwalk'
        rw [walk_link hsame hgo]
        exact ih hwalk' hend hrest.walk_eq
      · rw [walk_refused he] at hwalk'
        cases hwalk'
      · cases hnext

end FileSystem

end Depot
