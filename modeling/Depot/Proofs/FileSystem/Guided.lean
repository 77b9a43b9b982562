import Depot.Proofs.FileSystem.Items
import Depot.Proofs.FileSystem.SameLinks
import Depot.Proofs.Pairs
/-!
# Walks side by side

Two file systems are `Guided` by a third when they look the same below some position and have the
directories and the links of the third everywhere else.  Wherever a walk in the third comes to a
directory, the walks in the two end alike: what stands elsewhere is never looked at.

* `TwinAt`, `SameEnd` — positions and ends of walks that look the same;
* `turn_guided`, `turn_link_guided` — one name;
* `walk_guided`, `straight_guided` — whole walks.
-/

namespace Depot

namespace FileSystem

variable {way fs fs' : FileSystem} {root pos : Position}

/-- Nothing stands at the position, or what looks the same. -/
def TwinAt (fs fs' : FileSystem) (pos : Position) : Prop :=
  (fs.at? pos = none ∧ fs'.at? pos = none) ∨
    ∃ entry entry', fs.at? pos = some entry ∧ fs'.at? pos = some entry' ∧ Twin fs fs' entry entry'

inductive TwinPlace (fs fs' : FileSystem) : Place → Place → Prop
  | occupied (pos : Position) {entry entry' : Entry} (h : Twin fs fs' entry entry') :
    TwinPlace fs fs' (.occupied pos entry) (.occupied pos entry')
  | vacant (dir : Position) (name : Bytes) : TwinPlace fs fs' (.vacant dir name) (.vacant dir name)

/-- Two walks that fail alike or come to one position, where they find what looks the same. -/
def SameEnd (fs fs' : FileSystem) (pos : Position) :
    Except IoError Place → Except IoError Place → Prop :=
  Both (fun place place' => TwinPlace fs fs' place place' ∧ place.position = pos) True

/-- Two file systems with the directories and links of a third, but for a subtree without links in
which they look the same. -/
structure Guided (way : FileSystem) (root : Position) (fs fs' : FileSystem) : Prop where
  left : ∀ {pos entry}, ¬ root <+: pos → way.at? pos = some entry →
    entry.isDirectory ∨ entry.isLink → fs.at? pos = some entry
  right : ∀ {pos entry}, ¬ root <+: pos → way.at? pos = some entry →
    entry.isDirectory ∨ entry.isLink → fs'.at? pos = some entry
  not_link : ∀ {pos target}, root <+: pos → way.at? pos ≠ some (.link target)
  below : ∀ {pos}, root <+: pos → TwinAt fs fs' pos

namespace Guided

theorem twinAt (h : Guided way root fs fs') {mode : Nat}
    (hway : way.at? pos = some (.directory mode)) : TwinAt fs fs' pos := by
  by_cases hbelow : root <+: pos
  · exact h.below hbelow
  · exact Or.inr ⟨_, _, h.left hbelow hway (Or.inl rfl), h.right hbelow hway (Or.inl rfl),
      .directory mode⟩

theorem link (h : Guided way root fs fs') {target : Pathname}
    (hway : way.at? pos = some (.link target)) :
    fs.at? pos = some (.link target) ∧ fs'.at? pos = some (.link target) := by
  have hbelow : ¬ root <+: pos := fun hbelow => h.not_link hbelow hway
  exact ⟨h.left hbelow hway (Or.inr rfl), h.right hbelow hway (Or.inr rfl)⟩

end Guided

/-- What a name does in the two file systems while it leads to a directory in the third. -/
theorem turn_guided (h : Guided way root fs fs') {name : Bytes} {next : Position} {mode : Nat}
    (hturn : way.turn pos name = .into next) (hnext : way.at? next = some (.directory mode)) :
    fs.turn pos name = .into next ∧ fs'.turn pos name = .into next ∨
      (∃ e, fs.turn pos name = .refused e ∧ fs'.turn pos name = .refused e) ∨
      fs.turn pos name = .missing ∧ fs'.turn pos name = .missing ∧ next = pos ++ [name] := by
  obtain ⟨mode', hpos⟩ := directory_of_turn hturn (by simp)
  rcases h.twinAt hpos with ⟨hnone, hnone'⟩ | ⟨entry, entry', he, he', htwin⟩
  · exact Or.inr (Or.inl ⟨_, turn_of_none hnone name, turn_of_none hnone' name⟩)
  cases htwin with
  | file _ _ =>
      exact Or.inr (Or.inl ⟨_, turn_of_not_directory he (by simp [Entry.isDirectory]) name,
        turn_of_not_directory he' (by simp [Entry.isDirectory]) name⟩)
  | directory _ =>
      rcases turn_eq_into_iff.1 hturn with ⟨-, hdots⟩ | ⟨hlooks, rfl, -⟩
      · exact Or.inl ⟨turn_dots he hdots, turn_dots he' hdots⟩
      have hlooks₁ : fs.LooksUp pos name := hlooks.of_directory ⟨_, he⟩
      have hlooks₂ : fs'.LooksUp pos name := hlooks.of_directory ⟨_, he'⟩
      -- The directory may be missing in both file systems, or a file may be in its place.
      rcases h.twinAt hnext with ⟨hnone, hnone'⟩ | ⟨child, child', hc, hc', htwin⟩
      · exact Or.inr (Or.inr ⟨hlooks₁.turn_missing hnone, hlooks₂.turn_missing hnone', rfl⟩)
      · exact Or.inl ⟨hlooks₁.turn_into hc htwin.not_isLink.1,
          hlooks₂.turn_into hc' htwin.not_isLink.2⟩

theorem turn_link_guided (h : Guided way root fs fs') {name : Bytes} {target : Pathname}
    (hturn : way.turn pos name = .link target) :
    fs.turn pos name = .link target ∧ fs'.turn pos name = .link target ∨
      ∃ e, fs.turn pos name = .refused e ∧ fs'.turn pos name = .refused e := by
  obtain ⟨hlooks, ht⟩ := turn_eq_link_iff.1 hturn
  obtain ⟨mode, hpos⟩ := hlooks.isDirectory
  obtain ⟨hlink, hlink'⟩ := h.link ht
  rcases h.twinAt hpos with ⟨hnone, hnone'⟩ | ⟨entry, entry', he, he', htwin⟩
  · exact Or.inr ⟨_, turn_of_none hnone name, turn_of_none hnone' name⟩
  cases htwin with
  | file _ _ =>
      exact Or.inr ⟨_, turn_of_not_directory he (by simp [Entry.isDirectory]) name,
        turn_of_not_directory he' (by simp [Entry.isDirectory]) name⟩
  | directory _ =>
      exact Or.inl ⟨(hlooks.of_directory ⟨_, he⟩).turn_link hlink,
        (hlooks.of_directory ⟨_, he'⟩).turn_link hlink'⟩

theorem walk_guided (h : Guided way root fs fs') {follow : Bool} {links mode : Nat}
    {pos pos' : Position} {steps : List Bytes}
    (hway : way.walk follow links pos steps = .ok (.occupied pos' (.directory mode))) :
    SameEnd fs fs' pos' (fs.walk follow links pos steps) (fs'.walk follow links pos steps) := by
  generalize hend : Place.occupied pos' (.directory mode) = found at hway
  induction walksTo_of_walk hway with
  | here hpos =>
      cases hend
      rcases h.twinAt hpos with ⟨hnone, hnone'⟩ | ⟨entry, entry', he, he', htwin⟩
      · rw [walk_nil_of_none hnone, walk_nil_of_none hnone']
        exact .error _ trivial
      · rw [walk_nil he, walk_nil he']
        exact .ok ⟨.occupied _ htwin, rfl⟩
  | @into links pos next name rest found hturn hrest ih =>
      subst hend
      obtain ⟨mode', hnext⟩ := start_of_walk hrest.walk_eq
      rcases turn_guided h hturn hnext with ⟨hinto, hinto'⟩ | ⟨e, he, he'⟩ | ⟨hmiss, hmiss', rfl⟩
      · rw [walk_into hinto, walk_into hinto']
        exact ih rfl hrest.walk_eq
      · rw [walk_refused he, walk_refused he']
        exact .error e trivial
      · rw [walk_missing hmiss, walk_missing hmiss']
        by_cases hlast : rest = []
        · rw [if_pos hlast]
          subst rest
          cases hrest
          exact .ok ⟨.vacant pos name, rfl⟩
        · rw [if_neg hlast]
          exact .error _ trivial
  | vacant _ => cases hend
  | atLink _ _ => cases hend
  | link hturn hgo hrest ih =>
      rcases turn_link_guided h hturn with ⟨hlink, hlink'⟩ | ⟨e, he, he'⟩
      · rw [walk_link hlink hgo, walk_link hlink' hgo]
        exact ih hend hrest.walk_eq
      · rw [walk_refused he, walk_refused he']
        exact .error e trivial

theorem straight_guided (hbelow : ∀ {pos}, root <+: pos → TwinAt fs fs' pos)
    (hpos : root <+: pos) (names : List Bytes) :
    SameEnd fs fs' (pos ++ names) (fs.straight pos names) (fs'.straight pos names) := by
  induction names generalizing pos with
  | nil =>
      rw [straight, straight, List.append_nil]
      rcases hbelow hpos with ⟨hnone, hnone'⟩ | ⟨entry, entry', he, he', htwin⟩
      · rw [hnone, hnone']
        exact .error _ trivial
      · rw [he, he']
        exact .ok ⟨.occupied pos htwin, rfl⟩
  | cons name rest ih =>
      have hnext : root <+: pos ++ [name] := hpos.trans (List.prefix_append ..)
      rw [straight, straight]
      rcases hbelow hpos with ⟨hnone, hnone'⟩ | ⟨entry, entry', he, he', htwin⟩
      · rw [hnone, hnone']
        exact .error _ trivial
      rw [he, he']
      cases htwin with
      | file hf hf' => exact .error _ trivial
      | directory mode =>
          dsimp only
          by_cases hlong : maxNameLength < name.length
          · rw [if_pos hlong, if_pos hlong]
            exact .error _ trivial
          rw [if_neg hlong, if_neg hlong]
          rcases hbelow hnext with ⟨hnone, hnone'⟩ | ⟨child, child', hc, hc', -⟩
          · rw [hnone, hnone']
            dsimp only
            by_cases hrest : rest = []
            · rw [if_pos hrest]
              exact .ok ⟨.vacant pos name, by rw [hrest]; rfl⟩
            · rw [if_neg hrest]
              exact .error _ trivial
          · rw [hc, hc']
            have hend := ih hnext
            rw [List.append_assoc] at hend
            exact hend

/-! ## Paths -/

section

variable {p : Pathname} {follow : Bool}

theorem locate_guided
    (h : SameEnd fs fs' pos (fs.walk follow linkLimit (fs.startOf p) p.steps)
      (fs'.walk follow linkLimit (fs'.startOf p) p.steps)) :
    SameEnd fs fs' pos (fs.locate follow p) (fs'.locate follow p) := by
  rw [locate, locate]
  cases checkPath p with
  | error e => exact .error e trivial
  | ok u => exact h

theorem locateEntry_guided (h : SameEnd fs fs' pos (fs.locate follow p) (fs'.locate follow p)) :
    Both (fun found found' => found.1 = pos ∧ found'.1 = pos ∧ Twin fs fs' found.2 found'.2) True
      (fs.locateEntry follow p) (fs'.locateEntry follow p) := by
  rw [locateEntry, locateEntry]
  refine Both.bind h ?_
  rintro place place' - - ⟨hplace, rfl⟩
  cases hplace with
  | occupied pos htwin => exact .ok ⟨rfl, rfl, htwin⟩
  | vacant dir name => exact .error _ trivial

theorem stat_guided (h : SameEnd fs fs' pos (fs.locate true p) (fs'.locate true p)) :
    Both (Twin fs fs') True (fs.stat p) (fs'.stat p) := by
  apply Both.map
  exact (locateEntry_guided h).weaken (fun _ _ _ _ hfound => hfound.2.2) id

theorem linkStat_guided (h : SameEnd fs fs' pos (fs.locate false p) (fs'.locate false p)) :
    Both (Twin fs fs') True (fs.linkStat p) (fs'.linkStat p) := by
  apply Both.map
  exact (locateEntry_guided h).weaken (fun _ _ _ _ hfound => hfound.2.2) id

theorem leadsToDirectory_guided (h : SameEnd fs fs' pos (fs.locate true p) (fs'.locate true p)) :
    fs'.leadsToDirectory p = fs.leadsToDirectory p := by
  have hstat := stat_guided h
  rw [leadsToDirectory, leadsToDirectory]
  generalize fs.stat p = x at hstat ⊢
  generalize fs'.stat p = x' at hstat ⊢
  cases hstat with
  | ok htwin => exact htwin.isDirectory_eq
  | error e _ => rfl

theorem locateLast_guided {front : List Bytes} {last : Bytes} (hnames : p.names = front ++ [last])
    (h : SameEnd fs fs' pos (fs.walk true linkLimit (fs.startOf p) front)
      (fs'.walk true linkLimit (fs'.startOf p) front)) :
    Both (fun found found' => found' = found ∧ (found = .special ∨ found = .name pos last)) True
      (fs.locateLast p) (fs'.locateLast p) := by
  rw [locateLast, locateLast, hnames]
  simp only [List.getLast?_append, List.getLast?_singleton, Option.some_or, List.dropLast_concat]
  cases checkPath p with
  | error e => exact .error e trivial
  | ok u =>
      rw [ok_bind, ok_bind]
      refine Both.bind h ?_
      rintro place place' - - ⟨hplace, rfl⟩
      cases hplace with
      | vacant dir name => exact .error _ trivial
      | occupied pos htwin =>
          dsimp only
          rw [htwin.isDirectory_eq]
          split
          · exact .error _ trivial
          split
          · exact .ok ⟨rfl, Or.inl rfl⟩
          split
          · exact .error _ trivial
          · exact .ok ⟨rfl, Or.inr rfl⟩

end

end FileSystem

end Depot
