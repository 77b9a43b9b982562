import Depot.Proofs.FileSystem.Growing
import Depot.Proofs.Store.Staging
/-!
# Directories above an object

Before the staging file is opened, the directories above it are made: upwards until one is there or
can be made, then down again.  On the way to the root of a tidy store none is missing, so every
directory that is made stands between the root and the object.

* `LeadsTo.makeDirectory_root` — a path of the root is refused as existing;
* `IsAlong` — the paths on the way to the directory of an object;
* `makeDirectories_runs` — whatever comes of it, the write is still only staged.
-/

namespace Depot

open FileSystem

namespace Store

variable {s : Store} {root : Position} {k : Key} {fs₀ fs : FileSystem}

/-- Another way to write the root of a store. -/
structure IsRootPath (s : Store) (q : Pathname) : Prop where
  isAbsolute : q.isAbsolute
  steps : q.steps = s.root.names
  prefixed : q.bytes <+: s.root.bytes

theorem IsRootPath.names_eq {q : Pathname} (hq : s.IsRootPath q) (h : s.LeadsTo fs root) :
    q.names = s.root.names := by
  have hsteps := hq.steps
  rw [Pathname.steps] at hsteps
  split at hsteps
  · exact absurd (hsteps ▸ by simp) h.dot_notMem
  · exact hsteps

theorem LeadsTo.checkPath_of_isRootPath (h : s.LeadsTo fs root) {q : Pathname}
    (hq : s.IsRootPath q) : FileSystem.checkPath q = .ok () := by
  apply checkPath_of_isPrefix hq.prefixed _ h.checkPath_root
  intro hnil
  have habs := hq.isAbsolute
  simp [Pathname.isAbsolute, hnil] at habs

theorem LeadsTo.makeDirectory_root (h : s.LeadsTo fs root) {q : Pathname} (hq : s.IsRootPath q) :
    fs.makeDirectory q = .error .alreadyExists := by
  have hcheck := h.checkPath_of_isRootPath hq
  obtain ⟨mode, hwalk⟩ := h.walk_names
  rw [makeDirectory, locateLast, hcheck, ok_bind, startOf, if_pos hq.isAbsolute, hq.names_eq h]
  rcases List.eq_nil_or_concat' s.root.names with hnil | ⟨front, last, hnames⟩
  · rw [hnil]
    rfl
  · rw [hnames] at hwalk ⊢
    obtain ⟨pos, mode', links, hfront, hlast⟩ := walk_front (List.cons_ne_nil _ _) hwalk
    simp only [List.getLast?_append, List.getLast?_singleton, Option.some_or,
      List.dropLast_concat]
    rw [hfront, ok_bind]
    dsimp only
    rw [if_neg (by simp [Entry.isDirectory])]
    by_cases hspecial : last = Pathname.dot ∨ last = Pathname.dotDot
    · rw [if_pos hspecial]
      rfl
    · rw [not_or] at hspecial
      obtain ⟨hlooks, child, hchild, -⟩ := exists_of_walk_single hspecial.1 hspecial.2 hlast
      rw [if_neg (by simp [hspecial.1, hspecial.2]), if_neg (Nat.not_lt.2 hlooks.length_le)]
      rw [pure_bind]
      dsimp only
      rw [hchild]
      rfl

theorem LeadsTo.leadsToDirectory_of_isRootPath (h : s.LeadsTo fs root) {q : Pathname}
    (hq : s.IsRootPath q) : fs.leadsToDirectory q = true := by
  obtain ⟨mode, hwalk⟩ := h.walk_names
  have hstat : fs.stat q = .ok (.directory mode) := by
    refine stat_eq_ok.2 ⟨root, locate_eq_ok.2 ⟨h.checkPath_of_isRootPath hq, ?_⟩⟩
    rw [startOf, if_pos hq.isAbsolute, hq.steps, hwalk]
  rw [leadsToDirectory, hstat]
  rfl

theorem LeadsTo.parent?_staging (h : s.LeadsTo fs root) (k : Key) :
    ∃ parent, (s.pathOf k.staging).parent? = some parent ∧
      ((k.dirs ≠ [] ∧ parent = s.pathOf k.dirs) ∨ k.dirs = [] ∧ s.IsRootPath parent) := by
  have hnames := k.isName_staging
  rw [Key.staging] at hnames ⊢
  by_cases hdirs : k.dirs = []
  · rw [hdirs, List.nil_append] at hnames ⊢
    obtain ⟨q, hparent, habs, hsteps, hstart⟩ := Pathname.parent?_join_single
      h.isAbsolute h.dot_notMem (hnames _ (List.mem_singleton_self _))
    exact ⟨q, hparent, Or.inr ⟨rfl, habs, hsteps, hstart⟩⟩
  · exact ⟨_, Pathname.parent?_join_concat h.isAbsolute hdirs fun name => hnames name,
      Or.inl ⟨hdirs, rfl⟩⟩

/-! ## The way to the directory of an object -/

/-- A path along the way to the directory of an object. -/
structure IsAlong (s : Store) (k : Key) (p : Pathname) : Prop where
  isAbsolute : p.isAbsolute
  names : p.names <+: s.root.names ++ k.dirs
  steps : p.steps = p.names

namespace IsAlong

variable {p q : Pathname}

theorem names_cases (h : s.IsAlong k p) :
    p.names <+: s.root.names ∨ ∃ dirs leaf, dirs ++ [leaf] <+: k.dirs ∧
      p.names = s.root.names ++ (dirs ++ [leaf]) := by
  rcases List.prefix_or_prefix_of_prefix h.names (List.prefix_append s.root.names k.dirs) with
    hfront | ⟨front, hfront⟩
  · exact Or.inl hfront
  · rcases List.eq_nil_or_concat' front with rfl | ⟨dirs, leaf, rfl⟩
    · exact Or.inl ⟨[], by rw [← hfront, List.append_nil, List.append_nil]⟩
    · have hnames := h.names
      rw [← hfront, List.prefix_append_right_inj] at hnames
      exact Or.inr ⟨dirs, leaf, hnames, hfront.symm⟩

theorem parent (h : s.IsAlong k p) (hroot : s.LeadsTo fs root) (hq : p.parent? = some q) :
    s.IsAlong k q := by
  have hdot : Pathname.dot ∉ p.names := by
    intro hdot
    rcases List.mem_append.1 (h.names.subset hdot) with hdot | hdot
    · exact hroot.dot_notMem hdot
    · exact (k.isName_of_mem_dirs hdot).ne_dot rfl
  obtain ⟨habs, hnames, hsteps⟩ := Pathname.parent?_eq_some h.isAbsolute hdot hq
  exact ⟨habs, hnames ▸ (List.dropLast_prefix _).trans h.names, hsteps.trans hnames.symm⟩

theorem ancestors (h : s.IsAlong k p) (hroot : s.LeadsTo fs root) (bound : Nat) :
    ∀ q ∈ p.ancestors bound, s.IsAlong k q := by
  induction bound generalizing p with
  | zero => exact fun q hq => absurd hq List.not_mem_nil
  | succ bound ih =>
      intro q hq
      rw [Pathname.ancestors, List.mem_cons] at hq
      rcases hq with rfl | hq
      · exact h
      cases hparent : p.parent? with
      | none =>
          rw [hparent] at hq
          exact absurd hq List.not_mem_nil
      | some above =>
          rw [hparent] at hq
          exact ih (h.parent hroot hparent) q hq

end IsAlong

namespace LeadsTo

variable {p : Pathname}

theorem walk_of_isPrefix (h : s.LeadsTo fs root) {front : List Bytes}
    (hfront : front <+: s.root.names) :
    ∃ pos mode, fs.walk true linkLimit [] front = .ok (.occupied pos (.directory mode)) := by
  obtain ⟨mode, hwalk⟩ := h.walk_names
  obtain ⟨rest, hrest⟩ := hfront
  rw [← hrest] at hwalk
  by_cases hnil : rest = []
  · rw [hnil, List.append_nil] at hwalk
    exact ⟨root, mode, hwalk⟩
  · obtain ⟨pos, mode', -, hwalk', -⟩ := FileSystem.walk_front hnil hwalk
    exact ⟨pos, mode', hwalk'⟩

theorem isAlong_parent (h : s.LeadsTo fs root)
    (hparent : (s.pathOf k.staging).parent? = some p) : s.IsAlong k p := by
  have hnames : (s.pathOf k.staging).names = s.root.names ++ k.staging :=
    Pathname.names_join_ofNames h.bytes_ne_nil k.isName_staging
  have hdot : Pathname.dot ∉ (s.pathOf k.staging).names := by
    rw [hnames]
    intro hdot
    rcases List.mem_append.1 hdot with hdot | hdot
    · exact h.dot_notMem hdot
    · exact (k.isName_staging _ hdot).ne_dot rfl
  have habs : (s.pathOf k.staging).isAbsolute = true := by
    rw [pathOf, Pathname.isAbsolute_join_ofNames h.bytes_ne_nil k.isName_staging, h.isAbsolute]
  obtain ⟨habs', hnames', hsteps'⟩ := Pathname.parent?_eq_some habs hdot hparent
  rw [hnames, Key.staging, ← List.append_assoc, List.dropLast_concat] at hnames'
  refine ⟨habs', hnames' ▸ List.prefix_rfl, hsteps'.trans ?_⟩
  rw [hnames', hnames, Key.staging, ← List.append_assoc, List.dropLast_concat]

end LeadsTo

theorem IsAlong.keptByMaking {p : Pathname} (hp : s.IsAlong k p) :
    KeptByMaking (s.Staged root k fs₀) p := by
  intro st st' h hmake
  obtain ⟨dir, name, hlast, hnone, rfl⟩ := makeDirectory_eq_ok hmake
  obtain ⟨hname, -⟩ := isEntryName_of_locateLast hlast
  obtain ⟨-, front, mode, hnames, hwalk, hdot, hup, -⟩ := locateLast_eq_name_iff.1 hlast
  rw [startOf, if_pos hp.isAbsolute] at hwalk
  rcases hp.names_cases with hfront | ⟨dirs, leaf, hbelow, hsplit⟩
  · obtain ⟨pos, mode', hthere⟩ := h.tidy.leadsTo.walk_of_isPrefix hfront
    rw [hnames] at hthere
    obtain ⟨dir', mode'', links, hwalk', hrest⟩ := FileSystem.walk_front (by simp) hthere
    rw [hwalk] at hwalk'
    cases hwalk'
    obtain ⟨child, hchild, -⟩ := entry_of_walk_single hdot hup hrest
    rw [hnone] at hchild
    cases hchild
  · rw [hnames, ← List.append_assoc] at hsplit
    obtain ⟨rfl, hleaf⟩ := List.append_inj' hsplit rfl
    cases hleaf
    have hdirs : ∀ name ∈ dirs, Pathname.IsName name := fun name hname =>
      k.isName_of_mem_dirs (hbelow.subset (List.mem_append_left _ hname))
    obtain ⟨rfl, hmode⟩ := (h.tidy.walk_dirs hdirs).1 hwalk
    rw [List.append_assoc] at hnone ⊢
    exact h.trans (Staged.bind_directory h.tidy hbelow hmode hname hnone)

theorem makeDirectories_runs (h : s.Staged root k fs₀ fs) {parent : Pathname}
    (hparent : (s.pathOf k.staging).parent? = some parent) :
    (makeDirectories parent).Runs fs (s.Staged root k fs₀) (fun _ => s.Staged root k fs₀)
      (fun _ => s.Staged root k fs₀) := by
  have hroot := h.tidy.leadsTo
  have halong := (hroot.isAlong_parent hparent).ancestors hroot (parent.bytes.length + 1)
  exact makeDirectories_keeps (fun p hp => (halong p hp).keptByMaking) h

end Store

end Depot
