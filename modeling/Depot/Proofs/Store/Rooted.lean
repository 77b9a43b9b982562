import Depot.Proofs.Store.ListedLinks
/-!
# Stores at any root

The path of a root may be relative, and links may be on its way.  All that counts is the directory
that it leads to: the path of an object goes on from there, and straight down if no link is on the
way.

* `RootedAt.locate_pathOf` — where the path of an object leads among directories and files;
* `RootedAt.locateEntry_pathOf_iff` — what stands at the path of an object, links on the way or not;
* `RootedAt.of_keeps` — a root stays where it is while directories and links are kept.
-/

namespace Depot

open FileSystem

namespace FileSystem

variable {fs : FileSystem} {root : Position}

def LinkFree (fs : FileSystem) (root : Position) : Prop :=
  ∀ names target, fs.at? (root ++ names) ≠ some (.link target)

theorem LinkFree.bind {pos : Position} {entry : Entry} (h : fs.LinkFree root) (hpos : pos ≠ [])
    (hentry : ¬ entry.isLink) : (fs.bind pos entry).LinkFree root := by
  intro names target hlink
  rw [at?_bind hpos] at hlink
  split at hlink
  · cases hlink
    exact hentry rfl
  · exact h names target hlink

end FileSystem

namespace Store

variable {s : Store} {fs fs' : FileSystem} {root : Position} {dirs : List Bytes} {leaf : Bytes}

theorem unlinked_of_linkFree (h : fs.LinkFree root) (names : Position) :
    Unlinked fs root names :=
  fun front target _ _ => h front target

/-- The path of the root of a store leads to a directory at a position. -/
def RootedAt (s : Store) (fs : FileSystem) (root : Position) : Prop :=
  ∃ mode, fs.locateEntry true s.root = .ok (root, .directory mode)

theorem LeadsTo.rootedAt (h : s.LeadsTo fs root) : s.RootedAt fs root := by
  obtain ⟨mode, hwalk⟩ := h.walk_steps
  refine ⟨mode, ?_⟩
  rw [locateEntry_eq_ok, locate_eq_ok, startOf, if_pos h.isAbsolute]
  exact ⟨h.checkPath_root, hwalk⟩

namespace RootedAt

theorem bytes_ne_nil (h : s.RootedAt fs root) : s.root.bytes ≠ [] := by
  obtain ⟨mode, hmode⟩ := h
  exact (checkPath_eq_ok.1 (locate_eq_ok.1 (locateEntry_eq_ok.1 hmode)).1).2.1

theorem walk_names (h : s.RootedAt fs root) : ∃ mode,
    fs.walk true linkLimit (fs.startOf s.root) s.root.names =
      .ok (.occupied root (.directory mode)) := by
  obtain ⟨mode, hmode⟩ := h
  exact ⟨mode, walk_names_of_steps (locate_eq_ok.1 (locateEntry_eq_ok.1 hmode)).2⟩

theorem at?_root (h : s.RootedAt fs root) : ∃ mode, fs.at? root = some (.directory mode) := by
  obtain ⟨mode, hmode⟩ := h
  exact ⟨mode, at?_of_locateEntry hmode⟩

theorem of_keeps (h : s.RootedAt fs root) (hkeep : fs.KeepsPaths fs')
    (hdir : fs'.workingDir = fs.workingDir) : s.RootedAt fs' root := by
  obtain ⟨mode, hmode⟩ := h
  rw [locateEntry_eq_ok, locate_eq_ok] at hmode
  refine ⟨mode, ?_⟩
  rw [locateEntry_eq_ok, locate_eq_ok, startOf, hdir]
  exact ⟨hmode.1, walk_of_keeps hkeep id hmode.2⟩

theorem startOf_pathOf (h : s.RootedAt fs root) (fs' : FileSystem) {names : List Bytes}
    (hnames : ∀ name ∈ names, Pathname.IsName name) :
    fs'.startOf (s.pathOf names) = fs'.startOf s.root := by
  rw [startOf, startOf, pathOf, Pathname.isAbsolute_join_ofNames h.bytes_ne_nil hnames]

theorem locate_pathOf (h : s.RootedAt fs root)
    (hnames : ∀ name ∈ dirs ++ [leaf], Pathname.IsName name)
    (hunlinked : Unlinked fs root (dirs ++ [leaf])) (follow : Bool) :
    fs.locate follow (s.pathOf (dirs ++ [leaf])) =
      (checkPath (s.pathOf (dirs ++ [leaf])) >>= fun _ => fs.straight root (dirs ++ [leaf])) := by
  obtain ⟨mode, hwalk⟩ := h.walk_names
  obtain ⟨links, hresume⟩ := walk_resume hwalk
  rw [locate, h.startOf_pathOf fs hnames, pathOf, Pathname.steps_join_ofNames h.bytes_ne_nil hnames,
    hresume (dirs ++ [leaf]) (by simp),
    walk_eq_straight_of_way hunlinked.not_isLink hnames]

theorem locateEntry_pathOf_iff (h : s.RootedAt fs root) (fs' : FileSystem)
    (hnames : ∀ name ∈ dirs ++ [leaf], Pathname.IsName name) {pos : Position} {entry : Entry} :
    fs'.locateEntry false (s.pathOf (dirs ++ [leaf])) = .ok (pos, entry) ↔
      checkPath (s.pathOf (dirs ++ [leaf])) = .ok () ∧ ∃ dir mode,
        fs'.walk true linkLimit (fs'.startOf s.root) (s.root.names ++ dirs) =
          .ok (.occupied dir (.directory mode)) ∧
        leaf.length ≤ maxNameLength ∧ pos = dir ++ [leaf] ∧
          fs'.at? (dir ++ [leaf]) = some entry := by
  rw [locateEntry_eq_ok, locate_eq_ok, h.startOf_pathOf fs' hnames, pathOf,
    Pathname.steps_join_ofNames h.bytes_ne_nil hnames, ← List.append_assoc,
    walk_concat_iff (hnames leaf (by simp))]

end RootedAt

end Store

end Depot
