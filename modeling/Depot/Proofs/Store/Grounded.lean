import Depot.Proofs.FileSystem.SameLinks
import Depot.Proofs.Store.Deleting
import Depot.Proofs.Store.Homes
/-!
# Stores whose path may be broken

The path of a root may lead through what is below the root, up again by double dots.  A deletion can
then break it, and the next write repairs it by making the directories that are missing.  Such a
store is still `Grounded`: the links on the way are those that once led to the root, so if the path
leads anywhere it leads there, and the store is tidy.

* `Grounded.leadsTo_of_reaches`, `Grounded.leadsTo_of_locate` — whatever is found is below the root;
* `Grounded.of_grown`, `Grounded.of_pruned` — what keeps a store grounded.
-/

namespace Depot

open FileSystem

namespace Store

variable {s : Store} {root pos : Position} {fs fs' : FileSystem} {dirs : List Bytes} {leaf : Bytes}

/-- The root is a plain directory, and its path has led to it over the links that are there. -/
structure Grounded (s : Store) (root : Position) (fs : FileSystem) : Prop where
  wellFormed : fs.WellFormed
  plain : fs.PlainBelow root
  isDirectory : ∃ mode, fs.at? root = some (.directory mode)
  rooted : ∃ fs₀, s.LeadsTo fs₀ root ∧ SameLinks fs₀ fs

theorem Tidy.grounded (h : s.Tidy fs root) : s.Grounded root fs :=
  ⟨h.wellFormed, h.plain, h.leadsTo.at?_root, fs, h.leadsTo, SameLinks.refl fs⟩

namespace Grounded

theorem tidy (h : s.Grounded root fs) (hroot : s.LeadsTo fs root) : s.Tidy fs root :=
  ⟨h.wellFormed, hroot, h.plain⟩

theorem leadsTo_of_walk (h : s.Grounded root fs) {follow : Bool} {entry : Entry}
    (hwalk : fs.walk follow linkLimit [] s.root.steps = .ok (.occupied pos entry)) :
    s.LeadsTo fs root := by
  obtain ⟨fs₀, hroot, hsame⟩ := h.rooted
  obtain ⟨mode₀, hmode₀⟩ := hroot.isDirectory
  rw [locateEntry_eq_ok, locate_eq_ok, startOf, if_pos hroot.isAbsolute] at hmode₀
  obtain ⟨hpos, hwalk'⟩ := walk_of_sameLinks hsame (fun hf => by cases hf) hmode₀.2 hwalk
  obtain rfl : pos = root := hpos
  obtain ⟨mode, hmode⟩ := h.isDirectory
  obtain rfl : entry = .directory mode := by
    rw [walk_occupied hwalk] at hmode
    exact Option.some.inj hmode
  refine ⟨hroot.isAbsolute, hroot.dot_notMem, mode, ?_⟩
  rw [locateEntry_eq_ok, locate_eq_ok, startOf, if_pos hroot.isAbsolute]
  exact ⟨hmode₀.1, hwalk'⟩

theorem leadsTo_of_reaches (h : s.Grounded root fs) {names : List Bytes}
    (hreach : s.Reaches fs names pos) : s.LeadsTo fs root := by
  obtain ⟨pos', mode, hwalk⟩ := (show s.Reaches fs ([] ++ names) pos from hreach).front
  rw [List.append_nil] at hwalk
  have hsteps : fs.walk true linkLimit [] s.root.steps =
      .ok (.occupied pos' (.directory mode)) := by
    rw [Pathname.steps]
    split
    · obtain ⟨links, hresume⟩ := walk_resume hwalk
      rw [hresume [Pathname.dot] (by simp), walk_dot (walk_occupied hwalk),
        walk_nil (walk_occupied hwalk)]
    · exact hwalk
  exact h.leadsTo_of_walk hsteps

theorem leadsTo_of_locate (h : s.Grounded root fs)
    (hnames : ∀ name ∈ dirs ++ [leaf], Pathname.IsName name) {follow : Bool} {place : Place}
    (hlocate : fs.locate follow (s.pathOf (dirs ++ [leaf])) = .ok place) : s.LeadsTo fs root := by
  obtain ⟨fs₀, hroot, -⟩ := h.rooted
  rw [locate_eq_ok, hroot.startOf_pathOf hnames, pathOf,
    Pathname.steps_join_ofNames hroot.bytes_ne_nil hnames, ← List.append_assoc] at hlocate
  obtain ⟨pos, mode, links, hfront, -⟩ := walk_front (by simp) hlocate.2
  exact h.leadsTo_of_reaches ⟨mode, hfront⟩

theorem leadsTo_of_locateLast (h : s.Grounded root fs)
    (hnames : ∀ name ∈ dirs ++ [leaf], Pathname.IsName name) {last : LastName}
    (hlast : fs.locateLast (s.pathOf (dirs ++ [leaf])) = .ok last) : s.LeadsTo fs root := by
  obtain ⟨fs₀, hroot, -⟩ := h.rooted
  cases last with
  | special => exact absurd hlast (locateLast_ne_special hnames)
  | name dir name =>
      obtain ⟨-, -, hreach, -⟩ := (hroot.locateLast_pathOf hnames).1 hlast
      exact h.leadsTo_of_reaches hreach

theorem leadsTo_of_stat (h : s.Grounded root fs)
    (hnames : ∀ name ∈ dirs ++ [leaf], Pathname.IsName name) {entry : Entry}
    (hstat : fs.stat (s.pathOf (dirs ++ [leaf])) = .ok entry) : s.LeadsTo fs root := by
  obtain ⟨pos, hlocate⟩ := stat_eq_ok.1 hstat
  exact h.leadsTo_of_locate hnames hlocate

/-! ## What keeps a store grounded -/

theorem of_grown (h : s.Grounded root fs) (hgrown : Grown fs fs') : s.Grounded root fs' where
  wellFormed := hgrown.wellFormed
  plain := hgrown.plainBelow h.plain
  isDirectory := by
    obtain ⟨mode, hmode⟩ := h.isDirectory
    exact ⟨mode, hgrown.kept hmode⟩
  rooted := by
    obtain ⟨fs₀, hroot, hsame⟩ := h.rooted
    exact ⟨fs₀, hroot, hsame.trans (SameLinks.of_grown hgrown)⟩

theorem not_link (h : s.Grounded root fs) {names : List Bytes} (hne : names ≠ [])
    (target : Pathname) : fs.at? (root ++ names) ≠ some (.link target) := by
  intro ht
  rcases h.plain names _ hne ht with ⟨mode, hmode⟩ | ⟨id, hid, -⟩
  · cases hmode
  · cases hid

theorem of_pruned (h : s.Grounded root fs) {names : List Bytes} (hne : names ≠ [])
    (hpruned : Pruned root names fs fs') : s.Grounded root fs' where
  wellFormed := hpruned.wellFormed
  plain := h.plain.of_at?_le fun _ _ => hpruned.at?_le
  isDirectory := by
    obtain ⟨mode, hmode⟩ := h.isDirectory
    refine ⟨mode, ?_⟩
    rw [hpruned.outside, hmode]
    intro hbelow
    have hlength := hbelow.length_le
    have hpositive := List.length_pos_iff.2 hne
    rw [List.length_append] at hlength
    omega
  rooted := by
    obtain ⟨fs₀, hroot, hsame⟩ := h.rooted
    refine ⟨fs₀, hroot, hsame.trans fun pos target => ?_⟩
    by_cases hbelow : root ++ names <+: pos
    · have hnone : fs.at? pos ≠ some (.link target) := by
        obtain ⟨rest, rfl⟩ := hbelow
        rw [List.append_assoc]
        exact h.not_link (by simp [hne]) target
      exact iff_of_false hnone fun ht => hnone (hpruned.at?_le ht)
    · rw [hpruned.outside pos hbelow]

theorem store (h : s.Grounded root fs) {id : Nat} {f₀ : File} (hf₀ : fs.file? id = some f₀)
    (f : File) : s.Grounded root (fs.store id f) :=
  ⟨h.wellFormed.store f hf₀, h.plain, h.isDirectory, h.rooted⟩

theorem atTime (h : s.Grounded root fs) (time : Int) :
    s.Grounded root { fs with clock := time } := by
  obtain ⟨fs₀, hroot, hsame⟩ := h.rooted
  exact ⟨⟨h.wellFormed.parent, h.wellFormed.name, h.wellFormed.file, h.wellFormed.fresh⟩, h.plain,
    h.isDirectory, fs₀, hroot, hsame⟩

end Grounded

end Store

end Depot
