import Depot.Proofs.FileSystem.Named
import Depot.Proofs.Path.Parents
/-!
# Directories made at some paths

Making directories at some paths, one after the other, changes nothing but that there are more of
them: each has the mode of directories, stands where one of the paths names it, and holds nothing
that was there before.

* `Paved` — what can come of making directories at some paths;
* `Paved.new`, `Paved.same` — what is new, and what is not;
* `makeDirectories_paves` — making a directory with those above it.
-/

namespace Depot

namespace FileSystem

/-- The file system after directories were made at some of the paths, one after the other. -/
inductive Paved (paths : List Pathname) (fs : FileSystem) : FileSystem → Prop
  | refl : Paved paths fs fs
  | make {st st' : FileSystem} {q : Pathname} (h : Paved paths fs st) (hq : q ∈ paths)
      (hmake : st.makeDirectory q = .ok st') : Paved paths fs st'

/-- Two file systems that differ in their entries at most. -/
structure SameFiles (fs st : FileSystem) : Prop where
  files : st.files = fs.files
  nextId : st.nextId = fs.nextId
  workingDir : st.workingDir = fs.workingDir
  clock : st.clock = fs.clock

variable {fs st st' : FileSystem} {paths : List Pathname} {p q : Pathname}

theorem startOf_eq (h : st.workingDir = fs.workingDir) (p : Pathname) :
    st.startOf p = fs.startOf p := by
  rw [startOf, startOf, h]

theorem locateLast_of_keeps (hkeep : fs.KeepsPaths st) (hdir : st.workingDir = fs.workingDir)
    {dir : Position} {name : Bytes} (h : fs.locateLast p = .ok (.name dir name)) :
    st.locateLast p = .ok (.name dir name) := by
  obtain ⟨hcheck, front, mode, hnames, hwalk, hname⟩ := locateLast_eq_name_iff.1 h
  rw [locateLast_eq_name_iff, startOf_eq hdir]
  exact ⟨hcheck, front, mode, hnames, walk_of_keeps hkeep id hwalk, hname⟩

namespace Paved

theorem grown (hwf : fs.WellFormed) (h : fs.Paved paths st) : Grown fs st := by
  induction h with
  | refl => exact .refl hwf
  | make _ _ hmake ih => exact ih.trans (.of_makeDirectory ih.wellFormed hmake)

theorem same (h : fs.Paved paths st) : fs.SameFiles st := by
  induction h with
  | refl => exact ⟨rfl, rfl, rfl, rfl⟩
  | make _ _ hmake ih =>
    obtain ⟨dir, name, -, -, rfl⟩ := makeDirectory_eq_ok hmake
    exact ⟨ih.files, ih.nextId, ih.workingDir, ih.clock⟩

theorem new (hwf : fs.WellFormed) (h : fs.Paved paths st) {pos : Position} {entry : Entry}
    (hnone : fs.at? pos = none) (he : st.at? pos = some entry) :
    entry = .directory directoryMode ∧ ∃ q ∈ paths, ∃ dir name,
      st.locateLast q = .ok (.name dir name) ∧ pos = dir ++ [name] := by
  induction h with
  | refl =>
    rw [hnone] at he
    cases he
  | @make st st' q hpaved hq hmake ih =>
    have hkeep := (Grown.of_makeDirectory (hpaved.grown hwf).wellFormed hmake).keepsPaths
    obtain ⟨dir, name, hlast, hvacant, rfl⟩ := makeDirectory_eq_ok hmake
    have hstays {q : Pathname} {dir' : Position} {name' : Bytes}
        (h : st.locateLast q = .ok (.name dir' name')) :
        (st.bind (dir ++ [name]) (.directory directoryMode)).locateLast q =
          .ok (.name dir' name') := locateLast_of_keeps hkeep rfl h
    rw [at?_bind (by simp)] at he
    split at he
    · rename_i hpos
      cases he
      exact ⟨rfl, q, hq, dir, name, hstays hlast, hpos⟩
    · obtain ⟨hentry, q', hq', dir', name', hlast', hpos⟩ := ih he
      exact ⟨hentry, q', hq', dir', name', hstays hlast', hpos⟩

theorem keptByMaking (hq : q ∈ paths) : KeptByMaking (fs.Paved paths) q :=
  fun _ _ h hmake => h.make hq hmake

end Paved

theorem WellFormed.at?_below_none (hwf : fs.WellFormed) {pos : Position}
    (hnone : fs.at? pos = none) (rest : Position) : fs.at? (pos ++ rest) = none := by
  by_cases hrest : rest = []
  · rw [hrest, List.append_nil, hnone]
  · refine hwf.at?_append_of_not_directory (fun mode hmode => ?_) hrest
    rw [hnone] at hmode
    cases hmode

end FileSystem

open FileSystem

theorem makeDirectories_paves (fs : FileSystem) (p : Pathname) :
    (makeDirectories p).Runs fs (fs.Paved (p.ancestors (p.bytes.length + 1)))
      (fun _ => fs.Paved (p.ancestors (p.bytes.length + 1)))
      (fun _ => fs.Paved (p.ancestors (p.bytes.length + 1))) :=
  makeDirectories_keeps (fun _ hq => Paved.keptByMaking hq) .refl

end Depot
