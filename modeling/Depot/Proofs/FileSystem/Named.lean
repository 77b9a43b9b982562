import Depot.Proofs.FileSystem.Growing
import Depot.Proofs.Path.Absolute
/-!
# Paths that name directories

Making a directory with all above it leaves a path that names one, however the path is written.  A
path keeps naming its directory when it is made absolute, as dots can be left out of a walk that
comes to a directory.

* `makeDirectories_names` — a directory that was made, or was there;
* `NamesDirectoryAt.absolute` — the same directory, from the root directory.
-/

namespace Depot

namespace FileSystem

variable {fs fs' : FileSystem} {p : Pathname} {pos : Position}

/-- A walk along the names of a path comes to a directory at a position. -/
def NamesDirectoryAt (fs : FileSystem) (p : Pathname) (pos : Position) : Prop :=
  ∃ mode, fs.walk true linkLimit (fs.startOf p) p.names = .ok (.occupied pos (.directory mode))

/-- A walk along the names of a path comes to a directory. -/
def NamesDirectory (fs : FileSystem) (p : Pathname) : Prop :=
  ∃ pos mode, fs.walk true linkLimit (fs.startOf p) p.names = .ok (.occupied pos (.directory mode))

/-! ## Names of directories -/

theorem WellFormed.names_ofRootNames (hwf : fs.WellFormed) {entry : Entry}
    (he : fs.at? pos = some entry) : (Pathname.ofRootNames pos).names = pos :=
  Pathname.names_ofRootNames (hwf.isName he)

namespace NamesDirectory

theorem of_leadsToDirectory (h : fs.leadsToDirectory p = true) : fs.NamesDirectory p := by
  rw [leadsToDirectory] at h
  split at h
  · rename_i entry hstat
    obtain ⟨mode, rfl⟩ := Entry.isDirectory_iff.1 h
    obtain ⟨pos, hlocate⟩ := stat_eq_ok.1 hstat
    exact ⟨pos, mode, walk_names_of_steps (locate_eq_ok.1 hlocate).2⟩
  · cases h

theorem of_makeDirectory (hmake : fs.makeDirectory p = .ok fs') : fs'.NamesDirectory p := by
  obtain ⟨dir, name, hlast, hnone, rfl⟩ := makeDirectory_eq_ok hmake
  obtain ⟨-, front, mode, hnames, hwalk, -⟩ := locateLast_eq_name_iff.1 hlast
  have hkeep : fs.KeepsPaths (fs.bind (dir ++ [name]) (.directory directoryMode)) := by
    intro pos entry he _
    rw [at?_bind (by simp), if_neg, he]
    rintro rfl
    rw [hnone] at he
    cases he
  refine ⟨dir ++ [name], directoryMode, ?_⟩
  rw [hnames]
  exact walk_concat_directory (walk_of_keeps hkeep id hwalk) (isEntryName_of_locateLast hlast).1
    (by rw [at?_bind (by simp), if_pos rfl])

theorem of_parent?_eq_none (hne : p ≠ .empty) (hparent : p.parent? = none) :
    fs.NamesDirectory p := by
  obtain ⟨habs, hdots⟩ := Pathname.names_of_parent?_eq_none hne hparent
  refine ⟨[], directoryMode, ?_⟩
  rw [startOf, if_pos habs]
  exact walk_dots hdots

end NamesDirectory

theorem walk_fromRoot (hwf : fs.WellFormed) {mode : Nat} {names : List Bytes}
    (hwalk : fs.walk true linkLimit (fs.startOf p) names = .ok (.occupied pos (.directory mode))) :
    fs.walk true linkLimit [] ((if p.isAbsolute then [] else fs.workingDir) ++
      names.filter fun name => name ≠ Pathname.dot) = .ok (.occupied pos (.directory mode)) := by
  obtain ⟨mode', hstart⟩ := start_of_walk hwalk
  rw [startOf] at hwalk hstart
  split
  · rename_i habs
    rw [if_pos habs, ← List.nil_append names] at hwalk
    exact walk_without_dots hwalk
  · rename_i habs
    rw [if_neg habs] at hstart hwalk
    rw [← walk_through hwf hstart] at hwalk
    exact walk_without_dots hwalk

theorem WellFormed.names_absolute (hwf : fs.WellFormed)
    (hstart : ∃ mode, fs.at? (fs.startOf p) = some (.directory mode)) :
    (Pathname.absolute (.ofRootNames fs.workingDir) p).names =
      (if p.isAbsolute then [] else fs.workingDir) ++
        p.names.filter fun name => name ≠ Pathname.dot := by
  obtain ⟨mode, hstart⟩ := hstart
  rw [(Pathname.absolute_named rfl p).2]
  by_cases habs : p.isAbsolute
  · rw [if_pos habs, if_pos habs]
  · rw [startOf, if_neg habs] at hstart
    rw [if_neg habs, if_neg habs, hwf.names_ofRootNames hstart]

theorem startOf_directory (hdir : ∃ mode, fs.at? fs.workingDir = some (.directory mode))
    (p : Pathname) : ∃ mode, fs.at? (fs.startOf p) = some (.directory mode) := by
  rw [startOf]
  split
  · exact ⟨_, at?_root fs⟩
  · exact hdir

namespace NamesDirectoryAt

theorem absolute (hwf : fs.WellFormed) (h : fs.NamesDirectoryAt p pos) :
    ∃ mode, fs.walk true linkLimit []
      (Pathname.absolute (.ofRootNames fs.workingDir) p).names =
        .ok (.occupied pos (.directory mode)) := by
  obtain ⟨mode, hwalk⟩ := h
  refine ⟨mode, ?_⟩
  rw [hwf.names_absolute (start_of_walk hwalk)]
  exact walk_fromRoot hwf hwalk

theorem of_locate {follow : Bool} {mode : Nat}
    (h : fs.locate follow p = .ok (.occupied pos (.directory mode))) :
    fs.NamesDirectoryAt p pos := ⟨mode, walk_names_of_steps (locate_eq_ok.1 h).2⟩

theorem of_at? (hwf : fs.WellFormed) {mode : Nat} (h : fs.at? pos = some (.directory mode)) :
    fs.NamesDirectoryAt (.ofRootNames pos) pos := by
  have habs : (Pathname.ofRootNames pos).isAbsolute = true := rfl
  refine ⟨mode, ?_⟩
  rw [startOf, if_pos habs, hwf.names_ofRootNames h]
  exact walk_directory hwf h true

theorem isDirectory (hwf : fs.WellFormed) {pos' : Position} {entry : Entry}
    (he : fs.at? pos = some entry) (hentry : ¬ entry.isLink)
    (h : fs.NamesDirectoryAt (.ofRootNames pos) pos') : entry.isDirectory := by
  rcases List.eq_nil_or_concat' pos with rfl | ⟨dir, name, rfl⟩
  · rw [at?_root] at he
    cases he
    rfl
  obtain ⟨mode, hwalk⟩ := h
  obtain ⟨mode', hdir⟩ := hwf.parent he
  have habs : (Pathname.ofRootNames (dir ++ [name])).isAbsolute = true := rfl
  rw [startOf, if_pos habs, hwf.names_ofRootNames he, walk_through hwf hdir] at hwalk
  have hname := hwf.isName he name (by simp)
  obtain ⟨child, hchild, hkind⟩ :=
    entry_of_walk_single hname.ne_dot hname.ne_dotDot hwalk
  rw [he] at hchild
  cases hchild
  exact hkind.resolve_right hentry

end NamesDirectoryAt

end FileSystem

open FileSystem

/-! ## Making directories -/

variable {fs : FileSystem}

theorem attempt_makeDirectory_names {ε : Type} {failed : ε → FileSystem → Prop} (p : Pathname) :
    (Op.attempt (Op.change_ (·.makeDirectory p)) : Op ε (Except IoError Unit)).Runs fs
      (fun _ => True) (fun result st => result = .ok () → st.NamesDirectory p) failed := by
  apply Op.Runs.attempt
  apply Op.Runs.change_
  · exact fun fs' hmake => ⟨trivial, fun _ => .of_makeDirectory hmake⟩
  · intro e _ hok
    cases hok

theorem makePending_names {pending : List Pathname} {p : Pathname}
    (h : pending.getLast? = some p ∨ pending = [] ∧ fs.NamesDirectory p) :
    (makePending pending).Runs fs (fun _ => True) (fun _ st => st.NamesDirectory p)
      (fun _ _ => True) := by
  induction pending generalizing fs with
  | nil =>
      rcases h with hlast | ⟨-, hnamed⟩
      · cases hlast
      · exact Op.Runs.pure hnamed
  | cons q rest ih =>
      have hrest : ∀ st : FileSystem, st.NamesDirectory q →
          rest.getLast? = some p ∨ rest = [] ∧ st.NamesDirectory p := by
        intro st hnamed
        rcases h with hlast | ⟨hnil, -⟩
        · cases rest with
          | nil =>
              cases hlast
              exact Or.inr ⟨rfl, hnamed⟩
          | cons q' rest => exact Or.inl (by rwa [List.getLast?_cons_cons] at hlast)
        · cases hnil
      rw [makePending]
      refine Op.Runs.bind _ (attempt_makeDirectory_names q) ?_
      intro result st hmade
      cases result with
      | ok _ => exact ih (hrest st (hmade rfl))
      | error e =>
          apply Op.Runs.get
          rintro w rfl
          split
          · rename_i hthere
            exact ih (hrest _ (.of_leadsToDirectory hthere.2))
          · exact Op.Runs.throw trivial

theorem makeFrom_names {above pending : List Pathname} {p : Pathname} (hne : p ≠ .empty)
    (h : pending.getLast? = some p ∨ pending = [] ∧ above.head? = some p) :
    (makeFrom pending above).Runs fs (fun _ => True) (fun _ st => st.NamesDirectory p)
      (fun _ _ => True) := by
  induction above generalizing pending fs with
  | nil =>
      rcases h with hlast | ⟨-, hhead⟩
      · exact makePending_names (Or.inl hlast)
      · cases hhead
  | cons q rest ih =>
      have hpending : ∀ st : FileSystem, (q = p → st.NamesDirectory p) →
          pending.getLast? = some p ∨ pending = [] ∧ st.NamesDirectory p := by
        intro st hnamed
        rcases h with hlast | ⟨hnil, hhead⟩
        · exact Or.inl hlast
        · exact Or.inr ⟨hnil, hnamed (Option.some.inj hhead)⟩
      rw [makeFrom]
      split
      · rename_i htop
        refine makePending_names (hpending fs ?_)
        rintro rfl
        exact .of_parent?_eq_none hne (htop.resolve_left hne)
      · refine Op.Runs.bind _ (attempt_makeDirectory_names q) ?_
        intro result st hmade
        cases result with
        | ok _ => exact makePending_names (hpending st fun heq => heq ▸ hmade rfl)
        | error e =>
            dsimp only
            split
            · refine ih ?_
              rcases h with hlast | ⟨rfl, hhead⟩
              · left
                rw [List.getLast?_cons, hlast]
                rfl
              · exact Or.inl hhead
            · apply Op.Runs.get
              rintro w rfl
              split
              · rename_i hthere
                exact makePending_names
                  (hpending _ fun heq => heq ▸ .of_leadsToDirectory hthere.2)
              · exact Op.Runs.throw trivial

/-- If a directory and those above it could be made, their path names one. -/
theorem makeDirectories_names {p : Pathname} (hne : p ≠ .empty) :
    (makeDirectories p).Runs fs (fun _ => True) (fun _ st => st.NamesDirectory p)
      (fun _ _ => True) := by
  rw [makeDirectories]
  exact makeFrom_names hne (Or.inr ⟨rfl, by rw [Pathname.ancestors]; rfl⟩)

end Depot
