import Depot.Proofs.FileSystem.Filling
import Depot.Proofs.FileSystem.Relinked
import Depot.Proofs.FileSystem.RemovedTrees
/-!
# Changes of file systems that differ in one link

A change is made to two file systems that differ in one link.  If its path does not lead there, it
fails in both with the same failure, or the two still differ in nothing else.

* `isEntryName_of_vacant` — what can be made where a walk found nothing;
* `Relinked.create`, `Relinked.unlink`, `Relinked.removeTree`, `Relinked.rename` — the changes.
-/

namespace Depot

namespace FileSystem

variable {spot dir : Position} {fs fs' : FileSystem} {p : Pathname} {name : Bytes}

/-! ## Names that are missing -/

/-- What the steps of a path can be. -/
structure IsStep (step : Bytes) : Prop where
  ne_nil : step ≠ []
  slash_notMem : Pathname.slash ∉ step
  zero_notMem : 0 ∉ step

theorem isStep_of_mem_steps (hzero : 0 ∉ p.bytes) : ∀ step ∈ p.steps, IsStep step := by
  have hnames : ∀ step ∈ p.names, IsStep step := by
    intro step hstep
    obtain ⟨hpiece, hne⟩ := Pathname.mem_pieces_of_mem_names hstep
    exact ⟨hne, Pathname.slash_notMem_of_mem_pieces hpiece,
      fun hmem => hzero (Pathname.mem_bytes_of_mem_pieces hpiece hmem)⟩
  intro step hstep
  rw [Pathname.steps] at hstep
  split at hstep
  · rcases List.mem_append.1 hstep with hstep | hstep
    · exact hnames step hstep
    · rw [List.mem_singleton.1 hstep]
      exact ⟨by decide, by decide, by decide⟩
  · exact hnames step hstep

theorem isEntryName_of_vacant (hfs : fs.WellLinked) {pos : Position} {follow : Bool} {links : Nat}
    {steps : List Bytes} (hsteps : ∀ step ∈ steps, IsStep step)
    (h : fs.walk follow links pos steps = .ok (.vacant dir name)) :
    IsEntryName name ∧ ∃ mode, fs.at? dir = some (.directory mode) := by
  generalize hplace : Place.vacant dir name = place at h
  induction walksTo_of_walk h with
  | here _ => cases hplace
  | into _ hwalk ih =>
      exact ih (fun step hstep => hsteps step (List.mem_cons_of_mem _ hstep)) hplace hwalk.walk_eq
  | vacant hturn =>
      cases hplace
      have hlooks := (turn_eq_missing_iff.1 hturn).1
      have hname := hsteps name (by simp)
      exact ⟨⟨⟨hname.ne_nil, hname.slash_notMem, hlooks.ne_dot, hlooks.ne_dotDot⟩,
        hlooks.length_le, hname.zero_notMem⟩, hlooks.isDirectory⟩
  | atLink _ _ => cases hplace
  | link hturn _ hwalk ih =>
      -- The steps of a link are those of a path that the system took.
      have ht := (turn_eq_link_iff.1 hturn).2
      refine ih (fun step hstep => ?_) hplace hwalk.walk_eq
      rcases List.mem_append.1 hstep with hstep | hstep
      · exact isStep_of_mem_steps (hfs.target ht) step hstep
      · exact hsteps step (List.mem_cons_of_mem _ hstep)

namespace Relinked

/-! ## Changes along one path -/

theorem create (h : Relinked spot fs fs') (hends : p.endsInSlash = false)
    (hlocate : fs'.locate true p = fs.locate true p) :
    Both (fun created created' => created'.2 = created.2 ∧ Relinked spot created.1 created'.1) True
      (fs.create p) (fs'.create p) := by
  rw [create_eq hends, create_eq hends, hlocate]
  cases hplace : fs.locate true p with
  | error e => exact .error e trivial
  | ok place =>
      obtain ⟨hcheck, hwalk⟩ := locate_eq_ok.1 hplace
      rw [ok_bind, ok_bind]
      cases place with
      | occupied pos entry =>
          cases entry with
          | directory mode => exact .error _ trivial
          | link target => exact .ok ⟨rfl, h⟩
          | device => exact .ok ⟨rfl, h⟩
          | file id =>
              obtain ⟨f₀, hf₀⟩ := h.left.toWellFormed.file (walk_occupied hwalk)
              dsimp only
              rw [h.file?_eq, h.clock_eq]
              exact .ok ⟨rfl, h.store hf₀ _⟩
      | vacant dir name =>
          have hnone : fs.at? (dir ++ [name]) = none := (walk_vacant hwalk).2
          have hnone' : fs'.at? (dir ++ [name]) = none :=
            (walk_vacant (locate_eq_ok.1 (hlocate.trans hplace)).2).2
          have hne : dir ++ [name] ≠ spot := by
            rintro rfl
            exact h.changed (by rw [hnone, hnone'])
          obtain ⟨hname, mode, hmode⟩ := isEntryName_of_vacant h.left
            (isStep_of_mem_steps (checkPath_eq_ok.1 hcheck).1) hwalk
          dsimp only
          rw [h.nextId_eq, h.clock_eq]
          refine .ok ⟨rfl, (h.allocate _).bind hne hmode hname (Or.inr ?_) ?_ (by simp)⟩
          · simp [hnone]
          · intro id hid
            cases hid
            exact ⟨_, by rw [file?_allocate, if_pos rfl]⟩

theorem unlink (h : Relinked spot fs fs') (hlast : fs'.locateLast p = fs.locateLast p)
    (hne : ∀ dir name, fs.locateLast p = .ok (.name dir name) → dir ++ [name] ≠ spot) :
    Both (fun st st' => Relinked spot st st') True (fs.unlink p) (fs'.unlink p) := by
  rw [FileSystem.unlink, FileSystem.unlink, hlast]
  cases hfound : fs.locateLast p with
  | error e => exact .error e trivial
  | ok last =>
      rw [ok_bind, ok_bind]
      cases last with
      | special => exact .error _ trivial
      | name dir name =>
          have hspot := hne dir name hfound
          dsimp only
          rw [h.at?_eq hspot]
          cases he : fs.at? (dir ++ [name]) with
          | none => exact .error _ trivial
          | some entry =>
              by_cases hdir : entry.isDirectory
              · obtain ⟨mode, rfl⟩ := Entry.isDirectory_iff.1 hdir
                exact .error _ trivial
              · have hunbound := h.unbind (by simp) hspot fun mode hmode => hdir (by
                  rw [he] at hmode
                  cases hmode
                  rfl)
                cases entry with
                | directory mode => exact absurd rfl hdir
                | file id => exact .ite (fun _ => .error _ trivial) fun _ => .ok hunbound
                | link target => exact .ite (fun _ => .error _ trivial) fun _ => .ok hunbound
                | device => exact .ite (fun _ => .error _ trivial) fun _ => .ok hunbound

theorem removeTree (h : Relinked spot fs fs') {front : List Bytes} {leaf : Bytes}
    (hp : EndsInName p front leaf) (hlocate : fs'.locate false p = fs.locate false p)
    (hlast : ∀ pos mode, fs.locateEntry false p = .ok (pos, .directory mode) →
      (fs'.clear pos).locateLast p = (fs.clear pos).locateLast p) :
    (Depot.removeTree p).Pairs (Depot.removeTree p) fs fs'
      (fun _ _ st st' => st' = st ∨ Relinked spot st st')
      fun st st' => st' = st ∨ Relinked spot st st' := by
  have hentry : fs'.locateEntry false p = fs.locateEntry false p := by
    rw [locateEntry, locateEntry, hlocate]
  refine removeTree_pairs (fun st st' => ∃ pos mode,
    fs.locateEntry false p = .ok (pos, .directory mode) ∧ st = fs.clear pos ∧
      st' = fs'.clear pos) ?_ ?_
  · rw [emptyDirectory, emptyDirectory, hentry]
    cases hfound : fs.locateEntry false p with
    | error e => exact .error e (Or.inr h)
    | ok found =>
        obtain ⟨pos, entry⟩ := found
        rw [ok_bind, ok_bind]
        cases entry with
        | directory mode => exact .ok ⟨pos, mode, rfl, rfl, rfl⟩
        | file id => exact .error _ (Or.inr h)
        | link target => exact .error _ (Or.inr h)
        | device => exact .error _ (Or.inr h)
  · rintro _ _ ⟨pos, mode, hfound, rfl, rfl⟩
    refine removeDirectory_clear_both hp hfound (hentry.trans hfound)
      (fun last last' => last' = last) ?_ (h.prune (hp.position_ne_nil hfound))
      ⟨h.clear pos, h.clear pos⟩
    rw [hlast pos mode hfound]
    cases (fs.clear pos).locateLast p with
    | ok last => exact .ok rfl
    | error e => exact .error e trivial

theorem move (h : Relinked spot fs fs') {src dir : Position} {name : Bytes} {entry : Entry}
    {mode : Nat} (hroot : src ≠ []) (hsrc : src ≠ spot) (hentry : fs.at? src = some entry)
    (hplain : entry.isDirectory = false) (hdst : dir ++ [name] ≠ spot)
    (hdir : fs.at? dir = some (.directory mode)) (hname : IsEntryName name)
    (hreplace : ∀ mode, fs.at? (dir ++ [name]) ≠ some (.directory mode)) :
    Relinked spot ((fs.unbind src).bind (dir ++ [name]) entry)
      ((fs'.unbind src).bind (dir ++ [name]) entry) := by
  have hsource : ∀ mode, fs.at? src ≠ some (.directory mode) := by
    intro mode hmode
    rw [hentry] at hmode
    cases hmode
    cases hplain
  have hdir' : (fs.unbind src).at? dir = some (.directory mode) := by
    rw [at?_unbind hroot, if_neg]
    · exact hdir
    · rintro rfl
      exact hsource mode hdir
  refine (h.unbind hroot hsrc hsource).bind hdst hdir' hname (Or.inr fun mode hmode => ?_) ?_ ?_
  · rw [at?_unbind hroot] at hmode
    split at hmode
    · cases hmode
    · exact hreplace mode hmode
  · rintro id rfl
    exact h.left.toWellFormed.file hentry
  · rintro target rfl
    exact h.left.target hentry

theorem replace (h : Relinked spot fs fs') {src dst : Position} {entry : Entry}
    (hplain : entry.isDirectory = false) (hdst : dst ≠ spot)
    (hmove : (∀ mode, fs.at? dst ≠ some (.directory mode)) →
      Relinked spot ((fs.unbind src).bind dst entry) ((fs'.unbind src).bind dst entry)) :
    Both (fun st st' => Relinked spot st st') True
      (fs.checkReplace entry dst >>= fun _ => if entry.isDirectory then
        pure (fs.relocate src dst) else pure ((fs.unbind src).bind dst entry))
      (fs'.checkReplace entry dst >>= fun _ => if entry.isDirectory then
        pure (fs'.relocate src dst) else pure ((fs'.unbind src).bind dst entry)) := by
  rw [checkReplace, checkReplace, h.at?_eq hdst]
  simp only [hplain, Bool.false_eq_true, if_false]
  cases hexisting : fs.at? dst with
  | none => exact .ok (hmove (by simp [hexisting]))
  | some existing =>
      by_cases hdirectory : existing.isDirectory
      · simp only [hdirectory, if_true]
        exact .error _ trivial
      · simp only [hdirectory, Bool.false_eq_true, if_false]
        refine .ok (hmove fun mode hmode => ?_)
        rw [hexisting] at hmode
        cases hmode
        exact hdirectory rfl

theorem rename (h : Relinked spot fs fs') {old new : Pathname}
    (hold : fs'.locateLast old = fs.locateLast old) (hnew : fs'.locateLast new = fs.locateLast new)
    (hsource : ∀ dir name, fs.locateLast old = .ok (.name dir name) →
      dir ++ [name] ≠ spot ∧ ∀ mode, fs.at? (dir ++ [name]) ≠ some (.directory mode))
    (htarget : ∀ dir name, fs.locateLast new = .ok (.name dir name) → dir ++ [name] ≠ spot) :
    Both (fun st st' => Relinked spot st st') True (fs.rename old new) (fs'.rename old new) := by
  rw [FileSystem.rename, FileSystem.rename, hold, hnew]
  cases hfound : fs.locateLast old with
  | error e => exact .error e trivial
  | ok source =>
      rw [ok_bind, ok_bind]
      cases hfound' : fs.locateLast new with
      | error e => exact .error e trivial
      | ok target =>
          rw [ok_bind, ok_bind]
          cases source with
          | special => exact .error _ trivial
          | name oldDir oldName =>
              cases target with
              | special => exact .error _ trivial
              | name newDir newName =>
                  obtain ⟨hsrc, hfile⟩ := hsource oldDir oldName hfound
                  have hdst := htarget newDir newName hfound'
                  obtain ⟨hname, mode, hmode⟩ := isEntryName_of_locateLast hfound'
                  dsimp only
                  rw [h.at?_eq hsrc, h.at?_eq hdst]
                  cases hentry : fs.at? (oldDir ++ [oldName]) with
                  | none => exact .error _ trivial
                  | some entry =>
                      -- Slashes at the end, one position for both, and one of them above the other.
                      refine .ite (fun _ => .error _ trivial) fun _ => ?_
                      refine .ite (fun _ => .ok h) fun _ => ?_
                      refine .ite (fun _ => .error _ trivial) fun _ => ?_
                      refine .ite (fun _ => .error _ trivial) fun _ => ?_
                      have hplain : entry.isDirectory = false := by
                        rw [Bool.eq_false_iff]
                        intro hdir
                        obtain ⟨mode, rfl⟩ := Entry.isDirectory_iff.1 hdir
                        exact hfile mode hentry
                      have hreplaced := h.replace hplain hdst
                        (h.move (by simp) hsrc hentry hplain hdst hmode hname)
                      split
                      · split
                        · exact .ok h
                        · exact hreplaced
                      · exact hreplaced

end Relinked

end FileSystem

end Depot
