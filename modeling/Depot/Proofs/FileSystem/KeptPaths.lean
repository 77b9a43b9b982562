import Depot.Proofs.FileSystem.Walk
/-!
# Walks over kept paths

Only directories and links decide where a walk goes.  A walk that got somewhere comes to the same
position in every file system that has kept them, if anything but a link is there.

* `KeepsPaths` — every directory and every link is kept;
* `walk_found_of_keeps` — a walk over kept paths, whatever is at its end now;
* `walk_of_keeps`, `walk_file_of_keeps`, `walk_made_of_keeps` — to a directory that was kept, to a
  regular file, and to what was made where nothing was;
* `walk_without_dots`, `walk_names_of_steps` — dots on the way to a directory.
-/

namespace Depot

namespace FileSystem

variable {fs fs' : FileSystem} {follow follow' : Bool} {links mode : Nat} {pos pos' : Position}
  {name : Bytes} {front rest steps : List Bytes} {entry : Entry} {place : Place}

/-- Every directory and every link of the one file system is in the other. -/
def KeepsPaths (fs fs' : FileSystem) : Prop :=
  ∀ pos entry, fs.at? pos = some entry → entry.isDirectory ∨ entry.isLink →
    fs'.at? pos = some entry

namespace KeepsPaths

theorem refl (fs : FileSystem) : fs.KeepsPaths fs := fun _ _ he _ => he

theorem trans {fs'' : FileSystem} (h : fs.KeepsPaths fs') (h' : fs'.KeepsPaths fs'') :
    fs.KeepsPaths fs'' :=
  fun pos entry he hkind => h' pos entry (h pos entry he hkind) hkind

theorem directory (h : fs.KeepsPaths fs') (hpos : ∃ mode, fs.at? pos = some (.directory mode)) :
    ∃ mode, fs'.at? pos = some (.directory mode) := by
  obtain ⟨mode, hmode⟩ := hpos
  exact ⟨mode, h pos _ hmode (Or.inl rfl)⟩

theorem looksUp (h : fs.KeepsPaths fs') (hlooks : fs.LooksUp pos name) : fs'.LooksUp pos name :=
  hlooks.of_directory (h.directory hlooks.isDirectory)

theorem turn_link (h : fs.KeepsPaths fs') {target : Pathname}
    (hturn : fs.turn pos name = .link target) : fs'.turn pos name = .link target := by
  obtain ⟨hlooks, ht⟩ := turn_eq_link_iff.1 hturn
  exact (h.looksUp hlooks).turn_link (h _ _ ht (Or.inr rfl))

theorem turn_into (h : fs.KeepsPaths fs') (hturn : fs.turn pos name = .into pos')
    (he : fs'.at? pos' = some entry) (hlink : ¬ entry.isLink) : fs'.turn pos name = .into pos' := by
  rcases turn_eq_into_iff.1 hturn with ⟨hpos, hdots⟩ | ⟨hlooks, rfl, -⟩
  · obtain ⟨mode, hmode⟩ := h.directory hpos
    exact turn_dots hmode hdots
  · exact (h.looksUp hlooks).turn_into he hlink

end KeepsPaths

theorem walk_found_of_keeps (hkeep : KeepsPaths fs fs') (hfollow : follow = true → follow' = true)
    (h : fs.walk follow links pos steps = .ok place) (he : fs'.at? place.position = some entry)
    (hlink : ¬ entry.isLink) :
    fs'.walk follow' links pos steps = .ok (.occupied place.position entry) := by
  induction walksTo_of_walk h with
  | here _ => exact walk_nil he _ _
  | @into links pos next name rest place hturn hwalk ih =>
      -- Names behind it are taken in a directory, which was kept.
      have hnext : ∃ found, fs'.at? next = some found ∧ ¬ found.isLink := by
        rcases hwalk.start with hdir | ⟨rfl, found, rfl⟩
        · obtain ⟨mode, hmode⟩ := hkeep.directory hdir
          exact ⟨_, hmode, by simp [Entry.isLink]⟩
        · exact ⟨entry, he, hlink⟩
      obtain ⟨found, hfound, hfoundLink⟩ := hnext
      rw [walk_into (hkeep.turn_into hturn hfound hfoundLink)]
      exact ih hwalk.walk_eq he
  | vacant hturn =>
      have hlooks := hkeep.looksUp (turn_eq_missing_iff.1 hturn).1
      exact hlooks.walk_last he fun hentry => absurd hentry hlink
  | atLink _ hturn =>
      have ht := hkeep _ _ (turn_eq_link_iff.1 hturn).2 (Or.inr rfl)
      rw [← Option.some.inj (ht.symm.trans he)] at hlink
      exact absurd rfl hlink
  | link hturn hgo hwalk ih =>
      rw [walk_link (hkeep.turn_link hturn) (hgo.imp_right hfollow)]
      exact ih hwalk.walk_eq he

/-- A walk that ends at a directory ends there wherever directories and links are kept, also when
a last link would be followed. -/
theorem walk_of_keeps (hkeep : KeepsPaths fs fs') (hfollow : follow = true → follow' = true)
    (h : fs.walk follow links pos steps = .ok (.occupied pos' (.directory mode))) :
    fs'.walk follow' links pos steps = .ok (.occupied pos' (.directory mode)) :=
  walk_found_of_keeps hkeep hfollow h (hkeep _ _ (walk_occupied h) (Or.inl rfl))
    (by simp [Entry.isLink])

theorem walk_file_of_keeps (hkeep : KeepsPaths fs fs') {id id' : Nat}
    (h : fs.walk follow links pos steps = .ok (.occupied pos' (.file id)))
    (hid' : fs'.at? pos' = some (.file id')) :
    fs'.walk follow links pos steps = .ok (.occupied pos' (.file id')) :=
  walk_found_of_keeps hkeep (fun hfollow => hfollow) h hid' (by simp [Entry.isLink])

theorem walk_made_of_keeps (hkeep : KeepsPaths fs fs') {dir : Position} {id : Nat}
    (h : fs.walk follow links pos steps = .ok (.vacant dir name))
    (hid : fs'.at? (dir ++ [name]) = some (.file id)) :
    fs'.walk follow links pos steps = .ok (.occupied (dir ++ [name]) (.file id)) :=
  walk_found_of_keeps hkeep (fun hfollow => hfollow) h hid (by simp [Entry.isLink])

theorem walk_concat_directory {mode' : Nat} {start dir : Position}
    (hwalk : fs.walk true links start front = .ok (.occupied dir (.directory mode)))
    (hname : IsEntryName name) (he : fs.at? (dir ++ [name]) = some (.directory mode')) :
    fs.walk true links start (front ++ [name]) =
      .ok (.occupied (dir ++ [name]) (.directory mode')) :=
  walk_of_keeps (KeepsPaths.refl fs) (fun _ => rfl)
    ((walk_concat_iff hname.toIsName).2 ⟨dir, mode, hwalk, hname.length_le, rfl, he⟩)

/-! ## Walks with dots -/

theorem walk_dot (hpos : fs.at? pos = some (.directory mode)) (follow : Bool)
    (rest : List Bytes) :
    fs.walk follow links pos (Pathname.dot :: rest) = fs.walk follow links pos rest :=
  walk_into (turn_dots hpos .dot) rest

theorem walk_without_dot
    (h : fs.walk true links pos (front ++ Pathname.dot :: rest) =
      .ok (.occupied pos' (.directory mode))) :
    fs.walk true links pos (front ++ rest) = .ok (.occupied pos' (.directory mode)) := by
  obtain ⟨dir, mode', -, hfront, -⟩ := walk_front (List.cons_ne_nil _ _) h
  obtain ⟨links', hresume⟩ := walk_resume hfront
  rw [hresume _ (List.cons_ne_nil _ _), walk_dot (walk_occupied hfront)] at h
  by_cases hrest : rest = []
  · subst hrest
    rw [walk_nil (walk_occupied hfront)] at h
    rw [List.append_nil, hfront, h]
  · rw [hresume rest hrest, h]

theorem walk_without_dots
    (h : fs.walk true links pos (front ++ rest) = .ok (.occupied pos' (.directory mode))) :
    fs.walk true links pos (front ++ rest.filter (fun name => name ≠ Pathname.dot)) =
      .ok (.occupied pos' (.directory mode)) := by
  induction rest generalizing front with
  | nil => exact h
  | cons name rest ih =>
      by_cases hdot : name = Pathname.dot
      · subst hdot
        rw [List.filter_cons_of_neg (by simp)]
        exact ih (walk_without_dot h)
      · rw [List.filter_cons_of_pos (by simpa using hdot), ← List.singleton_append,
          ← List.append_assoc]
        apply ih
        simpa using h

theorem walk_names_of_steps {p : Pathname}
    (h : fs.walk follow links pos p.steps = .ok (.occupied pos' (.directory mode))) :
    fs.walk true links pos p.names = .ok (.occupied pos' (.directory mode)) := by
  have hsteps := walk_of_keeps (KeepsPaths.refl fs) (fun _ => rfl : follow = true → true = true) h
  rw [Pathname.steps] at hsteps
  split at hsteps
  · rw [← List.append_nil p.names]
    exact walk_without_dot hsteps
  · exact hsteps

theorem walk_dots {names : List Bytes} (hdots : ∀ name ∈ names, name = Pathname.dot) :
    fs.walk true links [] names = .ok (.occupied [] (.directory directoryMode)) := by
  induction names with
  | nil => exact walk_nil (at?_root fs) _ _
  | cons name rest ih =>
      rw [hdots name List.mem_cons_self, walk_dot (at?_root fs)]
      exact ih fun other hother => hdots other (List.mem_cons_of_mem name hother)

end FileSystem

end Depot
