import Depot.Proofs.FileSystem.Growing
import Depot.Proofs.Store.Writable
/-!
# The directory that an object stands in

In a file system with links, the path of an object leads through whatever links are on its way to
the directory that holds it, its home.  Making the directories above an object finds its home, or
makes it where nothing was; if both fail, there is none.

* `Reaches` — where the path of a directory leads;
* `LeadsTo.locateLast_pathOf` — the last name of a path stands in what the other names reach;
* `LeadsTo.makeDirectories_reaches` — the home of an object was there, or is new.
-/

namespace Depot

open FileSystem

namespace Store

variable {s : Store} {root home : Position} {k : Key} {fs₀ fs fs' : FileSystem}

/-- The names below the root of a store lead to a directory. -/
def Reaches (s : Store) (fs : FileSystem) (names : List Bytes) (pos : Position) : Prop :=
  ∃ mode, fs.walk true linkLimit [] (s.root.names ++ names) = .ok (.occupied pos (.directory mode))

namespace Reaches

variable {names : List Bytes} {pos pos' : Position}

theorem of_keeps (h : s.Reaches fs names pos) (hkeep : fs.KeepsPaths fs') :
    s.Reaches fs' names pos := by
  obtain ⟨mode, hwalk⟩ := h
  exact ⟨mode, walk_of_keeps hkeep id hwalk⟩

theorem unique (h : s.Reaches fs names pos) (h' : s.Reaches fs names pos') : pos = pos' := by
  obtain ⟨mode, hwalk⟩ := h
  obtain ⟨mode', hwalk'⟩ := h'
  rw [hwalk] at hwalk'
  cases hwalk'
  rfl

theorem at? (h : s.Reaches fs names pos) : ∃ mode, fs.at? pos = some (.directory mode) := by
  obtain ⟨mode, hwalk⟩ := h
  exact ⟨mode, walk_occupied hwalk⟩

theorem front {first rest : List Bytes} (h : s.Reaches fs (first ++ rest) pos) :
    ∃ pos', s.Reaches fs first pos' := by
  by_cases hrest : rest = []
  · exact ⟨pos, by rwa [hrest, List.append_nil] at h⟩
  · obtain ⟨mode, hwalk⟩ := h
    rw [← List.append_assoc] at hwalk
    obtain ⟨pos', mode', links, hfront, -⟩ := walk_front hrest hwalk
    exact ⟨pos', mode', hfront⟩

theorem exists_child (h : s.Reaches fs names pos) {name : Bytes} (hname : Pathname.IsName name)
    (h' : s.Reaches fs (names ++ [name]) pos') : ∃ child, fs.at? (pos ++ [name]) = some child := by
  obtain ⟨mode, hwalk⟩ := h
  obtain ⟨mode', hwalk'⟩ := h'
  rw [← List.append_assoc] at hwalk'
  obtain ⟨dir, mode'', links, hfront, hlast⟩ := walk_front (by simp) hwalk'
  rw [hwalk] at hfront
  cases hfront
  obtain ⟨-, child, hchild, -⟩ := exists_of_walk_single hname.ne_dot hname.ne_dotDot hlast
  exact ⟨child, hchild⟩

theorem concat (h : s.Reaches fs names pos) {name : Bytes} {mode : Nat} (hname : IsEntryName name)
    (hmode : fs.at? (pos ++ [name]) = some (.directory mode)) :
    s.Reaches fs (names ++ [name]) (pos ++ [name]) := by
  obtain ⟨mode', hwalk⟩ := h
  refine ⟨mode, ?_⟩
  rw [← List.append_assoc]
  exact walk_concat_directory hwalk hname hmode

end Reaches

/-- The home of an object was there, or stands where nothing was. -/
def FindsHome (s : Store) (k : Key) (fs₀ fs : FileSystem) : Prop :=
  Grown fs₀ fs ∧ ∃ home, s.Reaches fs k.dirs home ∧
    (s.Reaches fs₀ k.dirs home ∨ fs₀.at? home = none)

def Homeless (s : Store) (k : Key) (fs₀ fs : FileSystem) : Prop :=
  Grown fs₀ fs ∧ ∀ home, ¬ s.Reaches fs k.dirs home

theorem locateLast_ne_special {dirs : List Bytes} {leaf : Bytes}
    (hnames : ∀ name ∈ dirs ++ [leaf], Pathname.IsName name) :
    fs'.locateLast (s.pathOf (dirs ++ [leaf])) ≠ .ok .special := by
  have hleaf := hnames leaf (by simp)
  intro hspecial
  rw [locateLast, bind_eq_ok] at hspecial
  obtain ⟨u, -, hlast⟩ := hspecial
  rw [s.names_pathOf hnames, ← List.append_assoc] at hlast
  simp only [List.getLast?_append, List.getLast?_singleton, Option.some_or,
    List.dropLast_concat] at hlast
  obtain ⟨place, -, hlast⟩ := bind_eq_ok.1 hlast
  cases place with
  | vacant dir name => cases hlast
  | occupied pos entry =>
      dsimp only at hlast
      split at hlast
      · cases hlast
      rw [if_neg (by simp [hleaf.ne_dot, hleaf.ne_dotDot])] at hlast
      split at hlast
      · cases hlast
      · cases hlast

namespace LeadsTo

variable {dirs : List Bytes} {leaf : Bytes}

theorem reaches (h : s.LeadsTo fs root) : s.Reaches fs [] root := by
  obtain ⟨mode, hwalk⟩ := h.walk_names
  exact ⟨mode, by rwa [List.append_nil]⟩

theorem startOf_pathOf (h : s.LeadsTo fs root) {names : List Bytes}
    (hnames : ∀ name ∈ names, Pathname.IsName name) : fs'.startOf (s.pathOf names) = [] := by
  have habs := Pathname.isAbsolute_join_ofNames h.bytes_ne_nil hnames
  rw [startOf, pathOf, habs, if_pos h.isAbsolute]

theorem locateLast_pathOf (h : s.LeadsTo fs root) {dir : Position} {name : Bytes}
    (hnames : ∀ name ∈ dirs ++ [leaf], Pathname.IsName name) :
    fs'.locateLast (s.pathOf (dirs ++ [leaf])) = .ok (.name dir name) ↔
      checkPath (s.pathOf (dirs ++ [leaf])) = .ok () ∧ leaf.length ≤ maxNameLength ∧
        s.Reaches fs' dirs dir ∧ name = leaf := by
  have hleaf := hnames leaf (by simp)
  rw [locateLast_eq_name_iff, h.startOf_pathOf hnames, s.names_pathOf hnames,
    ← List.append_assoc]
  constructor
  · rintro ⟨hcheck, front, mode, hsplit, hwalk, -, -, hlength⟩
    obtain ⟨rfl, hname⟩ := List.append_inj' hsplit rfl
    obtain rfl := List.singleton_inj.1 hname
    exact ⟨hcheck, hlength, ⟨mode, hwalk⟩, rfl⟩
  · rintro ⟨hcheck, hlength, ⟨mode, hwalk⟩, rfl⟩
    exact ⟨hcheck, _, mode, rfl, hwalk, hleaf.ne_dot, hleaf.ne_dotDot, hlength⟩

theorem locate_of_reaches (h : s.LeadsTo fs root)
    (hnames : ∀ name ∈ dirs ++ [leaf], Pathname.IsName name) {dir : Position} {follow : Bool}
    (hreach : s.Reaches fs' dirs dir)
    (hlink : ∀ target, fs'.at? (dir ++ [leaf]) ≠ some (.link target)) {place : Place}
    (hlocate : fs'.locate follow (s.pathOf (dirs ++ [leaf])) = .ok place) :
    leaf.length ≤ maxNameLength ∧
      ((∃ entry, place = .occupied (dir ++ [leaf]) entry ∧ fs'.at? (dir ++ [leaf]) = some entry) ∨
        place = .vacant dir leaf ∧ fs'.at? (dir ++ [leaf]) = none) := by
  have hleaf := hnames leaf (by simp)
  obtain ⟨mode, hwalk⟩ := hreach
  obtain ⟨links, hresume⟩ := walk_resume hwalk
  rw [locate_eq_ok, h.startOf_pathOf hnames, pathOf,
    Pathname.steps_join_ofNames h.bytes_ne_nil hnames, ← List.append_assoc,
    hresume [leaf] (by simp)] at hlocate
  have hdir := walk_occupied hwalk
  have hplace := hlocate.2
  by_cases hlong : maxNameLength < leaf.length
  · rw [walk_refused (turn_tooLong hdir hleaf hlong)] at hplace
    cases hplace
  have hlooks := LooksUp.of_isName hdir hleaf (Nat.not_lt.1 hlong)
  refine ⟨hlooks.length_le, ?_⟩
  cases hchild : fs'.at? (dir ++ [leaf]) with
  | none =>
      rw [walk_missing (hlooks.turn_missing hchild), if_pos rfl] at hplace
      cases hplace
      exact Or.inr ⟨rfl, rfl⟩
  | some entry =>
      have hentry : ¬ entry.isLink := fun hisLink => by
        obtain ⟨target, rfl⟩ := Entry.isLink_iff.1 hisLink
        exact hlink target hchild
      rw [hlooks.walk_last hchild fun hisLink => absurd hisLink hentry] at hplace
      cases hplace
      exact Or.inl ⟨entry, rfl, rfl⟩

theorem leadsToDirectory_pathOf (h : s.LeadsTo fs root)
    (hnames : ∀ name ∈ dirs ++ [leaf], Pathname.IsName name)
    (hcheck : FileSystem.checkPath (s.pathOf (dirs ++ [leaf])) = .ok ()) :
    fs'.leadsToDirectory (s.pathOf (dirs ++ [leaf])) = true ↔
      ∃ pos, s.Reaches fs' (dirs ++ [leaf]) pos := by
  have hlocate (place : Place) : fs'.locate true (s.pathOf (dirs ++ [leaf])) = .ok place ↔
      fs'.walk true linkLimit [] (s.root.names ++ (dirs ++ [leaf])) = .ok place := by
    rw [locate_eq_ok, h.startOf_pathOf hnames, pathOf,
      Pathname.steps_join_ofNames h.bytes_ne_nil hnames]
    exact and_iff_right hcheck
  rw [leadsToDirectory]
  constructor
  · intro hleads
    cases hstat : fs'.stat (s.pathOf (dirs ++ [leaf])) with
    | error e =>
        rw [hstat] at hleads
        cases hleads
    | ok entry =>
        rw [hstat] at hleads
        obtain ⟨mode, rfl⟩ := Entry.isDirectory_iff.1 hleads
        obtain ⟨pos, hpos⟩ := stat_eq_ok.1 hstat
        exact ⟨pos, mode, (hlocate _).1 hpos⟩
  · rintro ⟨pos, mode, hwalk⟩
    rw [stat_eq_ok.2 ⟨pos, (hlocate _).2 hwalk⟩]
    rfl

theorem eq_of_rename (h : s.LeadsTo fs root) {leaf' : Bytes} {dir : Position} {id : Nat}
    {renamed : FileSystem} (hnames : ∀ name ∈ dirs ++ [leaf], Pathname.IsName name)
    (hnames' : ∀ name ∈ dirs ++ [leaf'], Pathname.IsName name) (hne : leaf ≠ leaf')
    (hreach : s.Reaches fs' dirs dir) (hid : fs'.at? (dir ++ [leaf]) = some (.file id))
    (hrename : fs'.rename (s.pathOf (dirs ++ [leaf])) (s.pathOf (dirs ++ [leaf'])) = .ok renamed) :
    checkPath (s.pathOf (dirs ++ [leaf'])) = .ok () ∧ leaf'.length ≤ maxNameLength ∧
      ((renamed = fs' ∧ fs'.at? (dir ++ [leaf']) = some (.file id)) ∨
        (∀ mode, fs'.at? (dir ++ [leaf']) ≠ some (.directory mode)) ∧
          renamed = (fs'.unbind (dir ++ [leaf])).bind (dir ++ [leaf']) (.file id)) := by
  obtain ⟨source, hsource, hmoved⟩ := bind_eq_ok.1 hrename
  obtain ⟨target, htarget, -⟩ := bind_eq_ok.1 hmoved
  cases source with
  | special => exact absurd hsource (locateLast_ne_special hnames)
  | name dir₁ name₁ =>
  cases target with
  | special => exact absurd htarget (locateLast_ne_special hnames')
  | name dir₂ name₂ =>
  obtain ⟨-, -, hreach₁, rfl⟩ := (h.locateLast_pathOf hnames).1 hsource
  obtain ⟨hcheck, hlength, hreach₂, rfl⟩ := (h.locateLast_pathOf hnames').1 htarget
  obtain rfl := hreach₁.unique hreach
  obtain rfl := hreach₂.unique hreach
  refine ⟨hcheck, hlength, ?_⟩
  rcases rename_file_sibling hsource htarget (s.not_endsInSlash_pathOf hnames)
      (s.not_endsInSlash_pathOf hnames') hne hid with
    ⟨hsame, hkept⟩ | ⟨-, hfails⟩ | ⟨hdirectory, hmoved⟩
  · exact Or.inl ⟨Except.ok.inj (hrename.symm.trans hkept), hsame⟩
  · cases hrename.symm.trans hfails
  · exact Or.inr ⟨hdirectory, Except.ok.inj (hrename.symm.trans hmoved)⟩

/-! ## Making directories -/

theorem reaches_of_makeDirectory (h : s.LeadsTo fs root) (hwf : fs'.WellFormed)
    (hnames : ∀ name ∈ dirs ++ [leaf], Pathname.IsName name) {made : FileSystem}
    (hmake : fs'.makeDirectory (s.pathOf (dirs ++ [leaf])) = .ok made) :
    ∃ dir, s.Reaches fs' dirs dir ∧ fs'.at? (dir ++ [leaf]) = none ∧
      s.Reaches made (dirs ++ [leaf]) (dir ++ [leaf]) := by
  obtain ⟨dir, name, hlast, hnone, rfl⟩ := makeDirectory_eq_ok hmake
  obtain ⟨hname, mode, hmode⟩ := isEntryName_of_locateLast hlast
  obtain ⟨-, -, hreach, rfl⟩ := (h.locateLast_pathOf hnames).1 hlast
  refine ⟨dir, hreach, hnone, ?_⟩
  have hgrown := Grown.bind hwf hmode hname hnone
  exact (hreach.of_keeps hgrown.keepsPaths).concat hname (by rw [at?_bind (by simp), if_pos rfl])

theorem locateLast_of_reaches (h : s.LeadsTo fs root)
    (hnames : ∀ name ∈ dirs ++ [leaf], Pathname.IsName name)
    (hcheck : FileSystem.checkPath (s.pathOf (dirs ++ [leaf])) = .ok ()) {dir : Position}
    (hreach : s.Reaches fs' dirs dir) :
    fs'.locateLast (s.pathOf (dirs ++ [leaf])) =
      if maxNameLength < leaf.length then .error .nameTooLong else .ok (.name dir leaf) := by
  have hleaf := hnames leaf (by simp)
  obtain ⟨mode, hwalk⟩ := hreach
  rw [locateLast, hcheck, ok_bind, s.names_pathOf hnames, h.startOf_pathOf hnames,
    ← List.append_assoc]
  simp only [List.getLast?_append, List.getLast?_singleton, Option.some_or,
    List.dropLast_concat]
  rw [hwalk, ok_bind]
  dsimp only
  rw [if_neg (by simp [Entry.isDirectory]), if_neg (by simp [hleaf.ne_dot, hleaf.ne_dotDot])]
  rfl

theorem makeDirectory_error (h : s.LeadsTo fs root)
    (hnames : ∀ name ∈ dirs ++ [leaf], Pathname.IsName name)
    (hcheck : FileSystem.checkPath (s.pathOf (dirs ++ [leaf])) = .ok ()) {dir : Position}
    (hreach : s.Reaches fs' dirs dir) {e : IoError}
    (he : fs'.makeDirectory (s.pathOf (dirs ++ [leaf])) = .error e) : e.kind ≠ .notFound := by
  rw [makeDirectory, h.locateLast_of_reaches hnames hcheck hreach] at he
  split at he
  · cases he
    decide
  · rw [ok_bind] at he
    dsimp only at he
    split at he
    · cases he
      decide
    · cases he

theorem makeDirectory_of_reaches (h : s.LeadsTo fs root)
    (hnames : ∀ name ∈ dirs ++ [leaf], Pathname.IsName name)
    (hcheck : FileSystem.checkPath (s.pathOf (dirs ++ [leaf])) = .ok ()) {pos : Position}
    (hreach : s.Reaches fs' (dirs ++ [leaf]) pos) :
    fs'.makeDirectory (s.pathOf (dirs ++ [leaf])) = .error .alreadyExists := by
  have hleaf := hnames leaf (by simp)
  obtain ⟨mode, hwalk⟩ := hreach
  rw [← List.append_assoc] at hwalk
  obtain ⟨dir, mode', links, hfront, hlast⟩ := walk_front (by simp) hwalk
  obtain ⟨hlooks, child, hchild, -⟩ := exists_of_walk_single hleaf.ne_dot hleaf.ne_dotDot hlast
  rw [makeDirectory, h.locateLast_of_reaches hnames hcheck ⟨mode', hfront⟩,
    if_neg (Nat.not_lt.2 hlooks.length_le), ok_bind]
  dsimp only
  rw [hchild]
  rfl

theorem homeless_of_blocked (h : s.LeadsTo fs₀ root)
    (hnames : ∀ name ∈ dirs ++ [leaf], Pathname.IsName name)
    (hcheck : FileSystem.checkPath (s.pathOf (dirs ++ [leaf])) = .ok ())
    (hfront : dirs ++ [leaf] <+: k.dirs) (hgrown : Grown fs₀ fs) {e : IoError}
    (he : fs.makeDirectory (s.pathOf (dirs ++ [leaf])) = .error e)
    (hblocked : ¬ (e.kind = .alreadyExists ∧
      fs.leadsToDirectory (s.pathOf (dirs ++ [leaf])) = true)) : s.Homeless k fs₀ fs := by
  refine ⟨hgrown, fun home hreach => hblocked ?_⟩
  obtain ⟨rest, hrest⟩ := hfront
  rw [← hrest] at hreach
  obtain ⟨pos, hpos⟩ := hreach.front
  rw [h.makeDirectory_of_reaches hnames hcheck hpos] at he
  cases he
  exact ⟨rfl, (h.leadsToDirectory_pathOf hnames hcheck).2 ⟨pos, hpos⟩⟩

theorem makePending_reaches (h : s.LeadsTo fs₀ root) (hwf : fs₀.WellFormed)
    (hcheck : FileSystem.checkPath (s.pathOf k.staging) = .ok ()) (hgrown : Grown fs₀ fs)
    {front rest : List Bytes} (hdirs : front ++ rest = k.dirs) {dir : Position}
    (hreach : s.Reaches fs front dir) (hnew : fs₀.at? dir = none) :
    (makePending (s.pathsBelow front rest)).Runs fs (Grown fs₀) (fun _ => s.FindsHome k fs₀)
      (fun _ => s.Homeless k fs₀) := by
  induction rest generalizing front fs dir with
  | nil =>
      rw [List.append_nil] at hdirs
      exact Op.Runs.pure ⟨hgrown, dir, hdirs ▸ hreach, Or.inr hnew⟩
  | cons name rest ih =>
      have hnext : front ++ [name] ++ rest = k.dirs := by simpa using hdirs
      have hfront : front ++ [name] <+: k.dirs := ⟨rest, hnext⟩
      have hnames : ∀ other ∈ front ++ [name], Pathname.IsName other :=
        fun other hother => k.isName_of_mem_dirs (hfront.subset hother)
      have hnewChild : fs₀.at? (dir ++ [name]) = none :=
        hwf.at?_append_of_not_directory (by simp [hnew]) (by simp)
      have hpath := h.checkPath_front hcheck hfront
      rw [pathsBelow, makePending]
      refine Op.Runs.bind _ (Op.Runs.attempt_change_ fun fs' hmake =>
        hgrown.trans (Grown.of_makeDirectory hgrown.wellFormed hmake)) ?_
      rintro result fs' (⟨rfl, hmake⟩ | ⟨e, rfl, he, rfl⟩)
      · obtain ⟨dir', hreach', -, hmade⟩ :=
          h.reaches_of_makeDirectory hgrown.wellFormed hnames hmake
        obtain rfl := hreach'.unique hreach
        exact ih (hgrown.trans (Grown.of_makeDirectory hgrown.wellFormed hmake)) hnext hmade
          hnewChild
      · apply Op.Runs.get
        rintro world hworld
        rw [hworld]
        split
        · rename_i hthere
          -- What is in the way leads to a directory, and can only be a new one.
          obtain ⟨pos, hpos⟩ := (h.leadsToDirectory_pathOf hnames hpath).1 hthere.2
          obtain ⟨child, hchild⟩ := hreach.exists_child (hnames name (by simp)) hpos
          obtain ⟨mode, rfl⟩ := Entry.isDirectory_iff.1 (hgrown.new hnewChild hchild)
          exact ih hgrown hnext (hreach.concat (hgrown.wellFormed.name hchild) hchild) hnewChild
        · rename_i hblocked
          exact Op.Runs.throw (h.homeless_of_blocked hnames hpath hfront hgrown he hblocked)

/-- Going up, nothing changes before a directory is made, and whatever was missing on the way up is
made below it. -/
theorem makeFrom_reaches (h : s.LeadsTo fs root) (hwf : fs.WellFormed)
    (hcheck : FileSystem.checkPath (s.pathOf k.staging) = .ok ()) {front rest : List Bytes}
    (hne : front ≠ []) (hdirs : front ++ rest = k.dirs)
    (hmissing : rest ≠ [] → ∀ pos, ¬ s.Reaches fs front pos) {bound : Nat}
    (hbound : front.length ≤ bound) :
    (makeFrom (s.pathsBelow front rest) ((s.pathOf front).ancestors bound)).Runs fs (Grown fs)
      (fun _ => s.FindsHome k fs) (fun _ => s.Homeless k fs) := by
  induction bound generalizing front rest with
  | zero => exact absurd (List.length_eq_zero_iff.1 (Nat.le_zero.1 hbound)) hne
  | succ bound ih =>
      obtain ⟨init, last, rfl⟩ := (List.eq_nil_or_concat' front).resolve_left hne
      have hfront : init ++ [last] <+: k.dirs := ⟨rest, hdirs⟩
      have hnames : ∀ name ∈ init ++ [last], Pathname.IsName name :=
        fun name hname => k.isName_of_mem_dirs (hfront.subset hname)
      have hpath := h.checkPath_front hcheck hfront
      rw [Pathname.ancestors, makeFrom, if_neg (h.not_topmost hnames)]
      refine Op.Runs.bind _ (Op.Runs.attempt_change_ fun fs' hmake =>
        Grown.of_makeDirectory hwf hmake) ?_
      rintro result fs' (⟨rfl, hmake⟩ | ⟨e, rfl, he, rfl⟩)
      · -- The directory is new, so whatever was pending comes below it.
        obtain ⟨dir, -, hnew, hmade⟩ := h.reaches_of_makeDirectory hwf hnames hmake
        exact h.makePending_reaches hwf hcheck (Grown.of_makeDirectory hwf hmake) hdirs hmade hnew
      · dsimp only
        split
        · rename_i hkind
          have habove : ∀ pos, ¬ s.Reaches fs' init pos :=
            fun pos hpos => h.makeDirectory_error hnames hpath hpos he hkind
          have hinit : init ≠ [] := by
            rintro rfl
            exact habove root h.reaches
          rw [h.parent?_pathOf hnames hinit]
          have hlength : init.length ≤ bound := by
            rw [List.length_append, List.length_singleton] at hbound
            omega
          exact ih hinit (by simpa using hdirs) (fun _ => habove) hlength
        · apply Op.Runs.get
          intro world hworld
          rw [hworld]
          split
          · -- A directory that is there was asked for first, as nothing is pending.
            rename_i hthere
            obtain ⟨pos, hpos⟩ := (h.leadsToDirectory_pathOf hnames hpath).1 hthere.2
            have hrest : rest = [] := by
              by_contra hrest
              exact hmissing hrest pos hpos
            subst hrest
            rw [List.append_nil] at hdirs
            exact Op.Runs.pure ⟨Grown.refl hwf, pos, hdirs ▸ hpos, Or.inl (hdirs ▸ hpos)⟩
          · rename_i hblocked
            exact Op.Runs.throw
              (h.homeless_of_blocked hnames hpath hfront (Grown.refl hwf) he hblocked)

/-- Making the directories above an object finds its home, or makes it where nothing was. -/
theorem makeDirectories_reaches (h : s.LeadsTo fs root) (hwf : fs.WellFormed)
    (hcheck : FileSystem.checkPath (s.pathOf k.staging) = .ok ()) {parent : Pathname}
    (hparent : (s.pathOf k.staging).parent? = some parent) :
    (makeDirectories parent).Runs fs (Grown fs) (fun _ => s.FindsHome k fs)
      (fun _ => s.Homeless k fs) := by
  obtain ⟨parent', hparent', hcases⟩ := h.parent?_staging k
  rw [hparent] at hparent'
  cases hparent'
  rw [makeDirectories]
  rcases hcases with ⟨hdirs, rfl⟩ | ⟨hdirs, hroot⟩
  · exact h.makeFrom_reaches hwf hcheck hdirs (List.append_nil k.dirs) (fun hne => absurd rfl hne)
      (h.length_le_bytes_pathOf fun name => k.isName_of_mem_dirs)
  · refine (h.makeFrom_root_runs hroot _).weaken (fun _ hst => hst.elim) ?_
      fun _ _ hst => hst.elim
    rintro _ st rfl
    have hreach : s.Reaches st k.dirs root := hdirs ▸ h.reaches
    exact ⟨Grown.refl hwf, root, hreach, Or.inl hreach⟩

end LeadsTo

end Store

end Depot
