import Depot.Proofs.Store.Lost
/-!
# When a write ends well

A write of an object can begin if its staging path is taken by the system and only directories are
bound on the way to it, and none in its place.  It ends well if no directory is in the place of the
object, either, and its source does not fail.  In a tidy store nothing else can go wrong.

* `Openable.makeDirectories_runs` — the directories above are made;
* `Openable.beginWriting_runs`, `Live.openable_before` — beginning;
* `Writable.save_runs`, `not_writable_save_runs` — saving.
-/

namespace Depot

open FileSystem

namespace Store

variable {s : Store} {root : Position} {k : Key} {fs₀ fs fs' : FileSystem} {w : Writing}

/-- A staging file that can be opened, once the directories above it are made. -/
structure Openable (s : Store) (root : Position) (k : Key) (fs : FileSystem) : Prop
    extends Stageable s root k fs where
  length_le : ∀ name ∈ k.staging, name.length ≤ maxNameLength
  passable : ∀ front entry, front <+: k.dirs → fs.at? (root ++ front) = some entry →
    entry.isDirectory

/-- An object that can be written. -/
structure Writable (s : Store) (root : Position) (k : Key) (fs : FileSystem) : Prop
    extends Openable s root k fs where
  replaceable : ∀ mode, fs.at? (root ++ k.names) ≠ some (.directory mode)

theorem makeFrom_there_runs {q : Pathname} (hmake : fs.makeDirectory q = .error .alreadyExists)
    (hleads : fs.leadsToDirectory q = true) (bound : Nat) :
    (makeFrom [] (q.ancestors bound)).Runs fs (fun _ => False) (fun _ st => st = fs)
      (fun _ _ => False) := by
  cases bound with
  | zero => exact Op.Runs.pure rfl
  | succ bound =>
      rw [Pathname.ancestors, makeFrom]
      split
      · exact Op.Runs.pure rfl
      · refine Op.Runs.bind _ (Op.Runs.attempt_change_ ?_) ?_
        · intro fs' hok
          rw [hmake] at hok
          cases hok
        · rintro result fs' (⟨-, hok⟩ | ⟨e, rfl, he, rfl⟩)
          · rw [hmake] at hok
            cases hok
          · rw [hmake] at he
            cases he
            dsimp only
            rw [if_neg (by decide)]
            apply Op.Runs.get
            intro world hworld
            rw [hworld, if_pos ⟨rfl, hleads⟩]
            exact Op.Runs.pure rfl

/-! ## Paths of a store -/

namespace LeadsTo

theorem bytes_pathOf_ne_nil (h : s.LeadsTo fs root) {names : List Bytes}
    (hnames : ∀ name ∈ names, Pathname.IsName name) : (s.pathOf names).bytes ≠ [] := by
  rw [pathOf, Pathname.join_ofNames h.bytes_ne_nil hnames]
  simp

theorem parent?_pathOf (h : s.LeadsTo fs root) {dirs : List Bytes} {leaf : Bytes}
    (hnames : ∀ name ∈ dirs ++ [leaf], Pathname.IsName name) (hdirs : dirs ≠ []) :
    (s.pathOf (dirs ++ [leaf])).parent? = some (s.pathOf dirs) :=
  Pathname.parent?_join_concat h.isAbsolute hdirs hnames

theorem not_topmost (h : s.LeadsTo fs root) {dirs : List Bytes} {leaf : Bytes}
    (hnames : ∀ name ∈ dirs ++ [leaf], Pathname.IsName name) :
    ¬ (s.pathOf (dirs ++ [leaf]) = .empty ∨ (s.pathOf (dirs ++ [leaf])).parent? = none) := by
  refine not_or.2 ⟨fun hempty => ?_, ?_⟩
  · exact h.bytes_pathOf_ne_nil hnames (congrArg Pathname.bytes hempty)
  · by_cases hdirs : dirs = []
    · subst hdirs
      obtain ⟨q, hparent, -⟩ := Pathname.parent?_join_single h.isAbsolute h.dot_notMem
        (hnames leaf (by simp))
      rw [pathOf, List.nil_append, hparent]
      simp
    · rw [h.parent?_pathOf hnames hdirs]
      simp

theorem length_le_bytes_pathOf (h : s.LeadsTo fs root) {names : List Bytes}
    (hnames : ∀ name ∈ names, Pathname.IsName name) :
    names.length ≤ (s.pathOf names).bytes.length + 1 := by
  have hall : (s.pathOf names).names = s.root.names ++ names :=
    Pathname.names_join_ofNames h.bytes_ne_nil hnames
  have hle := Pathname.length_names_le (s.pathOf names)
  rw [hall, List.length_append] at hle
  omega

theorem checkPath_front (h : s.LeadsTo fs root)
    (hcheck : FileSystem.checkPath (s.pathOf k.staging) = .ok ()) {front : List Bytes}
    (hfront : front <+: k.dirs) : FileSystem.checkPath (s.pathOf front) = .ok () := by
  have hnames := k.isName_staging
  obtain ⟨rest, hrest⟩ := hfront
  rw [Key.staging, ← hrest, List.append_assoc] at hnames
  have hstart := Pathname.join_ofNames_isPrefix h.bytes_ne_nil front _ hnames
  have hpath : s.pathOf (front ++ (rest ++ [k.leaf ++ stagingSuffix])) = s.pathOf k.staging := by
    rw [Key.staging, ← hrest, List.append_assoc]
  rw [← pathOf, ← pathOf, hpath] at hstart
  refine checkPath_of_isPrefix hstart (h.bytes_pathOf_ne_nil fun name hname => ?_) hcheck
  exact hnames name (List.mem_append_left _ hname)

theorem checkPath_names (h : s.LeadsTo fs root)
    (hcheck : FileSystem.checkPath (s.pathOf k.staging) = .ok ()) :
    FileSystem.checkPath (s.pathOf k.names) = .ok () := by
  refine checkPath_of_isPrefix ?_ (h.bytes_pathOf_ne_nil k.isName) hcheck
  rw [← h.stagingPath_eq k]
  exact List.prefix_append ..

theorem makeFrom_root_runs (h : s.LeadsTo fs root) {q : Pathname} (hq : s.IsRootPath q)
    (bound : Nat) :
    (makeFrom [] (q.ancestors bound)).Runs fs (fun _ => False) (fun _ st => st = fs)
      (fun _ _ => False) :=
  makeFrom_there_runs (h.makeDirectory_root hq) (h.leadsToDirectory_of_isRootPath hq) bound

end LeadsTo

theorem discarding_safe {α : Type} {target : Pathname} {op : Op StorageError α}
    {passes : FileSystem → Prop} {done : α → FileSystem → Prop}
    (h : op.Runs fs passes done fun _ _ => False) :
    (discarding target op).Runs fs passes done fun _ _ => False := by
  exact runs_discarding rfl h fun _ hst => hst.elim

namespace Openable

theorem of_staged (h : s.Openable root k fs₀) (hstaged : s.Staged root k fs₀ fs) :
    s.Openable root k fs where
  checkPath := h.checkPath
  not_directory := by
    intro mode hmode
    rcases hstaged.footprint.spot (List.mem_singleton_self _) hmode with hbefore | ⟨id, hid⟩
    · exact h.not_directory mode hbefore
    · cases hid
  length_le := h.length_le
  passable := by
    intro front entry hfront he
    have hspot : root ++ front ∉ [root ++ k.staging] := by
      rw [List.mem_singleton, List.append_cancel_left_eq]
      rintro rfl
      have hlength := hfront.length_le
      rw [Key.staging, List.length_append, List.length_singleton] at hlength
      omega
    cases hbefore : fs₀.at? (root ++ front) with
    | none =>
        obtain ⟨-, rfl⟩ := hstaged.footprint.new hspot hbefore he
        rfl
    | some entry' =>
        rw [hstaged.footprint.kept hspot hbefore] at he
        cases he
        exact h.passable front entry hfront hbefore

/-! ## The directories above -/

/-- What comes of making one of the directories above an object. -/
inductive Made (s : Store) (root : Position) (front : List Bytes) (fs : FileSystem) : Prop
  | made (fs' : FileSystem) (hok : fs.makeDirectory (s.pathOf front) = .ok fs')
    (mode : Nat) (now : fs'.at? (root ++ front) = some (.directory mode))
  | there (herror : fs.makeDirectory (s.pathOf front) = .error .alreadyExists)
    (leads : fs.leadsToDirectory (s.pathOf front)) (mode : Nat)
    (before : fs.at? (root ++ front) = some (.directory mode))
  | orphan (herror : fs.makeDirectory (s.pathOf front) = .error .noEntry)
    (missing : fs.at? (root ++ front.dropLast) = none)

theorem makeDirectory_made (h : s.Openable root k fs) (htidy : s.Tidy fs root)
    {front : List Bytes} (hne : front ≠ []) (hfront : front <+: k.dirs) :
    Made s root front fs := by
  have hcheck := htidy.leadsTo.checkPath_front h.checkPath hfront
  obtain ⟨dirs, leaf, rfl⟩ := (List.eq_nil_or_concat' front).resolve_left hne
  have hnames : ∀ name ∈ dirs ++ [leaf], Pathname.IsName name :=
    fun name hname => k.isName_of_mem_dirs (hfront.subset hname)
  have hstaging : ∀ name ∈ dirs ++ [leaf], name.length ≤ maxNameLength :=
    fun name hname => h.length_le name (List.mem_append_left _ (hfront.subset hname))
  have hdirs : dirs <+: k.dirs := (List.prefix_append ..).trans hfront
  cases hparent : fs.at? (root ++ dirs) with
  | none =>
      refine .orphan ?_ (by rw [List.dropLast_concat, hparent])
      have hlast : fs.locateLast (s.pathOf (dirs ++ [leaf])) = .error .noEntry :=
        htidy.locateLast_of_missing hnames hcheck
          (fun name hname => hstaging name (List.mem_append_left _ hname))
          (fun front entry hstart he => h.passable front entry (hstart.trans hdirs) he) hparent
      rw [makeDirectory, hlast]
      rfl
  | some parent =>
      obtain ⟨mode, rfl⟩ := Entry.isDirectory_iff.1 (h.passable dirs parent hdirs hparent)
      have hlast := (htidy.locateLast_pathOf hnames).2
        ⟨hcheck, hstaging leaf (by simp), ⟨mode, hparent⟩, rfl⟩
      cases he : fs.at? (root ++ (dirs ++ [leaf])) with
      | none =>
          refine .made (fs.bind (root ++ dirs ++ [leaf]) (.directory directoryMode)) ?_
            directoryMode ?_
          · rw [makeDirectory, hlast, ok_bind]
            dsimp only
            rw [List.append_assoc, he]
            rfl
          · rw [at?_bind (by simp), if_pos (List.append_assoc ..).symm]
      | some entry =>
          obtain ⟨mode', rfl⟩ := Entry.isDirectory_iff.1 (h.passable _ entry hfront he)
          refine .there ?_ ?_ mode' he
          · rw [makeDirectory, hlast, ok_bind]
            dsimp only
            rw [List.append_assoc, he]
            rfl
          · rw [leadsToDirectory, (htidy.stat_pathOf hnames).2 ⟨hcheck, he⟩]
            rfl

end Openable

/-- The paths of the directories below one of them, from there down. -/
def pathsBelow (s : Store) (front : List Bytes) : List Bytes → List Pathname
  | [] => []
  | name :: rest => s.pathOf (front ++ [name]) :: s.pathsBelow (front ++ [name]) rest

/-- The directory that an object is to stand in is there, and nothing but the staging path was
touched. -/
def HomeMade (s : Store) (root : Position) (k : Key) (fs fs' : FileSystem) : Prop :=
  s.Staged root k fs fs' ∧ ∃ mode, fs'.at? (root ++ k.dirs) = some (.directory mode)

theorem HomeMade.after (h : s.HomeMade root k fs fs') (hstaged : s.Staged root k fs₀ fs) :
    s.HomeMade root k fs₀ fs' :=
  ⟨hstaged.trans h.1, h.2⟩

/-- What is known when the system was asked for a directory above an object, whatever it said. -/
def Asked (s : Store) (root : Position) (k : Key) (front : List Bytes) (fs : FileSystem)
    (result : Except IoError Unit) (fs' : FileSystem) : Prop :=
  s.Staged root k fs fs' ∧ match result with
    | .ok () => ∃ mode, fs'.at? (root ++ front) = some (.directory mode)
    | .error e =>
      (e = .alreadyExists ∧ fs'.leadsToDirectory (s.pathOf front) = true ∧
        ∃ mode, fs'.at? (root ++ front) = some (.directory mode)) ∨
      (e = .noEntry ∧ fs.at? (root ++ front.dropLast) = none)

namespace Openable

theorem attempt_makeDirectory_asked (h : s.Openable root k fs) (htidy : s.Tidy fs root)
    {front : List Bytes} (hne : front ≠ []) (hfront : front <+: k.dirs) :
    (Op.attempt (Op.change_ (·.makeDirectory (s.pathOf front))) :
      Op IoError (Except IoError Unit)).Runs fs (fun _ => True) (s.Asked root k front fs)
        (fun _ _ => False) := by
  have hmade := h.makeDirectory_made htidy hne hfront
  apply Op.Runs.attempt
  apply Op.Runs.change_
  · intro fs' hok
    refine ⟨trivial, Staged.makeDirectory htidy hne hfront hok, ?_⟩
    cases hmade with
    | made fs'' hok' mode now =>
        rw [hok] at hok'
        cases hok'
        exact ⟨mode, now⟩
    | there herror =>
        rw [hok] at herror
        cases herror
    | orphan herror =>
        rw [hok] at herror
        cases herror
  · intro e he
    refine ⟨Staged.refl htidy, ?_⟩
    cases hmade with
    | made fs'' hok =>
        rw [he] at hok
        cases hok
    | there herror leads mode before =>
        rw [he] at herror
        cases herror
        exact Or.inl ⟨rfl, leads, mode, before⟩
    | orphan herror missing =>
        rw [he] at herror
        cases herror
        exact Or.inr ⟨rfl, missing⟩

theorem makePending_runs (h : s.Openable root k fs) (htidy : s.Tidy fs root)
    {front rest : List Bytes} (hdirs : front ++ rest = k.dirs) {mode : Nat}
    (hfront : fs.at? (root ++ front) = some (.directory mode)) :
    (makePending (s.pathsBelow front rest)).Runs fs (fun _ => True)
      (fun _ => s.HomeMade root k fs) (fun _ _ => False) := by
  induction rest generalizing front fs mode with
  | nil =>
      rw [List.append_nil] at hdirs
      exact Op.Runs.pure ⟨Staged.refl htidy, mode, hdirs ▸ hfront⟩
  | cons name rest ih =>
      have hnext : front ++ [name] ++ rest = k.dirs := by simpa using hdirs
      -- Wherever the next directory is there, the rest is made below it.
      have hgo : ∀ {st : FileSystem} {mode : Nat}, s.Staged root k fs st →
          st.at? (root ++ (front ++ [name])) = some (.directory mode) →
          (makePending (s.pathsBelow (front ++ [name]) rest)).Runs st (fun _ => True)
            (fun _ => s.HomeMade root k fs) (fun _ _ => False) :=
        fun hstaged hmode => (ih (h.of_staged hstaged) hstaged.tidy hnext hmode).weaken
          (fun _ hst => hst) (fun _ _ hst => hst.after hstaged) (fun _ _ hst => hst)
      rw [pathsBelow, makePending]
      refine Op.Runs.bind _ (h.attempt_makeDirectory_asked htidy (by simp) ⟨rest, hnext⟩) ?_
      rintro result fs' ⟨hstaged, hasked⟩
      cases result with
      | ok u =>
          obtain ⟨mode', hmode'⟩ := hasked
          exact hgo hstaged hmode'
      | error e =>
          apply Op.Runs.get
          intro world hworld
          rcases hasked with ⟨rfl, hleads, mode', hmode'⟩ | ⟨-, hmissing⟩
          · rw [hworld, if_pos ⟨rfl, hleads⟩]
            exact hgo hstaged hmode'
          · rw [List.dropLast_concat, hfront] at hmissing
            cases hmissing

theorem makeFrom_runs (h : s.Openable root k fs) (htidy : s.Tidy fs root) {front rest : List Bytes}
    (hne : front ≠ []) (hdirs : front ++ rest = k.dirs) {bound : Nat}
    (hbound : front.length ≤ bound) :
    (makeFrom (s.pathsBelow front rest) ((s.pathOf front).ancestors bound)).Runs fs
      (fun _ => True) (fun _ => s.HomeMade root k fs) (fun _ _ => False) := by
  induction bound generalizing front rest fs with
  | zero => exact absurd (List.length_eq_zero_iff.1 (Nat.le_zero.1 hbound)) hne
  | succ bound ih =>
      obtain ⟨init, last, rfl⟩ := (List.eq_nil_or_concat' front).resolve_left hne
      have hfront : init ++ [last] <+: k.dirs := ⟨rest, hdirs⟩
      have hnames : ∀ name ∈ init ++ [last], Pathname.IsName name :=
        fun name hname => k.isName_of_mem_dirs (hfront.subset hname)
      have hgo : ∀ {st : FileSystem} {mode : Nat}, s.Staged root k fs st →
          st.at? (root ++ (init ++ [last])) = some (.directory mode) →
          (makePending (s.pathsBelow (init ++ [last]) rest)).Runs st (fun _ => True)
            (fun _ => s.HomeMade root k fs) (fun _ _ => False) :=
        fun hstaged hmode =>
          ((h.of_staged hstaged).makePending_runs hstaged.tidy hdirs hmode).weaken
            (fun _ hst => hst) (fun _ _ hst => hst.after hstaged) (fun _ _ hst => hst)
      rw [Pathname.ancestors, makeFrom, if_neg (htidy.leadsTo.not_topmost hnames)]
      refine Op.Runs.bind _ (h.attempt_makeDirectory_asked htidy hne hfront) ?_
      rintro result fs' ⟨hstaged, hasked⟩
      cases result with
      | ok u =>
          obtain ⟨mode, hmode⟩ := hasked
          exact hgo hstaged hmode
      | error e =>
          dsimp only
          rcases hasked with ⟨rfl, hleads, mode, hmode⟩ | ⟨rfl, hmissing⟩
          · rw [if_neg (by decide)]
            apply Op.Runs.get
            intro world hworld
            rw [hworld, if_pos ⟨rfl, hleads⟩]
            exact hgo hstaged hmode
          · rw [if_pos (by decide)]
            rw [List.dropLast_concat] at hmissing
            have hinit : init ≠ [] := by
              rintro rfl
              obtain ⟨mode, hmode⟩ := htidy.leadsTo.at?_root
              rw [List.append_nil, hmode] at hmissing
              cases hmissing
            rw [htidy.leadsTo.parent?_pathOf hnames hinit]
            have hlength : init.length ≤ bound := by
              rw [List.length_append, List.length_singleton] at hbound
              omega
            exact (ih (h.of_staged hstaged) hstaged.tidy hinit (by simpa using hdirs)
              hlength).weaken (fun _ hst => hst) (fun _ _ hst => hst.after hstaged)
                (fun _ _ hst => hst)

theorem makeDirectories_runs (h : s.Openable root k fs) (htidy : s.Tidy fs root)
    {parent : Pathname} (hparent : (s.pathOf k.staging).parent? = some parent) :
    (makeDirectories parent).Runs fs (fun _ => True) (fun _ => s.HomeMade root k fs)
      (fun _ _ => False) := by
  obtain ⟨parent', hparent', hcases⟩ := htidy.leadsTo.parent?_staging k
  rw [hparent] at hparent'
  cases hparent'
  rw [makeDirectories]
  rcases hcases with ⟨hdirs, rfl⟩ | ⟨hdirs, hroot⟩
  · exact h.makeFrom_runs htidy hdirs (List.append_nil k.dirs)
      (htidy.leadsTo.length_le_bytes_pathOf fun name => k.isName_of_mem_dirs)
  · refine (htidy.leadsTo.makeFrom_root_runs hroot _).weaken (fun _ _ => trivial) ?_
      fun _ _ hst => hst
    rintro _ st rfl
    obtain ⟨mode, hmode⟩ := htidy.leadsTo.at?_root
    exact ⟨Staged.refl htidy, mode, by rw [hdirs, List.append_nil, hmode]⟩

/-! ## Beginning -/

theorem openStaging_runs (h : s.Openable root k fs) (htidy : s.Tidy fs root) :
    (openStaging (s.pathOf k.names)).Runs fs (fun _ => True) (fun _ _ => True)
      (fun _ _ => False) := by
  obtain ⟨parent, hparent, -⟩ := htidy.leadsTo.parent?_staging k
  rw [openStaging_of_parent (htidy.stagingPath_eq k) hparent]
  refine Op.Runs.bind (fun _ => s.HomeMade root k fs) ?_ ?_
  · exact Op.Runs.mapError (h.makeDirectories_runs htidy hparent)
  · rintro _ fs' ⟨hstaged, mode, hmode⟩
    have hopen := h.of_staged hstaged
    obtain ⟨created, hcreated⟩ := hstaged.tidy.create_ok k.isName_staging h.checkPath
      (h.length_le _ (by simp [Key.staging])) hmode hopen.not_directory
    refine runs_createStaging (hstaged.tidy.stagingPath_eq k)
      (fun _ _ _ => ⟨trivial, fun _ _ => ⟨trivial, trivial⟩⟩) fun e he => ?_
    rw [Key.staging, hcreated] at he
    cases he

theorem beginWriting_runs (h : s.Openable root k fs) (htidy : s.Tidy fs root) :
    (beginWriting (s.pathOf k.names)).Runs fs (s.Staged root k fs)
      (fun w => s.Live root k fs w []) (fun _ _ => False) :=
  discarding_safe (((h.openStaging_runs htidy).and (Store.openStaging_runs htidy)).weaken
    (fun _ hst => hst.2) (fun _ _ hst => hst.2) fun _ _ hst => hst.1)

end Openable

theorem Live.openable_before {bytes : Bytes} (h : s.Live root k fs₀ w bytes fs) :
    s.Openable root k fs₀ where
  toStageable := h.stageable_before
  length_le := by
    obtain ⟨id, time, -, hid, -⟩ := h.file
    exact fun name hname => (h.tidy.wellFormed.names_of_append hid name hname).length_le
  passable := by
    intro front entry hfront he
    obtain ⟨id, time, -, hid, -⟩ := h.file
    obtain ⟨rest, hrest⟩ := hfront
    rw [Key.staging, ← hrest, List.append_assoc, ← List.append_assoc] at hid
    obtain ⟨mode, hmode⟩ := h.tidy.wellFormed.directory_of_append (by simp) hid
    have hspot : root ++ front ∉ [root ++ k.staging] := by
      rw [List.mem_singleton, List.append_cancel_left_eq, Key.staging, ← hrest]
      intro heq
      have hlength := congrArg List.length heq
      simp at hlength
    rw [h.footprint.kept hspot he] at hmode
    cases hmode
    rfl

/-! ## Saving -/

theorem Live.publish_safe {bytes : Bytes} (h₀ : s.Tidy fs₀ root)
    (h : s.Live root k fs₀ w bytes fs)
    (hreplaceable : ∀ mode, fs.at? (root ++ k.names) ≠ some (.directory mode)) :
    w.publish.Runs fs (fun _ => True) (fun _ => s.Published root k fs₀ bytes)
      (fun _ _ => False) := by
  obtain ⟨id, time, hhandle, hid, hf⟩ := h.file
  have hcheck := h.tidy.leadsTo.checkPath_names h.checkPath
  have hlength : k.leaf.length ≤ maxNameLength := by
    have hstaging := h.openable_before.length_le (k.leaf ++ stagingSuffix) (by simp [Key.staging])
    rw [List.length_append] at hstaging
    omega
  obtain ⟨renamed, hrenamed⟩ := h.tidy.rename_ok k.isName_staging k.isName k.leaf_ne h.checkPath
    hcheck hlength hid hreplaceable
  rw [Writing.publish, h.target, h₀.stagingPath_eq]
  refine Op.Runs.bind (fun _ => s.Published root k fs₀ bytes) (discarding_safe ?_) ?_
  · refine Op.Runs.bind (fun _ st => st = fs) ?_ ?_
    · apply Op.Runs.mapError
      apply Op.Runs.query
      · exact fun _ _ => rfl
      · intro e he
        rw [hhandle] at he
        cases he
    · rintro _ st rfl
      apply Op.Runs.mapError
      apply Op.Runs.change_
      · exact fun fs' hrename => ⟨trivial, h.publish hrename⟩
      · intro e he
        rw [Key.staging, Key.names, hrenamed] at he
        cases he
  · intro _ st hst
    exact Op.Runs.bind (fun _ => s.Published root k fs₀ bytes) (Op.Runs.report hst)
      fun _ _ hst' => Op.Runs.pure hst'

theorem Live.endSave_safe {bytes : Bytes} (h₀ : s.Tidy fs₀ root)
    (h : s.Live root k fs₀ w bytes fs)
    (hreplaceable : ∀ mode, fs.at? (root ++ k.names) ≠ some (.directory mode)) (name : String)
    (expected : Nat) :
    (endSave name expected w).Runs fs (fun _ => True) (fun _ => s.Published root k fs₀ bytes)
      (fun _ _ => False) := by
  rw [endSave]
  refine Op.Runs.bind _ (h.publish_safe h₀ hreplaceable) ?_
  intro written st hst
  rw [reportSize]
  split
  · exact Op.Runs.report hst
  · exact Op.Runs.pure hst

theorem Writable.of_staged (h : s.Writable root k fs₀) (hstaged : s.Staged root k fs₀ fs) :
    s.Writable root k fs where
  toOpenable := h.toOpenable.of_staged hstaged
  replaceable := by
    intro mode hmode
    have hspot : root ++ k.names ∉ [root ++ k.staging] := by
      rw [List.mem_singleton]
      exact ne_staging_of_isObjectPosition _ (isObjectPosition_names k)
    cases hbefore : fs₀.at? (root ++ k.names) with
    | none => exact k.not_isAbove_names root (hstaged.footprint.new hspot hbefore hmode).1
    | some entry =>
        rw [hstaged.footprint.kept hspot hbefore] at hmode
        cases hmode
        exact h.replaceable mode hbefore

theorem Writable.save_runs (h : s.Writable root k fs) (htidy : s.Tidy fs root) {name : String}
    (hname : s.resolve name = .ok (s.pathOf k.names)) (source : List Delivery) (expected : Nat) :
    (s.save name source expected).Runs fs (fun _ => True)
      (fun _ => s.Delivered root k fs (payload source)) (fun _ _ => payload source = none) := by
  rw [save, saveFrom]
  refine Op.Runs.bind (fun w => s.Live root k fs w []) ?_ ?_
  · rw [beginSave, hname]
    apply Op.Runs.lift_ok
    exact (h.toOpenable.beginWriting_runs htidy).weaken (fun _ _ => trivial) (fun _ _ hst => hst)
      fun _ _ hst => hst.elim
  · intro w fs' hlive
    apply Op.Runs.get
    rintro world rfl
    refine Op.Runs.bind _ ((hlive.receiveAll_runs htidy source).weaken (fun _ _ => trivial)
      (fun _ _ hst => hst) fun _ _ hst => hst.1) ?_
    rintro w' st ⟨bytes, hbytes, hlive'⟩
    have hwritable := h.of_staged hlive'.toStaged
    exact (hlive'.endSave_safe htidy hwritable.replaceable name expected).weaken (fun _ hst => hst)
      (fun _ _ hst => ⟨bytes, hbytes, hst⟩) fun _ _ hst => hst.elim

theorem Published.replaceable_before {bytes : Bytes} (h : s.Published root k fs₀ bytes fs)
    (mode : Nat) : fs₀.at? (root ++ k.names) ≠ some (.directory mode) := by
  intro hmode
  obtain ⟨id, time, hid, -⟩ := h.object
  rw [h.footprint.keepsPaths _ _ hmode (Or.inl rfl)] at hid
  cases hid

theorem not_writable_save_runs (h : ¬ s.Writable root k fs) (htidy : s.Tidy fs root)
    {name : String} (hname : s.resolve name = .ok (s.pathOf k.names)) (source : List Delivery)
    (expected : Nat) :
    (s.save name source expected).Runs fs (fun _ => True) (fun _ _ => False)
      (fun _ st => s.Staged root k fs st ∧ s.Cleared k st) := by
  rw [save, saveFrom]
  refine Op.Runs.bind _ ((beginSave_runs htidy hname).passing fun _ _ => trivial) ?_
  intro w fs' hlive
  refine hlive.fill_runs (fun _ => source) htidy rfl (fun _ _ => trivial) ?_
  intro w' bytes st hbytes hlive'
  refine (hlive'.endSave_runs htidy name expected).weaken (fun _ _ => trivial) ?_
    (fun _ _ hst => hst)
  exact fun _ _ hst => h ⟨hlive.openable_before, hst.replaceable_before⟩

end Store

end Depot
