import Depot.FileSystem.Content
import Depot.Proofs.FileSystem.Located
import Depot.Proofs.Store.ObjectKey
/-!
# Paths of a tidy store

A store is tidy when its root is a directory with only directories and singly linked regular files
below it.  What the system does with a path of such a store can then be said with positions: the
path leads to the names below the root, or nowhere.

* `endsInName_pathOf` — the path of an object ends in its last name;
* `LeadsTo.of_keeps` — the root of a store stays where it is while directories and links are kept;
* `Tidy.locate_pathOf` — walking to an object;
* `Tidy.stat_pathOf`, `Tidy.eq_of_makeDirectory`, `Tidy.unlink_eq_ok`, `Tidy.eq_of_create`,
  `Tidy.entry_of_rename`, `Tidy.eq_of_rename` — what an operation on a path of the store does
  when it succeeds;
* `Tidy.create_ok`, `Tidy.rename_file`, `Tidy.rename_ok` — when opening and renaming a file
  succeed.
-/

namespace Depot

open FileSystem

namespace Store

variable {s : Store} {fs : FileSystem} {root : Position}

/-! ## Paths of a store -/

theorem names_pathOf (s : Store) {names : List Bytes}
    (h : ∀ name ∈ names, Pathname.IsName name) :
    (s.pathOf names).names = s.root.names ++ names := by
  by_cases hroot : s.root.bytes = []
  · have hpath : s.pathOf names = .ofNames names := by
      rw [pathOf, Pathname.join, Pathname.not_isAbsolute_ofNames h, if_neg (by simp),
        if_pos (Or.inl hroot), hroot]
      rfl
    have hnone : s.root.names = [] := by
      rw [Pathname.names, Pathname.pieces, hroot]
      rfl
    rw [hpath, hnone, Pathname.names_ofNames h, List.nil_append]
  · exact Pathname.names_join_ofNames hroot h

theorem not_endsInSlash_pathOf (s : Store) {dirs : List Bytes} {leaf : Bytes}
    (hnames : ∀ name ∈ dirs ++ [leaf], Pathname.IsName name) :
    (s.pathOf (dirs ++ [leaf])).endsInSlash = false := by
  by_cases hroot : s.root.bytes = []
  · have hbytes : (s.pathOf (dirs ++ [leaf])).bytes =
        [Pathname.slash].intercalate (dirs ++ [leaf]) := by
      rw [pathOf, Pathname.join, Pathname.not_isAbsolute_ofNames hnames, if_neg (by simp),
        if_pos (Or.inl hroot), hroot]
      rfl
    have hleaf := hnames leaf (by simp)
    rw [Pathname.endsInSlash, hbytes, Pathname.getLast?_intercalate hleaf.ne_nil]
    rw [beq_eq_false_iff_ne]
    exact fun hlast => hleaf.slash_notMem (List.mem_of_getLast? hlast)
  · exact Pathname.not_endsInSlash_join hroot hnames

theorem endsInName_pathOf (s : Store) {dirs : List Bytes} {leaf : Bytes}
    (hnames : ∀ name ∈ dirs ++ [leaf], Pathname.IsName name) :
    EndsInName (s.pathOf (dirs ++ [leaf])) (s.root.names ++ dirs) leaf where
  names_eq := by rw [s.names_pathOf hnames, List.append_assoc]
  isName := hnames leaf (by simp)
  bare := s.not_endsInSlash_pathOf hnames

/-- The path of the root with nothing below it asks for a directory, so a last link is followed. -/
theorem walk_pathOf_nil (hroot : s.root.bytes ≠ []) {mode : Nat}
    (hwalk : fs.walk true linkLimit [] s.root.names = .ok (.occupied root (.directory mode)))
    (follow : Bool) :
    fs.walk follow linkLimit [] (s.pathOf []).steps = .ok (.occupied root (.directory mode)) := by
  have hnone : ∀ name ∈ ([] : Position), Pathname.IsName name := by simp
  have hends : (s.pathOf []).endsInSlash = true := by
    rw [pathOf, Pathname.join_ofNames hroot hnone]
    simp [Pathname.endsInSlash]
  have hnames : (s.pathOf []).names = s.root.names := by
    rw [pathOf, Pathname.names_join_ofNames hroot hnone, List.append_nil]
  rw [Pathname.steps, hends, hnames]
  by_cases hnil : s.root.names = []
  · rw [hnil, walk_nil (at?_root fs)] at hwalk
    rw [hnil, if_neg (by simp), walk_nil (at?_root fs), hwalk]
  · obtain ⟨links, hresume⟩ := walk_resume hwalk
    have hat := walk_occupied hwalk
    rw [if_pos (by simp [hnil]), hresume [Pathname.dot] (by simp), walk_dot hat, walk_nil hat]

/-- The root of a store is a directory at a position.  The path has been made absolute and free of
dots, and does not end in a link. -/
structure LeadsTo (s : Store) (fs : FileSystem) (root : Position) : Prop where
  isAbsolute : s.root.isAbsolute
  dot_notMem : Pathname.dot ∉ s.root.names
  isDirectory : ∃ mode, fs.locateEntry false s.root = .ok (root, .directory mode)

namespace LeadsTo

theorem bytes_ne_nil (h : s.LeadsTo fs root) : s.root.bytes ≠ [] := by
  intro hnil
  have habs := h.isAbsolute
  simp [Pathname.isAbsolute, hnil] at habs

theorem of_keeps {fs' : FileSystem} (h : s.LeadsTo fs root) (hkeep : fs.KeepsPaths fs') :
    s.LeadsTo fs' root where
  isAbsolute := h.isAbsolute
  dot_notMem := h.dot_notMem
  isDirectory := by
    obtain ⟨mode, hmode⟩ := h.isDirectory
    rw [locateEntry_eq_ok, locate_eq_ok] at hmode
    refine ⟨mode, ?_⟩
    rw [locateEntry_eq_ok, locate_eq_ok]
    refine ⟨hmode.1, ?_⟩
    have hwalk := walk_of_keeps hkeep (fun hfollow => hfollow) hmode.2
    rwa [startOf, if_pos h.isAbsolute] at hwalk ⊢

theorem checkPath_root (h : s.LeadsTo fs root) : checkPath s.root = .ok () := by
  obtain ⟨mode, hmode⟩ := h.isDirectory
  exact (locate_eq_ok.1 (locateEntry_eq_ok.1 hmode)).1

theorem walk_steps (h : s.LeadsTo fs root) :
    ∃ mode, fs.walk true linkLimit [] s.root.steps = .ok (.occupied root (.directory mode)) := by
  obtain ⟨mode, hmode⟩ := h.isDirectory
  rw [locateEntry_eq_ok, locate_eq_ok, startOf, if_pos h.isAbsolute] at hmode
  exact ⟨mode, walk_of_keeps (KeepsPaths.refl fs) (fun hfollow => by cases hfollow) hmode.2⟩

theorem walk_names (h : s.LeadsTo fs root) :
    ∃ mode, fs.walk true linkLimit [] s.root.names = .ok (.occupied root (.directory mode)) := by
  obtain ⟨mode, hwalk⟩ := h.walk_steps
  exact ⟨mode, walk_names_of_steps hwalk⟩

theorem walk_pathOf_nil (h : s.LeadsTo fs root) (follow : Bool) :
    ∃ mode, fs.walk follow linkLimit [] (s.pathOf []).steps =
      .ok (.occupied root (.directory mode)) := by
  obtain ⟨mode, hwalk⟩ := h.walk_names
  exact ⟨mode, Store.walk_pathOf_nil h.bytes_ne_nil hwalk follow⟩

theorem at?_root (h : s.LeadsTo fs root) : ∃ mode, fs.at? root = some (.directory mode) := by
  obtain ⟨mode, hwalk⟩ := h.walk_steps
  exact ⟨mode, walk_occupied hwalk⟩

end LeadsTo

/-- The root of a store is a directory, below it are only directories and singly linked regular
files, and the file system is a tree. -/
structure Tidy (s : Store) (fs : FileSystem) (root : Position) : Prop where
  wellFormed : fs.WellFormed
  leadsTo : s.LeadsTo fs root
  plain : fs.PlainBelow root

namespace Tidy

variable {dirs : List Bytes} {leaf : Bytes} {names : List Bytes}

theorem startOf_pathOf (h : s.Tidy fs root) (hnames : ∀ name ∈ names, Pathname.IsName name) :
    fs.startOf (s.pathOf names) = [] := by
  have habs := Pathname.isAbsolute_join_ofNames h.leadsTo.bytes_ne_nil hnames
  rw [startOf, pathOf, habs, if_pos h.leadsTo.isAbsolute]

theorem locate_pathOf (h : s.Tidy fs root) {follow : Bool} {place : Place}
    (hnames : ∀ name ∈ dirs ++ [leaf], Pathname.IsName name) :
    fs.locate follow (s.pathOf (dirs ++ [leaf])) = .ok place ↔
      checkPath (s.pathOf (dirs ++ [leaf])) = .ok () ∧
        fs.straight root (dirs ++ [leaf]) = .ok place := by
  rw [locate_eq_ok, h.startOf_pathOf hnames, pathOf,
    Pathname.steps_join_ofNames h.leadsTo.bytes_ne_nil hnames]
  obtain ⟨mode, hwalk⟩ := h.leadsTo.walk_names
  obtain ⟨links, hresume⟩ := walk_resume hwalk
  rw [hresume (dirs ++ [leaf]) (by simp), walk_eq_straight h.plain follow links hnames]

theorem locate_occupied_iff (h : s.Tidy fs root) {follow : Bool} {pos : Position} {entry : Entry}
    (hnames : ∀ name ∈ dirs ++ [leaf], Pathname.IsName name) :
    fs.locate follow (s.pathOf (dirs ++ [leaf])) = .ok (.occupied pos entry) ↔
      checkPath (s.pathOf (dirs ++ [leaf])) = .ok () ∧ pos = root ++ (dirs ++ [leaf]) ∧
        fs.at? (root ++ (dirs ++ [leaf])) = some entry := by
  rw [h.locate_pathOf hnames, straight_eq_occupied_iff h.wellFormed]

theorem stat_pathOf (h : s.Tidy fs root) {entry : Entry}
    (hnames : ∀ name ∈ dirs ++ [leaf], Pathname.IsName name) :
    fs.stat (s.pathOf (dirs ++ [leaf])) = .ok entry ↔
      checkPath (s.pathOf (dirs ++ [leaf])) = .ok () ∧
        fs.at? (root ++ (dirs ++ [leaf])) = some entry := by
  rw [stat_eq_ok]
  simp only [h.locate_occupied_iff hnames]
  constructor
  · rintro ⟨pos, hcheck, -, he⟩
    exact ⟨hcheck, he⟩
  · rintro ⟨hcheck, he⟩
    exact ⟨_, hcheck, rfl, he⟩

theorem linkStat_pathOf (h : s.Tidy fs root) {entry : Entry}
    (hnames : ∀ name ∈ dirs ++ [leaf], Pathname.IsName name) :
    fs.linkStat (s.pathOf (dirs ++ [leaf])) = .ok entry ↔
      checkPath (s.pathOf (dirs ++ [leaf])) = .ok () ∧
        fs.at? (root ++ (dirs ++ [leaf])) = some entry := by
  rw [linkStat_eq_ok]
  simp only [h.locate_occupied_iff hnames]
  constructor
  · rintro ⟨pos, hcheck, -, he⟩
    exact ⟨hcheck, he⟩
  · rintro ⟨hcheck, he⟩
    exact ⟨_, hcheck, rfl, he⟩

theorem walk_dirs (h : s.Tidy fs root) (hdirs : ∀ name ∈ dirs, Pathname.IsName name)
    {pos : Position} {entry : Entry} :
    fs.walk true linkLimit [] (s.root.names ++ dirs) = .ok (.occupied pos entry) ↔
      pos = root ++ dirs ∧ fs.at? (root ++ dirs) = some entry := by
  obtain ⟨mode, hwalk⟩ := h.leadsTo.walk_names
  by_cases hnil : dirs = []
  · rw [hnil, List.append_nil, List.append_nil, hwalk, walk_occupied hwalk]
    simp [eq_comm]
  · obtain ⟨links, hresume⟩ := walk_resume hwalk
    rw [hresume dirs hnil, walk_eq_straight h.plain true links hdirs,
      straight_eq_occupied_iff h.wellFormed]

theorem locateLast_pathOf (h : s.Tidy fs root) {last : LastName}
    (hnames : ∀ name ∈ dirs ++ [leaf], Pathname.IsName name) :
    fs.locateLast (s.pathOf (dirs ++ [leaf])) = .ok last ↔
      checkPath (s.pathOf (dirs ++ [leaf])) = .ok () ∧ leaf.length ≤ maxNameLength ∧
        (∃ mode, fs.at? (root ++ dirs) = some (.directory mode)) ∧
          last = .name (root ++ dirs) leaf := by
  have hleaf := hnames leaf (by simp)
  have hdirs : ∀ name ∈ dirs, Pathname.IsName name :=
    fun name hname => hnames name (by simp [hname])
  have hwalk (pos : Position) (entry : Entry) := @walk_dirs s fs root dirs h hdirs pos entry
  have hall : (s.pathOf (dirs ++ [leaf])).names = s.root.names ++ dirs ++ [leaf] := by
    rw [pathOf, Pathname.names_join_ofNames h.leadsTo.bytes_ne_nil hnames, List.append_assoc]
  rw [locateLast, h.startOf_pathOf hnames, hall, bind_eq_ok]
  simp only [List.getLast?_append, List.getLast?_singleton, Option.some_or, List.dropLast_concat]
  constructor
  · rintro ⟨u, hcheck, hlast⟩
    obtain ⟨place, hplace, hlast⟩ := bind_eq_ok.1 hlast
    cases place with
    | vacant dir name => cases hlast
    | occupied pos entry =>
        obtain ⟨rfl, he⟩ := (hwalk _ _).1 hplace
        dsimp only at hlast
        split at hlast
        · cases hlast
        rename_i hdirectory
        rw [if_neg (by simp [hleaf.ne_dot, hleaf.ne_dotDot])] at hlast
        split at hlast
        · cases hlast
        obtain ⟨mode, rfl⟩ := Entry.isDirectory_iff.1 (by simpa using hdirectory)
        exact ⟨hcheck, by omega, ⟨mode, he⟩, (Except.ok.inj hlast).symm⟩
  · rintro ⟨hcheck, hlength, ⟨mode, hmode⟩, rfl⟩
    refine ⟨(), hcheck, ?_⟩
    rw [(hwalk _ _).2 ⟨rfl, hmode⟩, ok_bind]
    dsimp only
    rw [if_neg (by simp [Entry.isDirectory]), if_neg (by simp [hleaf.ne_dot, hleaf.ne_dotDot]),
      if_neg (by omega)]
    rfl

theorem locateLast_of_missing (h : s.Tidy fs root)
    (hnames : ∀ name ∈ dirs ++ [leaf], Pathname.IsName name)
    (hcheck : checkPath (s.pathOf (dirs ++ [leaf])) = .ok ())
    (hlength : ∀ name ∈ dirs, name.length ≤ maxNameLength)
    (hway : ∀ front entry, front <+: dirs → fs.at? (root ++ front) = some entry →
      entry.isDirectory)
    (hnone : fs.at? (root ++ dirs) = none) :
    fs.locateLast (s.pathOf (dirs ++ [leaf])) = .error .noEntry := by
  have hdirs : ∀ name ∈ dirs, Pathname.IsName name :=
    fun name hname => hnames name (by simp [hname])
  obtain ⟨mode, hwalk⟩ := h.leadsTo.walk_names
  have hnil : dirs ≠ [] := by
    rintro rfl
    rw [List.append_nil, walk_occupied hwalk] at hnone
    cases hnone
  obtain ⟨links, hresume⟩ := walk_resume hwalk
  have hall : (s.pathOf (dirs ++ [leaf])).names = s.root.names ++ dirs ++ [leaf] := by
    rw [pathOf, Pathname.names_join_ofNames h.leadsTo.bytes_ne_nil hnames, List.append_assoc]
  rw [locateLast, h.startOf_pathOf hnames, hall, hcheck, ok_bind]
  simp only [List.getLast?_append, List.getLast?_singleton, Option.some_or, List.dropLast_concat]
  rw [hresume dirs hnil, walk_eq_straight h.plain true links hdirs]
  rcases straight_of_missing (walk_occupied hwalk) hlength hway hnone with he | ⟨dir, name, he⟩
  · rw [he]
    rfl
  · rw [he]
    rfl

/-! ## Operations on paths of the store -/

theorem mem_bytes_pathOf (h : s.Tidy fs root) {b : UInt8}
    (hnames : ∀ name ∈ dirs ++ [leaf], Pathname.IsName name) (hb : b ∈ leaf) :
    b ∈ (s.pathOf (dirs ++ [leaf])).bytes := by
  have hsplit := Pathname.intercalate_concat dirs [] leaf
  rw [List.nil_append] at hsplit
  rw [pathOf, Pathname.join_ofNames h.leadsTo.bytes_ne_nil hnames, ← hsplit]
  simp [hb]

theorem isEntryName_leaf (h : s.Tidy fs root)
    (hnames : ∀ name ∈ dirs ++ [leaf], Pathname.IsName name)
    (hcheck : checkPath (s.pathOf (dirs ++ [leaf])) = .ok ())
    (hlength : leaf.length ≤ maxNameLength) : IsEntryName leaf where
  toIsName := hnames leaf (by simp)
  length_le := hlength
  zero_notMem := fun hzero => (checkPath_eq_ok.1 hcheck).1 (h.mem_bytes_pathOf hnames hzero)

theorem entry_below (h : s.Tidy fs root) (dirs : Position) (leaf : Bytes) {entry : Entry}
    (he : fs.at? (root ++ (dirs ++ [leaf])) = some entry) :
    (∃ mode, entry = .directory mode) ∨ ∃ id, entry = .file id := by
  rcases h.plain _ _ (by simp) he with hd | ⟨id, hid, -⟩
  · exact Or.inl hd
  · exact Or.inr ⟨id, hid⟩

theorem eq_of_makeDirectory (h : s.Tidy fs root) {fs' : FileSystem}
    (hnames : ∀ name ∈ dirs ++ [leaf], Pathname.IsName name)
    (hmake : fs.makeDirectory (s.pathOf (dirs ++ [leaf])) = .ok fs') :
    (∃ mode, fs.at? (root ++ dirs) = some (.directory mode)) ∧ IsEntryName leaf ∧
      fs.at? (root ++ (dirs ++ [leaf])) = none ∧
        fs' = fs.bind (root ++ (dirs ++ [leaf])) (.directory directoryMode) := by
  rw [makeDirectory, bind_eq_ok] at hmake
  obtain ⟨last, hlast, hmake⟩ := hmake
  obtain ⟨hcheck, hlength, hmode, rfl⟩ := (h.locateLast_pathOf hnames).1 hlast
  rw [← List.append_assoc]
  dsimp only at hmake
  split at hmake
  · cases hmake
  · exact ⟨hmode, h.isEntryName_leaf hnames hcheck hlength, ‹_›, (Except.ok.inj hmake).symm⟩

theorem unlink_eq_ok (h : s.Tidy fs root) {fs' : FileSystem}
    (hnames : ∀ name ∈ dirs ++ [leaf], Pathname.IsName name) :
    fs.unlink (s.pathOf (dirs ++ [leaf])) = .ok fs' ↔
      checkPath (s.pathOf (dirs ++ [leaf])) = .ok () ∧
        (∃ id, fs.at? (root ++ (dirs ++ [leaf])) = some (.file id)) ∧
          fs' = fs.unbind (root ++ (dirs ++ [leaf])) := by
  rw [unlink, bind_eq_ok]
  constructor
  · rintro ⟨last, hlast, hunlink⟩
    obtain ⟨hcheck, -, -, rfl⟩ := (h.locateLast_pathOf hnames).1 hlast
    rw [← List.append_assoc]
    dsimp only at hunlink
    split at hunlink
    · cases hunlink
    · cases hunlink
    · rename_i entry hdirectory he
      rw [s.not_endsInSlash_pathOf hnames, if_neg (by simp)] at hunlink
      refine ⟨hcheck, ?_, (Except.ok.inj hunlink).symm⟩
      rw [List.append_assoc] at he ⊢
      rcases h.entry_below _ _ he with ⟨mode, rfl⟩ | ⟨id, rfl⟩
      · exact absurd rfl (hdirectory mode)
      · exact ⟨id, he⟩
  · rintro ⟨hcheck, ⟨id, hid⟩, rfl⟩
    have hat : fs.at? (root ++ dirs ++ [leaf]) = some (.file id) := by
      rw [List.append_assoc]
      exact hid
    have hdir := h.wellFormed.parent hat
    have hleaf := h.wellFormed.name hat
    refine ⟨_, (h.locateLast_pathOf hnames).2 ⟨hcheck, hleaf.length_le, hdir, rfl⟩, ?_⟩
    dsimp only
    rw [List.append_assoc, hid]
    dsimp only
    rw [s.not_endsInSlash_pathOf hnames, if_neg (by simp)]
    rfl

theorem eq_of_create (h : s.Tidy fs root) {fs' : FileSystem} {handle : Handle}
    (hnames : ∀ name ∈ dirs ++ [leaf], Pathname.IsName name)
    (hcreate : fs.create (s.pathOf (dirs ++ [leaf])) = .ok (fs', handle)) :
    checkPath (s.pathOf (dirs ++ [leaf])) = .ok () ∧
      ((∃ id f, fs.at? (root ++ (dirs ++ [leaf])) = some (.file id) ∧ fs.file? id = some f ∧
          handle = .file id ∧ fs' = fs.store id ⟨[], f.mode, fs.clock⟩) ∨
        ((∃ mode, fs.at? (root ++ dirs) = some (.directory mode)) ∧ IsEntryName leaf ∧
          fs.at? (root ++ (dirs ++ [leaf])) = none ∧ handle = .file fs.nextId ∧
            fs' = (fs.allocate ⟨[], fileMode, fs.clock⟩).1.bind (root ++ (dirs ++ [leaf]))
              (.file fs.nextId))) := by
  rw [create, s.not_endsInSlash_pathOf hnames, if_neg (by simp), bind_eq_ok] at hcreate
  obtain ⟨place, hplace, hcreate⟩ := hcreate
  have hcheck := ((h.locate_pathOf hnames).1 hplace).1
  refine ⟨hcheck, ?_⟩
  cases place with
  | occupied pos entry =>
      obtain ⟨-, -, he⟩ := (h.locate_occupied_iff hnames).1 hplace
      rcases h.entry_below _ _ he with ⟨mode, rfl⟩ | ⟨id, rfl⟩
      · cases hcreate
      · obtain ⟨f, hf⟩ := h.wellFormed.file he
        cases hcreate
        exact Or.inl ⟨id, f, he, hf, rfl, by rw [hf]; rfl⟩
  | vacant dir name =>
      obtain ⟨-, heq, hlength, hmode, hnone⟩ :=
        vacant_of_straight ((h.locate_pathOf hnames).1 hplace).2
      rw [← List.append_assoc] at heq
      obtain ⟨rfl, hname⟩ := List.append_inj' heq rfl
      obtain rfl := List.singleton_inj.1 hname
      cases hcreate
      rw [← List.append_assoc]
      exact Or.inr ⟨hmode, h.isEntryName_leaf hnames hcheck hlength, hnone, rfl, rfl⟩

theorem create_ok (h : s.Tidy fs root) {mode : Nat}
    (hnames : ∀ name ∈ dirs ++ [leaf], Pathname.IsName name)
    (hcheck : checkPath (s.pathOf (dirs ++ [leaf])) = .ok ())
    (hlength : leaf.length ≤ maxNameLength)
    (hdirs : fs.at? (root ++ dirs) = some (.directory mode))
    (hfile : ∀ mode, fs.at? (root ++ (dirs ++ [leaf])) ≠ some (.directory mode)) :
    ∃ created, fs.create (s.pathOf (dirs ++ [leaf])) = .ok created := by
  rw [create, s.not_endsInSlash_pathOf hnames, if_neg (by simp)]
  cases he : fs.at? (root ++ (dirs ++ [leaf])) with
  | none =>
      have hvacant := straight_vacant h.wellFormed hdirs hlength he
      rw [(h.locate_pathOf hnames).2 ⟨hcheck, hvacant⟩]
      exact ⟨_, rfl⟩
  | some entry =>
      rw [(h.locate_occupied_iff hnames).2 ⟨hcheck, rfl, he⟩]
      rcases h.entry_below _ _ he with ⟨mode', rfl⟩ | ⟨id, rfl⟩
      · exact absurd he (hfile mode')
      · exact ⟨_, rfl⟩

theorem rename_of_vacant (h : s.Tidy fs root) (leaf' : Bytes)
    (hnames : ∀ name ∈ dirs ++ [leaf], Pathname.IsName name)
    (hvacant : fs.at? (root ++ (dirs ++ [leaf])) = none) (fs' : FileSystem) :
    fs.rename (s.pathOf (dirs ++ [leaf])) (s.pathOf (dirs ++ [leaf'])) ≠ .ok fs' := by
  intro hrename
  rw [rename, bind_eq_ok] at hrename
  obtain ⟨source, hsource, hrename⟩ := hrename
  obtain ⟨target, htarget, hrename⟩ := bind_eq_ok.1 hrename
  obtain ⟨-, -, -, rfl⟩ := (h.locateLast_pathOf hnames).1 hsource
  cases target with
  | special => cases hrename
  | name dir name =>
      dsimp only at hrename
      rw [List.append_assoc, hvacant] at hrename
      cases hrename

/-- What was renamed within its directory has left its old place and taken the new one, where
nothing was in the way; a directory was moved with all that is below it. -/
theorem entry_of_rename (h : s.Tidy fs root) {leaf' : Bytes} {fs' : FileSystem}
    (hnames : ∀ name ∈ dirs ++ [leaf], Pathname.IsName name)
    (hnames' : ∀ name ∈ dirs ++ [leaf'], Pathname.IsName name) (hne : leaf ≠ leaf')
    (hrename : fs.rename (s.pathOf (dirs ++ [leaf])) (s.pathOf (dirs ++ [leaf'])) = .ok fs') :
    IsEntryName leaf' ∧ checkPath (s.pathOf (dirs ++ [leaf'])) = .ok () ∧
      ∃ entry, fs.at? (root ++ (dirs ++ [leaf])) = some entry ∧
        fs.checkReplace entry (root ++ (dirs ++ [leaf'])) = .ok () ∧
          fs' = if entry.isDirectory then
              fs.relocate (root ++ (dirs ++ [leaf])) (root ++ (dirs ++ [leaf']))
            else (fs.unbind (root ++ (dirs ++ [leaf]))).bind (root ++ (dirs ++ [leaf'])) entry := by
  obtain ⟨source, hsource, hmoved⟩ := bind_eq_ok.1 hrename
  obtain ⟨target, htarget, -⟩ := bind_eq_ok.1 hmoved
  obtain ⟨-, -, -, rfl⟩ := (h.locateLast_pathOf hnames).1 hsource
  obtain ⟨hcheck, hlength, -, rfl⟩ := (h.locateLast_pathOf hnames').1 htarget
  refine ⟨h.isEntryName_leaf hnames' hcheck hlength, hcheck, ?_⟩
  have hpos : root ++ (dirs ++ [leaf]) ≠ root ++ (dirs ++ [leaf']) := by simpa using hne
  rw [← List.append_assoc, ← List.append_assoc]
  cases he : fs.at? (root ++ dirs ++ [leaf]) with
  | none =>
      rw [List.append_assoc] at he
      exact absurd hrename (h.rename_of_vacant leaf' hnames he fs')
  | some entry =>
      refine ⟨entry, rfl, ?_⟩
      rcases rename_sibling hsource htarget (s.not_endsInSlash_pathOf hnames)
          (s.not_endsInSlash_pathOf hnames') hne he with ⟨⟨id, rfl, hid⟩, -⟩ | ⟨-, hmoved⟩
      · -- No file below the root has two names.
        rw [List.append_assoc] at he hid
        exact absurd (h.plain.eq_of_file (by simp) he hid).symm hpos
      · rw [hmoved] at hrename
        obtain ⟨u, hreplace, hrename⟩ := bind_eq_ok.1 hrename
        refine ⟨hreplace, ?_⟩
        split at hrename
        · rename_i hdirectory
          rw [if_pos hdirectory]
          exact (Except.ok.inj hrename).symm
        · rename_i hdirectory
          rw [if_neg hdirectory]
          exact (Except.ok.inj hrename).symm

theorem eq_of_rename (h : s.Tidy fs root) {leaf' : Bytes} {id : Nat} {fs' : FileSystem}
    (hnames : ∀ name ∈ dirs ++ [leaf], Pathname.IsName name)
    (hnames' : ∀ name ∈ dirs ++ [leaf'], Pathname.IsName name) (hne : leaf ≠ leaf')
    (hid : fs.at? (root ++ (dirs ++ [leaf])) = some (.file id))
    (hrename : fs.rename (s.pathOf (dirs ++ [leaf])) (s.pathOf (dirs ++ [leaf'])) = .ok fs') :
    IsEntryName leaf' ∧ checkPath (s.pathOf (dirs ++ [leaf'])) = .ok () ∧
      (∀ mode, fs.at? (root ++ (dirs ++ [leaf'])) ≠ some (.directory mode)) ∧
        fs' = (fs.unbind (root ++ (dirs ++ [leaf]))).bind (root ++ (dirs ++ [leaf']))
          (.file id) := by
  obtain ⟨hname, hcheck, entry, he, hreplace, rfl⟩ :=
    h.entry_of_rename hnames hnames' hne hrename
  obtain rfl : entry = .file id := Option.some.inj (he.symm.trans hid)
  refine ⟨hname, hcheck, fun mode hmode => ?_, rfl⟩
  rw [checkReplace, hmode] at hreplace
  cases hreplace

theorem rename_file (h : s.Tidy fs root) {leaf' : Bytes} {id : Nat}
    (hnames : ∀ name ∈ dirs ++ [leaf], Pathname.IsName name)
    (hnames' : ∀ name ∈ dirs ++ [leaf'], Pathname.IsName name) (hne : leaf ≠ leaf')
    (hlast : fs.locateLast (s.pathOf (dirs ++ [leaf])) = .ok (.name (root ++ dirs) leaf))
    (hlast' : fs.locateLast (s.pathOf (dirs ++ [leaf'])) = .ok (.name (root ++ dirs) leaf'))
    (hid : fs.at? (root ++ (dirs ++ [leaf])) = some (.file id)) :
    ((∃ mode, fs.at? (root ++ (dirs ++ [leaf'])) = some (.directory mode)) ∧
      fs.rename (s.pathOf (dirs ++ [leaf])) (s.pathOf (dirs ++ [leaf'])) = .error .isDirectory) ∨
    ((∀ mode, fs.at? (root ++ (dirs ++ [leaf'])) ≠ some (.directory mode)) ∧
      fs.rename (s.pathOf (dirs ++ [leaf])) (s.pathOf (dirs ++ [leaf'])) =
        .ok ((fs.unbind (root ++ (dirs ++ [leaf]))).bind (root ++ (dirs ++ [leaf']))
          (.file id))) := by
  have hpos : root ++ (dirs ++ [leaf]) ≠ root ++ (dirs ++ [leaf']) := by simpa using hne
  rw [← List.append_assoc] at hid
  have hcases := rename_file_sibling hlast hlast' (s.not_endsInSlash_pathOf hnames)
    (s.not_endsInSlash_pathOf hnames') hne hid
  rw [List.append_assoc, List.append_assoc] at hcases
  rcases hcases with ⟨hid', -⟩ | hmoved
  · -- No file below the root has two names.
    rw [List.append_assoc] at hid
    exact absurd (h.plain.eq_of_file (by simp) hid hid').symm hpos
  · exact hmoved

theorem rename_ok (h : s.Tidy fs root) {leaf' : Bytes} {id : Nat}
    (hnames : ∀ name ∈ dirs ++ [leaf], Pathname.IsName name)
    (hnames' : ∀ name ∈ dirs ++ [leaf'], Pathname.IsName name) (hne : leaf ≠ leaf')
    (hcheck : checkPath (s.pathOf (dirs ++ [leaf])) = .ok ())
    (hcheck' : checkPath (s.pathOf (dirs ++ [leaf'])) = .ok ())
    (hlength' : leaf'.length ≤ maxNameLength)
    (hid : fs.at? (root ++ (dirs ++ [leaf])) = some (.file id))
    (hdirectory : ∀ mode, fs.at? (root ++ (dirs ++ [leaf'])) ≠ some (.directory mode)) :
    ∃ fs', fs.rename (s.pathOf (dirs ++ [leaf])) (s.pathOf (dirs ++ [leaf'])) = .ok fs' := by
  have hparent : ∃ mode, fs.at? (root ++ dirs) = some (.directory mode) := by
    apply h.wellFormed.parent
    rw [List.append_assoc]
    exact hid
  have hlength := (h.wellFormed.names_of_append hid leaf (by simp)).length_le
  have hlast := (h.locateLast_pathOf hnames).2 ⟨hcheck, hlength, hparent, rfl⟩
  have hlast' := (h.locateLast_pathOf hnames').2 ⟨hcheck', hlength', hparent, rfl⟩
  rcases h.rename_file hnames hnames' hne hlast hlast' hid with ⟨⟨mode, hmode⟩, -⟩ | ⟨-, hok⟩
  · exact absurd hmode (hdirectory mode)
  · exact ⟨_, hok⟩

end Tidy

theorem Tidy.atTime (h : s.Tidy fs root) (time : Int) : s.Tidy { fs with clock := time } root where
  wellFormed := ⟨h.wellFormed.parent, h.wellFormed.name, h.wellFormed.file, h.wellFormed.fresh⟩
  leadsTo := h.leadsTo.of_keeps fun _ _ he _ => he
  plain := h.plain

theorem Tidy.store (h : s.Tidy fs root) {id : Nat} {f : File} (f' : File)
    (hf : fs.file? id = some f) : s.Tidy (fs.store id f') root :=
  ⟨h.wellFormed.store f' hf, h.leadsTo.of_keeps (KeepsPaths.refl fs), h.plain⟩

theorem Tidy.unbind (h : s.Tidy fs root) {names : Position} (hne : names ≠ [])
    (hfile : ∀ mode, fs.at? (root ++ names) ≠ some (.directory mode)) :
    s.Tidy (fs.unbind (root ++ names)) root := by
  have hpos : root ++ names ≠ [] := by simp [hne]
  have hkeep : fs.KeepsPaths (fs.unbind (root ++ names)) := by
    intro pos entry he hkind
    rw [at?_unbind hpos, if_neg, he]
    rintro rfl
    rcases h.plain _ _ hne he with ⟨mode, rfl⟩ | ⟨id, rfl, -⟩
    · exact hfile mode he
    · simp [Entry.isLink] at hkind
  exact ⟨h.wellFormed.unbind hpos hfile, h.leadsTo.of_keeps hkeep, h.plain.unbind hpos⟩

/-! ## A new store -/

def newDirectory (name : Bytes) : FileSystem :=
  FileSystem.empty.bind [name] (.directory directoryMode)

def atTop (name : Bytes) : Store := ⟨⟨Pathname.slash :: name⟩⟩

theorem at?_newDirectory (name : Bytes) (pos : Position) :
    (newDirectory name).at? pos =
      if pos = [name] then some (.directory directoryMode)
      else if pos = [] then some (.directory directoryMode) else none :=
  at?_bind (List.cons_ne_nil name []) ..

theorem newDirectory_wellFormed {name : Bytes} (h : IsEntryName name) :
    (newDirectory name).WellFormed := by
  have hempty : FileSystem.empty.WellFormed := by
    have hnone : ∀ pos entry, FileSystem.empty.at? pos = some entry → pos = [] := by
      intro pos entry he
      by_contra hne
      rw [at?, if_neg hne] at he
      cases he
    refine ⟨?_, ?_, ?_, ?_⟩
    · intro pos last entry he
      exact absurd (hnone _ _ he) (by simp)
    · intro pos last entry he
      exact absurd (hnone _ _ he) (by simp)
    · intro pos id he
      rw [hnone _ _ he] at he
      cases he
    · intro id f hf
      cases hf
  exact @WellFormed.bind _ hempty [] _ _ _ (at?_root _) h (Or.inl rfl) (by simp)

theorem tidy_atTop {name : Bytes} (h : IsEntryName name) :
    (atTop name).Tidy (newDirectory name) [name] := by
  have hroot : (atTop name).root = .ofRootNames [name] := by
    rw [atTop, Pathname.ofRootNames, List.intercalate_singleton]
  have hname : ∀ other ∈ [name], Pathname.IsName other := by simpa using h.toIsName
  have hnames : (atTop name).root.names = [name] := hroot ▸ Pathname.names_ofRootNames hname
  have hsteps : (atTop name).root.steps = [name] := hroot ▸ Pathname.steps_ofRootNames hname
  have habs : (atTop name).root.isAbsolute = true := by simp [atTop, Pathname.isAbsolute]
  have hcheck : checkPath (atTop name).root = .ok () := by
    rw [checkPath_eq_ok]
    have hlength := h.length_le
    have hslash : (0 : UInt8) ≠ Pathname.slash := by decide
    refine ⟨?_, List.cons_ne_nil _ _, ?_⟩
    · simp [atTop, h.zero_notMem, hslash]
    · simp only [atTop, List.length_cons, maxNameLength, pathLimit] at hlength ⊢
      omega
  refine ⟨newDirectory_wellFormed h, ⟨habs, ?_, directoryMode, ?_⟩, ?_⟩
  · rw [hnames, List.mem_singleton]
    exact fun heq => h.ne_dot heq.symm
  · rw [locateEntry_eq_ok, locate_eq_ok, startOf, if_pos habs, hsteps]
    have hlooks := LooksUp.of_isName (at?_root (newDirectory name)) h.toIsName h.length_le
    have hat : (newDirectory name).at? ([] ++ [name]) = some (.directory directoryMode) := by
      rw [List.nil_append, at?_newDirectory, if_pos rfl]
    exact ⟨hcheck, hlooks.walk_last hat (by simp [Entry.isLink])⟩
  · intro names entry hne he
    rw [at?_newDirectory, if_neg (by simp [hne]), if_neg (by simp)] at he
    cases he

theorem isEntryName_r : IsEntryName [114] := isEntryName_letter (by decide)

def keyN : Key :=
  ⟨[], [110], by simpa using ⟨by decide, by decide, by decide, by decide⟩, by decide⟩

end Store

end Depot
