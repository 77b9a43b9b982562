import Depot.Proofs.FileSystem.KeptPaths
import Depot.Proofs.FileSystem.Straight
import Depot.Proofs.Program
/-!
# What paths lead to

A path that the system takes leads where a walk along its steps does.  Creating, removing and
renaming walk to the directory of the last name.

* `checkPath_eq_ok` — the paths that the system takes;
* `locate_eq_ok`, `locateEntry_eq_ok`, `stat_eq_ok`, `linkStat_eq_ok` — where a path leads;
* `locateEntry_unfollowed` — what it means not to follow a last link;
* `locateEntry_file_of_keeps` — where it leads when other files have changed;
* `locateLast_eq_name_iff` — where the last name of a path stands;
* `EndsInName` — a path to an entry in a directory;
* `rename_sibling`, `rename_file_sibling` — giving an entry another name in its directory.
-/

namespace Depot

namespace FileSystem

theorem checkPath_eq_ok {p : Pathname} :
    checkPath p = .ok () ↔ 0 ∉ p.bytes ∧ p.bytes ≠ [] ∧ p.bytes.length < pathLimit := by
  rw [checkPath]
  split
  · rename_i hzero
    simp [hzero]
  · rename_i hzero
    split
    · rename_i hnil
      simp [hnil]
    · rename_i hnil
      split
      · rename_i hlong
        simp only [reduceCtorEq, false_iff]
        omega
      · rename_i hlong
        simp only [hzero, hnil, not_false_eq_true, true_and, ne_eq, true_iff]
        omega

theorem checkPath_of_isPrefix {p q : Pathname} (h : p.bytes <+: q.bytes) (hne : p.bytes ≠ [])
    (hq : checkPath q = .ok ()) : checkPath p = .ok () := by
  rw [checkPath_eq_ok] at hq ⊢
  have hlength := h.length_le
  exact ⟨fun hzero => hq.1 (h.subset hzero), hne, by omega⟩

theorem locate_eq_ok {fs : FileSystem} {follow : Bool} {p : Pathname} {place : Place} :
    fs.locate follow p = .ok place ↔
      checkPath p = .ok () ∧ fs.walk follow linkLimit (fs.startOf p) p.steps = .ok place := by
  rw [locate, bind_eq_ok]
  constructor
  · rintro ⟨u, hcheck, hwalk⟩
    exact ⟨hcheck, hwalk⟩
  · rintro ⟨hcheck, hwalk⟩
    exact ⟨(), hcheck, hwalk⟩

theorem locateEntry_eq_ok {fs : FileSystem} {follow : Bool} {p : Pathname} {pos : Position}
    {entry : Entry} :
    fs.locateEntry follow p = .ok (pos, entry) ↔
      fs.locate follow p = .ok (.occupied pos entry) := by
  rw [locateEntry, bind_eq_ok]
  constructor
  · rintro ⟨place, hplace, h⟩
    cases place with
    | occupied pos' entry' =>
        cases h
        exact hplace
    | vacant dir name => cases h
  · intro h
    exact ⟨_, h, rfl⟩

theorem locateEntry_unfollowed (fs : FileSystem) (p : Pathname) :
    fs.locateEntry false p = fs.locateEntry true p ∨
      ∃ pos target, fs.locateEntry false p = .ok (pos, .link target) := by
  rw [locateEntry, locateEntry, locate, locate]
  cases checkPath p with
  | error e => exact Or.inl rfl
  | ok u =>
      rw [ok_bind, ok_bind]
      rcases walk_unfollowed linkLimit (fs.startOf p) p.steps with hsame | ⟨pos, target, hlink⟩
      · exact Or.inl (by rw [hsame])
      · exact Or.inr ⟨pos, target, by rw [hlink]; rfl⟩

theorem locateEntry_file_of_keeps {fs fs' : FileSystem} {follow : Bool} {p : Pathname}
    {pos : Position} {id id' : Nat} (hkeep : KeepsPaths fs fs')
    (hdir : fs'.workingDir = fs.workingDir) (h : fs.locateEntry follow p = .ok (pos, .file id))
    (hid' : fs'.at? pos = some (.file id')) :
    fs'.locateEntry follow p = .ok (pos, .file id') := by
  rw [locateEntry_eq_ok, locate_eq_ok, startOf] at h ⊢
  rw [hdir]
  exact ⟨h.1, walk_file_of_keeps hkeep h.2 hid'⟩

theorem at?_of_locateEntry {fs : FileSystem} {follow : Bool} {p : Pathname} {pos : Position}
    {entry : Entry} (h : fs.locateEntry follow p = .ok (pos, entry)) : fs.at? pos = some entry :=
  walk_occupied (locate_eq_ok.1 (locateEntry_eq_ok.1 h)).2

theorem stat_eq_ok {fs : FileSystem} {p : Pathname} {entry : Entry} :
    fs.stat p = .ok entry ↔ ∃ pos, fs.locate true p = .ok (.occupied pos entry) := by
  rw [stat, map_eq_ok]
  constructor
  · rintro ⟨⟨pos, entry'⟩, h, rfl⟩
    exact ⟨pos, locateEntry_eq_ok.1 h⟩
  · rintro ⟨pos, h⟩
    exact ⟨(pos, entry), locateEntry_eq_ok.2 h, rfl⟩

theorem linkStat_eq_ok {fs : FileSystem} {p : Pathname} {entry : Entry} :
    fs.linkStat p = .ok entry ↔ ∃ pos, fs.locate false p = .ok (.occupied pos entry) := by
  rw [linkStat, map_eq_ok]
  constructor
  · rintro ⟨⟨pos, entry'⟩, h, rfl⟩
    exact ⟨pos, locateEntry_eq_ok.1 h⟩
  · rintro ⟨pos, h⟩
    exact ⟨(pos, entry), locateEntry_eq_ok.2 h, rfl⟩

theorem start_of_linkStat {fs : FileSystem} {p : Pathname} {entry : Entry}
    (h : fs.linkStat p = .ok entry) : ∃ entry', fs.at? (fs.startOf p) = some entry' := by
  obtain ⟨pos, hlocate⟩ := linkStat_eq_ok.1 h
  cases hstart : fs.at? (fs.startOf p) with
  | some entry' => exact ⟨entry', rfl⟩
  | none =>
      have hwalk := (locate_eq_ok.1 hlocate).2
      rw [walk_of_none hstart] at hwalk
      cases hwalk

theorem locateLast_eq_name_iff {fs : FileSystem} {p : Pathname} {dir : Position} {name : Bytes} :
    fs.locateLast p = .ok (.name dir name) ↔ checkPath p = .ok () ∧ ∃ front mode,
      p.names = front ++ [name] ∧
      fs.walk true linkLimit (fs.startOf p) front = .ok (.occupied dir (.directory mode)) ∧
      name ≠ Pathname.dot ∧ name ≠ Pathname.dotDot ∧ name.length ≤ maxNameLength := by
  rw [locateLast, bind_eq_ok]
  constructor
  · rintro ⟨u, hcheck, hlast⟩
    refine ⟨hcheck, ?_⟩
    rcases List.eq_nil_or_concat' p.names with hnil | ⟨front, last, hnames⟩
    · rw [hnil] at hlast
      cases hlast
    rw [hnames] at hlast
    simp only [List.getLast?_append, List.getLast?_singleton, Option.some_or,
      List.dropLast_concat] at hlast
    obtain ⟨place, hplace, hlast⟩ := bind_eq_ok.1 hlast
    cases place with
    | vacant dir' name' => cases hlast
    | occupied pos entry =>
        dsimp only at hlast
        split at hlast
        · cases hlast
        rename_i hdirectory
        split at hlast
        · cases hlast
        rename_i hspecial
        split at hlast
        · cases hlast
        cases hlast
        obtain ⟨mode, rfl⟩ := Entry.isDirectory_iff.1 (by simpa using hdirectory)
        rw [not_or] at hspecial
        exact ⟨front, mode, hnames, hplace, hspecial.1, hspecial.2, by omega⟩
  · rintro ⟨hcheck, front, mode, hnames, hwalk, hdot, hup, hlength⟩
    refine ⟨(), hcheck, ?_⟩
    rw [hnames]
    simp only [List.getLast?_append, List.getLast?_singleton, Option.some_or,
      List.dropLast_concat]
    rw [hwalk, ok_bind]
    dsimp only
    rw [if_neg (by simp [Entry.isDirectory]), if_neg (by simp [hdot, hup]), if_neg (by omega)]
    rfl

theorem isEntryName_of_locateLast {fs : FileSystem} {p : Pathname} {dir : Position} {name : Bytes}
    (h : fs.locateLast p = .ok (.name dir name)) :
    IsEntryName name ∧ ∃ mode, fs.at? dir = some (.directory mode) := by
  obtain ⟨hcheck, front, mode, hnames, hwalk, hdot, hup, hlength⟩ := locateLast_eq_name_iff.1 h
  have hmem : name ∈ p.names := by simp [hnames]
  obtain ⟨hpiece, hne⟩ := Pathname.mem_pieces_of_mem_names hmem
  refine ⟨⟨⟨hne, Pathname.slash_notMem_of_mem_pieces hpiece, hdot, hup⟩, hlength, ?_⟩, mode,
    walk_occupied hwalk⟩
  intro hzero
  rw [checkPath, if_pos (Pathname.mem_bytes_of_mem_pieces hpiece hzero)] at hcheck
  cases hcheck

/-! ## Paths to an entry in a directory -/

/-- The path has a last name, no dot and with no slash behind it. -/
structure EndsInName (p : Pathname) (front : List Bytes) (leaf : Bytes) : Prop where
  names_eq : p.names = front ++ [leaf]
  isName : Pathname.IsName leaf
  bare : p.endsInSlash = false

namespace EndsInName

variable {fs : FileSystem} {p : Pathname} {front : List Bytes} {leaf : Bytes}

theorem steps_eq (hp : EndsInName p front leaf) : p.steps = front ++ [leaf] := by
  rw [Pathname.steps, hp.bare, Bool.false_and, if_neg (by simp), hp.names_eq]

theorem locateEntry_iff (hp : EndsInName p front leaf) {pos : Position} {entry : Entry} :
    fs.locateEntry false p = .ok (pos, entry) ↔
      checkPath p = .ok () ∧ ∃ dir mode,
        fs.walk true linkLimit (fs.startOf p) front = .ok (.occupied dir (.directory mode)) ∧
        leaf.length ≤ maxNameLength ∧ pos = dir ++ [leaf] ∧
          fs.at? (dir ++ [leaf]) = some entry := by
  rw [locateEntry_eq_ok, locate_eq_ok, hp.steps_eq, walk_concat_iff hp.isName]

theorem position_ne_nil (hp : EndsInName p front leaf) {pos : Position} {entry : Entry}
    (hlocate : fs.locateEntry false p = .ok (pos, entry)) : pos ≠ [] := by
  obtain ⟨-, dir, -, -, -, rfl, -⟩ := hp.locateEntry_iff.1 hlocate
  simp

theorem locateLast_of_walk (hp : EndsInName p front leaf) (hcheck : checkPath p = .ok ())
    {dir : Position} {mode : Nat}
    (hwalk : fs.walk true linkLimit (fs.startOf p) front = .ok (.occupied dir (.directory mode)))
    (hlength : leaf.length ≤ maxNameLength) : fs.locateLast p = .ok (.name dir leaf) :=
  locateLast_eq_name_iff.2 ⟨hcheck, front, mode, hp.names_eq, hwalk, hp.isName.ne_dot,
    hp.isName.ne_dotDot, hlength⟩

end EndsInName

/-! ## Renaming within a directory -/

section Siblings

variable {fs : FileSystem} {old new : Pathname} {dir : Position} {leaf leaf' : Bytes}

theorem not_isPrefixOf_sibling (hne : leaf ≠ leaf') :
    (dir ++ [leaf]).isPrefixOf (dir ++ [leaf']) = false := by
  rw [Bool.eq_false_iff, Ne, List.isPrefixOf_iff_prefix]
  intro hprefix
  have heq := hprefix.eq_of_length (by simp)
  simp [hne] at heq

/-- Two names of one file stay as they are, and anything else takes the new name. -/
theorem rename_sibling {entry : Entry} (hold : fs.locateLast old = .ok (.name dir leaf))
    (hnew : fs.locateLast new = .ok (.name dir leaf')) (hbare : old.endsInSlash = false)
    (hbare' : new.endsInSlash = false) (hne : leaf ≠ leaf')
    (hentry : fs.at? (dir ++ [leaf]) = some entry) :
    ((∃ id, entry = .file id ∧ fs.at? (dir ++ [leaf']) = some (.file id)) ∧
      fs.rename old new = .ok fs) ∨
    ((∀ id, entry = .file id → fs.at? (dir ++ [leaf']) ≠ some (.file id)) ∧
      fs.rename old new = (fs.checkReplace entry (dir ++ [leaf']) >>= fun _ =>
        if entry.isDirectory then pure (fs.relocate (dir ++ [leaf]) (dir ++ [leaf']))
        else pure ((fs.unbind (dir ++ [leaf])).bind (dir ++ [leaf']) entry))) := by
  have hpos : dir ++ [leaf] ≠ dir ++ [leaf'] := by simpa using hne
  rw [rename, hold, ok_bind, hnew, ok_bind]
  dsimp only
  rw [hentry]
  dsimp only
  rw [hbare, hbare', if_neg (by simp), if_neg hpos, not_isPrefixOf_sibling hne,
    not_isPrefixOf_sibling hne.symm, if_neg Bool.false_ne_true, if_neg Bool.false_ne_true]
  split
  · rename_i id id' hdst
    by_cases hsame : id = id'
    · subst hsame
      exact Or.inl ⟨⟨id, rfl, hdst⟩, if_pos rfl⟩
    · rw [if_neg hsame]
      refine Or.inr ⟨?_, rfl⟩
      rintro _ ⟨⟩ hdst'
      rw [hdst] at hdst'
      cases hdst'
      exact hsame rfl
  · rename_i hfiles
    exact Or.inr ⟨fun id hid hdst => hfiles id id hid hdst, rfl⟩

theorem rename_file_sibling {id : Nat} (hold : fs.locateLast old = .ok (.name dir leaf))
    (hnew : fs.locateLast new = .ok (.name dir leaf')) (hbare : old.endsInSlash = false)
    (hbare' : new.endsInSlash = false) (hne : leaf ≠ leaf')
    (hid : fs.at? (dir ++ [leaf]) = some (.file id)) :
    (fs.at? (dir ++ [leaf']) = some (.file id) ∧ fs.rename old new = .ok fs) ∨
    ((∃ mode, fs.at? (dir ++ [leaf']) = some (.directory mode)) ∧
      fs.rename old new = .error .isDirectory) ∨
    ((∀ mode, fs.at? (dir ++ [leaf']) ≠ some (.directory mode)) ∧
      fs.rename old new =
        .ok ((fs.unbind (dir ++ [leaf])).bind (dir ++ [leaf']) (.file id))) := by
  rcases rename_sibling hold hnew hbare hbare' hne hid with
    ⟨⟨_, ⟨⟩, hdst⟩, hsame⟩ | ⟨-, hmoved⟩
  · exact Or.inl ⟨hdst, hsame⟩
  · rw [hmoved, checkReplace]
    refine Or.inr ?_
    cases fs.at? (dir ++ [leaf']) with
    | none => exact Or.inr ⟨nofun, rfl⟩
    | some existing =>
        cases existing with
        | directory mode => exact Or.inl ⟨⟨mode, rfl⟩, rfl⟩
        | file id' => exact Or.inr ⟨nofun, rfl⟩
        | link target => exact Or.inr ⟨nofun, rfl⟩
        | device => exact Or.inr ⟨nofun, rfl⟩

end Siblings

end FileSystem

end Depot
