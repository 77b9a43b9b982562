import Depot.Proofs.CommandLine.Running
import Depot.Proofs.FileSystem.Filling
import Depot.Proofs.Store.FailureAtomicity
import Depot.Proofs.Store.Opening
import Depot.Proofs.Store.Reading
/-!
# Reading into a file by a command

A command that reads an object into a file opens the store, opens what it finds under the name,
empties or makes the file, and only then reads.  A directory can be opened but not read, and a path
may lead to the very object: then there is nothing left to be read.

* `Fillable` — when an object can be read into a file;
* `runRead_leaves` — reading from a store that is open;
* `read_to_file` — how a command ends and what it leaves.
-/

namespace Depot

open CommandLine FileSystem

/-! ## Reading from a store that is open -/

namespace Store

variable {s : Store} {fs : FileSystem} {name : String}

/-- What stands at the path of a name is opened for reading. -/
def Finds (s : Store) (fs : FileSystem) (name : String) (handle : Handle) : Prop :=
  ∃ path, s.resolve name = .ok path ∧ fs.openRead path = .ok handle

theorem finds_iff {path : Pathname} (hpath : s.resolve name = .ok path) {handle : Handle} :
    s.Finds fs name handle ↔ ∃ entry, fs.stat path = .ok entry ∧ handleOf entry = handle := by
  constructor
  · rintro ⟨path', hpath', hopen⟩
    obtain rfl : path = path' := Except.ok.inj (hpath.symm.trans hpath')
    exact map_eq_ok.1 hopen
  · exact fun hstat => ⟨path, hpath, map_eq_ok.2 hstat⟩

theorem Finds.eq {handle handle' : Handle} (h : s.Finds fs name handle)
    (h' : s.Finds fs name handle') : handle = handle' := by
  obtain ⟨path, hpath, hopen⟩ := h
  obtain ⟨path', hpath', hopen'⟩ := h'
  obtain rfl : path = path' := Except.ok.inj (hpath.symm.trans hpath')
  exact Except.ok.inj (hopen.symm.trans hopen')

theorem openReader_finds :
    (s.openReader name).Runs fs (fun _ => True)
      (fun reader st => st = fs ∧ ∃ handle, s.Finds fs name handle ∧ reader = ⟨handle, 0⟩)
      (fun _ st => st = fs ∧ ∀ handle, ¬ s.Finds fs name handle) := by
  cases hpath : s.resolve name with
  | error fault =>
      rw [openReader, hpath]
      refine Op.Runs.lift_error ⟨rfl, ?_⟩
      rintro handle ⟨path, hpath', -⟩
      rw [hpath] at hpath'
      cases hpath'
  | ok path =>
      refine (openReader_runs hpath).weaken (fun _ hst => hst.elim) ?_ ?_
      · rintro reader st ⟨rfl, entry, hstat, rfl⟩
        exact ⟨rfl, handleOf entry, (finds_iff hpath).2 ⟨entry, hstat, rfl⟩, rfl⟩
      · rintro e st ⟨rfl, hnone⟩
        refine ⟨rfl, fun handle hfinds => ?_⟩
        obtain ⟨entry, hstat, -⟩ := (finds_iff hpath).1 hfinds
        exact hnone entry hstat

end Store

section

variable {fs : FileSystem} {output : Pathname} {handle : Handle} {bytes : Bytes}

theorem Reader.read_all (handle : Handle) (fs : FileSystem) :
    Prod.fst <$> (⟨handle, 0⟩ : Reader).read none fs = fs.readFrom handle 0 := by
  rw [Reader.read, if_neg (by simp)]
  cases fs.readFrom handle 0 <;> rfl

theorem FileSystem.readFrom_eq_error {offset : Nat} {e : IoError}
    (h : fs.readFrom handle offset = .error e) : handle = .directory := by
  cases handle with
  | file id => cases h
  | directory => rfl
  | device => cases h

theorem create_runs (hwf : fs.WellFormed) :
    (Op.change (·.create output) : Op IoError Handle).Runs fs (fun _ => True)
      (fun handle st => fs.create output = .ok (st, handle) ∧
        ((handle = .device ∧ st = fs) ∨ ∃ id, handle = .file id ∧ Filled fs output id [] st))
      (fun _ st => st = fs ∧ ∀ st' handle, fs.create output ≠ .ok (st', handle)) := by
  refine Op.Runs.change (fun st handle hcreate => ?_) fun e hcreate => ⟨rfl, ?_⟩
  · exact ⟨trivial, hcreate, Filled.of_create hwf hcreate⟩
  · rintro st' handle hcreate'
    rw [hcreate] at hcreate'
    cases hcreate'

theorem readFrom_runs :
    (Op.query fun fs => fs.readFrom handle 0).Runs fs (fun _ => True)
      (fun bytes st => st = fs ∧ fs.readFrom handle 0 = .ok bytes)
      (fun _ st => st = fs ∧ handle = .directory) :=
  Op.Runs.query (fun _ hread => ⟨rfl, hread⟩) fun _ hread => ⟨rfl, readFrom_eq_error hread⟩

theorem writeOutput_runs :
    (writeOutput handle bytes).Runs fs (fun _ => True)
      (fun _ st => st = fs.writeAt handle 0 bytes ∧ handle ≠ .device)
      (fun _ st => st = fs.writeAt handle 0 bytes ∧ handle = .device) := by
  rw [writeOutput]
  refine Op.Runs.bind (fun _ st => st = fs.writeAt handle 0 bytes)
    (Op.Runs.change_ (fun st hst => ⟨trivial, (Except.ok.inj hst).symm⟩) fun _ he => by cases he) ?_
  rintro _ st rfl
  apply Op.Runs.query
  · intro _ hsync
    refine ⟨rfl, ?_⟩
    rintro rfl
    cases hsync
  · intro e hsync
    refine ⟨rfl, ?_⟩
    cases handle with
    | device => rfl
    | file id => cases hsync
    | directory => cases hsync

end

/-- What is found can be read, for it is no directory, and the output can be opened for writing, as
a file. -/
def Fillable (found : Handle → Prop) (fs : FileSystem) (output : Pathname) : Prop :=
  ∃ handle st id, found handle ∧ handle ≠ .directory ∧ fs.create output = .ok (st, .file id)

/-- A read into a file succeeds where that is possible.  The file holds what was opened, or nothing
if it is the very file; or nothing has changed, or a directory was opened, and the file is empty. -/
theorem runRead_leaves {p : Execution} (hp : p.HasNoLogFile) {fs : FileSystem}
    (hfs : p.world.fs = fs) (hwf : fs.WellFormed) (s : Store) (name : String) (output : Pathname) :
    (runRead s name (some output)).Leaves p
      (fun _ p' => Fillable (s.Finds fs name) fs output ∧
        ∃ handle bytes id, s.Finds fs name handle ∧ fs.readFrom handle 0 = .ok bytes ∧
          Filled fs output id (if handle = .file id then [] else bytes) p'.world.fs)
      fun _ p' => ¬ Fillable (s.Finds fs name) fs output ∧ (p'.world.fs = fs ∨
        s.Finds fs name .directory ∧ ∃ id, Filled fs output id [] p'.world.fs) := by
  rw [runRead]
  refine Act.Leaves.bind (Act.Leaves.perform_runs hp hfs Store.openReader_finds ?_ ?_)
  rotate_left
  · rintro e p₁ ⟨hsame, hnone⟩
    refine ⟨?_, Or.inl hsame⟩
    rintro ⟨handle, -, -, hfinds, -⟩
    exact hnone handle hfinds
  rintro reader p₁ ⟨hfs₁, handle, hfinds, rfl⟩ hp₁
  simp only [Reader.read_all]
  refine Act.Leaves.bind (Act.Leaves.perform_runs hp₁ hfs₁ (create_runs hwf) ?_ ?_)
  rotate_left
  · rintro e p₂ ⟨hsame, hnone⟩
    refine ⟨?_, Or.inl hsame⟩
    rintro ⟨-, st, id, -, -, hcreate⟩
    exact hnone st (.file id) hcreate
  rintro out p₂ ⟨hcreate, hout⟩ hp₂
  refine Act.Leaves.bind (Act.Leaves.perform_runs hp₂ rfl readFrom_runs ?_ ?_)
  · rintro bytes p₃ ⟨hfs₃, hread⟩ hp₃
    refine Act.Leaves.bind (Act.Leaves.perform_runs hp₃ hfs₃ writeOutput_runs ?_ ?_)
    · rintro _ p₄ ⟨hfs₄, hdevice⟩ hp₄
      rcases hout with ⟨hout, -⟩ | ⟨id, rfl, hfilled⟩
      · exact absurd hout hdevice
      obtain ⟨before, hbefore, rfl⟩ := hfilled.readFrom_eq_ok hread
      have hfile : handle ≠ .directory := by
        rintro rfl
        cases hbefore
      refine Act.Leaves.report hp₄ fun p₅ hworld _ =>
        ⟨⟨handle, _, id, hfinds, hfile, hcreate⟩, handle, before, id, hfinds, hbefore, ?_⟩
      rw [hworld, hfs₄]
      exact hfilled.writeAt _
    · rintro e p₄ ⟨hfs₄, rfl⟩
      rcases hout with ⟨-, hsame⟩ | ⟨id, hfile, -⟩
      · refine ⟨?_, Or.inl (hfs₄.trans hsame)⟩
        rintro ⟨-, st, id, -, -, hcreate'⟩
        rw [hcreate] at hcreate'
        cases hcreate'
      · cases hfile
  · rintro e p₃ ⟨hfs₃, rfl⟩
    refine ⟨?_, ?_⟩
    · rintro ⟨handle, -, -, hfinds', hfile, -⟩
      exact hfile (hfinds'.eq hfinds)
    · rw [hfs₃]
      rcases hout with ⟨-, hsame⟩ | ⟨id, -, hfilled⟩
      · exact Or.inl hsame
      · exact Or.inr ⟨hfinds, id, hfilled⟩

/-! ## The whole command -/

namespace CommandLine.Request

variable {r : Request} {environment : List (String × String)} {w : World}

/-- The store that a command opens, if it can, and the file system after that. -/
def opening (r : Request) (environment : List (String × String)) (order : SettingOrder)
    (w : World) :
    Option Store × FileSystem :=
  match StorageConfig.load r.config environment r.root w.fs order with
  | .error _ => (none, w.fs)
  | .ok config =>
    match config.openStore.run { w with events := [] } with
    | (.ok s, w') => (some s, w'.fs)
    | (.error _, w') => (none, w'.fs)

/-- There is no root where the configuration of a command wants it. -/
def LacksRoot (r : Request) (environment : List (String × String)) (order : SettingOrder)
    (w : World) : Prop :=
  ∃ config, StorageConfig.load r.config environment r.root w.fs order = .ok config ∧
    config.LacksRoot w.fs

/-- A command opens its store, and then what stands at the path of a name. -/
def Finds (r : Request) (environment : List (String × String)) (order : SettingOrder)
    (w : World) (name : String) (handle : Handle) : Prop :=
  ∃ s, (r.opening environment order w).1 = some s ∧
    s.Finds (r.opening environment order w).2 name handle

theorem opening_grows (r : Request) (environment : List (String × String)) (order : SettingOrder)
    (hwf : w.fs.WellFormed) :
    (r.opening environment order w).2.workingDir = w.fs.workingDir ∧
      ((r.opening environment order w).2 = w.fs ∨
        Grown w.fs (r.opening environment order w).2 ∧ r.LacksRoot environment order w) := by
  rw [opening]
  cases hload : StorageConfig.load r.config environment r.root w.fs order with
  | error fault => exact ⟨rfl, Or.inl rfl⟩
  | ok config =>
      have hlacks : config.LacksRoot w.fs → r.LacksRoot environment order w :=
        fun h => ⟨config, hload, h⟩
      have hruns := (StorageConfig.openStore_grows hwf config).and
        (config.openStore_stays w.fs.workingDir w.fs rfl)
      dsimp only
      rcases hrun : config.openStore.run { w with events := [] } with ⟨result, w'⟩
      cases result with
      | ok s =>
          obtain ⟨hgrows, hstays⟩ := hruns.of_ok (w := { w with events := [] }) rfl hrun
          exact ⟨hstays, hgrows.imp_right fun h => ⟨h.1, hlacks h.2⟩⟩
      | error e =>
          obtain ⟨hgrows, hstays⟩ := hruns.of_error (w := { w with events := [] }) rfl hrun
          exact ⟨hstays, hgrows.imp_right fun h => ⟨h.1, hlacks h.2⟩⟩

end CommandLine.Request

/-- What is left by a command that was to read what it finds into a file and has ended with a
certain code, by what was there when it was started and what was there once the store was open. -/
structure ReadInto (found : Handle → Prop) (fs opened : FileSystem) (output : Pathname) (code : Nat)
    (fs' : FileSystem) : Prop where
  /-- It ends well wherever that is possible. -/
  code_eq_zero_iff : code = 0 ↔ Fillable found opened output
  /-- The file holds what the object held, or nothing if it is the object itself. -/
  succeeded : code = 0 → ∃ handle bytes id, found handle ∧ fs.readFrom handle 0 = .ok bytes ∧
    Filled opened output id (if handle = .file id then [] else bytes) fs'
  /-- The file is not touched, or there is a directory in place of the object, and it is empty. -/
  failed : code ≠ 0 → fs' = opened ∨ found .directory ∧ ∃ id, Filled opened output id [] fs'
  /-- Whatever comes of it, a path that leads to another file leads there again, and that file holds
  what it held. -/
  spared : ∀ {p q id f}, fs.locateEntry true p = .ok (q, .file id) → fs.file? id = some f →
    (∀ q', opened.locateEntry true output ≠ .ok (q', .file id)) →
    fs'.locateEntry true p = .ok (q, .file id) ∧ fs'.file? id = some f

namespace ReadInto

variable {found : Handle → Prop} {fs opened fs' : FileSystem} {output : Pathname} {id : Nat}

theorem of_untouched (hgrown : Grown fs opened) (hdir : opened.workingDir = fs.workingDir)
    (hcannot : ¬ Fillable found opened output) (h : fs' = opened) :
    ReadInto found fs opened output 1 fs' where
  code_eq_zero_iff := iff_of_false (by simp) hcannot
  succeeded := fun hcode => absurd hcode (by simp)
  failed := fun _ => Or.inl h
  spared := by
    subst h
    exact fun hp hf _ =>
      ⟨Store.locateEntry_of_grown hgrown hdir hp, (hgrown.file?_eq _).trans hf⟩

theorem of_directory (hgrown : Grown fs opened) (hdir : opened.workingDir = fs.workingDir)
    (hcannot : ¬ Fillable found opened output) (hfound : found .directory)
    (hfilled : Filled opened output id [] fs') : ReadInto found fs opened output 1 fs' where
  code_eq_zero_iff := iff_of_false (by simp) hcannot
  succeeded := fun hcode => absurd hcode (by simp)
  failed := fun _ => Or.inr ⟨hfound, id, hfilled⟩
  spared := fun hp hf hother =>
    hfilled.spares (Store.locateEntry_of_grown hgrown hdir hp) ((hgrown.file?_eq _).trans hf) hother

theorem of_filled (hgrown : Grown fs opened) (hdir : opened.workingDir = fs.workingDir)
    (hcan : Fillable found opened output) {handle : Handle} {bytes : Bytes} (hfound : found handle)
    (hread : opened.readFrom handle 0 = .ok bytes)
    (hfilled : Filled opened output id (if handle = .file id then [] else bytes) fs') :
    ReadInto found fs opened output 0 fs' where
  code_eq_zero_iff := iff_of_true rfl hcan
  succeeded := fun _ =>
    ⟨handle, bytes, id, hfound, (hgrown.readFrom_eq handle 0).symm.trans hread, hfilled⟩
  failed := fun hcode => absurd rfl hcode
  spared := fun hp hf hother =>
    hfilled.spares (Store.locateEntry_of_grown hgrown hdir hp) ((hgrown.file?_eq _).trans hf) hother

end ReadInto

namespace CommandLine.Request

variable {r : Request} {environment : List (String × String)} {order : SettingOrder} {w : World}
  {name : String} {output : Pathname}

theorem not_fillable_of_opening (h : (r.opening environment order w).1 = none) {fs : FileSystem} :
    ¬ Fillable (r.Finds environment order w name) fs output := by
  rintro ⟨handle, -, -, ⟨s, hs, -⟩, -⟩
  rw [h] at hs
  cases hs

/-- What a command leaves whose task is to read an object into a file. -/
theorem run_read_leaves (htask : r.task = .read name (some output)) (hlog : r.logDirectory = none)
    (hwf : w.fs.WellFormed) (environment : List (String × String)) (stream : Bytes)
    (libraries : Libraries) :
    (r.run environment stream libraries).Leaves (Execution.ofWorld w)
      (fun _ p' => ReadInto (r.Finds environment libraries.order w name) w.fs
        (r.opening environment libraries.order w).2 output 0 p'.world.fs)
      fun _ p' => ReadInto (r.Finds environment libraries.order w name) w.fs
        (r.opening environment libraries.order w).2 output 1 p'.world.fs := by
  obtain ⟨hdir, hgrows⟩ := r.opening_grows environment libraries.order hwf
  have hgrown : Grown w.fs (r.opening environment libraries.order w).2 := by
    rcases hgrows with hsame | ⟨hgrown, -⟩
    · rw [hsame]
      exact Grown.refl hwf
    · exact hgrown
  refine Request.run_leaves hlog ?_ ?_
  · rintro fault p hload rfl
    have hopening : r.opening environment libraries.order p.world = (none, p.world.fs) := by
      rw [opening, hload]
    refine .of_untouched hgrown hdir (not_fillable_of_opening ?_) ?_
    · rw [hopening]
    · rw [hopening]
  rintro config p hload rfl hp
  rw [htask, Task.run]
  refine Act.Leaves.bind (Act.Leaves.perform hp ?_ ?_)
  · intro s w' p₁ hopen hfs₁ hp₁
    have hopening : r.opening environment libraries.order p.world = (some s, w'.fs) := by
      rw [opening, hload]
      dsimp only
      rw [hopen]
    have hfinds : r.Finds environment libraries.order p.world name = s.Finds w'.fs name := by
      funext handle
      simp [Finds, hopening]
    rw [hfinds]
    rw [hopening] at hgrown hdir ⊢
    refine (runRead_leaves hp₁ hfs₁ hgrown.wellFormed s name output).weaken ?_ ?_
    · rintro _ p₂ ⟨hcan, handle, bytes, id, hfound, hread, hfilled⟩
      exact .of_filled hgrown hdir hcan hfound hread hfilled
    · rintro f p₂ ⟨hcannot, hsame | ⟨hfound, id, hfilled⟩⟩
      · exact .of_untouched hgrown hdir hcannot hsame
      · exact .of_directory hgrown hdir hcannot hfound hfilled
  · intro e w' p₁ hopen hfs₁
    have hopening : r.opening environment libraries.order p.world = (none, w'.fs) := by
      rw [opening, hload]
      dsimp only
      rw [hopen]
    refine .of_untouched hgrown hdir (not_fillable_of_opening ?_) ?_
    · rw [hopening]
    · rw [hopening]
      exact hfs₁

end CommandLine.Request

/-- A command that reads an object into a file ends well exactly where what it finds is no directory
and the file can be opened for writing.  Then the file holds what the object held when the command
was started, unless the two are one file; if it ends badly, the file is not touched, unless a
directory stands in place of the object. -/
theorem read_to_file {args : List Bytes} {environment : List (String × String)} {stream : Bytes}
    {libraries : Libraries} {r : Request} {name : String} {output : Pathname} {w : World}
    (hargs : Request.read args = .ok r) (htask : r.task = .read name (some output))
    (hlog : r.logDirectory = none) (hwf : w.fs.WellFormed) :
    ((r.opening environment libraries.order w).2 = w.fs ∨
        Grown w.fs (r.opening environment libraries.order w).2 ∧
          r.LacksRoot environment libraries.order w) ∧
      ReadInto (r.Finds environment libraries.order w name) w.fs
        (r.opening environment libraries.order w).2 output
        ((runProgram args environment stream libraries).run w).1.code
        ((runProgram args environment stream libraries).run w).2.fs := by
  refine ⟨(r.opening_grows environment libraries.order hwf).2, ?_⟩
  have hrun := Request.run_read_leaves htask hlog hwf environment stream libraries
  obtain ⟨p', hworld, ⟨hcode, hdone⟩ | ⟨hcode, f, hfailed⟩⟩ := runProgram_leaves hargs hrun
  · rw [hworld, hcode]
    exact hdone
  · rw [hworld, hcode]
    exact hfailed

/-! ### A file of its own, the object itself, and a directory -/

def readInto (output : String) : List Bytes :=
  ["--root", "/r", "read", "n", "--output", output].map Bytes.ofString

def requestInto (output : String) : Request :=
  ⟨none, some (.ofString "/r"), .upTo .warn, none, false, .read "n" (some (.ofString output))⟩

def holding : FileSystem :=
  ((Store.newDirectory [114]).allocate ⟨[108], fileMode, 0⟩).1.bind [[114], [110]] (.file 0)

theorem holding_wellFormed : holding.WellFormed := by
  have hname : IsEntryName [110] := isEntryName_letter (by decide)
  have hnew := (Store.newDirectory_wellFormed Store.isEntryName_r).allocate ⟨[108], fileMode, 0⟩
  exact @WellFormed.bind _ hnew [[114]] _ (.file 0) _ rfl hname
    (Or.inr fun _ hmode => by cases hmode) fun id hid => ⟨_, by cases hid; rfl⟩

/-- A store in which a directory stands at n, and a file elsewhere. -/
def sheltering : FileSystem :=
  (((Store.newDirectory [114]).allocate ⟨[108], fileMode, 0⟩).1.bind [[102]] (.file 0)).bind
    [[114], [110]] (.directory directoryMode)

/-- Read into a new file, the object is there twice. -/
theorem read_to_file_copied :
    ((runProgram (readInto "/f") [] []).run (.ofFileSystem holding)).1.code = 0 ∧
      ((runProgram (readInto "/f") [] []).run (.ofFileSystem holding)).2.fs.view [[102]] =
        some (.file [108] fileMode) ∧
      ((runProgram (readInto "/f") [] []).run (.ofFileSystem holding)).2.fs.locateEntry true
        (.ofString "/r/n") = .ok ([[114], [110]], .file 0) ∧
      ((runProgram (readInto "/f") [] []).run (.ofFileSystem holding)).2.fs.file? 0 =
        some ⟨[108], fileMode, 0⟩ := by
  have hread : Request.read (readInto "/f") = .ok (requestInto "/f") := by decide +kernel
  obtain ⟨-, hinto⟩ := @read_to_file (readInto "/f") [] [] .standard (requestInto "/f") "n"
    (.ofString "/f") (.ofFileSystem holding) hread rfl rfl holding_wellFormed
  have hopened : ((requestInto "/f").opening [] Libraries.standard.order
      (.ofFileSystem holding)).2 = holding := by decide +kernel
  have herror : holding.locateEntry true (.ofString "/f") = .error .noEntry := by decide +kernel
  refine ⟨by decide +kernel, by decide +kernel, hinto.spared (by decide +kernel) rfl ?_⟩
  intro q hq
  rw [hopened, herror] at hq
  cases hq

/-- Read into itself, the object is empty; and where a directory is read, the file is. -/
theorem read_to_file_emptied :
    (((runProgram (readInto "/r/n") [] []).run (.ofFileSystem holding)).1.code = 0 ∧
        holding.objectAt? [[114]] [[110]] = some [108] ∧
        ((runProgram (readInto "/r/n") [] []).run (.ofFileSystem holding)).2.fs.objectAt? [[114]]
          [[110]] = some []) ∧
      ((runProgram (readInto "/f") [] []).run (.ofFileSystem sheltering)).1.code = 1 ∧
        sheltering.view [[102]] = some (.file [108] fileMode) ∧
        ((runProgram (readInto "/f") [] []).run (.ofFileSystem sheltering)).2.fs.view [[102]] =
          some (.file [] fileMode) := by
  constructor <;> decide +kernel

end Depot
