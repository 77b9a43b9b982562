import Depot.Proofs.CommandLine.Running
import Depot.Proofs.Store.FailureAtomicity
import Depot.Proofs.Store.FromFile
import Depot.Proofs.Store.Opening
/-!
# Saving a file by a command

A command that saves a file opens the store, opens the file, and only then opens the staging file of
the object.  If the path of the input leads to that very staging file, it is empty by the time it is
read.

* `save_from_file` — what is stored by a command that ends well, and what is left of the file.
-/

namespace Depot

open CommandLine FileSystem

namespace Store

variable {s : Store} {root q : Position} {k : Key} {fs₀ fs fs' : FileSystem} {id : Nat} {f : File}
  {input : Pathname}

/-- What a write of a file leaves: the object, and the file where it was. -/
structure TakesFrom (root : Position) (k : Key) (input : Pathname) (q : Position) (bytes : Bytes)
    (fs : FileSystem) : Prop where
  object : fs.objectAt? root k.names = some (takenFrom root k q bytes)
  input : q ≠ root ++ k.staging → ∃ id f, fs.locateEntry true input = .ok (q, .file id) ∧
    fs.file? id = some f ∧ f.bytes = bytes

theorem Published.takesFrom (h₀ : s.Tidy fs₀ root)
    (h : s.Published root k fs₀ (takenFrom root k q f.bytes) fs)
    (hdir : fs.workingDir = fs₀.workingDir)
    (hinput : fs₀.locateEntry true input = .ok (q, .file id)) (hf : fs₀.file? id = some f) :
    TakesFrom root k input q f.bytes fs := by
  refine ⟨?_, fun hq => ?_⟩
  · obtain ⟨id', time, hid', hf'⟩ := h.object
    exact objectAt?_eq_some_iff.2 ⟨isObjectPosition_names k, id', _, hid', hf', rfl⟩
  · obtain ⟨id', f', hid', hf', hbytes⟩ := h.file_of_source h₀ (at?_of_locateEntry hinput) hf hq
    refine ⟨id', f', ?_, hf', hbytes⟩
    exact locateEntry_file_of_keeps h.footprint.keepsPaths hdir hinput hid'

theorem saveFrom_slashed (hroot : s.root.bytes ≠ []) (name : String)
    (source : FileSystem → List Delivery) (expected : Nat) :
    s.slashed.saveFrom name source expected = s.saveFrom name source expected := by
  rw [saveFrom, saveFrom, beginSave, beginSave, resolve_slashed hroot]

theorem saveFrom_checked {name : String} {source : FileSystem → List Delivery} {expected : Nat}
    {w w' : World} (h : (s.saveFrom name source expected).run w = (.ok (), w')) :
    ∃ path, s.resolve name = .ok path ∧ checkPath (stagingPath path) = .ok () := by
  have hbegin : (s.beginSave name).Runs w.fs (fun _ => True)
      (fun _ _ => ∃ path, s.resolve name = .ok path ∧ checkPath (stagingPath path) = .ok ())
      (fun _ _ => True) := by
    rw [beginSave]
    cases s.resolve name with
    | error fault => exact Op.Runs.lift_error trivial
    | ok path =>
        exact Op.Runs.lift_ok (beginWriting_checked.weaken (fun _ hst => hst)
          (fun _ _ hcheck => ⟨path, rfl, hcheck⟩) fun _ _ hst => hst)
  obtain ⟨writing, w₁, hrun, -⟩ := Op.run_bind_eq_ok.1 h
  exact hbegin.of_ok rfl hrun

/-- A store that was opened saves a file: the root that its path leads to is all that has to be
plain. -/
theorem saveFrom_takesFrom {root : Position} (hwf : fs.WellFormed) (hclean : s.root.IsClean)
    (hreach : s.Reaches fs [] root) (hplain : fs.PlainBelow root)
    (hinput : fs.locateEntry true input = .ok (q, .file id)) (hf : fs.file? id = some f)
    {name : String} {expected : Nat} {w w' : World} (hw : w.fs = fs)
    (h : (s.saveFrom name (deliveriesOf (.file id)) expected).run w = (.ok (), w'))
    (hname : ObjectName.ofObject name = .ok k.names) :
    TakesFrom root k input q f.bytes w'.fs := by
  have hroot := hclean.bytes_ne_nil
  have hpath : s.resolve name = .ok (s.pathOf k.names) := by rw [resolve, hname]
  obtain ⟨path, hresolve, hcheck⟩ := saveFrom_checked h
  rw [hpath] at hresolve
  cases hresolve
  have hstaging : stagingPath (s.pathOf k.names) = s.pathOf k.staging :=
    Pathname.appended_join_ofNames hroot k.isName k.isName_staging
  have hfront : checkPath (s.pathOf []) = .ok () := by
    rw [hstaging] at hcheck
    refine checkPath_of_isPrefix (Pathname.join_ofNames_isPrefix hroot [] k.staging
      k.isName_staging) ?_ hcheck
    rw [pathOf, Pathname.join_ofNames hroot (by simp)]
    simp
  have htidy : s.slashed.Tidy fs root := ⟨hwf, leadsTo_slashed hclean hfront hreach, hplain⟩
  rw [← saveFrom_slashed hroot] at h
  have hslashed : s.slashed.resolve name = .ok (s.slashed.pathOf k.names) := by
    have hsame : s.slashed.pathOf k.names = s.pathOf k.names := pathOf_slashed hroot k.isName
    rw [resolve_slashed hroot, hpath, hsame]
  have hpublished := (htidy.saveFrom_file_runs hslashed
    (walk_occupied (locate_eq_ok.1 (locateEntry_eq_ok.1 hinput)).2) hf expected).of_ok hw h
  have hdir := (saveFrom_stays s.slashed name _ expected fs.workingDir fs rfl).of_ok hw h
  exact hpublished.takesFrom htidy hdir hinput hf

end Store

/-- A command that saves a file and ends well has stored the bytes that the file had when it was
started, and the file still has them, unless the path of the file leads to the staging file of the
object: then the object is empty. -/
theorem save_from_file {args : List Bytes} {environment : List (String × String)} {stream : Bytes}
    {libraries : Libraries} {r : Request} {name : String} {input : Pathname}
    {expected : Option Nat} {w : World} {q : Position} {id : Nat} {f : File}
    (hargs : Request.read args = .ok r) (htask : r.task = .save name (some input) expected)
    (hlog : r.logDirectory = none) (hwf : w.fs.WellFormed)
    (hdir : ∃ mode, w.fs.at? w.fs.workingDir = some (.directory mode))
    (hinput : w.fs.locateEntry true input = .ok (q, .file id)) (hf : w.fs.file? id = some f)
    (hexit : ((runProgram args environment stream libraries).run w).1.code = 0) :
    ∃ config s opened root k,
      StorageConfig.load r.config environment r.root w.fs libraries.order = .ok config ∧
      config.openStore.run { w with events := [] } = (.ok s, opened) ∧
      s.Reaches opened.fs [] root ∧ ObjectName.ofObject name = .ok k.names ∧
      (w.fs.PlainBelow root →
        Store.TakesFrom root k input q f.bytes
          ((runProgram args environment stream libraries).run w).2.fs) := by
  have hrun : (r.run environment stream libraries).Yields (Execution.ofWorld w) fun _ p' =>
      ∃ config s opened root k,
        StorageConfig.load r.config environment r.root w.fs libraries.order = .ok config ∧
        config.openStore.run { w with events := [] } = (.ok s, opened) ∧
        s.Reaches opened.fs [] root ∧ ObjectName.ofObject name = .ok k.names ∧
        (w.fs.PlainBelow root → Store.TakesFrom root k input q f.bytes p'.world.fs) := by
    refine Request.run_yields hlog ?_
    rintro config p hload rfl hp
    rw [htask, Task.run]
    refine Act.Yields.bind (Act.Yields.perform hp ?_)
    intro s opened p₁ hopen hp₁fs hp₁
    obtain ⟨hgrown, hclean, root, hreach⟩ :=
      (StorageConfig.openStore_runs hwf hdir config).of_ok (w := { p.world with events := [] }) rfl
        hopen
    have hstays := (config.openStore_stays p.world.fs.workingDir p.world.fs rfl).of_ok
      (w := { p.world with events := [] }) rfl hopen
    have hinput' := Store.locateEntry_of_grown hgrown hstays hinput
    refine Act.Yields.bind (Act.Yields.perform hp₁ ?_)
    intro handle w₂ p₂ hread hp₂fs hp₂
    have hhandle : w₂.fs = opened.fs ∧ handle = .file id := by
      have hquery : (Op.query (·.openRead input)).Runs opened.fs (fun _ => False)
          (fun handle st => st = opened.fs ∧ handle = .file id) (fun _ _ => True) := by
        refine Op.Runs.query (fun handle' hok => ⟨rfl, ?_⟩) fun _ _ => trivial
        rw [openRead, stat, hinput'] at hok
        cases hok
        rfl
      exact hquery.of_ok (w := { p₁.world with events := [] }) hp₁fs hread
    obtain ⟨hsame, rfl⟩ := hhandle
    refine Act.Yields.get (Act.Yields.bind (Act.Yields.perform hp₂ ?_))
    intro u w₃ p₃ hsave hp₃fs hp₃
    refine Act.Yields.report hp₃ fun p₄ hp₄ _ => ?_
    obtain ⟨path, hresolve, -⟩ := Store.saveFrom_checked hsave
    obtain ⟨k, hname, -, -⟩ := Store.resolve_eq_ok hresolve
    refine ⟨config, s, opened, root, k, hload, hopen, hreach, hname, fun hplain => ?_⟩
    rw [hp₄, hp₃fs]
    exact Store.saveFrom_takesFrom (w := { p₂.world with events := [] }) hgrown.wellFormed hclean
      hreach (hgrown.plainBelow hplain) hinput' ((hgrown.file?_eq id).trans hf)
      (hp₂fs.trans hsame) hsave hname
  obtain ⟨p', hworld, hdone⟩ := runProgram_exit hargs hrun hexit
  rwa [← hworld] at hdone

/-! ### A staging file that is salvaged -/

/-- The command line that saves the file that an abandoned write of n has left. -/
def salvage (name : String) : List Bytes :=
  ["--root", "/r", "save", name, "--input", "/r/n.tmp"].map Bytes.ofString

/-- Under another name, the bytes are kept. -/
theorem save_from_file_salvaged :
    ((runProgram (salvage "m") [] []).run (.ofFileSystem WriteCall.abandoned)).2.fs.objectAt?
      [[114]] [[109]] = some [108] := by
  have htidy := WriteCall.abandoned_tidy
  have hread : Request.read (salvage "m") = .ok ⟨none, some (.ofString "/r"), .upTo .warn, none,
      false, .save "m" (some (.ofString "/r/n.tmp")) none⟩ := by decide +kernel
  obtain ⟨config, s, opened, root, k, hload, hopen, hreach, hname, htakes⟩ :=
    @save_from_file (salvage "m") [] [] .standard _ "m" (.ofString "/r/n.tmp") none
      (.ofFileSystem WriteCall.abandoned) ([[114]] ++ Store.keyN.staging) 0 ⟨[108], fileMode, 0⟩
      hread rfl rfl htidy.wellFormed ⟨directoryMode, rfl⟩ (by decide +kernel) (by decide +kernel)
      (by decide +kernel)
  have hconfig : StorageConfig.load none [] (some (.ofString "/r")) WriteCall.abandoned =
      .ok (.atPath (.ofString "/r")) := by decide +kernel
  obtain rfl : StorageConfig.atPath (.ofString "/r") = config :=
    Except.ok.inj (hconfig.symm.trans hload)
  have hstore : ((StorageConfig.atPath (.ofString "/r")).openStore.run
      (.ofFileSystem WriteCall.abandoned)).1 = .ok (Store.atTop [114]) := by decide +kernel
  have hopened : ((StorageConfig.atPath (.ofString "/r")).openStore.run
      (.ofFileSystem WriteCall.abandoned)).2.fs = WriteCall.abandoned := by decide +kernel
  have hrun := congrArg Prod.fst hopen
  have hfs := congrArg (fun run => run.2.fs) hopen
  obtain rfl : Store.atTop [114] = s := Except.ok.inj (hstore.symm.trans hrun)
  rw [show opened.fs = WriteCall.abandoned from hfs.symm.trans hopened] at hreach
  obtain rfl : root = [[114]] := hreach.unique htidy.leadsTo.reaches
  have hnames : k.names = [[109]] := (Except.ok.inj hname).symm
  have hobject := (htakes htidy.plain).object
  rw [Store.takenFrom, if_neg, hnames] at hobject
  · exact hobject
  · intro hsame
    have hkeys := Key.names_of_staging_eq (List.append_cancel_left hsame)
    rw [hnames] at hkeys
    exact absurd hkeys (by decide)

/-- Under its own name, it is emptied before it is read. -/
theorem salvage_empties :
    ((runProgram (salvage "n") [] []).run (.ofFileSystem WriteCall.abandoned)).1.code = 0 ∧
      WriteCall.abandoned.PlainBelow [[114]] ∧
      (WriteCall.abandoned.view ([[114]] ++ Store.keyN.staging) = some (.file [108] fileMode)) ∧
      ((runProgram (salvage "n") [] []).run
        (.ofFileSystem WriteCall.abandoned)).2.fs.objectAt? [[114]] [[110]] = some [] :=
  ⟨by decide +kernel, WriteCall.abandoned_tidy.plain, by decide +kernel, by decide +kernel⟩

end Depot
