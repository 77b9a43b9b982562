import Depot.Proofs.Log.Detached
/-!
# Calls that start a log

A program may try to start its log any number of times.  What comes of one call depends on its
settings, on the directory of its file, and on whether there is a log already; the log itself plays
no part in the work of the call.

* `LogSettings.Outcome`, `LogSettings.start_outcome` — what one call can do;
* `StartRun.log_eq_none`, `StartRun.log_eq_some` — what a run of calls keeps, by induction on it;
* `starts_once` — a run of calls starts one log at most.
-/

namespace Depot

/-! ## One call -/

namespace LogSettings

open Act

/-- Settings that a log can be started with, if its file can be opened. -/
structure Acceptable (s : LogSettings) (reader : FilterReader) : Prop where
  name : ∃ c ∈ s.name.toList, isWhite c = false
  keeps : ∀ file, s.file = some file → file.maxFiles ≠ 0
  filter : ∀ text, s.filter = some text →
    ∃ filter, reader.strict s.threshold text.toList = .ok filter
  shown : s.console = true ∨ s.file.isSome = true

/-- In that world the directory of the file can be made, if it is missing, and the file opened. -/
def Opens (s : LogSettings) (w : World) : Prop :=
  ∃ file p, s.openFile.run (.ofWorld w) = (.ok file, p)

inductive Outcome (s : LogSettings) (reader : FilterReader) (p : Execution) :
    Except LogError Log → Execution → Prop
  /-- The settings are no good: nothing is touched. -/
  | refused {text : String} {p' : Execution} (h : ¬ s.Acceptable reader)
    (hworld : p'.world = p.world)
      (hlog : p'.log = p.log) : Outcome s reader p (.error (.invalid text none)) p'
  /-- The file cannot be opened. -/
  | unopened {e : LogError} {p' : Execution} (h : s.Acceptable reader) (hopens : ¬ s.Opens p.world)
      (hlog : p'.log = p.log) : Outcome s reader p (.error e) p'
  /-- There is a log already. -/
  | taken {p' : Execution} (h : s.Acceptable reader) (hopens : s.Opens p.world)
    (hsome : p.log ≠ none)
      (hlog : p'.log = p.log) : Outcome s reader p (.error (.taken none)) p'
  | started {log : Log} {p' : Execution} (h : s.Acceptable reader) (hopens : s.Opens p.world)
      (hnone : p.log = none) (hlog : p'.log = some log) : Outcome s reader p (.ok log) p'

variable {s : LogSettings} {reader : FilterReader} {p : Execution}

theorem isBlankText_eq_false_iff {text : String} :
    isBlankText text = false ↔ ∃ c ∈ text.toList, isWhite c = false := by
  simp [isBlankText]

theorem validate_cases (s : LogSettings) (reader : FilterReader) :
    (s.validate = .ok () ∧ (∃ c ∈ s.name.toList, isWhite c = false) ∧
      ∀ file, s.file = some file → file.maxFiles ≠ 0) ∨
    ∃ text, s.validate = .error (.invalid text none) ∧ ¬ s.Acceptable reader := by
  rw [validate, LogError.setting, LogError.setting]
  split
  · rename_i hblank
    refine .inr ⟨_, rfl, fun h => ?_⟩
    rw [isBlankText_eq_false_iff.2 h.name] at hblank
    cases hblank
  rename_i hname
  split
  · rename_i hzero
    obtain ⟨file, hfile, hmax⟩ := (Option.any_eq_true _ _).1 hzero
    exact .inr ⟨_, rfl, fun h => h.keeps file hfile (of_decide_eq_true hmax)⟩
  rename_i hkeeps
  refine .inl ⟨rfl, isBlankText_eq_false_iff.1 (Bool.not_eq_true _ ▸ hname), ?_⟩
  exact fun file hfile hmax =>
    hkeeps ((Option.any_eq_true _ _).2 ⟨file, hfile, decide_eq_true hmax⟩)

theorem readFilter_leaves (hfilter : s.filter = none) (environment : String)
    (reader : FilterReader) :
    (s.readFilter environment reader).Leaves p (fun _ p' => p'.world = p.world ∧ p'.log = p.log)
      fun _ _ => False := by
  rw [readFilter, hfilter]
  dsimp only
  exact Leaves.bind ((Leaves.complainAll _).weaken (fun _ _ h => Leaves.pure h) fun _ _ h => h)

theorem readFilter_outcome (s : LogSettings) (environment : String) (reader : FilterReader)
    (p : Execution) :
    (s.readFilter environment reader).Leaves p
      (fun _ p' => (∀ text, s.filter = some text →
          ∃ filter, reader.strict s.threshold text.toList = .ok filter) ∧
        p'.world = p.world ∧ p'.log = p.log)
      fun e p' => (∃ text, e = .invalid text none) ∧ ¬ s.Acceptable reader ∧
        p'.world = p.world ∧ p'.log = p.log := by
  cases hfilter : s.filter with
  | none =>
      exact (readFilter_leaves hfilter environment reader).weaken
        (fun _ _ h => ⟨nofun, h⟩) fun _ _ h => h.elim
  | some text =>
      rw [readFilter, hfilter]
      dsimp only
      split
      · rename_i filter hread
        refine Leaves.pure ⟨fun text' htext => ?_, rfl, rfl⟩
        cases htext
        exact ⟨filter, hread⟩
      · rename_i fault hread
        refine Leaves.throw ⟨⟨_, rfl⟩, fun h => ?_, rfl, rfl⟩
        obtain ⟨filter, hok⟩ := h.filter text hfilter
        rw [hread] at hok
        cases hok

theorem openFile_isSome (s : LogSettings) (p : Execution) :
    s.openFile.Leaves p (fun file _ => file.isSome = s.file.isSome) fun _ _ => True := by
  rw [openFile]
  cases s.file with
  | none => exact Leaves.pure rfl
  | some file =>
      refine Leaves.bind ((Leaves.any _ p).weaken (fun _ p' _ => ?_) fun _ _ h => h)
      exact Leaves.bind ((Leaves.any _ p').weaken (fun _ _ _ => Leaves.pure rfl) fun _ _ h => h)

theorem openFile_outcome (s : LogSettings) (p : Execution) :
    s.openFile.Leaves p
      (fun file p' => s.Opens p.world ∧ file.isSome = s.file.isSome ∧ p'.log = p.log)
      fun _ p' => ¬ s.Opens p.world ∧ p'.log = p.log := by
  have hlog := (Detached.openFile s).log p
  have hresult := ((Detached.openFile s).alike p (.ofWorld p.world) rfl).1
  have hisSome := openFile_isSome s p
  rw [Leaves] at hisSome ⊢
  rcases hrun : s.openFile.run p with ⟨result, p'⟩
  rcases hfresh : s.openFile.run (.ofWorld p.world) with ⟨fresh, q⟩
  rw [hrun] at hlog hresult hisSome
  rw [hfresh] at hresult
  obtain rfl : result = fresh := hresult
  cases result with
  | ok file => exact ⟨⟨file, q, hfresh⟩, hisSome, hlog⟩
  | error e =>
      refine ⟨?_, hlog⟩
      rintro ⟨file, q', hopens⟩
      rw [hfresh] at hopens
      cases hopens

theorem start_leaves_outcome (s : LogSettings) (environment : String) (reader : FilterReader)
    (p : Execution) :
    (s.start environment reader).Leaves p (fun log p' => s.Outcome reader p (.ok log) p')
      fun e p' => s.Outcome reader p (.error e) p' := by
  rw [start]
  rcases validate_cases s reader with ⟨hvalid, hname, hkeeps⟩ | ⟨text, hinvalid, hrefused⟩
  case inr =>
    rw [hinvalid]
    exact Leaves.bind (Leaves.throw (.refused hrefused rfl rfl))
  rw [hvalid]
  refine Leaves.bind (Leaves.pure (Leaves.bind
    ((readFilter_outcome s environment reader p).weaken ?_ ?_)))
  case refine_2 =>
    rintro e p₁ ⟨⟨text, rfl⟩, hrefused, hworld, hlog⟩
    exact .refused hrefused hworld hlog
  rintro filter p₁ ⟨hfilter, hworld₁, hlog₁⟩
  by_cases hshown : s.console = true ∨ s.file.isSome = true
  · have hacceptable : s.Acceptable reader := ⟨hname, hkeeps, hfilter, hshown⟩
    have hopening := openFile_outcome s p₁
    rw [hworld₁, hlog₁] at hopening
    refine Leaves.bind (hopening.weaken ?_ fun e p₂ ⟨hopens, hlog₂⟩ =>
      .unopened hacceptable hopens hlog₂)
    rintro file p₂ ⟨hopens, hfile, hlog₂⟩
    have hlayers : ¬ (!s.console && file.isNone) = true := by
      rw [← Option.not_isSome, hfile]
      rcases hshown with h | h <;> simp [h]
    rw [if_neg hlayers]
    refine Leaves.get ?_
    by_cases hsome : p₂.log.isSome = true
    · rw [if_pos hsome]
      rw [hlog₂] at hsome
      exact Leaves.bind (Leaves.throw (.taken hacceptable hopens
        (Option.isSome_iff_ne_none.1 hsome) hlog₂))
    · rw [if_neg hsome]
      rw [hlog₂, Option.not_isSome_iff_eq_none] at hsome
      exact Leaves.bind (Leaves.modify (Leaves.pure (.started hacceptable hopens hsome rfl)))
  · -- Nothing is shown, so there is no file to open and nothing was done to the world.
    rw [not_or, Bool.not_eq_true, Bool.not_eq_true, Option.isSome_eq_false_iff,
      Option.isNone_iff_eq_none] at hshown
    obtain ⟨hconsole, hfile⟩ := hshown
    rw [openFile, hfile, hconsole]
    refine Leaves.bind (Leaves.pure (Leaves.bind (Leaves.throw (.refused ?_ hworld₁ hlog₁))))
    intro h
    rcases h.shown with hyes | hyes
    · rw [hconsole] at hyes
      cases hyes
    · rw [hfile] at hyes
      cases hyes

/-- Every call does one of the things that calls can do. -/
theorem start_outcome (s : LogSettings) (environment : String) (reader : FilterReader)
    (p : Execution) :
    s.Outcome reader p ((s.start environment reader).run p).1
      ((s.start environment reader).run p).2 := by
  have hstart := start_leaves_outcome s environment reader p
  rw [Leaves] at hstart
  rcases hrun : (s.start environment reader).run p with ⟨result, p'⟩
  rw [hrun] at hstart
  cases result with
  | ok log => exact hstart
  | error e => exact hstart

namespace Outcome

variable {result : Except LogError Log} {p' : Execution}

theorem log_of_fails (h : s.Outcome reader p result p') (hfails : ¬ ∃ log, result = .ok log) :
    p'.log = p.log := by
  cases h with
  | refused _ _ hlog => exact hlog
  | unopened _ _ hlog => exact hlog
  | taken _ _ _ hlog => exact hlog
  | started _ _ _ _ => exact absurd ⟨_, rfl⟩ hfails

theorem of_not_acceptable (h : s.Outcome reader p result p') (hbad : ¬ s.Acceptable reader) :
    (∃ text, result = .error (.invalid text none)) ∧ p'.world = p.world := by
  cases h with
  | refused _ hworld _ => exact ⟨⟨_, rfl⟩, hworld⟩
  | unopened hgood _ _ => exact absurd hgood hbad
  | taken hgood _ _ _ => exact absurd hgood hbad
  | started hgood _ _ _ => exact absurd hgood hbad

theorem log_of_ok (h : s.Outcome reader p result p') {log : Log} (hok : result = .ok log) :
    p'.log = some log := by
  cases h with
  | started _ _ _ hlog =>
      cases hok
      exact hlog
  | _ => cases hok

theorem of_none (h : s.Outcome reader p result p') (hp : p.log = none) (hgood : s.Acceptable reader)
    (hopens : s.Opens p.world) : ∃ log, result = .ok log ∧ p'.log = some log := by
  cases h with
  | refused hbad _ _ => exact absurd hgood hbad
  | unopened _ hfails _ => exact absurd hopens hfails
  | taken _ _ hsome _ => exact absurd hp hsome
  | started _ _ _ hlog => exact ⟨_, rfl, hlog⟩

theorem fails_of_some (h : s.Outcome reader p result p') (hp : p.log ≠ none) :
    ¬ ∃ log, result = .ok log := by
  cases h with
  | started _ _ hnone _ => exact absurd hnone hp
  | _ => simp

theorem taken_of_some (h : s.Outcome reader p result p') (hp : p.log ≠ none)
    (hgood : s.Acceptable reader)
    (hopens : s.Opens p.world) : result = .error (.taken none) := by
  cases h with
  | refused hbad _ _ => exact absurd hgood hbad
  | unopened _ hfails _ => exact absurd hopens hfails
  | taken _ _ _ _ => rfl
  | started _ _ hnone _ => exact absurd hnone hp

end Outcome

end LogSettings

/-! ## Runs of calls -/

/-- A call to start a log that was made: where it was made and what came of it. -/
structure StartCall where
  settings : LogSettings
  /-- The filter of the environment. -/
  environment : String
  before : Execution
  result : Except LogError Log
  after : Execution

/-- Calls that were made one after the other, from an execution on.  Before each of them the world
may change in any way, but not the log. -/
inductive StartRun (reader : FilterReader) : Execution → List StartCall → Prop
  | nil (p : Execution) : StartRun reader p []
  | cons {p : Execution} {call : StartCall} {calls : List StartCall}
      (hlog : call.before.log = p.log)
      (hrun : (call.settings.start call.environment reader).run call.before =
        (call.result, call.after))
      (h : StartRun reader call.after calls) : StartRun reader p (call :: calls)

namespace StartCall

def made (settings : LogSettings) (environment : String) (reader : FilterReader)
    (p : Execution) : StartCall where
  settings := settings
  environment := environment
  before := p
  result := ((settings.start environment reader).run p).1
  after := ((settings.start environment reader).run p).2

def Succeeds (call : StartCall) : Prop := ∃ log, call.result = .ok log

/-- A log can be started with the settings, if there is none. -/
def IsValid (call : StartCall) (reader : FilterReader) : Prop :=
  call.settings.Acceptable reader ∧ call.settings.Opens call.before.world

end StartCall

namespace StartRun

variable {reader : FilterReader} {p : Execution} {call : StartCall}
  {calls before after : List StartCall}

theorem made {settings : LogSettings} {environment : String}
    (h : StartRun reader (StartCall.made settings environment reader p).after calls) :
    StartRun reader p (.made settings environment reader p :: calls) := .cons rfl rfl h

theorem outcome (h : StartRun reader p calls) (hcall : call ∈ calls) :
    call.settings.Outcome reader call.before call.result call.after := by
  induction h with
  | nil => cases hcall
  | cons _ hrun _ ih =>
      rcases List.mem_cons.1 hcall with rfl | hrest
      · have hstart := LogSettings.start_outcome call.settings call.environment reader call.before
        rwa [hrun] at hstart
      · exact ih hrest

theorem of_append (h : StartRun reader p (before ++ call :: after)) :
    StartRun reader call.after after := by
  induction before generalizing p with
  | nil =>
      cases h with
      | cons _ _ h => exact h
  | cons _ _ ih =>
      cases h with
      | cons _ _ h => exact ih h

theorem log_eq_none (h : StartRun reader p (before ++ call :: after)) (hp : p.log = none)
    (hfailed : ∀ b ∈ before, ¬ b.Succeeds) : call.before.log = none := by
  induction before generalizing p with
  | nil =>
      cases h with
      | cons hlog _ _ => exact hlog.trans hp
  | cons first before ih =>
      have hfirst := h.outcome List.mem_cons_self
      have hfails := hfailed first List.mem_cons_self
      cases h with
      | cons hlog _ h =>
          refine ih h ?_ fun b hb => hfailed b (List.mem_cons_of_mem first hb)
          rw [hfirst.log_of_fails hfails, hlog, hp]

theorem log_eq_some (h : StartRun reader p calls) (hp : p.log ≠ none) :
    ∀ call ∈ calls, call.before.log = p.log ∧ ¬ call.Succeeds := by
  induction h with
  | nil => simp
  | @cons p call calls hlog hrun h ih =>
      have hcall := (StartRun.cons hlog hrun h).outcome List.mem_cons_self
      rw [← hlog] at hp
      have hfails := hcall.fails_of_some hp
      have hleft := hcall.log_of_fails hfails
      refine List.forall_mem_cons.2 ⟨⟨hlog, hfails⟩, fun later hlater => ?_⟩
      obtain ⟨hsame, hlaterFails⟩ := ih (hleft ▸ hp) later hlater
      exact ⟨by rw [hsame, hleft, hlog], hlaterFails⟩

theorem fails_after (h : StartRun reader p (before ++ call :: after)) (hok : call.Succeeds) :
    ∀ later ∈ after, later.before.log ≠ none ∧ ¬ later.Succeeds := by
  obtain ⟨log, hlog⟩ := hok
  have hsome : call.after.log = some log := (h.outcome (by simp)).log_of_ok hlog
  have hlater := h.of_append.log_eq_some (by simp [hsome])
  exact fun later hmem => ⟨by simp [(hlater later hmem).1, hsome], (hlater later hmem).2⟩

end StartRun

/-- Calls to start a log, made one after the other where there was no log.  Settings that are no
good are refused and the world is left alone; a call that fails leaves the log as it is; as long as
all calls failed, a valid one succeeds; and a call that succeeds is the only one, after which every
valid one is told that there is a log already. -/
theorem starts_once {reader : FilterReader} {p : Execution} {calls : List StartCall}
    (h : StartRun reader p calls) (hp : p.log = none) :
    (∀ call ∈ calls, ¬ call.settings.Acceptable reader →
      (∃ text, call.result = .error (.invalid text none)) ∧
        call.after.world = call.before.world) ∧
    (∀ call ∈ calls, ¬ call.Succeeds → call.after.log = call.before.log) ∧
    (∀ before call after, calls = before ++ call :: after → (∀ b ∈ before, ¬ b.Succeeds) →
      call.IsValid reader → ∃ log, call.result = .ok log ∧ call.after.log = some log) ∧
    ∀ before call after, calls = before ++ call :: after → call.Succeeds →
      (∀ other ∈ before ++ after, ¬ other.Succeeds) ∧
        ∀ later ∈ after, later.IsValid reader → later.result = .error (.taken none) := by
  refine ⟨fun call hcall hbad => (h.outcome hcall).of_not_acceptable hbad,
    fun call hcall hfails => (h.outcome hcall).log_of_fails hfails, ?_, ?_⟩
  · rintro before call after rfl hfailed ⟨hgood, hopens⟩
    exact (h.outcome (by simp)).of_none (h.log_eq_none hp hfailed) hgood hopens
  · rintro before call after rfl hok
    have hafter := h.fails_after hok
    refine ⟨fun other hother => ?_, fun later hlater ⟨hgood, hopens⟩ => ?_⟩
    · rcases List.mem_append.1 hother with hbefore | hlater
      · -- If an earlier call had succeeded, this one would have failed.
        intro hearlier
        obtain ⟨front, back, rfl⟩ := List.append_of_mem hbefore
        rw [List.append_assoc, List.cons_append] at h
        exact (h.fails_after hearlier call (by simp)).2 hok
      · exact (hafter other hlater).2
    · exact (h.outcome (by simp [hlater])).taken_of_some (hafter later hlater).1 hgood hopens

/-- A call with a blank name, where there is nothing yet. -/
def blankCall : StartCall :=
  .made ⟨" ", true, true, .upTo .info, none, none⟩ "" .standard (.ofWorld (.ofFileSystem .empty))

def filed : LogSettings := { name := "stow", file := some { directory := .ofString "/log" } }

def filedCall : StartCall := .made filed "" .standard blankCall.after

def filedAgain : StartCall := .made filed "" .standard filedCall.after

theorem filed_acceptable : filed.Acceptable .standard :=
  ⟨⟨'s', by decide, by decide⟩, fun file hfile => by cases hfile; decide, nofun, .inl rfl⟩

theorem LogSettings.opens_of_isOk {s : LogSettings} {w : World}
    (h : (s.openFile.run (.ofWorld w)).1.isOk = true) : s.Opens w := by
  rcases hrun : s.openFile.run (.ofWorld w) with ⟨result, p⟩
  rw [hrun] at h
  cases result with
  | ok file => exact ⟨file, p, hrun⟩
  | error e => cases h

/-- A blank name is refused, then a log with a file is started, and then another one is not. -/
theorem starts_once_thrice :
    StartRun .standard (.ofWorld (.ofFileSystem .empty)) [blankCall, filedCall, filedAgain] ∧
      (∃ text, blankCall.result = .error (.invalid text none)) ∧
      (filedCall.Succeeds ∧ filedCall.result.toOption.any (·.file.isSome) = true) ∧
      filedAgain.result = .error (.taken none) := by
  have hblank : ¬ blankCall.settings.Acceptable .standard := fun h => by
    simpa [blankCall, StartCall.made, isWhite] using h.name
  have hcalls : StartRun .standard (.ofWorld (.ofFileSystem .empty))
      [blankCall, filedCall, filedAgain] := .made (.made (.made (.nil _)))
  obtain ⟨hrefused, -, hstarts, honce⟩ := starts_once hcalls rfl
  obtain ⟨text, htext⟩ := (hrefused blankCall (by simp) hblank).1
  have hfailed : ¬ blankCall.Succeeds := fun ⟨_, hok⟩ => by cases hok.symm.trans htext
  obtain ⟨log, hlog, -⟩ := hstarts [blankCall] filedCall [filedAgain] rfl
    (List.forall_mem_singleton.2 hfailed)
    ⟨filed_acceptable, LogSettings.opens_of_isOk (by decide +kernel)⟩
  have htaken := (honce [blankCall] filedCall [filedAgain] rfl ⟨log, hlog⟩).2 filedAgain (by simp)
    ⟨filed_acceptable, LogSettings.opens_of_isOk (by decide +kernel)⟩
  exact ⟨hcalls, ⟨text, htext⟩, ⟨⟨log, hlog⟩, by decide +kernel⟩, htaken⟩

end Depot
