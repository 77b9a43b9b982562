import Depot.Proofs.Session.Steps
import Depot.Proofs.Store.Lost
import Depot.Proofs.Store.WriteCall
/-!
# The log of writes that overlap

The source of a save can run other writes of the same object, each of them to its end, and the
sources of these can do so again.  All of them use one staging path.  The log of such a step has a
record of every write: what it was to write, whether it ended well, and whether it was late, which
it is if some of its bytes went into the file that was the object at that time.

* `Step.WritesOnly` — the steps that do nothing but write one object;
* `logStep`, `isLate` — the log of a step;
* `Between.trans` — what the store shows from one session to a later one.
-/

namespace Depot

open FileSystem

/-- What became of one write of an object. -/
structure WriteRecord where
  /-- The bytes that it was to write, unless its source failed. -/
  payload : Option Bytes
  /-- It has ended well. -/
  ended : Bool
  /-- Some of its bytes went into the file that was the object at that time. -/
  late : Bool
deriving DecidableEq, Repr

/-- What the source of a save yields, without the steps that it runs. -/
def deliveriesIn : List SourceItem → List Delivery
  | [] => []
  | .delivery d :: rest => d :: deliveriesIn rest
  | .steps _ :: rest => deliveriesIn rest

section

variable (stores : Table String OpenStore) (s : Store) (names : Position)

mutual

/-- A step that does nothing but write one object of a store. -/
def Step.WritesOnly : Step → Prop
  | .save key name source _ => (∃ opened, stores.get? key = some opened ∧ opened.store = s) ∧
      ObjectName.ofObject name = .ok names ∧ sourceWritesOnly source
  | .copy key _ dst => (∃ opened, stores.get? key = some opened ∧ opened.store = s) ∧
      ObjectName.ofObject dst = .ok names
  | _ => False

/-- Steps that do nothing but write one object of a store. -/
def stepsWriteOnly : List Step → Prop
  | [] => True
  | step :: rest => step.WritesOnly ∧ stepsWriteOnly rest

def sourceWritesOnly : List SourceItem → Prop
  | [] => True
  | .delivery _ :: rest => sourceWritesOnly rest
  | .steps steps :: rest => stepsWriteOnly steps ∧ sourceWritesOnly rest

end

end

namespace Session

/-- Some bytes of a source go into the file that is bound at a position when they are written. -/
def isLate (pos : Position) : List SourceItem → Writing → Session → Bool
  | [], _, _ => false
  | .delivery d :: rest, w, session =>
    w.hits session.world.fs pos d ||
      match (perform (w.receive d)).run session with
      | (.ok (.more w'), session') => isLate pos rest w' session'
      | _ => false
  | .steps steps :: rest, w, session => isLate pos rest w ((runSteps steps).run session).2

/-- The record of a save that goes on with a source. -/
def recordOf (pos : Position) (payload : Option Bytes) (source : List SourceItem) (name : String)
    (expected : Nat) (w : Writing) (session : Session) : WriteRecord where
  payload := payload
  ended := ((playSource source name expected w).run session).1.1.isDone
  late := isLate pos source w session

section

variable (root names : Position)

mutual

/-- The writes that a step makes, those of its source before its own. -/
def logStep : Step → Session → List WriteRecord
  | .save key name source expected, session =>
    match session.stores.get? key with
    | none => []
    | some opened =>
      match (perform (opened.store.beginSave name)).run session with
      | (.error _, _) => [⟨payload (deliveriesIn source), false, false⟩]
      | (.ok w, session') => logSource source w session' ++
          [recordOf (root ++ names) (payload (deliveriesIn source)) source name expected w session']
  | .copy key src dst, session =>
    [⟨objectNamed (session.world.fs.objectAt? root) src,
      ((runStep (.copy key src dst)).run session).1.isDone, false⟩]
  | _, _ => []

def logSteps : List Step → Session → List WriteRecord
  | [], _ => []
  | step :: rest, session =>
    logStep step session ++ logSteps rest ((runStep step).run session).2

def logSource : List SourceItem → Writing → Session → List WriteRecord
  | [], _, _ => []
  | .delivery d :: rest, w, session =>
    match (perform (w.receive d)).run session with
    | (.ok (.more w'), session') => logSource rest w' session'
    | _ => []
  | .steps steps :: rest, w, session =>
    logSteps steps session ++ logSource rest w ((runSteps steps).run session).2

end

end

/-! ## What the store shows meanwhile -/

/-- The payloads of the writes of a log that have ended well. -/
def shownBy (log : List WriteRecord) : List Bytes :=
  log.filterMap fun r => if r.ended then r.payload else none

def NoneLate (log : List WriteRecord) : Prop := ∀ r ∈ log, r.late = false

theorem mem_shownBy {log : List WriteRecord} {bytes : Bytes} :
    bytes ∈ shownBy log ↔ ∃ r ∈ log, r.ended = true ∧ r.payload = some bytes := by
  rw [shownBy, List.mem_filterMap]
  constructor
  · rintro ⟨r, hr, hsome⟩
    split at hsome
    · exact ⟨r, hr, ‹_›, hsome⟩
    · cases hsome
  · rintro ⟨r, hr, hended, hpayload⟩
    exact ⟨r, hr, by rw [if_pos hended, hpayload]⟩

theorem noneLate_append {log log' : List WriteRecord} :
    NoneLate (log ++ log') ↔ NoneLate log ∧ NoneLate log' := by
  simp only [NoneLate, List.mem_append]
  constructor
  · exact fun h => ⟨fun r hr => h r (Or.inl hr), fun r hr => h r (Or.inr hr)⟩
  · rintro ⟨h, h'⟩ r (hr | hr)
    · exact h r hr
    · exact h' r hr

variable {root names : Position} {session session' session'' : Session}

/-- From one session to a later one, in every state, an object has its old content or one of
certain contents; this may need a condition. -/
def Between (root names : Position) (condition : Prop) (shown : List Bytes)
    (session session' : Session) : Prop :=
  ∃ since, session'.world.states = since ++ session.world.states ∧
    (condition → ∀ st ∈ since,
      st.objectAt? root names = session.world.fs.objectAt? root names ∨
        ∃ bytes ∈ shown, st.objectAt? root names = some bytes)

namespace Between

variable {condition condition' : Prop} {shown shown' : List Bytes}

theorem refl (root names : Position) (session : Session) :
    Between root names condition shown session session :=
  ⟨[], rfl, fun _ _ hst => absurd hst List.not_mem_nil⟩

theorem mono (h : Between root names condition shown session session')
    (hcondition : condition' → condition) (hshown : shown ⊆ shown') :
    Between root names condition' shown' session session' := by
  obtain ⟨since, hstates, hall⟩ := h
  refine ⟨since, hstates, fun hc st hst => ?_⟩
  exact (hall (hcondition hc) st hst).imp_right
    fun ⟨bytes, hmem, hbytes⟩ => ⟨bytes, hshown hmem, hbytes⟩

theorem now (h : Between root names condition shown session session') (hc : condition) :
    session'.world.fs.objectAt? root names = session.world.fs.objectAt? root names ∨
      ∃ bytes ∈ shown, session'.world.fs.objectAt? root names = some bytes := by
  obtain ⟨since, hstates, hall⟩ := h
  cases since with
  | nil =>
      rw [World.states, World.states, List.nil_append, List.cons.injEq] at hstates
      exact Or.inl (by rw [hstates.1])
  | cons st since =>
      rw [World.states, List.cons_append, List.cons.injEq] at hstates
      rw [hstates.1]
      exact hall hc st List.mem_cons_self

theorem trans (h : Between root names condition shown session session')
    (h' : Between root names condition' shown' session' session'') :
    Between root names (condition ∧ condition') (shown ++ shown') session session'' := by
  have hnow := h.now
  obtain ⟨since, hstates, hall⟩ := h
  obtain ⟨since', hstates', hall'⟩ := h'
  refine ⟨since' ++ since, by rw [hstates', hstates, List.append_assoc], ?_⟩
  rintro ⟨hc, hc'⟩ st hst
  have hleft : ∀ {content : Option Bytes}, (∃ bytes ∈ shown, content = some bytes) →
      ∃ bytes ∈ shown ++ shown', content = some bytes :=
    fun ⟨bytes, hmem, hbytes⟩ => ⟨bytes, List.mem_append_left _ hmem, hbytes⟩
  rcases List.mem_append.1 hst with hst | hst
  · rcases hall' hc' st hst with hsame | ⟨bytes, hmem, hbytes⟩
    · rw [hsame]
      exact (hnow hc).imp_right hleft
    · exact Or.inr ⟨bytes, List.mem_append_right _ hmem, hbytes⟩
  · exact (hall hc st hst).imp_right hleft

end Between

end Session

end Depot
