import Depot.Proofs.Store.Writing
/-!
# Calls that write

Saving and copying are one kind of call: a name, and bytes from somewhere.  What is proved about all
writes is proved about these calls.

* `WriteCall.runs`, `WriteCall.refused_runs` — where a call gets from a tidy store.
-/

namespace Depot

open FileSystem

def objectNamed (objects : Position → Option Bytes) (name : String) : Option Bytes :=
  (ObjectName.ofObject name).toOption >>= objects

/-- A call of a store that writes one object. -/
inductive WriteCall
  | save (name : String) (source : List Delivery) (expected : Nat)
  | copy (src dst : String)
deriving DecidableEq

namespace WriteCall

def name : WriteCall → String
  | save name _ _ => name
  | copy _ dst => dst

def perform (s : Store) : WriteCall → Op StorageError Unit
  | save name source expected => s.save name source expected
  | copy src dst => s.copy src dst

/-- The bytes that the call is to write into a store with certain objects, where it has any. -/
def payload? (objects : Position → Option Bytes) : WriteCall → Option Bytes
  | save _ source _ => payload source
  | copy src _ => objectNamed objects src

/-- The source of the call can be opened; that of a save is open already. -/
def CanOpen (s : Store) (fs : FileSystem) : WriteCall → Prop
  | save .. => True
  | copy src _ => ∃ path handle, s.resolve src = .ok path ∧ fs.openRead path = .ok handle

variable {s : Store} {root : Position} {k : Key} {fs₀ fs : FileSystem}

theorem resolve_of_ofObject {name : String} {names : List Bytes}
    (h : ObjectName.ofObject name = .ok names) : s.resolve name = .ok (s.pathOf names) := by
  rw [Store.resolve, h]

theorem resolve_of_refused {name : String} {fault : NameFault}
    (h : ObjectName.ofObject name = .error fault) :
    s.resolve name = .error (fault.toError name) := by
  rw [Store.resolve, h]

theorem runs (h₀ : s.Tidy fs₀ root) (call : WriteCall)
    (hname : ObjectName.ofObject call.name = .ok k.names) :
    (call.perform s).Runs fs₀
      (fun st => s.Staged root k fs₀ st ∨
        s.Delivered root k fs₀ (call.payload? (fs₀.objectAt? root)) st)
      (fun _ st => s.Delivered root k fs₀ (call.payload? (fs₀.objectAt? root)) st)
      (fun _ st => (st = fs₀ ∧ ¬ call.CanOpen s fs₀) ∨
        call.CanOpen s fs₀ ∧ s.Staged root k fs₀ st ∧ s.Cleared k st) := by
  cases call with
  | save name source expected =>
      exact (Store.save_runs h₀ (resolve_of_ofObject hname) source expected).weaken
        (fun _ hst => hst) (fun _ _ hst => hst) fun _ _ hst => Or.inr ⟨trivial, hst⟩
  | copy src dst =>
      cases hsrc : ObjectName.ofObject src with
      | error fault =>
          refine (Store.copy_refused_runs (Or.inl ⟨_, resolve_of_refused hsrc⟩)).refused
            fun _ st hst => Or.inl ⟨hst, ?_⟩
          rintro ⟨path, handle, hpath, -⟩
          rw [resolve_of_refused hsrc] at hpath
          cases hpath
      | ok names =>
          obtain ⟨k', rfl, -⟩ := ObjectName.ofObject_eq_ok hsrc
          have hsrc' := resolve_of_ofObject (s := s) hsrc
          have hpayload : (copy src dst).payload? (fs₀.objectAt? root) =
              fs₀.objectAt? root k'.names := by
            rw [payload?, objectNamed, hsrc]
            rfl
          rw [hpayload]
          refine (Store.copy_runs h₀ hsrc' (resolve_of_ofObject hname)).weaken
            (fun _ hst => hst) (fun _ _ hst => hst) fun _ st hst => hst.imp ?_ ?_
          · rintro ⟨rfl, hopen⟩
            refine ⟨rfl, ?_⟩
            rintro ⟨path, handle, hpath, hhandle⟩
            rw [hsrc'] at hpath
            cases hpath
            exact hopen handle hhandle
          · rintro ⟨⟨handle, hopen⟩, hst⟩
            exact ⟨⟨_, handle, hsrc', hopen⟩, hst⟩

theorem refused_runs (s : Store) (fs : FileSystem) (call : WriteCall) {fault : NameFault}
    (hname : ObjectName.ofObject call.name = .error fault) :
    (call.perform s).Runs fs (fun _ => False) (fun _ _ => False) (fun _ st => st = fs) := by
  cases call with
  | save name source expected =>
      exact Store.save_refused_runs (resolve_of_refused hname) source expected
  | copy src dst => exact Store.copy_refused_runs (Or.inr ⟨_, resolve_of_refused hname⟩)

end WriteCall

end Depot
