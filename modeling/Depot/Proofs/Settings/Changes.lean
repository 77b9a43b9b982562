import Depot.Settings.Load
import Mathlib.Data.List.Basic
import Mathlib.Data.List.Induction
/-!
# Changes of settings

A layer changes the settings entry by entry.  What it does below one key depends on nothing but its
entries that begin with that key, and of the entries that lead to one part the last one counts.

* `Setting.member?_changed` — a key of the settings is changed by what leads below it only;
* `Setting.lastWhere_behind`, `Setting.behind_perm` — the last change below a key;
* `SettingLayer.mem_ofEnvironment_iff` — the entries that come of an environment.
-/

namespace Depot

/-- A value and the path at whose end it is put. -/
abbrev SettingChange := List SettingStep × Setting

def lastWhere {α : Type} (p : α → Bool) (l : List α) : Option α := l.reverse.find? p

theorem lastWhere_concat {α : Type} (p : α → Bool) (l : List α) (a : α) :
    lastWhere p (l ++ [a]) = if p a then some a else lastWhere p l := by
  cases h : p a <;> simp [lastWhere, h]

theorem lastWhere_eq_some {α : Type} {p : α → Bool} {l : List α} {a : α}
    (h : lastWhere p l = some a) :
    p a = true ∧ ∃ early late, l = early ++ a :: late ∧ ∀ b ∈ late, p b = false := by
  obtain ⟨ha, late, early, hl, hlate⟩ := List.find?_eq_some_iff_append.1 h
  refine ⟨ha, early.reverse, late.reverse, ?_, fun b hb => ?_⟩
  · rw [← List.reverse_inj, hl]
    simp
  · simpa using hlate b (List.mem_reverse.1 hb)

theorem lastWhere_eq_none_iff {α : Type} {p : α → Bool} {l : List α} :
    lastWhere p l = none ↔ ∀ a ∈ l, p a = false := by
  simp [lastWhere]

namespace Setting

def changed (changes : List SettingChange) (s : Setting) : Setting :=
  changes.foldl (fun s change => putAt change.1 change.2 s) s

theorem changed_append (early late : List SettingChange) (s : Setting) :
    changed (early ++ late) s = changed late (changed early s) :=
  List.foldl_append

def changesOf (layer : SettingLayer) : List SettingChange :=
  layer.map fun kv => (keyPath kv.1, kv.2)

theorem withLayer_eq (s : Setting) (layer : SettingLayer) :
    withLayer s layer = changed (changesOf layer) s := by
  simp [withLayer, changesOf, changed, List.foldl_map]

def isKeyed : List SettingStep → Bool
  | .key _ :: _ => true
  | _ => false

def isBelow (keys : List String) (steps : List SettingStep) : Bool :=
  (keys.map SettingStep.key).isPrefixOf steps

theorem isBelow_cons_iff {key : String} {keys : List String} {steps : List SettingStep} :
    isBelow (key :: keys) steps = true ↔ ∃ rest, steps = .key key :: rest ∧ isBelow keys rest := by
  cases steps with
  | nil => simp [isBelow]
  | cons step rest =>
    simp only [isBelow, List.map_cons, List.isPrefixOf, Bool.and_eq_true, beq_iff_eq,
      List.cons.injEq]
    constructor
    · rintro ⟨rfl, h⟩
      exact ⟨rest, ⟨rfl, rfl⟩, h⟩
    · rintro ⟨_, ⟨rfl, rfl⟩, h⟩
      exact ⟨rfl, h⟩

def behind (key : String) (changes : List SettingChange) : List SettingChange :=
  (changes.filter fun c => isBelow [key] c.1).map fun c => (c.1.tail, c.2)

/-- A key of the settings is changed by what leads below it, and by nothing else. -/
theorem member?_changed {changes : List SettingChange} (h : ∀ c ∈ changes, isKeyed c.1)
    (key : String) (s : Setting) :
    (changed changes s).member? key =
      if behind key changes = [] then s.member? key
      else some (changed (behind key changes) ((s.member? key).getD (.nothing none))) := by
  induction changes generalizing s with
  | nil => rfl
  | cons c changes ih =>
    obtain ⟨hc, hrest⟩ := List.forall_mem_cons.1 h
    obtain ⟨_ | ⟨⟨name⟩ | _, rest⟩, v⟩ := c
    · cases hc
    · have hstep : changed ((.key name :: rest, v) :: changes) s =
          changed changes (alterKey name (putAt rest v) s) := rfl
      rw [hstep, ih hrest]
      by_cases hname : name = key
      · subst hname
        have hbehind : behind name ((.key name :: rest, v) :: changes) =
            (rest, v) :: behind name changes := by
          simp [behind, isBelow]
        rw [member?_alterKey_self, hbehind, if_neg (List.cons_ne_nil _ _)]
        split
        · rename_i hnil
          simp [hnil, changed]
        · rfl
      · have hbehind : behind key ((.key name :: rest, v) :: changes) = behind key changes := by
          simp [behind, isBelow, Ne.symm hname]
        rw [member?_alterKey_of_ne (Ne.symm hname), hbehind]
    · cases hc

theorem changed_keyed {changes : List SettingChange} (h : ∀ c ∈ changes, isKeyed c.1)
    (hne : changes ≠ []) (s : Setting) : ∃ origin ms, changed changes s = .table origin ms := by
  obtain ⟨early, ⟨steps, v⟩, rfl⟩ := List.eq_nil_or_concat' changes |>.resolve_left hne
  have hkeyed := h (steps, v) (by simp)
  rw [changed_append]
  obtain _ | ⟨⟨name⟩ | _, rest⟩ := steps
  · cases hkeyed
  · show ∃ origin ms, alterKey name (putAt rest v) (changed early s) = .table origin ms
    cases changed early s <;> exact ⟨_, _, rfl⟩
  · cases hkeyed

theorem lastWhere_behind (key : String) (p : List SettingStep → Bool)
    (changes : List SettingChange) :
    lastWhere (fun c => p c.1) (behind key changes) =
      (lastWhere (fun c => isBelow [key] c.1 && p c.1.tail) changes).map
        fun c => (c.1.tail, c.2) := by
  simp only [lastWhere, behind, ← List.map_reverse, ← List.filter_reverse, List.find?_map,
    List.find?_filter]
  congr 2
  funext c
  simp

end Setting

open Setting (isKeyed isBelow)

theorem keyPath_isKeyed (key : String) : isKeyed (keyPath key) = true := by
  rw [keyPath, KeyPath.parse?]
  cases hname : KeyPath.takeName key.toList with
  | none => simp [isKeyed]
  | some named =>
    cases hsteps : KeyPath.stepsOf named.2.length named.2 with
    | none => simp [hsteps, isKeyed]
    | some steps => simp [hsteps, isKeyed]

namespace SettingOrder

theorem arrange_of_short (order : SettingOrder) {source : SettingSource} {layer : SettingLayer}
    (h : layer.length ≤ 1) : order.arrange source layer = layer := by
  match layer with
  | [] => exact List.perm_nil.1 (order.perm source [])
  | [kv] => exact List.perm_singleton.1 (order.perm source [kv])
  | _ :: _ :: _ => simp at h

theorem arrange_nil (order : SettingOrder) {source : SettingSource} :
    order.arrange source [] = [] :=
  order.arrange_of_short (Nat.zero_le 1)

end SettingOrder

theorem Setting.lastWhere_behind_changesOf (key : String) (p : List SettingStep → Bool)
    (layer : SettingLayer) :
    lastWhere (fun c => p c.1) (behind key (changesOf layer)) =
      (lastWhere (fun kv => isBelow [key] (keyPath kv.1) && p (keyPath kv.1).tail) layer).map
        fun kv => ((keyPath kv.1).tail, kv.2) := by
  rw [lastWhere_behind, changesOf, lastWhere, lastWhere, ← List.map_reverse, List.find?_map,
    Option.map_map]
  rfl

theorem Setting.behind_of_lastWhere {layer : SettingLayer} {key : String}
    {p : List SettingStep → Bool} {key' : String} {value : Setting}
    (h : lastWhere (fun kv => isBelow [key] (keyPath kv.1) && p (keyPath kv.1).tail) layer =
      some (key', value)) :
    ∃ rest, keyPath key' = .key key :: rest ∧ p rest = true ∧
      ∃ early late, behind key (changesOf layer) = early ++ (rest, value) :: late ∧
        ∀ c ∈ late, p c.1 = false := by
  have hbelow := (lastWhere_eq_some h).1
  simp only [Bool.and_eq_true] at hbelow
  obtain ⟨rest, hkey, -⟩ := isBelow_cons_iff.1 hbelow.1
  have hlast : lastWhere (fun c => p c.1) (behind key (changesOf layer)) = some (rest, value) := by
    rw [lastWhere_behind_changesOf, h, Option.map_some, hkey]
    rfl
  obtain ⟨hp, hsplit⟩ := lastWhere_eq_some hlast
  exact ⟨rest, hkey, hp, hsplit⟩

theorem Setting.behind_perm {layer layer' : SettingLayer} (h : layer'.Perm layer) (key : String) :
    (behind key (changesOf layer')).Perm (behind key (changesOf layer)) :=
  ((h.map _).filter _).map _

theorem Setting.isKeyed_changesOf (layer : SettingLayer) :
    ∀ c ∈ changesOf layer, isKeyed c.1 = true := by
  intro c hc
  obtain ⟨kv, -, rfl⟩ := List.mem_map.1 hc
  exact keyPath_isKeyed kv.1

namespace SettingLayer

theorem ofEnvironment_concat (environment : List (String × String)) (name value : String) :
    ofEnvironment (environment ++ [(name, value)]) =
      match variableKey? name with
      | some key => (ofEnvironment environment).insert key (.text value)
      | none => ofEnvironment environment :=
  List.foldl_concat _ _ _ _

/-- The environment has one entry for each key that its variables set: the last of these counts. -/
theorem mem_ofEnvironment_iff {environment : List (String × String)} {key : String}
    {value : Setting} :
    (key, value) ∈ ofEnvironment environment ↔ ∃ name text,
      lastWhere (fun v => variableKey? v.1 == some key) environment = some (name, text) ∧
        value = .text text := by
  induction environment using List.reverseRecOn with
  | nil => simp [ofEnvironment, lastWhere]
  | append_singleton environment v ih =>
    obtain ⟨name, text⟩ := v
    rw [ofEnvironment_concat, lastWhere_concat]
    cases hkey : variableKey? name with
    | none => simpa using ih
    | some key' =>
      by_cases hsame : key' = key
      · subst hsame
        simp [insert, eq_comm]
      · have hother : (some key' == some key) = false := by simpa using hsame
        simp [insert, hother, ih, Ne.symm hsame]

def sets (p : List SettingStep → Bool) (name : String) : Bool :=
  (variableKey? name).any fun key => p (keyPath key)

theorem not_sets_iff {p : List SettingStep → Bool} {environment : List (String × String)} :
    (∀ v ∈ environment, sets p v.1 = false) ↔
      ∀ kv ∈ ofEnvironment environment, p (keyPath kv.1) = false := by
  constructor
  · rintro h ⟨key, value⟩ hmem
    obtain ⟨name, text, hlast, -⟩ := mem_ofEnvironment_iff.1 hmem
    obtain ⟨hkey, early, late, rfl, -⟩ := lastWhere_eq_some hlast
    have hname := h (name, text) (by simp)
    rw [beq_iff_eq] at hkey
    simpa [sets, hkey] using hname
  · rintro h ⟨name, text⟩ hmem
    cases hkey : variableKey? name with
    | none => simp [sets, hkey]
    | some key =>
      cases hlast : lastWhere (fun v => variableKey? v.1 == some key) environment with
      | none =>
        have hnone := lastWhere_eq_none_iff.1 hlast (name, text) hmem
        simp [hkey] at hnone
      | some found =>
        have hentry := h (key, .text found.2) (mem_ofEnvironment_iff.2 ⟨_, _, hlast, rfl⟩)
        simpa [sets, hkey] using hentry

theorem text_of_lastWhere {environment : List (String × String)} {order : SettingOrder}
    {p : String × Setting → Bool} {key : String} {value : Setting}
    (h : lastWhere p (order.arrange .environment (ofEnvironment environment)) =
      some (key, value)) : ∃ t, value = .text t := by
  obtain ⟨-, early, late, hsplit, -⟩ := lastWhere_eq_some h
  have hmem : (key, value) ∈ order.arrange .environment (ofEnvironment environment) := by
    simp [hsplit]
  obtain ⟨name, t, -, ht⟩ := mem_ofEnvironment_iff.1 ((order.perm _ _).mem_iff.1 hmem)
  exact ⟨t, ht⟩

/-- Where all variables that set anything at such a path have one key, the entry of that key is the
last one in any order. -/
theorem lastWhere_arranged {environment : List (String × String)} (order : SettingOrder)
    {key name value : String} {p : List SettingStep → Bool}
    (hlast : lastWhere (fun v => variableKey? v.1 == some key) environment = some (name, value))
    (hp : p (keyPath key) = true)
    (honly : ∀ v ∈ environment, sets p v.1 → variableKey? v.1 = some key) :
    lastWhere (fun kv => p (keyPath kv.1))
      (order.arrange .environment (ofEnvironment environment)) = some (key, .text value) := by
  have hentry : (key, .text value) ∈ order.arrange .environment (ofEnvironment environment) :=
    (order.perm _ _).mem_iff.2 (mem_ofEnvironment_iff.2 ⟨name, value, hlast, rfl⟩)
  cases hfound : lastWhere (fun kv => p (keyPath kv.1))
      (order.arrange .environment (ofEnvironment environment)) with
  | none =>
    have hnone := lastWhere_eq_none_iff.1 hfound _ hentry
    rw [hp] at hnone
    cases hnone
  | some found =>
    obtain ⟨key', value'⟩ := found
    obtain ⟨hp', early, late, hsplit, -⟩ := lastWhere_eq_some hfound
    have hmem : (key', value') ∈ order.arrange .environment (ofEnvironment environment) := by
      simp [hsplit]
    obtain ⟨name', value'', hlast', rfl⟩ :=
      mem_ofEnvironment_iff.1 ((order.perm _ _).mem_iff.1 hmem)
    obtain ⟨hkey', early', late', henvironment, -⟩ := lastWhere_eq_some hlast'
    rw [beq_iff_eq] at hkey'
    have hsame := honly (name', value'') (by simp [henvironment]) (by simpa [sets, hkey'] using hp')
    rw [hkey'] at hsame
    cases hsame
    rw [hlast] at hlast'
    cases hlast'
    rfl

end SettingLayer

end Depot
