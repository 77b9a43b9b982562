/-!
# Finite tables

A `Table` is a finite map kept as a list of pairs in which no key occurs twice.  The list is the
enumeration, `get?` is the view; every operation below is described by one equation on the view.

Main facts: `mem_pairs` (the enumeration and the view agree), `get?_set`, `get?_remove`,
`get?_filter`.
-/

namespace Depot

structure Table (κ : Type) (ν : Type) where
  /-- The bindings, in no order that matters. -/
  pairs : List (κ × ν)
  nodup : (pairs.map Prod.fst).Nodup
deriving DecidableEq

namespace Table

variable {κ ν : Type}

def empty : Table κ ν := ⟨[], List.nodup_nil⟩

instance : Inhabited (Table κ ν) := ⟨empty⟩

def keys (t : Table κ ν) : List κ := t.pairs.map Prod.fst

def filter (keep : κ → ν → Bool) (t : Table κ ν) : Table κ ν where
  pairs := t.pairs.filter fun kv => keep kv.1 kv.2
  nodup := t.nodup.sublist (List.filter_sublist.map _)

theorem eq_of_pairs {t t' : Table κ ν} (h : t.pairs = t'.pairs) : t = t' := by
  cases t
  cases t'
  cases h
  rfl

variable [DecidableEq κ]

def get? (t : Table κ ν) (k : κ) : Option ν :=
  (t.pairs.find? fun kv => kv.1 = k).map Prod.snd

def remove (t : Table κ ν) (k : κ) : Table κ ν := t.filter fun k' _ => k' ≠ k

/-- The table with a key bound to a value, whatever it was bound to before. -/
def set (t : Table κ ν) (k : κ) (v : ν) : Table κ ν where
  pairs := (k, v) :: (t.remove k).pairs
  nodup := by
    rw [List.map_cons, List.nodup_cons]
    refine ⟨?_, (t.remove k).nodup⟩
    simp [remove, filter]

theorem mem_pairs {t : Table κ ν} {k : κ} {v : ν} :
    (k, v) ∈ t.pairs ↔ t.get? k = some v := by
  rcases t with ⟨ps, hnd⟩
  simp only [get?]
  induction ps with
  | nil => simp
  | cons p ps ih =>
    rw [List.map_cons, List.nodup_cons] at hnd
    have hps := ih hnd.2
    by_cases hk : p.1 = k
    · subst hk
      have hnone : (p.1, v) ∉ ps := fun h => hnd.1 (List.mem_map.2 ⟨_, h, rfl⟩)
      rcases p with ⟨k, w⟩
      simp_all [eq_comm]
    · have hne : (k, v) ≠ p := fun h => hk (by rw [← h])
      simp_all

theorem get?_eq_none {t : Table κ ν} {k : κ} : t.get? k = none ↔ k ∉ t.keys := by
  constructor
  · intro h hk
    obtain ⟨⟨k', v⟩, hmem, rfl⟩ := List.mem_map.1 hk
    rw [mem_pairs.1 hmem] at h
    cases h
  · intro h
    cases hv : t.get? k with
    | none => rfl
    | some v => exact absurd (List.mem_map.2 ⟨_, mem_pairs.2 hv, rfl⟩) h

@[simp] theorem get?_empty (k : κ) : (empty : Table κ ν).get? k = none := rfl

theorem get?_filter (keep : κ → ν → Bool) (t : Table κ ν) (k : κ) :
    (t.filter keep).get? k = (t.get? k).filter (keep k) := by
  apply Option.ext
  intro v
  have hmem : (k, v) ∈ (t.filter keep).pairs ↔ (k, v) ∈ t.pairs ∧ keep k v = true := by
    simp [filter]
  rw [← mem_pairs, hmem, mem_pairs, Option.filter_eq_some_iff]

theorem get?_remove (t : Table κ ν) (k k' : κ) :
    (t.remove k).get? k' = if k' = k then none else t.get? k' := by
  rw [remove, get?_filter]
  by_cases h : k' = k
  · simp [h]
  · rw [if_neg h]
    cases t.get? k' <;> simp [h]

theorem get?_set (t : Table κ ν) (k k' : κ) (v : ν) :
    (t.set k v).get? k' = if k' = k then some v else t.get? k' := by
  by_cases h : k' = k
  · subst h
    simp [get?, set]
  · have hne : ¬ k = k' := fun h' => h h'.symm
    have hcons : (t.set k v).get? k' = (t.remove k).get? k' := by
      simp [get?, set, hne]
    rw [hcons, get?_remove, if_neg h, if_neg h]

@[simp] theorem set_set (t : Table κ ν) (k : κ) (v v' : ν) : (t.set k v).set k v' = t.set k v' :=
  eq_of_pairs (by simp [set, remove, filter])

@[simp] theorem remove_set_self (t : Table κ ν) (k : κ) (v : ν) :
    (t.set k v).remove k = t.remove k :=
  eq_of_pairs (by simp [set, remove, filter])

theorem remove_set_of_ne {k k' : κ} (h : k ≠ k') (t : Table κ ν) (v : ν) :
    (t.set k v).remove k' = (t.remove k').set k v :=
  eq_of_pairs (by simp [set, remove, filter, h, List.filter_filter, Bool.and_comm])

theorem remove_filter (keep : κ → ν → Bool) (t : Table κ ν) (k : κ) :
    (t.filter keep).remove k = (t.remove k).filter keep :=
  eq_of_pairs (by simp [remove, filter, List.filter_filter, Bool.and_comm])

@[simp] theorem remove_remove_self (t : Table κ ν) (k : κ) : (t.remove k).remove k = t.remove k :=
  eq_of_pairs (by simp [remove, filter, List.filter_filter])

theorem remove_comm (t : Table κ ν) (k k' : κ) : (t.remove k).remove k' = (t.remove k').remove k :=
  remove_filter (fun k'' _ => k'' ≠ k) t k'

@[simp] theorem get?_set_self (t : Table κ ν) (k : κ) (v : ν) : (t.set k v).get? k = some v := by
  simp [get?_set]

theorem get?_set_of_ne {t : Table κ ν} {k k' : κ} (v : ν) (h : k' ≠ k) :
    (t.set k v).get? k' = t.get? k' := by
  simp [get?_set, h]

@[simp] theorem get?_remove_self (t : Table κ ν) (k : κ) : (t.remove k).get? k = none := by
  simp [get?_remove]

theorem get?_remove_of_ne {t : Table κ ν} {k k' : κ} (h : k' ≠ k) :
    (t.remove k).get? k' = t.get? k' := by
  simp [get?_remove, h]

end Table

end Depot
