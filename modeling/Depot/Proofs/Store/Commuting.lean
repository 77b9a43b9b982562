import Depot.Proofs.Store.Failures
import Depot.Proofs.Store.WriteCall
import Depot.Proofs.Store.Writable
/-!
# Saves of unrelated objects

Whether an object can be saved depends on what is bound on the way to it, at its path and at its
staging path, and on nothing else.  Two objects are apart when neither stands above the other, and
when neither stands below the staging path of the other: then a save of the one changes nothing
that a save of the other depends on, and the order of the two does not matter.

* `Key.Apart.writable_iff` — whether an object can be saved is left alone;
* `saveEnds` — what a save comes to;
* `saves_commute` — two saves in either order;
* `saves_below_staging` — an object below the staging path of another one.
-/

namespace Depot

open FileSystem

/-- The kinds of failure, without what they carry. -/
inductive FailureKind
  | invalidConfig
  | invalidName
  | notFound
  | empty
  | io
deriving DecidableEq, Repr

def StorageError.failureKind : StorageError → FailureKind
  | invalidConfig .. => .invalidConfig
  | invalidName .. => .invalidName
  | notFound .. => .notFound
  | empty .. => .empty
  | io .. => .io

theorem WriteFailure.failureKind_eq {target : Pathname} {world : World} {e : StorageError}
    (h : WriteFailure target world e) : e.failureKind = .io := by
  cases h <;> rfl

/-- What became of an operation: it has ended well, or failed in some way. -/
def outcomeOf {α : Type} : Except StorageError α → Except FailureKind Unit
  | .ok _ => .ok ()
  | .error e => .error e.failureKind

/-- Neither object is above the other, nor below the staging path of the other. -/
structure Key.Apart (k k' : Key) : Prop where
  not_above : ¬ k.names <+: k'.names
  not_below : ¬ k'.names <+: k.names
  not_above_staging : ¬ k'.staging <+: k.names
  not_below_staging : ¬ k.staging <+: k'.names

theorem Key.dirs_isPrefix_names (k : Key) : k.dirs <+: k.names := List.prefix_append ..

theorem Key.Apart.symm {k k' : Key} (h : k.Apart k') : k'.Apart k :=
  ⟨h.not_below, h.not_above, h.not_below_staging, h.not_above_staging⟩

namespace Store

variable {s : Store} {root : Position} {k k' : Key} {fs fs' : FileSystem}

/-! ## What a save depends on -/

/-- The positions that a write of an object may touch, but for new directories. -/
def spots (root : Position) (k : Key) : List Position := [root ++ k.names, root ++ k.staging]

theorem Staged.footprint_spots (h : s.Staged root k fs fs') :
    Footprint root k (spots root k) fs fs' := by
  apply h.footprint.mono (by simp [spots])
  intro pos hpos
  rcases List.mem_pair.1 hpos with rfl | rfl
  · exact k.not_isAbove_names root
  · exact k.not_isAbove_staging root

theorem directory_iff_of_footprint (h : Footprint root k (spots root k) fs fs') {pos : Position}
    (hspot : pos ∉ spots root k) (habove : ¬ k.IsAbove root pos) (mode : Nat) :
    fs'.at? pos = some (.directory mode) ↔ fs.at? pos = some (.directory mode) := by
  constructor
  · intro hmode
    cases hbefore : fs.at? pos with
    | none => exact absurd (h.new hspot hbefore hmode).1 habove
    | some entry =>
        rw [h.kept hspot hbefore] at hmode
        exact hmode
  · exact h.kept hspot

end Store

namespace Key.Apart

variable {s : Store} {root : Position} {k k' : Key} {fs fs' : FileSystem}

theorem mem_spots {names : Position} :
    root ++ names ∈ Store.spots root k ↔ names = k.names ∨ names = k.staging := by
  rw [Store.spots, List.mem_pair, List.append_cancel_left_eq, List.append_cancel_left_eq]

theorem isAbove_iff {names : Position} (hne : names ≠ []) :
    k.IsAbove root (root ++ names) ↔ names <+: k.dirs := by
  constructor
  · rintro ⟨front, -, hfront, heq⟩
    rwa [List.append_cancel_left heq]
  · exact fun hfront => ⟨names, hne, hfront, rfl⟩

theorem front_notMem (h : k.Apart k') {front : List Bytes} (hfront : front <+: k.dirs) :
    root ++ front ∉ Store.spots root k' := by
  rw [mem_spots]
  have hnames := hfront.trans k.dirs_isPrefix_names
  rintro (rfl | rfl)
  · exact h.not_below hnames
  · exact h.not_above_staging hnames

theorem staging_notMem (h : k.Apart k') : root ++ k.staging ∉ Store.spots root k' := by
  rw [mem_spots]
  rintro (heq | heq)
  · have hobject := isObjectPosition_staging k
    rw [heq, isObjectPosition_names] at hobject
    cases hobject
  · exact h.not_above (Key.names_of_staging_eq heq ▸ List.prefix_rfl)

theorem names_notMem (h : k.Apart k') : root ++ k.names ∉ Store.spots root k' := by
  rw [mem_spots]
  rintro (heq | heq)
  · exact h.not_above (heq ▸ List.prefix_rfl)
  · have hobject := isObjectPosition_names k
    rw [heq, isObjectPosition_staging] at hobject
    cases hobject

theorem writable_iff (h : k.Apart k')
    (hfoot : Footprint root k' (Store.spots root k') fs fs') :
    s.Writable root k fs' ↔ s.Writable root k fs := by
  have hstaging := Store.directory_iff_of_footprint hfoot h.staging_notMem fun habove =>
    h.not_below_staging (((isAbove_iff k.staging_ne_nil).1 habove).trans k'.dirs_isPrefix_names)
  have hnames := Store.directory_iff_of_footprint hfoot h.names_notMem fun habove =>
    h.not_above (((isAbove_iff k.names_ne_nil).1 habove).trans k'.dirs_isPrefix_names)
  constructor
  · intro hw
    refine ⟨⟨⟨hw.checkPath, fun mode hmode => hw.not_directory mode ((hstaging mode).2 hmode)⟩,
      hw.length_le, fun front entry hfront he => ?_⟩,
      fun mode hmode => hw.replaceable mode ((hnames mode).2 hmode)⟩
    exact hw.passable front entry hfront (hfoot.kept (h.front_notMem hfront) he)
  · intro hw
    refine ⟨⟨⟨hw.checkPath, fun mode hmode => hw.not_directory mode ((hstaging mode).1 hmode)⟩,
      hw.length_le, fun front entry hfront he => ?_⟩,
      fun mode hmode => hw.replaceable mode ((hnames mode).1 hmode)⟩
    -- What is new on the way is a directory.
    cases hbefore : fs.at? (root ++ front) with
    | none =>
        obtain ⟨-, rfl⟩ := hfoot.new (h.front_notMem hfront) hbefore he
        rfl
    | some entry' =>
        rw [hfoot.kept (h.front_notMem hfront) hbefore] at he
        cases he
        exact hw.passable front entry hfront hbefore

end Key.Apart

namespace Store

variable {s : Store} {root : Position} {k k' : Key} {fs fs' : FileSystem} {name n m : String}

/-! ## What a save comes to -/

theorem save_failsAs {path : Pathname} (hname : s.resolve name = .ok path)
    (source : List Delivery) (expected : Nat) :
    (s.save name source expected).FailsAs fun e : StorageError => e.failureKind = .io :=
  fun world world' e hrun =>
    (saveFrom_failsFrom hname (fun _ => source) expected world world' e hrun).failureKind_eq

inductive SaveEnds (s : Store) (root : Position) (k : Key) (source : List Delivery)
    (fs : FileSystem) : Except FailureKind Unit → FileSystem → Prop
  /-- It has stored all that its source yields. -/
  | stored (bytes : Bytes) (fs' : FileSystem) (writable : s.Writable root k fs)
    (yielded : payload source = some bytes) (published : s.Published root k fs bytes fs') :
    SaveEnds s root k source fs (.ok ()) fs'
  /-- The object cannot be written, or the source fails. -/
  | failed (fs' : FileSystem) (refused : ¬ s.Writable root k fs ∨ payload source = none)
    (staged : s.Staged root k fs fs') :
    SaveEnds s root k source fs (.error .io) fs'

theorem saveEnds {w : World} (h : s.Tidy w.fs root)
    (hname : ObjectName.ofObject name = .ok k.names) (source : List Delivery) (expected : Nat) :
    SaveEnds s root k source w.fs (outcomeOf ((s.save name source expected).run w).1)
      ((s.save name source expected).run w).2.fs := by
  have hresolve := WriteCall.resolve_of_ofObject (s := s) hname
  have hfails := save_failsAs hresolve source expected
  rcases hrun : (s.save name source expected).run w with ⟨result, w'⟩
  by_cases hw : s.Writable root k w.fs
  · have hruns := (hw.save_runs h hresolve source expected).and
      (Store.save_runs h hresolve source expected)
    cases result with
    | ok u =>
        obtain ⟨-, bytes, hbytes, hpublished⟩ := hruns.of_ok rfl hrun
        exact .stored bytes w'.fs hw hbytes hpublished
    | error e =>
        obtain ⟨hnone, hstaged, -⟩ := hruns.of_error rfl hrun
        have hkind : outcomeOf (.error e : Except StorageError Unit) = .error .io :=
          congrArg _ (hfails w w' e hrun)
        rw [hkind]
        exact .failed w'.fs (Or.inr hnone) hstaged
  · have hruns := not_writable_save_runs hw h hresolve source expected
    cases result with
    | ok u => exact (hruns.of_ok rfl hrun).elim
    | error e =>
        have hkind : outcomeOf (.error e : Except StorageError Unit) = .error .io :=
          congrArg _ (hfails w w' e hrun)
        rw [hkind]
        exact .failed w'.fs (Or.inl hw) (hruns.of_error rfl hrun).1

namespace SaveEnds

variable {source source' : List Delivery} {result result' : Except FailureKind Unit}

theorem tidy (h : SaveEnds s root k source fs result fs') : s.Tidy fs' root := by
  cases h with
  | stored bytes _ _ _ published => exact published.tidy
  | failed _ _ staged => exact staged.tidy

theorem footprint (h : SaveEnds s root k source fs result fs') :
    Footprint root k (spots root k) fs fs' := by
  cases h with
  | stored bytes _ _ _ published => exact published.footprint
  | failed _ _ staged => exact staged.footprint_spots

/-- How a save ends is decided by its source and by whether its object can be written. -/
theorem result_eq (h : SaveEnds s root k source fs result fs')
    {fs₁ fs₁' : FileSystem} (h' : SaveEnds s root k source fs₁ result' fs₁')
    (hw : s.Writable root k fs ↔ s.Writable root k fs₁) : result = result' := by
  cases h with
  | stored bytes _ writable yielded _ =>
      cases h' with
      | stored => rfl
      | failed _ refused _ =>
          rcases refused with hnot | hnone
          · exact absurd (hw.1 writable) hnot
          · rw [hnone] at yielded
            cases yielded
  | failed _ refused _ =>
      cases h' with
      | stored bytes _ writable yielded _ =>
          rcases refused with hnot | hnone
          · exact absurd (hw.2 writable) hnot
          · rw [hnone] at yielded
            cases yielded
      | failed => rfl

def stores (k : Key) (source : List Delivery) (result : Except FailureKind Unit)
    (objects : Position → Option Bytes) : Position → Option Bytes :=
  match result with
  | .ok () => Function.update objects k.names (payload source)
  | .error _ => objects

theorem objectAt?_eq (h : SaveEnds s root k source fs result fs') (htidy : s.Tidy fs root) :
    fs'.objectAt? root = stores k source result (fs.objectAt? root) := by
  cases h with
  | stored bytes _ _ yielded published =>
      rw [stores, yielded]
      exact published.objectAt?_eq htidy
  | failed _ _ staged => exact staged.objectAt?_eq htidy

theorem stores_comm (hne : k.names ≠ k'.names) (objects : Position → Option Bytes) :
    stores k' source' result' (stores k source result objects) =
      stores k source result (stores k' source' result' objects) := by
  cases result with
  | error _ => rfl
  | ok _ =>
      cases result' with
      | error _ => rfl
      | ok _ => exact Function.update_comm hne _ _ _

end SaveEnds

/-! ## Two saves -/

/-- Saves of objects that are apart can change places: each of them ends in the same way, and the
store holds the same objects with the same contents after both. -/
theorem saves_commute (w : World) (h : s.Tidy w.fs root)
    (hn : ObjectName.ofObject n = .ok k.names) (hm : ObjectName.ofObject m = .ok k'.names)
    (hapart : k.Apart k') (a b : List Delivery) (i j : Nat) :
    let n₁ := (s.save n a i).run w
    let m₂ := (s.save m b j).run n₁.2
    let m₁ := (s.save m b j).run w
    let n₂ := (s.save n a i).run m₁.2
    outcomeOf n₁.1 = outcomeOf n₂.1 ∧ outcomeOf m₁.1 = outcomeOf m₂.1 ∧
      m₂.2.fs.objectAt? root = n₂.2.fs.objectAt? root := by
  intro n₁ m₂ m₁ n₂
  have hn₁ : SaveEnds s root k a w.fs (outcomeOf n₁.1) n₁.2.fs := saveEnds h hn a i
  have hm₁ : SaveEnds s root k' b w.fs (outcomeOf m₁.1) m₁.2.fs := saveEnds h hm b j
  have hm₂ : SaveEnds s root k' b n₁.2.fs (outcomeOf m₂.1) m₂.2.fs := saveEnds hn₁.tidy hm b j
  have hn₂ : SaveEnds s root k a m₁.2.fs (outcomeOf n₂.1) n₂.2.fs := saveEnds hm₁.tidy hn a i
  have hfirst : outcomeOf n₁.1 = outcomeOf n₂.1 :=
    hn₁.result_eq hn₂ (hapart.writable_iff hm₁.footprint).symm
  have hsecond : outcomeOf m₁.1 = outcomeOf m₂.1 :=
    hm₁.result_eq hm₂ (hapart.symm.writable_iff hn₁.footprint).symm
  have hne : k.names ≠ k'.names := fun heq => hapart.not_above (heq ▸ List.prefix_rfl)
  refine ⟨hfirst, hsecond, ?_⟩
  rw [hm₂.objectAt?_eq hn₁.tidy, hn₁.objectAt?_eq h, hn₂.objectAt?_eq hm₁.tidy,
    hm₁.objectAt?_eq h, ← hfirst, ← hsecond]
  exact SaveEnds.stores_comm hne _

def keyAM : Key :=
  ⟨[[97]], [109], by
    intro name hname
    simp only [List.cons_append, List.nil_append, List.mem_cons, List.not_mem_nil,
      or_false] at hname
    rcases hname with rfl | rfl <;> exact ⟨by decide, by decide, by decide, by decide⟩, by decide⟩

theorem saves_commute_apart :
    let n₁ := ((atTop [114]).save "n" [.chunk [1]] 1).run (.ofFileSystem (newDirectory [114]))
    let m₂ := ((atTop [114]).save "a/m" [.chunk [2]] 1).run n₁.2
    let m₁ := ((atTop [114]).save "a/m" [.chunk [2]] 1).run (.ofFileSystem (newDirectory [114]))
    let n₂ := ((atTop [114]).save "n" [.chunk [1]] 1).run m₁.2
    outcomeOf n₁.1 = .ok () ∧ outcomeOf n₂.1 = .ok () ∧
      m₂.2.fs.objectAt? [[114]] = n₂.2.fs.objectAt? [[114]] := by
  intro n₁ m₂ m₁ n₂
  have hn : ObjectName.ofObject "n" = .ok keyN.names := rfl
  have hm : ObjectName.ofObject "a/m" = .ok keyAM.names := rfl
  have hapart : keyN.Apart keyAM := ⟨by decide, by decide, by decide, by decide⟩
  obtain ⟨hfirst, -, hobjects⟩ := saves_commute (.ofFileSystem (newDirectory [114]))
    (tidy_atTop isEntryName_r) hn hm hapart [.chunk [1]] [.chunk [2]] 1 1
  have hdone : outcomeOf n₁.1 = .ok () := rfl
  exact ⟨hdone, hfirst.symm.trans hdone, hobjects⟩

def keyBelowStaging : Key :=
  ⟨[[110, 46, 116, 109, 112]], [120], by
    intro name hname
    simp only [List.cons_append, List.nil_append, List.mem_cons, List.not_mem_nil,
      or_false] at hname
    rcases hname with rfl | rfl <;> exact ⟨by decide, by decide, by decide, by decide⟩, by decide⟩

/-- An object below the staging path of another one keeps that from being saved, so it cannot be
saved first. -/
theorem saves_below_staging :
    ¬ ∀ (s : Store) (root : Position) (k k' : Key) (n m : String) (w : World)
      (a b : List Delivery) (i j : Nat), s.Tidy w.fs root →
      (∀ names id, w.fs.at? (root ++ names) = some (.file id) → isObjectPosition names = true) →
      ObjectName.ofObject n = .ok k.names → ObjectName.ofObject m = .ok k'.names →
      ¬ k.names <+: k'.names → ¬ k'.names <+: k.names →
      let n₁ := (s.save n a i).run w
      let m₂ := (s.save m b j).run n₁.2
      let m₁ := (s.save m b j).run w
      let n₂ := (s.save n a i).run m₁.2
      outcomeOf n₁.1 = outcomeOf n₂.1 ∧ outcomeOf m₁.1 = outcomeOf m₂.1 ∧
        m₂.2.fs.objectAt? root = n₂.2.fs.objectAt? root := by
  intro hall
  have hclean : ∀ names id, (newDirectory [114]).at? ([[114]] ++ names) = some (.file id) →
      isObjectPosition names = true := by
    intro names id he
    rw [at?_newDirectory] at he
    split at he
    · cases he
    split at he
    · cases he
    · cases he
  have hsame := (hall (atTop [114]) [[114]] keyN keyBelowStaging "n" "n.tmp/x"
    (.ofFileSystem (newDirectory [114])) [.chunk [1]] [.chunk [2]] 1 1 (tidy_atTop isEntryName_r)
    hclean rfl rfl (by decide) (by decide)).1
  have hfirst : outcomeOf (((atTop [114]).save "n" [.chunk [1]] 1).run
      (.ofFileSystem (newDirectory [114]))).1 = .ok () := rfl
  have hlast : outcomeOf (((atTop [114]).save "n" [.chunk [1]] 1).run
      (((atTop [114]).save "n.tmp/x" [.chunk [2]] 1).run
        (.ofFileSystem (newDirectory [114]))).2).1 = .error .io := rfl
  rw [hfirst, hlast] at hsame
  cases hsame

end Store

end Depot
