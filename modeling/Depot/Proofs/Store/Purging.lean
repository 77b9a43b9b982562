import Depot.Proofs.FileSystem.Below
import Depot.Proofs.Store.Footprint
import Depot.Proofs.Store.Removals
/-!
# Purging

A purge takes away staging files and nothing else.  With no age asked for, it takes every staging
file whose path the system takes.

* `mem_stalePaths` — what a purge tries to remove;
* `staging_mem_fitting` — what a purge that asks for no age removes;
* `purge_runs` — a purge of a tidy store.
-/

namespace Depot

open FileSystem

namespace Store

variable {s : Store} {fs : FileSystem} {root : Position} {k : Key}

theorem Tidy.traverse_root (h : s.Tidy fs root) :
    ∃ mode, fs.traverse s.root = .ok ⟨root, .directory mode, root, fs.reached s.root root⟩ := by
  obtain ⟨mode, hmode⟩ := h.leadsTo.isDirectory
  exact ⟨mode, by rw [FileSystem.traverse, hmode]; rfl⟩

/-- What removing files one after the other leads to: those whose path fits are gone, and nothing
else is. -/
structure Removed (s : Store) (root : Position) (stale : List (Pathname × Position))
    (fs fs' : FileSystem) : Prop where
  tidy : s.Tidy fs' root
  file : ∀ id, fs'.file? id = fs.file? id
  clock : fs'.clock = fs.clock
  kept : ∀ pos, fs'.at? pos = fs.at? pos ∨
    (∃ path : Pathname, (path, pos) ∈ stale ∧ path.fits) ∧ fs'.at? pos = none
  gone : ∀ path pos, (path, pos) ∈ stale → path.fits → fs'.at? pos = none
  thinned : fs'.entries.pairs.Sublist fs.entries.pairs

namespace Removed

variable {fs' : FileSystem} {stale : List (Pathname × Position)}

theorem objectAt?_eq (h : Removed s root stale fs fs')
    (hstale : ∀ path pos, (path, pos) ∈ stale →
      ∃ names, pos = root ++ names ∧ isObjectPosition names = false) :
    fs'.objectAt? root = fs.objectAt? root := by
  have hbytes : fs'.bytesOf = fs.bytesOf := by
    funext entry
    cases entry with
    | file id => rw [bytesOf, bytesOf, h.file]
    | directory mode => rfl
    | link target => rfl
    | device => rfl
  funext names
  rw [objectAt?, objectAt?]
  by_cases hobject : isObjectPosition names = true
  · have hsame : fs'.at? (root ++ names) = fs.at? (root ++ names) := by
      refine (h.kept _).resolve_right ?_
      rintro ⟨⟨path, hmem, -⟩, -⟩
      obtain ⟨names', heq, hnot⟩ := hstale path _ hmem
      rw [List.append_cancel_left heq, hnot] at hobject
      cases hobject
    rw [if_pos hobject, if_pos hobject, hsame, hbytes]
  · rw [if_neg hobject, if_neg hobject]

end Removed

theorem Tidy.unbindAll (h : s.Tidy fs root) {positions : List Position}
    (hpos : ∀ pos ∈ positions, ∃ names, names ≠ [] ∧ pos = root ++ names ∧
      ∀ mode, fs.at? pos ≠ some (.directory mode)) : s.Tidy (fs.unbindAll positions) root := by
  induction positions generalizing fs with
  | nil => exact h
  | cons first rest ih =>
      obtain ⟨names, hne, rfl, hfile⟩ := hpos first List.mem_cons_self
      refine ih (h.unbind hne hfile) fun pos hmem => ?_
      -- What is left to remove is no directory after this removal, either.
      obtain ⟨names', hne', heq, hfile'⟩ := hpos pos (List.mem_cons_of_mem _ hmem)
      refine ⟨names', hne', heq, fun mode hmode => ?_⟩
      rw [at?_unbind (by simp [hne])] at hmode
      split at hmode
      · cases hmode
      · exact hfile' mode hmode

theorem removed_unbindAll (h : s.Tidy fs root) {stale : List (Pathname × Position)}
    (hstale : ∀ path pos, (path, pos) ∈ stale → ∃ names, names ≠ [] ∧ pos = root ++ names ∧
      ∀ mode, fs.at? pos ≠ some (.directory mode)) :
    Removed s root stale fs (fs.unbindAll (fitting stale)) := by
  have hfitting : ∀ pos ∈ fitting stale, ∃ names, names ≠ [] ∧ pos = root ++ names ∧
      ∀ mode, fs.at? pos ≠ some (.directory mode) := by
    intro pos hmem
    obtain ⟨path, hmem, -⟩ := mem_fitting.1 hmem
    exact hstale path pos hmem
  have hbelow : ∀ pos ∈ fitting stale, pos ≠ [] := fun pos hmem => by
    obtain ⟨names, hne, rfl, -⟩ := hfitting pos hmem
    simp [hne]
  have hat (pos : Position) :
      (fs.unbindAll (fitting stale)).at? pos =
        if pos ∈ fitting stale then none else fs.at? pos :=
    at?_unbindAll hbelow pos
  refine ⟨h.unbindAll hfitting, fun id => file?_unbindAll .., clock_unbindAll .., fun pos => ?_,
    fun path pos hmem hfits => ?_, pairs_unbindAll ..⟩
  · rw [hat]
    split
    · rename_i hmem
      exact Or.inr ⟨mem_fitting.1 hmem, rfl⟩
    · exact Or.inl rfl
  · rw [hat, if_pos (mem_fitting.2 ⟨path, hmem, hfits⟩)]

/-! ## What a purge tries to remove -/

/-- What a purge tries to remove below the root, by path and position. -/
def stalePaths (s : Store) (fs : FileSystem) (root : Position) (maxAge : Nat) :
    List (Pathname × Position) :=
  ((fs.reached s.root root).filter fun found =>
    isPurged fs fs.clock maxAge (s.pathOf found.1) found.1.getLast? found.2).map
      fun found => (s.pathOf found.1, root ++ found.1)

theorem stale_eq_stalePaths {top : Position} {entry : Entry} (hentry : entry.isFile = false)
    (maxAge : Nat) :
    Traversal.stale ⟨top, entry, root, fs.reached s.root root⟩ fs s.root maxAge =
      s.stalePaths fs root maxAge := by
  have htop : isPurged fs fs.clock maxAge s.root s.root.fileName? entry = false := by
    cases entry with
    | file id => cases hentry
    | directory mode => rfl
    | link target => rfl
    | device => rfl
  rw [Traversal.stale]
  dsimp only
  rw [htop]
  rfl

/-- A purge comes to the file below the root and tries to remove it. -/
structure Targets (s : Store) (fs : FileSystem) (root : Position) (maxAge : Nat)
    (names : Position) (id : Nat) : Prop where
  bound : fs.at? (root ++ names) = some (.file id)
  named : ∃ leaf, names.getLast? = some leaf ∧ isStagingName leaf = true
  reached : isReached s.root names = true
  stale : (s.pathOf names).fits = true → ∀ f, fs.file? id = some f →
    isStale fs.clock maxAge f.modified = true

theorem Targets.ne_nil {maxAge id : Nat} {names : Position}
    (h : s.Targets fs root maxAge names id) : names ≠ [] := by
  obtain ⟨leaf, hlast, -⟩ := h.named
  rintro rfl
  cases hlast

theorem isPurged_iff {now : Int} {maxAge : Nat} {path : Pathname} {leaf : Option Bytes}
    {entry : Entry} :
    isPurged fs now maxAge path leaf entry = true ↔
      ∃ id, entry = .file id ∧ (∃ name, leaf = some name ∧ isStagingName name = true) ∧
        (path.fits = true → ∀ f, fs.file? id = some f →
          isStale now maxAge f.modified = true) := by
  cases entry with
  | directory mode => simp [isPurged]
  | link target => simp [isPurged]
  | device => simp [isPurged]
  | file id =>
      rw [isPurged, Bool.and_eq_true, Option.any_eq_true, Bool.or_eq_true, Bool.not_eq_true']
      cases path.fits with
      | false => simp
      | true => cases hf : fs.file? id <;> simp [hf]

theorem mem_stalePaths {maxAge : Nat} {path : Pathname} {pos : Position} :
    (path, pos) ∈ s.stalePaths fs root maxAge ↔
      ∃ names id, path = s.pathOf names ∧ pos = root ++ names ∧
        s.Targets fs root maxAge names id := by
  rw [stalePaths, List.mem_map]
  constructor
  · rintro ⟨⟨names, entry⟩, hfound, heq⟩
    cases heq
    obtain ⟨hfound, hpurged⟩ := List.mem_filter.1 hfound
    obtain ⟨hbelow, hreached⟩ := List.mem_filter.1 hfound
    obtain ⟨id, rfl, hnamed, hstale⟩ := isPurged_iff.1 hpurged
    exact ⟨names, id, rfl, rfl, (mem_below.1 hbelow).2, hnamed, hreached, hstale⟩
  · rintro ⟨names, id, rfl, rfl, h⟩
    refine ⟨(names, .file id), List.mem_filter.2 ⟨List.mem_filter.2 ⟨?_, h.reached⟩, ?_⟩, rfl⟩
    · exact mem_below.2 ⟨h.ne_nil, h.bound⟩
    · exact isPurged_iff.2 ⟨id, rfl, h.named, h.stale⟩

theorem Targets.isObjectPosition_eq {maxAge id : Nat} {names : Position}
    (h : s.Targets fs root maxAge names id) : isObjectPosition names = false := by
  obtain ⟨leaf, hlast, hstaging⟩ := h.named
  rw [isStagingName, Bool.and_eq_true] at hstaging
  have hleaf : ObjectName.isStagingLeaf leaf = true := hstaging.2
  rw [isObjectPosition, hlast]
  simp [hleaf]

theorem isReached_of_fits {base : Pathname} {names : Position} (hbase : base.bytes ≠ [])
    (hnames : ∀ name ∈ names, Pathname.IsName name)
    (hfits : (entryPath base names).fits = true) : isReached base names = true := by
  rw [isReached, Bool.or_eq_true, decide_eq_true_eq]
  rcases List.eq_nil_or_concat' names with rfl | ⟨dirs, leaf, rfl⟩
  · exact Or.inl (Nat.zero_le _)
  · have hprefix := Pathname.join_ofNames_isPrefix hbase dirs [leaf] hnames
    rw [Pathname.fits, decide_eq_true_eq] at hfits
    rw [List.dropLast_concat, Pathname.fits, decide_eq_true_eq]
    exact Or.inr (Nat.lt_of_le_of_lt hprefix.length_le hfits)

theorem isStale_iff {now modified : Int} {maxAge : Nat} :
    isStale now maxAge modified = true ↔ now < modified ∨ (maxAge : Int) ≤ now - modified := by
  rw [isStale]
  split
  · rename_i hlater
    simp [hlater]
  · rename_i hearlier
    simp [hearlier]

theorem isStale_zero (now modified : Int) : isStale now 0 modified = true :=
  isStale_iff.2 (by omega)

theorem isStagingName_append {leaf : Bytes} {t : String} (htext : Bytes.text? leaf = some t) :
    isStagingName (leaf ++ stagingSuffix) = true := by
  have htext' : Bytes.text? (leaf ++ stagingSuffix) = some (t ++ ".tmp") := by
    rw [← Bytes.ofString_of_text? htext, stagingSuffix, ← Bytes.ofString_append,
      Bytes.text?_ofString]
  have hleaf : stagingSuffix.isSuffixOf (leaf ++ stagingSuffix) = true :=
    Key.isStagingLeaf_append leaf
  rw [isStagingName, htext', hleaf]
  rfl

theorem staging_mem_fitting (hroot : s.root.bytes ≠ []) {id : Nat} {t : String}
    (htext : Bytes.text? k.leaf = some t) (hcheck : checkPath (s.pathOf k.staging) = .ok ())
    (hid : fs.at? (root ++ k.staging) = some (.file id)) :
    root ++ k.staging ∈ fitting (s.stalePaths fs root 0) := by
  have hfits : (s.pathOf k.staging).fits = true := by
    rw [Pathname.fits, decide_eq_true_eq]
    exact (checkPath_eq_ok.1 hcheck).2.2
  have hlast : k.staging.getLast? = some (k.leaf ++ stagingSuffix) := by simp [Key.staging]
  have htargets : s.Targets fs root 0 k.staging id :=
    { bound := hid
      named := ⟨_, hlast, isStagingName_append htext⟩
      reached := isReached_of_fits hroot k.isName_staging hfits
      stale := fun _ f _ => isStale_zero .. }
  exact mem_fitting.2 ⟨_, mem_stalePaths.2 ⟨_, _, rfl, rfl, htargets⟩, hfits⟩

theorem Tidy.cleared_of_removed {fs' : FileSystem} {t : String} (h : s.Tidy fs root)
    (hremoved : Removed s root (s.stalePaths fs root 0) fs fs')
    (htext : Bytes.text? k.leaf = some t) :
    ∀ id, fs'.linkStat (s.pathOf k.staging) ≠ .ok (.file id) := by
  intro id hid
  obtain ⟨hcheck, he⟩ := (hremoved.tidy.linkStat_pathOf k.isName_staging).1 hid
  change fs'.at? (root ++ k.staging) = some (.file id) at he
  rcases hremoved.kept (root ++ k.staging) with hsame | ⟨-, hnone⟩
  · have hbefore : fs.at? (root ++ k.staging) = some (.file id) := hsame ▸ he
    obtain ⟨path, hmem, hfits⟩ :=
      mem_fitting.1 (staging_mem_fitting h.leadsTo.bytes_ne_nil htext hcheck hbefore)
    rw [hremoved.gone path _ hmem hfits] at he
    cases he
  · rw [hnone] at he
    cases he

/-! ## Purges of tidy stores -/

/-- A purge removes what is stale, and never fails. -/
theorem purge_removed (h : s.Tidy fs root) (maxAge : Nat) :
    (s.purge maxAge).Runs fs (fun _ => True)
      (fun report fs' => report = tally (s.stalePaths fs root maxAge) ∧
        Removed s root (s.stalePaths fs root maxAge) fs fs')
      (fun _ _ => False) := by
  obtain ⟨mode, htraverse⟩ := h.traverse_root
  have hruns := purge_of_traverse htraverse maxAge
  rw [stale_eq_stalePaths rfl] at hruns
  refine hruns.weaken (fun _ _ => trivial) ?_ fun _ _ h => h
  rintro report fs' ⟨hreport, rfl⟩
  refine ⟨hreport, removed_unbindAll h fun path pos hmem => ?_⟩
  obtain ⟨names, id, -, rfl, htargets⟩ := mem_stalePaths.1 hmem
  refine ⟨names, htargets.ne_nil, rfl, fun mode hmode => ?_⟩
  rw [htargets.bound] at hmode
  cases hmode

theorem purge_runs (h : s.Tidy fs root) (maxAge : Nat) :
    (s.purge maxAge).Runs fs (fun _ => True)
      (fun _ fs' => s.Tidy fs' root ∧ fs'.objectAt? root = fs.objectAt? root ∧
        (maxAge = 0 → ∀ (k : Key) (t : String), Bytes.text? k.leaf = some t →
          ∀ id, fs'.linkStat (s.pathOf k.staging) ≠ .ok (.file id)))
      (fun _ _ => False) := by
  refine (purge_removed h maxAge).weaken (fun _ hst => hst)
    (fun _ fs' ⟨_, hremoved⟩ => ⟨hremoved.tidy, ?_, ?_⟩) fun _ _ hst => hst
  · apply hremoved.objectAt?_eq
    intro path pos hmem
    obtain ⟨names, id, -, hpos, htargets⟩ := mem_stalePaths.1 hmem
    exact ⟨names, hpos, htargets.isObjectPosition_eq⟩
  · rintro rfl k t htext
    exact h.cleared_of_removed hremoved htext

end Store

end Depot
