import Depot.Proofs.Store.Homes
import Depot.Proofs.Store.WriteCall
/-!
# Writes that keep aside

Where links are, the home of an object may be anywhere, and what stands at its staging path may have
other names.  As long as a write has only its staging file there, no link is followed and nothing
else is touched, and the rename takes that file to the place of the object.

* `placeOf` — where the entry that a path names is bound;
* `Aside`, `Filling`, `Finished` — the states of a write;
* `Aside.create`, `Aside.unlink`, `Filling.rename` — the steps between them.
-/

namespace Depot

open FileSystem

namespace FileSystem

/-- Where the entry that a path names is bound, or would be. -/
def placeOf (fs : FileSystem) (p : Pathname) : Option Position :=
  match fs.locateLast p with
  | .ok (.name dir name) => some (dir ++ [name])
  | _ => none

theorem placeOf_eq_some_iff {fs : FileSystem} {p : Pathname} {pos : Position} :
    fs.placeOf p = some pos ↔ ∃ dir name, fs.locateLast p = .ok (.name dir name) ∧
      pos = dir ++ [name] := by
  rw [placeOf]
  constructor
  · intro h
    split at h
    · exact ⟨_, _, ‹_›, (Option.some.inj h).symm⟩
    · cases h
  · rintro ⟨dir, name, hlast, rfl⟩
    rw [hlast]

end FileSystem

namespace Store

variable {s : Store} {root home : Position} {k : Key} {fs₀ fs fs' : FileSystem} {w : Writing}
  {bytes : Bytes}

/-- The position of the staging file of an object, in its home. -/
def stagingAt (k : Key) (home : Position) : Position := home ++ [k.leaf ++ stagingSuffix]

def objectAt (k : Key) (home : Position) : Position := home ++ [k.leaf]

theorem stagingAt_ne_objectAt (k : Key) (home : Position) : stagingAt k home ≠ objectAt k home := by
  simpa [stagingAt, objectAt] using k.leaf_ne

theorem LeadsTo.placeOf_staging (h : s.LeadsTo fs₀ root) {pos : Position} :
    fs.placeOf (s.pathOf k.staging) = some pos ↔ checkPath (s.pathOf k.staging) = .ok () ∧
      (k.leaf ++ stagingSuffix).length ≤ maxNameLength ∧
        ∃ home, s.Reaches fs k.dirs home ∧ pos = stagingAt k home := by
  rw [placeOf_eq_some_iff, Key.staging]
  constructor
  · rintro ⟨dir, name, hlast, rfl⟩
    obtain ⟨hcheck, hlength, hreach, rfl⟩ := (h.locateLast_pathOf k.isName_staging).1 hlast
    exact ⟨hcheck, hlength, dir, hreach, rfl⟩
  · rintro ⟨hcheck, hlength, home, hreach, rfl⟩
    exact ⟨home, _, (h.locateLast_pathOf k.isName_staging).2 ⟨hcheck, hlength, hreach, rfl⟩, rfl⟩

theorem LeadsTo.placeOf_names (h : s.LeadsTo fs₀ root) {pos : Position} :
    fs.placeOf (s.pathOf k.names) = some pos ↔ checkPath (s.pathOf k.names) = .ok () ∧
      k.leaf.length ≤ maxNameLength ∧
        ∃ home, s.Reaches fs k.dirs home ∧ pos = objectAt k home := by
  rw [placeOf_eq_some_iff, Key.names]
  constructor
  · rintro ⟨dir, name, hlast, rfl⟩
    obtain ⟨hcheck, hlength, hreach, rfl⟩ := (h.locateLast_pathOf k.isName).1 hlast
    exact ⟨hcheck, hlength, dir, hreach, rfl⟩
  · rintro ⟨hcheck, hlength, home, hreach, rfl⟩
    exact ⟨home, _, (h.locateLast_pathOf k.isName).2 ⟨hcheck, hlength, hreach, rfl⟩, rfl⟩

theorem LeadsTo.placeOf_objectAt (h : s.LeadsTo fs₀ root)
    (hplace : fs.placeOf (s.pathOf k.staging) = some (stagingAt k home)) :
    fs.placeOf (s.pathOf k.names) = some (objectAt k home) := by
  obtain ⟨hcheck, hlength, home', hreach, heq⟩ := h.placeOf_staging.1 hplace
  obtain rfl : home = home' := (List.append_inj' heq rfl).1
  rw [List.length_append] at hlength
  exact h.placeOf_names.2 ⟨h.checkPath_names hcheck, by omega, home, hreach, rfl⟩

/-! ## The states of a write -/

/-- Nothing but a certain position and the files that belong to it has changed, and there may be
more directories. -/
structure Spared (own : Position) (spots : List Position) (fs₀ fs : FileSystem) : Prop where
  kept : ∀ {pos entry}, pos ∉ spots → fs₀.at? pos = some entry → fs.at? pos = some entry
  file?_eq : ∀ {id}, ¬ fs₀.Owns [own] id → fs.file? id = fs₀.file? id

/-- A write that has touched nothing but its staging file. -/
structure Aside (s : Store) (k : Key) (home : Position) (fs₀ fs : FileSystem) : Prop
    extends Spared (stagingAt k home) [stagingAt k home] fs₀ fs where
  reaches : s.Reaches fs k.dirs home
  new : ∀ {pos entry}, pos ≠ stagingAt k home → fs₀.at? pos = none → fs.at? pos = some entry →
    entry.isDirectory

/-- A write whose bytes so far are in its staging file, or were swallowed by a device. -/
structure Filling (s : Store) (k : Key) (home : Position) (fs₀ : FileSystem) (w : Writing)
    (bytes : Bytes) (fs : FileSystem) : Prop extends Aside s k home fs₀ fs where
  target : w.target = s.pathOf k.names
  written : w.written = bytes.length
  handle : w.handle = .device ∨ ∃ id time, w.handle = .file id ∧
    fs₀.Owns [stagingAt k home] id ∧ fs.at? (stagingAt k home) = some (.file id) ∧
      fs.file? id = some ⟨bytes, fileMode, time⟩

theorem Aside.of_grown (h : Grown fs₀ fs) (hreach : s.Reaches fs k.dirs home) :
    s.Aside k home fs₀ fs where
  kept := fun _ he => h.kept he
  file?_eq := fun _ => h.file?_eq _
  reaches := hreach
  new := fun _ hnone he => h.new hnone he

theorem Aside.store (h : s.Aside k home fs₀ fs) {id : Nat}
    (howned : fs₀.Owns [stagingAt k home] id) (f : File) : s.Aside k home fs₀ (fs.store id f) where
  kept := h.kept
  file?_eq := by
    intro id' hid'
    rw [file?_store, if_neg, h.file?_eq hid']
    rintro rfl
    exact hid' howned
  reaches := h.reaches.of_keeps fun _ _ he _ => he
  new := h.new

theorem Aside.allocate (h : s.Aside k home fs₀ fs) (f : File) (hfresh : fs₀.file? fs.nextId = none)
    (hvacant : fs.at? (stagingAt k home) = none) :
    s.Aside k home fs₀ ((fs.allocate f).1.bind (stagingAt k home) (.file fs.nextId)) := by
  have hpos : stagingAt k home ≠ [] := by simp [stagingAt]
  have hat (pos : Position) (hne : pos ≠ stagingAt k home) :
      ((fs.allocate f).1.bind (stagingAt k home) (.file fs.nextId)).at? pos = fs.at? pos := by
    rw [at?_bind hpos, if_neg hne, at?_allocate]
  refine ⟨⟨?_, ?_⟩, h.reaches.of_keeps ?_, ?_⟩
  · intro pos entry hspot he
    rw [hat pos (by simpa using hspot)]
    exact h.kept hspot he
  · intro id hid
    rw [file?_bind, file?_allocate, if_neg, h.file?_eq hid]
    rintro rfl
    exact hid (Or.inl hfresh)
  · intro pos entry he _
    rw [hat pos, he]
    rintro rfl
    rw [hvacant] at he
    cases he
  · intro pos entry hne hnone he
    rw [hat pos hne] at he
    exact h.new hne hnone he

theorem Aside.create (hroot : s.LeadsTo fs₀ root) (hgrown : Grown fs₀ fs)
    (hreach : s.Reaches fs k.dirs home)
    (hlink : ∀ target, fs₀.at? (stagingAt k home) ≠ some (.link target)) {handle : Handle}
    (hcreate : fs.create (s.pathOf k.staging) = .ok (fs', handle)) :
    fs.placeOf (s.pathOf k.staging) = some (stagingAt k home) ∧ s.Aside k home fs₀ fs' ∧
      (handle = .device ∨ ∃ id mode time, handle = .file id ∧
        fs₀.Owns [stagingAt k home] id ∧ fs'.at? (stagingAt k home) = some (.file id) ∧
          fs'.file? id = some ⟨[], mode, time⟩) := by
  have haside := Aside.of_grown hgrown hreach
  have hlink' : ∀ target, fs.at? (home ++ [k.leaf ++ stagingSuffix]) ≠ some (.link target) :=
    fun target ht => hlink target ((hgrown.at?_eq_some_iff (by simp [Entry.isDirectory])).1 ht)
  rw [Key.staging, FileSystem.create, s.not_endsInSlash_pathOf k.isName_staging,
    if_neg (by simp), bind_eq_ok] at hcreate
  obtain ⟨place, hplace, hcreate⟩ := hcreate
  obtain ⟨hlength, hplaces⟩ := hroot.locate_of_reaches k.isName_staging hreach hlink' hplace
  refine ⟨hroot.placeOf_staging.2 ⟨(locate_eq_ok.1 hplace).1, hlength, home, hreach, rfl⟩, ?_⟩
  rcases hplaces with ⟨entry, rfl, he⟩ | ⟨rfl, hnone⟩
  · cases entry with
    | directory mode => cases hcreate
    | link target => exact absurd he (hlink' target)
    | device =>
        cases hcreate
        exact ⟨haside, Or.inl rfl⟩
    | file id =>
        cases hcreate
        have howned : fs₀.Owns [stagingAt k home] id :=
          Or.inr ⟨_, List.mem_singleton_self _,
            (hgrown.at?_eq_some_iff (by simp [Entry.isDirectory])).1 he⟩
        exact ⟨haside.store howned _, Or.inr ⟨id, _, _, rfl, howned, he,
          by rw [file?_store, if_pos rfl]⟩⟩
  · cases hcreate
    have hfresh : fs₀.file? fs.nextId = none := by
      cases hf : fs₀.file? fs.nextId with
      | none => rfl
      | some f =>
          have hf' : fs.file? fs.nextId = some f := (hgrown.file?_eq _).trans hf
          exact absurd (hgrown.wellFormed.fresh hf') (Nat.lt_irrefl _)
    refine ⟨haside.allocate _ hfresh hnone, Or.inr ⟨fs.nextId, fileMode, fs.clock, rfl,
      Or.inl hfresh, ?_, ?_⟩⟩
    · exact (at?_bind (by simp) _ _).trans (if_pos rfl)
    · exact (file?_allocate _ _ _).trans (if_pos rfl)

theorem Aside.unlink (hroot : s.LeadsTo fs₀ root) (h : s.Aside k home fs₀ fs)
    (hunlink : fs.unlink (s.pathOf k.staging) = .ok fs') :
    Spared (stagingAt k home) [stagingAt k home] fs₀ fs' := by
  rw [FileSystem.unlink, bind_eq_ok] at hunlink
  obtain ⟨last, hlast, hunlink⟩ := hunlink
  cases last with
  | special => cases hunlink
  | name dir name =>
      obtain ⟨-, -, hreach, rfl⟩ := (hroot.locateLast_pathOf k.isName_staging).1 hlast
      obtain rfl := hreach.unique h.reaches
      dsimp only at hunlink
      split at hunlink
      · cases hunlink
      · cases hunlink
      · split at hunlink
        · cases hunlink
        · cases hunlink
          refine ⟨fun hspot he => ?_, h.file?_eq⟩
          rw [at?_unbind (by simp), if_neg (by simpa [stagingAt] using hspot)]
          exact h.kept hspot he

/-- The object after a write has ended: a real file with all the bytes. -/
structure Finished (s : Store) (k : Key) (home : Position) (fs₀ : FileSystem) (bytes : Bytes)
    (fs : FileSystem) : Prop
    extends Spared (stagingAt k home) [objectAt k home, stagingAt k home] fs₀ fs where
  object : ∃ id time, fs.at? (objectAt k home) = some (.file id) ∧
    fs.file? id = some ⟨bytes, fileMode, time⟩
  reaches : (∀ target, fs₀.at? (objectAt k home) ≠ some (.link target)) →
    s.Reaches fs k.dirs home
  checkPath : FileSystem.checkPath (s.pathOf k.names) = .ok ()
  length_le : k.leaf.length ≤ maxNameLength

theorem Aside.link_before (h : s.Aside k home fs₀ fs) {pos : Position} {target : Pathname}
    (hpos : pos ≠ stagingAt k home) (ht : fs.at? pos = some (.link target)) :
    fs₀.at? pos = some (.link target) := by
  cases hbefore : fs₀.at? pos with
  | none =>
      have hdirectory := h.new hpos hbefore ht
      cases hdirectory
  | some entry =>
      rw [h.kept (by simpa using hpos) hbefore] at ht
      exact ht

theorem Filling.rename (hroot : s.LeadsTo fs₀ root) (h : s.Filling k home fs₀ w bytes fs)
    (hhandle : w.handle ≠ .device)
    (hrename : fs.rename (s.pathOf k.staging) (s.pathOf k.names) = .ok fs') :
    s.Finished k home fs₀ bytes fs' := by
  obtain ⟨id, time, -, -, hid, hf⟩ := h.handle.resolve_left hhandle
  obtain ⟨hcheck, hlength, hcases⟩ :=
    hroot.eq_of_rename k.isName_staging k.isName k.leaf_ne h.reaches hid hrename
  have hmem : ∀ {pos}, pos ∉ [objectAt k home, stagingAt k home] →
      pos ≠ objectAt k home ∧ pos ≠ stagingAt k home := by
    intro pos hspot
    simpa using hspot
  rcases hcases with ⟨rfl, hobject⟩ | ⟨hdirectory, rfl⟩
  · refine ⟨⟨fun hspot he => ?_, h.file?_eq⟩, ⟨id, time, hobject, hf⟩, fun _ => h.reaches, hcheck,
      hlength⟩
    exact h.kept (by simpa using (hmem hspot).2) he
  · have hat (pos : Position) : ((fs.unbind (stagingAt k home)).bind (objectAt k home)
        (.file id)).at? pos = if pos = objectAt k home then some (.file id)
          else if pos = stagingAt k home then none else fs.at? pos := by
      rw [at?_bind (by simp [objectAt]), at?_unbind (by simp [stagingAt])]
    refine ⟨⟨fun hspot he => ?_, h.file?_eq⟩, ⟨id, time, ?_, hf⟩, fun hlink => ?_, hcheck,
      hlength⟩
    · rw [← stagingAt, ← objectAt, hat, if_neg (hmem hspot).1, if_neg (hmem hspot).2]
      exact h.kept (by simpa using (hmem hspot).2) he
    · rw [← stagingAt, ← objectAt, hat, if_pos rfl]
    · -- Neither path of the write holds a directory or a link, so the way home stays.
      refine h.reaches.of_keeps fun pos entry he hkind => ?_
      have hobject : pos ≠ objectAt k home := by
        rintro rfl
        cases entry with
        | directory mode => exact hdirectory mode he
        | link target =>
            exact hlink target (h.link_before (stagingAt_ne_objectAt k home).symm he)
        | file id' => simp [Entry.isDirectory, Entry.isLink] at hkind
        | device => simp [Entry.isDirectory, Entry.isLink] at hkind
      have hstaging : pos ≠ stagingAt k home := by
        rintro rfl
        rw [hid] at he
        cases he
        simp [Entry.isDirectory, Entry.isLink] at hkind
      rw [← stagingAt, ← objectAt, hat, if_neg hobject, if_neg hstaging, he]

end Store

end Depot
