import Depot.Proofs.Store.Tidy
/-!
# What a write touches

A write to an object may change what is at its staging path, at its own path, and may make
directories above; this is its footprint.  Everything else is framed: other entries stay, and so do
the files that are bound to them.

* `Footprint.refl`, `Footprint.trans`, `Footprint.mono` — footprints of longer runs;
* `Footprint.file?_eq` — a file outside keeps its content and mode;
* `Footprint.objectAt?_eq`, `Footprint.objectAt?_publish` — what the store holds after a step that
  stays at the staging path, and after one that takes the path of the object, too.
-/

namespace Depot

def Key.IsAbove (k : Key) (root pos : Position) : Prop :=
  ∃ front, front ≠ [] ∧ front <+: k.dirs ∧ pos = root ++ front

theorem Key.not_isAbove_names (k : Key) (root : Position) : ¬ k.IsAbove root (root ++ k.names) := by
  rintro ⟨front, -, hfront, heq⟩
  have hlength := hfront.length_le
  rw [← List.append_cancel_left heq, Key.names, List.length_append,
    List.length_singleton] at hlength
  omega

theorem Key.not_isAbove_staging (k : Key) (root : Position) :
    ¬ k.IsAbove root (root ++ k.staging) := by
  rintro ⟨front, -, hfront, heq⟩
  have hlength := hfront.length_le
  rw [← List.append_cancel_left heq, Key.staging, List.length_append,
    List.length_singleton] at hlength
  omega

namespace FileSystem

/-- A file that is bound at one of some positions, or does not exist yet. -/
def Owns (fs : FileSystem) (spots : List Position) (id : Nat) : Prop :=
  fs.file? id = none ∨ ∃ pos ∈ spots, fs.at? pos = some (.file id)

/-- The second file system differs from the first only at some positions, in the files that are or
were bound there, and in directories that are new above an object. -/
structure Footprint (root : Position) (k : Key) (spots : List Position)
    (fs fs' : FileSystem) : Prop where
  keepsPaths : fs.KeepsPaths fs'
  kept : ∀ {pos entry}, pos ∉ spots → fs.at? pos = some entry → fs'.at? pos = some entry
  new : ∀ {pos entry}, pos ∉ spots → fs.at? pos = none → fs'.at? pos = some entry →
    k.IsAbove root pos ∧ entry = .directory directoryMode
  spot : ∀ {pos entry}, pos ∈ spots → fs'.at? pos = some entry →
    fs.at? pos = some entry ∨ ∃ id, entry = .file id
  owner : ∀ {pos id}, pos ∈ spots → fs'.at? pos = some (.file id) → fs.Owns spots id
  file : ∀ {id}, ¬ fs.Owns spots id → fs'.file? id = fs.file? id
  survives : ∀ {id}, fs.file? id ≠ none → fs'.file? id ≠ none

namespace Footprint

variable {root : Position} {k : Key} {spots : List Position} {fs fs' fs'' : FileSystem}

theorem refl (root : Position) (k : Key) (spots : List Position) (fs : FileSystem) :
    Footprint root k spots fs fs where
  keepsPaths := KeepsPaths.refl fs
  kept := fun _ he => he
  new := by
    intro pos entry _ hnone he
    rw [hnone] at he
    cases he
  spot := fun _ he => Or.inl he
  owner := fun hpos he => Or.inr ⟨_, hpos, he⟩
  file := fun _ => rfl
  survives := fun h => h

theorem owns_of_owns (h : Footprint root k spots fs fs') {id : Nat} (hid : fs'.Owns spots id) :
    fs.Owns spots id := by
  rcases hid with hnone | ⟨pos, hpos, he⟩
  · by_cases hbefore : fs.file? id = none
    · exact Or.inl hbefore
    · exact absurd hnone (h.survives hbefore)
  · exact h.owner hpos he

theorem trans (h : Footprint root k spots fs fs') (h' : Footprint root k spots fs' fs'') :
    Footprint root k spots fs fs'' where
  keepsPaths := h.keepsPaths.trans h'.keepsPaths
  kept := fun hpos he => h'.kept hpos (h.kept hpos he)
  new := by
    intro pos entry hpos hnone he
    cases hmid : fs'.at? pos with
    | none => exact h'.new hpos hmid he
    | some entry' =>
        have hsame := h'.kept hpos hmid
        rw [he] at hsame
        cases hsame
        exact h.new hpos hnone hmid
  spot := by
    intro pos entry hpos he
    rcases h'.spot hpos he with hmid | hfile
    · exact h.spot hpos hmid
    · exact Or.inr hfile
  owner := fun hpos he => h.owns_of_owns (h'.owner hpos he)
  file := by
    intro id hid
    rw [h'.file (fun hmid => hid (h.owns_of_owns hmid)), h.file hid]
  survives := fun hne => h'.survives (h.survives hne)

theorem mono (h : Footprint root k spots fs fs') {spots' : List Position} (hsub : spots ⊆ spots')
    (habove : ∀ pos ∈ spots', ¬ k.IsAbove root pos) : Footprint root k spots' fs fs' where
  keepsPaths := h.keepsPaths
  kept := fun hpos he => h.kept (fun hmem => hpos (hsub hmem)) he
  new := fun hpos hnone he => h.new (fun hmem => hpos (hsub hmem)) hnone he
  spot := by
    intro pos entry hpos he
    by_cases hmem : pos ∈ spots
    · exact h.spot hmem he
    · cases hbefore : fs.at? pos with
      | none => exact absurd (h.new hmem hbefore he).1 (habove pos hpos)
      | some entry' =>
          rw [h.kept hmem hbefore] at he
          exact Or.inl he
  owner := by
    intro pos id hpos he
    by_cases hmem : pos ∈ spots
    · exact (h.owner hmem he).imp_right fun ⟨pos', hpos', he'⟩ => ⟨pos', hsub hpos', he'⟩
    · cases hbefore : fs.at? pos with
      | none => exact absurd (h.new hmem hbefore he).1 (habove pos hpos)
      | some entry' =>
          rw [h.kept hmem hbefore] at he
          cases he
          exact Or.inr ⟨pos, hpos, hbefore⟩
  file := by
    intro id hid
    apply h.file
    rintro (hnone | ⟨pos, hpos, he⟩)
    · exact hid (Or.inl hnone)
    · exact hid (Or.inr ⟨pos, hsub hpos, he⟩)
  survives := h.survives

/-- What a change that writes no file may do at one position: nothing, take a file away, bind a file
where no directory or link was, or make a directory above the object. -/
inductive Touch (root : Position) (k : Key) (spots : List Position) (fs fs' : FileSystem)
    (pos : Position) : Prop
  | same (after : fs'.at? pos = fs.at? pos)
  | vacated (spot : pos ∈ spots)
    (before : ∀ entry, fs.at? pos = some entry → ∃ id, entry = .file id)
    (after : fs'.at? pos = none)
  | bound (spot : pos ∈ spots)
    (before : ∀ entry, fs.at? pos = some entry → ∃ id, entry = .file id) (id : Nat)
    (owned : fs.Owns spots id) (after : fs'.at? pos = some (.file id))
  | made (notSpot : pos ∉ spots) (above : k.IsAbove root pos) (before : fs.at? pos = none)
    (after : fs'.at? pos = some (.directory directoryMode))

theorem of_touch (htouch : ∀ pos, Touch root k spots fs fs' pos)
    (hfiles : ∀ id, fs'.file? id = fs.file? id) : Footprint root k spots fs fs' where
  keepsPaths := by
    intro pos entry he hkind
    -- Directories and links are never among what is taken away or replaced.
    have hnotFile : ¬ ∃ id, entry = .file id := by
      rintro ⟨id, rfl⟩
      simp [Entry.isDirectory, Entry.isLink] at hkind
    cases htouch pos with
    | same hafter => rw [hafter, he]
    | vacated _ hbefore _ => exact absurd (hbefore entry he) hnotFile
    | bound _ hbefore _ _ _ => exact absurd (hbefore entry he) hnotFile
    | made _ _ hbefore _ =>
        rw [hbefore] at he
        cases he
  kept := by
    intro pos entry hspot he
    cases htouch pos with
    | same hafter => rw [hafter, he]
    | vacated hmem _ _ => exact absurd hmem hspot
    | bound hmem _ _ _ _ => exact absurd hmem hspot
    | made _ _ hbefore _ =>
        rw [hbefore] at he
        cases he
  new := by
    intro pos entry hspot hnone he
    cases htouch pos with
    | same hafter =>
        rw [hafter, hnone] at he
        cases he
    | vacated hmem _ _ => exact absurd hmem hspot
    | bound hmem _ _ _ _ => exact absurd hmem hspot
    | made _ habove _ hafter =>
        rw [hafter] at he
        exact ⟨habove, (Option.some.inj he).symm⟩
  spot := by
    intro pos entry hspot he
    cases htouch pos with
    | same hafter => exact Or.inl (hafter ▸ he)
    | vacated _ _ hafter =>
        rw [hafter] at he
        cases he
    | bound _ _ id _ hafter =>
        rw [hafter] at he
        exact Or.inr ⟨id, (Option.some.inj he).symm⟩
    | made hnot _ _ _ => exact absurd hspot hnot
  owner := by
    intro pos id hspot he
    cases htouch pos with
    | same hafter => exact Or.inr ⟨pos, hspot, hafter ▸ he⟩
    | vacated _ _ hafter =>
        rw [hafter] at he
        cases he
    | bound _ _ id' howned hafter =>
        rw [hafter] at he
        cases he
        exact howned
    | made hnot _ _ _ => exact absurd hspot hnot
  file := fun _ => hfiles _
  survives := fun hne => by rwa [hfiles]

theorem of_written (hentries : ∀ pos, fs'.at? pos = fs.at? pos) {id : Nat}
    (howned : fs.Owns spots id) (hother : ∀ id', id' ≠ id → fs'.file? id' = fs.file? id')
    (hid : fs'.file? id ≠ none) : Footprint root k spots fs fs' where
  keepsPaths := fun pos _ he _ => by rw [hentries pos, he]
  kept := fun _ he => by rw [hentries, he]
  new := by
    intro pos entry _ hnone he
    rw [hentries, hnone] at he
    cases he
  spot := fun _ he => Or.inl (hentries _ ▸ he)
  owner := fun hspot he => Or.inr ⟨_, hspot, hentries _ ▸ he⟩
  file := by
    intro id' hnot
    exact hother id' fun heq => hnot (heq ▸ howned)
  survives := by
    intro id' hne
    by_cases heq : id' = id
    · rwa [heq]
    · rwa [hother id' heq]

theorem file?_eq (h : Footprint root k spots fs fs') (hwf : fs.WellFormed)
    (hplain : fs.PlainBelow root)
    (hbelow : ∀ pos ∈ spots, ∃ names, names ≠ [] ∧ pos = root ++ names)
    {pos : Position} {id : Nat} (hpos : pos ∉ spots) (hid : fs.at? pos = some (.file id)) :
    fs'.file? id = fs.file? id := by
  apply h.file
  rintro (hnone | ⟨pos', hpos', he⟩)
  · obtain ⟨f, hf⟩ := hwf.file hid
    rw [hnone] at hf
    cases hf
  · obtain ⟨names, hne, rfl⟩ := hbelow pos' hpos'
    exact hpos (hplain.eq_of_file hne he hid ▸ hpos')

theorem at?_eq_file_iff (h : Footprint root k spots fs fs') {pos : Position} (hpos : pos ∉ spots)
    {id : Nat} : fs'.at? pos = some (.file id) ↔ fs.at? pos = some (.file id) := by
  constructor
  · intro hafter
    cases hbefore : fs.at? pos with
    | none => exact absurd (h.new hpos hbefore hafter).2 (by simp)
    | some entry =>
        have hsame := h.kept hpos hbefore
        rw [hafter] at hsame
        exact hsame.symm
  · exact h.kept hpos

theorem bytes_eq (h : Footprint root k spots fs fs') (hwf : fs.WellFormed)
    (hplain : fs.PlainBelow root)
    (hbelow : ∀ pos ∈ spots, ∃ names, names ≠ [] ∧ pos = root ++ names)
    {pos : Position} (hpos : pos ∉ spots) :
    (fs'.at? pos >>= fs'.bytesOf) = (fs.at? pos >>= fs.bytesOf) := by
  by_cases hfile : ∃ id, fs.at? pos = some (.file id)
  · obtain ⟨id, hid⟩ := hfile
    rw [hid, (h.at?_eq_file_iff hpos).2 hid]
    simp [bytesOf, h.file?_eq hwf hplain hbelow hpos hid]
  · have hnone : ∀ (g : FileSystem), (∀ id, g.at? pos ≠ some (.file id)) →
        (g.at? pos >>= g.bytesOf) = none := by
      intro g hg
      cases he : g.at? pos with
      | none => rfl
      | some entry =>
          cases entry with
          | file id => exact absurd he (hg id)
          | directory mode => rfl
          | link target => rfl
          | device => rfl
    rw [hnone fs (fun id hid => hfile ⟨id, hid⟩),
      hnone fs' (fun id hid => hfile ⟨id, (h.at?_eq_file_iff hpos).1 hid⟩)]

end Footprint

/-! ## The objects of a store -/

/-- Where an object can be: not at the root, and not under the name of a staging file. -/
def isObjectPosition (names : Position) : Bool :=
  match names.getLast? with
  | none => false
  | some leaf => !ObjectName.isStagingLeaf leaf

/-- The content of the object with a normal form, below the root of its store. -/
def objectAt? (fs : FileSystem) (root names : Position) : Option Bytes :=
  if isObjectPosition names then fs.at? (root ++ names) >>= fs.bytesOf else none

theorem objectAt?_eq_some_iff {fs : FileSystem} {root names : Position} {bytes : Bytes} :
    fs.objectAt? root names = some bytes ↔ isObjectPosition names = true ∧
      ∃ id f, fs.at? (root ++ names) = some (.file id) ∧ fs.file? id = some f ∧
        f.bytes = bytes := by
  rw [objectAt?]
  constructor
  · intro hsome
    split at hsome
    · rename_i hobject
      obtain ⟨entry, he, hbytes⟩ := Option.bind_eq_some_iff.1 hsome
      cases entry with
      | file id =>
          obtain ⟨f, hf, hfbytes⟩ := Option.map_eq_some_iff.1 hbytes
          exact ⟨hobject, id, f, he, hf, hfbytes⟩
      | directory mode => cases hbytes
      | link target => cases hbytes
      | device => cases hbytes
    · cases hsome
  · rintro ⟨hobject, id, f, he, hf, rfl⟩
    rw [if_pos hobject, he]
    simp [bytesOf, hf]

theorem isObjectPosition_names (k : Key) : isObjectPosition k.names = true := by
  simp [isObjectPosition, Key.names, k.not_isStagingLeaf]

theorem isObjectPosition_staging (k : Key) : isObjectPosition k.staging = false := by
  simp [isObjectPosition, Key.staging, Key.isStagingLeaf_append]

theorem ne_staging_of_isObjectPosition {k : Key} (root : Position) {names : Position}
    (h : isObjectPosition names = true) : root ++ names ≠ root ++ k.staging := by
  intro heq
  rw [List.append_cancel_left heq, isObjectPosition_staging] at h
  cases h

namespace Footprint

variable {root : Position} {k : Key} {fs fs' : FileSystem}

theorem objectAt?_eq (h : Footprint root k [root ++ k.staging] fs fs') (hwf : fs.WellFormed)
    (hplain : fs.PlainBelow root) : fs'.objectAt? root = fs.objectAt? root := by
  funext names
  rw [objectAt?, objectAt?]
  by_cases hobject : isObjectPosition names = true
  · have hne := ne_staging_of_isObjectPosition (k := k) root hobject
    rw [if_pos hobject, if_pos hobject]
    apply h.bytes_eq hwf hplain
    · intro pos hpos
      exact ⟨k.staging, k.staging_ne_nil, List.mem_singleton.1 hpos⟩
    · simpa using fun heq => hne (by rw [heq])
  · rw [if_neg hobject, if_neg hobject]

theorem objectAt?_publish (h : Footprint root k [root ++ k.names, root ++ k.staging] fs fs')
    (hwf : fs.WellFormed) (hplain : fs.PlainBelow root) {id : Nat} {f : File}
    (hid : fs'.at? (root ++ k.names) = some (.file id)) (hf : fs'.file? id = some f) :
    fs'.objectAt? root = Function.update (fs.objectAt? root) k.names (some f.bytes) := by
  funext names
  by_cases hsame : names = k.names
  · subst hsame
    rw [Function.update_self, objectAt?, if_pos (isObjectPosition_names k), hid]
    simp [bytesOf, hf]
  · rw [Function.update_of_ne hsame, objectAt?, objectAt?]
    by_cases hobject : isObjectPosition names = true
    · have hne := ne_staging_of_isObjectPosition (k := k) root hobject
      rw [if_pos hobject, if_pos hobject]
      apply h.bytes_eq hwf hplain
      · intro pos hpos
        rcases List.mem_pair.1 hpos with hpos | hpos
        · exact ⟨k.names, k.names_ne_nil, hpos⟩
        · exact ⟨k.staging, k.staging_ne_nil, hpos⟩
      · rw [List.mem_pair]
        rintro (heq | heq)
        · exact hsame (List.append_cancel_left heq)
        · exact hne heq
    · rw [if_neg hobject, if_neg hobject]

end Footprint

end FileSystem

end Depot
