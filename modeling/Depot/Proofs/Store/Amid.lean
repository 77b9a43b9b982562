import Depot.Proofs.Store.FailureAtomicity
import Depot.Proofs.Store.Keeping
/-!
# A write amid other calls

While a write is under way, other calls may purge its staging file, delete what is above it, or put
a directory in its place.  Its own file stays as it is: it is bound at the staging path or nowhere,
and no other file is ever bound there.  So the rename at the end finds the file of the write, or
nothing, or a directory; and a directory is published like the file.

* `Live.amid`, `Amid.of_kept` — how a write comes to be amid other calls, and that it stays so;
* `Amid.receive_runs`, `Amid.endSave_runs` — its own parts;
* `Shown` — what it shows at its end.
-/

namespace Depot

open FileSystem

namespace FileSystem

variable {fs fs' fs'' : FileSystem} {pos : Position}

/-- The same entry is at a position, and it is the same file if it is one. -/
structure SameAt (pos : Position) (fs fs' : FileSystem) : Prop where
  entry : fs'.at? pos = fs.at? pos
  file : ∀ id, fs.at? pos = some (.file id) → fs'.file? id = fs.file? id

namespace SameAt

theorem refl (pos : Position) (fs : FileSystem) : SameAt pos fs fs := ⟨rfl, fun _ _ => rfl⟩

theorem trans (h : SameAt pos fs fs') (h' : SameAt pos fs' fs'') : SameAt pos fs fs'' :=
  ⟨h'.entry.trans h.entry, fun id hid => (h'.file id (h.entry.trans hid)).trans (h.file id hid)⟩

theorem view_eq (h : SameAt pos fs fs') : fs'.view pos = fs.view pos := by
  rw [view, view, h.entry]
  cases he : fs.at? pos with
  | none => rfl
  | some entry =>
      cases entry with
      | file id => exact congrArg (Option.map fun f => Node.file f.bytes f.mode) (h.file id he)
      | directory mode => rfl
      | link target => rfl
      | device => rfl

theorem store {id : Nat} (hpos : fs.at? pos ≠ some (.file id)) (f : File) :
    SameAt pos fs (fs.store id f) := by
  refine ⟨rfl, fun id' hid' => ?_⟩
  rw [file?_store, if_neg]
  rintro rfl
  exact hpos hid'

end SameAt

theorem at?_relocate_self {source target : Position} {entry : Entry} (hsource : source ≠ [])
    (htarget : target ≠ []) (he : fs.at? source = some entry) :
    (fs.relocate source target).at? target = some entry := by
  have hpair : (source, entry) ∈ fs.entries.pairs := by
    rw [Table.mem_pairs]
    rwa [at?, if_neg hsource] at he
  have honly : ∀ kv ∈ fs.entries.pairs, kv.1 = source → kv.2 = entry := by
    rintro ⟨pos, entry'⟩ hkv rfl
    exact Option.some.inj ((Table.mem_pairs.1 hkv).symm.trans (Table.mem_pairs.1 hpair))
  -- Whatever is bound afterwards at the new place was at the old one.
  suffices hfold : ∀ (moved : List (Position × Entry)) (acc : FileSystem),
      (∀ kv ∈ moved, source <+: kv.1) → (∀ kv ∈ moved, kv.1 = source → kv.2 = entry) →
        ((source, entry) ∈ moved ∨ acc.at? target = some entry) →
          (moved.foldl (fun acc kv => acc.bind (target ++ kv.1.drop source.length) kv.2)
            acc).at? target = some entry by
    refine hfold _ _ ?_ ?_ (Or.inl ?_)
    · intro kv hkv
      exact List.isPrefixOf_iff_prefix.1 (List.mem_filter.1 hkv).2
    · exact fun kv hkv => honly kv (List.mem_filter.1 hkv).1
    · exact List.mem_filter.2 ⟨hpair, List.isPrefixOf_iff_prefix.2 (List.prefix_refl source)⟩
  intro moved
  induction moved with
  | nil => exact fun acc _ _ h => h.resolve_left List.not_mem_nil
  | cons kv rest ih =>
      intro acc hbelow hsame h
      refine ih _ (fun kv' hkv' => hbelow kv' (List.mem_cons_of_mem _ hkv'))
        (fun kv' hkv' => hsame kv' (List.mem_cons_of_mem _ hkv')) ?_
      obtain ⟨tail, htail⟩ := hbelow kv List.mem_cons_self
      change (source, entry) ∈ rest ∨
        (acc.bind (target ++ kv.1.drop source.length) kv.2).at? target = some entry
      rw [← htail, List.drop_left, at?_bind (by simp [htarget])]
      by_cases hnil : tail = []
      · right
        rw [hnil, List.append_nil, if_pos rfl]
        rw [hnil, List.append_nil] at htail
        exact congrArg some (hsame kv List.mem_cons_self htail.symm)
      · rw [if_neg (by simpa using hnil)]
        refine h.imp_left fun hmem => (List.mem_cons.1 hmem).resolve_left ?_
        rintro rfl
        exact hnil (List.append_right_eq_self.1 htail)

end FileSystem

namespace Store

variable {s : Store} {root : Position} {k : Key} {w : Writing} {bytes : Bytes}
  {fs₀ left fs fs' : FileSystem}

theorem Staged.sameAt (h : s.Staged root k fs₀ fs) (h₀ : s.Tidy fs₀ root) :
    SameAt (root ++ k.names) fs₀ fs := by
  have hne : root ++ k.names ≠ root ++ k.staging :=
    ne_staging_of_isObjectPosition root (isObjectPosition_names k)
  have hspot : root ++ k.names ∉ [root ++ k.staging] := by simpa using hne
  refine ⟨?_, fun id hid => ?_⟩
  · cases he : fs₀.at? (root ++ k.names) with
    | some entry => exact h.footprint.kept hspot he
    | none =>
        cases he' : fs.at? (root ++ k.names) with
        | none => rfl
        | some entry =>
            exact absurd (h.footprint.new hspot he he').1 (k.not_isAbove_names root)
  · exact h.footprint.file?_eq h₀.wellFormed h₀.plain
      (fun pos hpos => ⟨k.staging, k.staging_ne_nil, List.mem_singleton.1 hpos⟩) hspot hid

/-- A write whose file is bound at the staging path or nowhere, where no other file is bound.  Since
a certain state the object is as it was, and so is a directory at the staging path. -/
structure Amid (s : Store) (root : Position) (k : Key) (w : Writing) (bytes : Bytes)
    (left fs : FileSystem) : Prop where
  grounded : s.Grounded root fs
  target : w.target = s.pathOf k.names
  written : w.written = bytes.length
  file : ∃ id time, w.handle = .file id ∧
    Guarded (root ++ k.staging) id ⟨bytes, fileMode, time⟩ fs ∧
      ∀ id', fs.at? (root ++ k.staging) = some (.file id') → id' = id
  object : SameAt (root ++ k.names) left fs
  directory : ∀ mode, fs.at? (root ++ k.staging) = some (.directory mode) ↔
    left.at? (root ++ k.staging) = some (.directory mode)

/-- What a write shows that has ended: its bytes, or the directory that had taken the place of its
staging file. -/
def Shown (s : Store) (root : Position) (k : Key) (bytes : Bytes) (left fs : FileSystem) : Prop :=
  (∀ mode, left.at? (root ++ k.staging) ≠ some (.directory mode)) ∧ s.Tidy fs root ∧
      FileSystem.checkPath (s.pathOf k.names) = .ok () ∧
        fs.view (root ++ k.names) = some (.file bytes fileMode) ∨
    ∃ mode, left.at? (root ++ k.staging) = some (.directory mode) ∧
      fs.at? (root ++ k.names) = some (.directory mode)

theorem Live.amid (h : s.Live root k fs₀ w bytes fs) (h₀ : s.Tidy fs₀ root) :
    s.Amid root k w bytes fs₀ fs := by
  obtain ⟨id, time, hhandle, hid, hf⟩ := h.file
  refine ⟨h.tidy.grounded, h.target, h.written, ⟨id, time, hhandle, ⟨hf, ?_⟩, ?_⟩,
    h.toStaged.sameAt h₀, fun mode => ⟨fun hmode => ?_, fun hmode => ?_⟩⟩
  · exact fun pos hpos => h.tidy.plain.eq_of_file k.staging_ne_nil hid hpos
  · intro id' hid'
    rw [hid] at hid'
    cases hid'
    rfl
  · rw [hid] at hmode
    cases hmode
  · have hkept := h.footprint.keepsPaths _ _ hmode (Or.inl rfl)
    rw [hid] at hkept
    cases hkept

namespace Amid

theorem of_kept (h : s.Amid root k w bytes left fs)
    (hkept : s.Kept root (· ≠ k.names) fs fs') : s.Amid root k w bytes fs' fs' := by
  obtain ⟨id, time, hhandle, hguarded, honly⟩ := h.file
  have hapart : ∀ k' : Key, k'.names ≠ k.names →
      root ++ k'.staging ≠ root ++ k.staging ∧ root ++ k'.names ≠ root ++ k.staging := by
    intro k' hne
    exact ⟨fun heq => hne (Key.names_of_staging_eq (List.append_cancel_left heq)),
      ne_staging_of_isObjectPosition root (isObjectPosition_names k')⟩
  exact ⟨hkept.grounded, h.target, h.written,
    ⟨id, time, hhandle, hkept.guarded (fun k' hk' => (hapart k' hk').1) hguarded,
      fun id' hid' => honly id' (hkept.bound hapart hid')⟩,
    SameAt.refl .., fun _ => Iff.rfl⟩

theorem stagingPath_eq (h : s.Amid root k w bytes left fs) :
    stagingPath w.target = s.pathOf k.staging := by
  obtain ⟨fs₀, hroot, -⟩ := h.grounded.rooted
  rw [h.target, hroot.stagingPath_eq]

/-! ## The parts of the write -/

theorem append_runs (h : s.Amid root k w bytes left fs) (data : Bytes) :
    (w.append data).Runs fs (fun _ => True)
      (fun w' => s.Amid root k w' (bytes ++ data) left) (fun _ _ => False) := by
  obtain ⟨id, time, hhandle, hguarded, honly⟩ := h.file
  have hwrite : fs.writeAt w.handle w.written data =
      fs.store id ⟨bytes ++ data, fileMode, fs.clock⟩ := by
    rw [hhandle, writeAt, hguarded.file]
    simp only [h.written, overwrite_end]
  have hobject : fs.at? (root ++ k.names) ≠ some (.file id) := fun hid =>
    ne_staging_of_isObjectPosition root (isObjectPosition_names k) (hguarded.bound _ hid)
  rw [Writing.append]
  refine Op.Runs.bind (fun _ => s.Amid root k { w with written := w.written + data.length }
    (bytes ++ data) left) ?_ fun _ _ hst => Op.Runs.pure hst
  apply Op.Runs.change_
  · intro fs' hok
    rw [Except.ok.injEq, hwrite] at hok
    subst hok
    refine ⟨trivial, h.grounded.store hguarded.file _, h.target, ?_,
      ⟨id, fs.clock, hhandle, ⟨?_, hguarded.bound⟩, honly⟩,
      h.object.trans (SameAt.store hobject _), h.directory⟩
    · rw [List.length_append, h.written]
    · rw [file?_store, if_pos rfl]
  · intro e he
    cases he

theorem discard_runs (h : s.Amid root k w bytes left fs) :
    (discard (s.pathOf k.staging)).Runs fs (fun _ => True)
      (fun _ => SameAt (root ++ k.names) left) (fun _ _ => False) := by
  refine runs_discard (fun fs' hunlink => ?_) fun _ _ => h.object
  obtain ⟨last, hlast, -⟩ := bind_eq_ok.1 hunlink
  have htidy := h.grounded.tidy (h.grounded.leadsTo_of_locateLast k.isName_staging hlast)
  exact ⟨trivial, h.object.trans ((Staged.unlink htidy hunlink).1.sameAt htidy)⟩

theorem discarding_runs {α : Type} {op : Op StorageError α} {done : α → FileSystem → Prop}
    (h : s.Amid root k w bytes left fs)
    (hop : op.Runs fs (fun _ => True) done fun _ => s.Amid root k w bytes left) :
    (discarding w.target op).Runs fs (fun _ => True) done
      (fun _ => SameAt (root ++ k.names) left) :=
  runs_discarding h.stagingPath_eq hop fun _ => discard_runs

theorem abort_runs (h : s.Amid root k w bytes left fs) (e : IoError) :
    (w.abort e).Runs fs (fun _ => True) (fun _ _ => False)
      (fun _ => SameAt (root ++ k.names) left) := by
  rw [Writing.abort]
  exact h.discarding_runs (Op.Runs.throw h)

theorem receive_runs (h : s.Amid root k w bytes left fs) (d : Delivery) :
    (w.receive d).Runs fs (fun _ => True)
      (fun received st => match received with
        | .ended w' => d = .chunk [] ∧ s.Amid root k w' bytes left st
        | .more w' => d ≠ .chunk [] ∧
            ∃ data, d.bytes? = some data ∧ s.Amid root k w' (bytes ++ data) left st)
      (fun _ st => d.bytes? = none ∧ SameAt (root ++ k.names) left st) :=
  runs_receive d h (by rwa [List.append_nil]) h.append_runs h.abort_runs

/-- The rename at the end finds the file of the write or a directory, whatever calls came before. -/
theorem shown_of_rename (h : s.Amid root k w bytes left fs)
    (hrename : fs.rename (s.pathOf k.staging) (s.pathOf k.names) = .ok fs') :
    s.Shown root k bytes left fs' := by
  obtain ⟨id, time, -, hguarded, honly⟩ := h.file
  obtain ⟨last, hlast, -⟩ := bind_eq_ok.1 hrename
  have htidy := h.grounded.tidy (h.grounded.leadsTo_of_locateLast k.isName_staging hlast)
  obtain ⟨-, -, entry, he, -, rfl⟩ :=
    htidy.entry_of_rename k.isName_staging k.isName k.leaf_ne hrename
  rcases htidy.entry_below _ _ he with ⟨mode, rfl⟩ | ⟨id', rfl⟩
  · refine Or.inr ⟨mode, (h.directory mode).1 he, ?_⟩
    exact at?_relocate_self (by simp) (by simp) he
  · obtain rfl := honly id' he
    obtain ⟨htidy', -, hobject, hfile, -, hcheck⟩ := htidy.publish he hguarded.file hrename
    refine Or.inl ⟨fun mode hmode => ?_, htidy', hcheck, ?_⟩
    · have hmode' := (h.directory mode).2 hmode
      rw [Key.staging, he] at hmode'
      cases hmode'
    · exact view_eq_file.2 ⟨id', _, hobject, (hfile id').trans hguarded.file, rfl, rfl⟩

theorem endSave_runs (h : s.Amid root k w bytes left fs) (name : String) (expected : Nat) :
    (endSave name expected w).Runs fs (fun _ => True)
      (fun _ => s.Shown root k bytes left) (fun _ => SameAt (root ++ k.names) left) := by
  rw [endSave]
  refine Op.Runs.bind (fun _ => s.Shown root k bytes left) ?_ ?_
  · rw [Writing.publish, h.stagingPath_eq, h.target]
    refine Op.Runs.bind (fun _ => s.Shown root k bytes left) ?_ ?_
    · rw [← h.target]
      apply h.discarding_runs
      rw [h.target]
      refine Op.Runs.bind (fun _ => s.Amid root k w bytes left) ?_ ?_
      · apply Op.Runs.mapError
        exact Op.Runs.query (fun _ _ => h) fun _ _ => h
      · intro _ st hst
        apply Op.Runs.mapError
        exact Op.Runs.change_ (fun _ hrename => ⟨trivial, hst.shown_of_rename hrename⟩)
          fun _ _ => hst
    · intro _ st hst
      exact Op.Runs.bind _ (Op.Runs.report hst) fun _ _ hst' => Op.Runs.pure hst'
  · intro written st hst
    rw [reportSize]
    split
    · exact Op.Runs.report hst
    · exact Op.Runs.pure hst

end Amid

end Store

end Depot
