import Depot.Proofs.Store.NameGrammar
import Depot.Proofs.Store.Rooted
/-!
# The files that a purge removes

Whatever tree is below the root, with links, hard links and names that are no text, a purge removes
regular files whose names are those of staging files, and counts them.  What it does not remove
stays as it is.  A file is removed if nothing has changed it for the age asked for, and also if its
last change is later than the moment at which the purge read the clock.

* `isStagingName_iff` — the names of staging files, as the names of objects are judged;
* `mem_taken` — the files that a purge takes away;
* `purge_exact` — what a purge leads to;
* `purge_takes_staging`, `fresh_kept_iff` — the entries that are removed, and those that stay.
-/

namespace Depot

open FileSystem

theorem isStagingName_iff {leaf : Bytes} :
    isStagingName leaf = true ↔
      ∃ text, leaf = Bytes.ofString text ∧ ObjectName.EndsAsStaging text := by
  rw [isStagingName, Bool.and_eq_true]
  constructor
  · rintro ⟨htext, hends⟩
    obtain ⟨text, htext⟩ := Option.isSome_iff_exists.1 htext
    obtain rfl := Bytes.ofString_of_text? htext
    exact ⟨text, rfl, (ObjectName.isStagingLeaf_ofString text).1 hends⟩
  · rintro ⟨text, rfl, hends⟩
    exact ⟨by rw [Bytes.text?_ofString]; rfl, (ObjectName.isStagingLeaf_ofString text).2 hends⟩

namespace Store

variable {s : Store} {fs fs' : FileSystem} {root pos names : Position} {maxAge : Nat} {f : File}

/-- A regular file below the root with the name of a staging file. -/
structure IsStagingFile (fs : FileSystem) (root names : Position) (f : File) : Prop where
  bound : ∃ id, fs.at? (root ++ names) = some (.file id) ∧ fs.file? id = some f
  named : ∃ text, names.getLast? = some (Bytes.ofString text) ∧ ObjectName.EndsAsStaging text

/-- A staging file that a purge takes away: it is stale, and the system takes its path. -/
structure Takes (s : Store) (fs : FileSystem) (root : Position) (maxAge : Nat) (names : Position)
    (f : File) : Prop where
  staging : IsStagingFile fs root names f
  stale : isStale fs.clock maxAge f.modified = true
  fits : (s.pathOf names).fits = true

theorem IsStagingFile.ne_nil (h : IsStagingFile fs root names f) : names ≠ [] := by
  obtain ⟨text, hlast, -⟩ := h.named
  rintro rfl
  cases hlast

theorem IsStagingFile.eq_of_bound {id : Nat} {f' : File} (h : IsStagingFile fs root names f)
    (hid : fs.at? (root ++ names) = some (.file id)) (hf : fs.file? id = some f') : f = f' := by
  obtain ⟨id', hid', hf'⟩ := h.bound
  rw [hid] at hid'
  cases hid'
  rw [hf] at hf'
  exact (Option.some.inj hf').symm

theorem Targets.isStagingFile {id : Nat} (h : s.Targets fs root maxAge names id)
    (hf : fs.file? id = some f) : IsStagingFile fs root names f := by
  obtain ⟨leaf, hlast, hname⟩ := h.named
  obtain ⟨text, rfl, hends⟩ := isStagingName_iff.1 hname
  exact ⟨⟨id, h.bound, hf⟩, text, hlast, hends⟩

theorem Takes.targets (h : s.Takes fs root maxAge names f) (hwf : fs.WellFormed)
    (hroot : s.root.bytes ≠ []) : ∃ id, s.Targets fs root maxAge names id := by
  obtain ⟨⟨id, hid, hf⟩, text, hlast, hends⟩ := h.staging
  have hnames : ∀ name ∈ names, Pathname.IsName name :=
    fun name hname => (hwf.names_of_append hid name hname).toIsName
  refine ⟨id, hid, ⟨_, hlast, isStagingName_iff.2 ⟨text, rfl, hends⟩⟩,
    isReached_of_fits hroot hnames h.fits, fun _ f' hf' => ?_⟩
  rw [hf] at hf'
  cases hf'
  exact h.stale

def taken (s : Store) (fs : FileSystem) (root : Position) (maxAge : Nat) : List Position :=
  fitting (s.stalePaths fs root maxAge)

theorem mem_taken (hwf : fs.WellFormed) (hroot : s.root.bytes ≠ []) :
    pos ∈ s.taken fs root maxAge ↔
      ∃ names f, pos = root ++ names ∧ s.Takes fs root maxAge names f := by
  rw [taken, mem_fitting]
  constructor
  · rintro ⟨path, hmem, hfits⟩
    obtain ⟨names, id, rfl, rfl, htargets⟩ := mem_stalePaths.1 hmem
    obtain ⟨f, hf⟩ := hwf.file htargets.bound
    exact ⟨names, f, rfl, htargets.isStagingFile hf, htargets.stale hfits f hf, hfits⟩
  · rintro ⟨names, f, rfl, htakes⟩
    obtain ⟨id, htargets⟩ := htakes.targets hwf hroot
    exact ⟨_, mem_stalePaths.2 ⟨names, id, rfl, rfl, htargets⟩, htakes.fits⟩

theorem nodup_taken (s : Store) (fs : FileSystem) (root : Position) (maxAge : Nat) :
    (s.taken fs root maxAge).Nodup := by
  have hbelow := pairwise_below fs root
  rw [taken, fitting, stalePaths, List.filter_map, List.map_map]
  refine List.pairwise_map.2 (((hbelow.filter _).filter _).filter _ |>.imp ?_)
  intro found found' hne heq
  exact hne (List.append_cancel_left heq)

/-! ## What a purge leads to -/

theorem purge_exact (h : s.RootedAt fs root) (maxAge : Nat) :
    (s.purge maxAge).Runs fs (fun _ => True)
      (fun report fs' => report = tally (s.stalePaths fs root maxAge) ∧
        fs' = fs.unbindAll (s.taken fs root maxAge))
      (fun _ _ => False) := by
  obtain ⟨mode, hmode⟩ := h
  obtain ⟨top, entry, htraverse, hentry⟩ := traverse_of_followed hmode
  have hruns := purge_of_traverse htraverse maxAge
  rwa [stale_eq_stalePaths hentry] at hruns

theorem failed_eq_zero (hwf : fs.WellFormed)
    (hfits : ∀ names f, IsStagingFile fs root names f → (s.pathOf names).fits = true) :
    (tally (s.stalePaths fs root maxAge)).failed = 0 := by
  rw [tally]
  dsimp only
  rw [List.countP_eq_zero]
  rintro ⟨path, pos⟩ hmem
  obtain ⟨names, id, rfl, -, htargets⟩ := mem_stalePaths.1 hmem
  obtain ⟨f, hf⟩ := hwf.file htargets.bound
  simp [hfits names f (htargets.isStagingFile hf)]

section

variable (hwf : fs.WellFormed) (hroot : s.RootedAt fs root)

include hwf hroot

theorem file_of_mem_taken : ∀ pos ∈ s.taken fs root maxAge,
    pos ≠ [] ∧ ∃ id, fs.at? pos = some (.file id) := by
  intro pos hmem
  obtain ⟨names, f, rfl, htakes⟩ := (mem_taken hwf hroot.bytes_ne_nil).1 hmem
  obtain ⟨id, hid, -⟩ := htakes.staging.bound
  exact ⟨by simp [htakes.staging.ne_nil], id, hid⟩

theorem at?_after_purge (maxAge : Nat) (pos : Position) :
    (fs.unbindAll (s.taken fs root maxAge)).at? pos =
      if pos ∈ s.taken fs root maxAge then none else fs.at? pos :=
  at?_unbindAll (fun pos hmem => (file_of_mem_taken hwf hroot pos hmem).1) pos

theorem wellFormed_after_purge (maxAge : Nat) :
    (fs.unbindAll (s.taken fs root maxAge)).WellFormed := by
  refine hwf.unbindAll fun pos hmem => ?_
  obtain ⟨hne, id, hid⟩ := file_of_mem_taken hwf hroot pos hmem
  refine ⟨hne, fun mode hmode => ?_⟩
  rw [hid] at hmode
  cases hmode

theorem rootedAt_after_purge (maxAge : Nat) :
    s.RootedAt (fs.unbindAll (s.taken fs root maxAge)) root :=
  hroot.of_keeps (keepsPaths_unbindAll (file_of_mem_taken hwf hroot)) (workingDir_unbindAll ..)

theorem locateEntry_after_purge {name : String} {path : Pathname} {entry : Entry}
    (hname : s.resolve name = .ok path) (hentry : fs.locateEntry false path = .ok (pos, entry)) :
    (fs.unbindAll (s.taken fs root maxAge)).locateEntry false path = .ok (pos, entry) := by
  obtain ⟨k, -, rfl, -⟩ := resolve_eq_ok hname
  obtain ⟨hcheck, dir, mode, hwalk, hlength, rfl, he⟩ :=
    (hroot.locateEntry_pathOf_iff fs k.isName).1 hentry
  refine (hroot.locateEntry_pathOf_iff _ k.isName).2 ⟨hcheck, dir, mode, ?_, hlength, rfl, ?_⟩
  · rw [startOf, workingDir_unbindAll]
    exact walk_of_keeps (keepsPaths_unbindAll (file_of_mem_taken hwf hroot)) id hwalk
  · rw [at?_after_purge hwf hroot, if_neg]
    · exact he
    · -- The last name of an object is not that of a staging file.
      intro hmem
      obtain ⟨names, f, heq, htakes⟩ := (mem_taken hwf hroot.bytes_ne_nil).1 hmem
      obtain ⟨text, hlast, hends⟩ := htakes.staging.named
      have hlast' : (root ++ names).getLast? = some (Bytes.ofString text) := by
        rw [List.getLast?_append, hlast, Option.some_or]
      rw [← heq, List.getLast?_concat, Option.some.injEq] at hlast'
      have hstaging := (ObjectName.isStagingLeaf_ofString text).2 hends
      rw [← hlast', k.not_isStagingLeaf] at hstaging
      cases hstaging

theorem staging_after_purge {name : String} {path : Pathname} (hplain : fs.LinkFree root)
    (hname : s.resolve name = .ok path) (id : Nat) :
    (fs.unbindAll (s.taken fs root 0)).linkStat (stagingPath path) ≠ .ok (.file id) := by
  obtain ⟨k, -, rfl, htext⟩ := resolve_eq_ok hname
  have hstaging : stagingPath (s.pathOf k.names) = s.pathOf k.staging :=
    Pathname.appended_join_ofNames hroot.bytes_ne_nil k.isName k.isName_staging
  have hat := at?_after_purge (s := s) hwf hroot 0
  have hplain' : (fs.unbindAll (s.taken fs root 0)).LinkFree root := by
    intro names target hlink
    rw [hat] at hlink
    split at hlink
    · cases hlink
    · exact hplain names target hlink
  intro hstat
  rw [hstaging, linkStat_eq_ok] at hstat
  obtain ⟨pos, hlocate⟩ := hstat
  rw [Key.staging, (rootedAt_after_purge hwf hroot 0).locate_pathOf k.isName_staging
    (unlinked_of_linkFree hplain' k.staging)] at hlocate
  obtain ⟨u, hcheck, hstraight⟩ := bind_eq_ok.1 hlocate
  have hid := ((straight_eq_occupied_iff (wellFormed_after_purge hwf hroot 0)).1 hstraight).2
  rw [hat] at hid
  split at hid
  · cases hid
  · rename_i hkept
    obtain ⟨t, ht⟩ := htext k.leaf (by simp [Key.names])
    exact hkept (staging_mem_fitting hroot.bytes_ne_nil ht hcheck hid)

theorem length_taken (maxAge : Nat) :
    (s.taken fs root maxAge).length = (fs.entries.keys.filter fun pos =>
      (fs.unbindAll (s.taken fs root maxAge)).at? pos = none).length := by
  have hperm : (s.taken fs root maxAge).Perm (fs.entries.keys.filter fun pos =>
      (fs.unbindAll (s.taken fs root maxAge)).at? pos = none) := by
    refine (List.perm_ext_iff_of_nodup (nodup_taken ..) (fs.entries.nodup.filter _)).2 fun pos => ?_
    rw [List.mem_filter, decide_eq_true_eq, at?_after_purge hwf hroot]
    constructor
    · intro hmem
      obtain ⟨hne, id, hid⟩ := file_of_mem_taken hwf hroot pos hmem
      rw [at?, if_neg hne] at hid
      exact ⟨List.mem_map.2 ⟨_, Table.mem_pairs.2 hid, rfl⟩, if_pos hmem⟩
    · rintro ⟨hkey, hgone⟩
      by_contra hmem
      rw [if_neg hmem, at?] at hgone
      split at hgone
      · cases hgone
      · exact Table.get?_eq_none.1 hgone hkey
  exact hperm.length_eq

end

/-- What a purge has done to a tree. -/
structure Purged (s : Store) (root : Position) (maxAge : Nat) (fs : FileSystem)
    (report : PurgeReport) (fs' : FileSystem) : Prop where
  /-- Whatever is gone was a staging file, found without following a link. -/
  gone : ∀ pos entry, fs.at? pos = some entry → fs'.at? pos = none → entry.isFile = true ∧
    ∃ names f, pos = root ++ names ∧ IsStagingFile fs root names f ∧ Unlinked fs root names
  /-- Every staging file of the age asked for is gone, if the system takes its path. -/
  stale : ∀ names f, IsStagingFile fs root names f → (maxAge : Int) ≤ fs.clock - f.modified →
    (s.pathOf names).fits = true → fs'.at? (root ++ names) = none
  removed : report.removed = (fs.entries.keys.filter fun pos => fs'.at? pos = none).length
  failed : (∀ names f, IsStagingFile fs root names f → (s.pathOf names).fits = true) →
    report.failed = 0
  /-- Whatever is there is what was there, with its kind, bytes and mode. -/
  kept : ∀ pos, fs'.at? pos ≠ none → fs'.at? pos = fs.at? pos ∧ fs'.view pos = fs.view pos
  objects : ∀ name path pos entry, s.resolve name = .ok path →
    fs.locateEntry false path = .ok (pos, entry) → fs'.locateEntry false path = .ok (pos, entry)
  cleared : maxAge = 0 → fs.LinkFree root → ∀ name path, s.resolve name = .ok path →
    ∀ id, fs'.linkStat (stagingPath path) ≠ .ok (.file id)

/-- In any tree, a purge takes staging files and nothing else, all that are old enough among them,
and counts what it takes. -/
theorem purge_takes_staging (hwf : fs.WellFormed) (hroot : s.RootedAt fs root) (maxAge : Nat) :
    (s.purge maxAge).Runs fs (fun _ => True) (fun report fs' => s.Purged root maxAge fs report fs')
      (fun _ _ => False) := by
  refine (purge_exact hroot maxAge).weaken (fun _ _ => trivial) ?_ fun _ _ h => h
  rintro report fs' ⟨rfl, rfl⟩
  have hat := at?_after_purge (s := s) hwf hroot maxAge
  refine ⟨fun pos entry he hgone => ?_, fun names f hstaging hage hfits => ?_, ?_,
    failed_eq_zero hwf, fun pos hthere => ?_,
    fun name path pos entry => locateEntry_after_purge hwf hroot, ?_⟩
  · rw [hat] at hgone
    split at hgone
    · rename_i hmem
      obtain ⟨names, f, rfl, htakes⟩ := (mem_taken hwf hroot.bytes_ne_nil).1 hmem
      obtain ⟨id, hid, -⟩ := htakes.staging.bound
      rw [he] at hid
      cases hid
      exact ⟨rfl, names, f, rfl, htakes.staging, unlinked_of_file hwf he⟩
    · rw [he] at hgone
      cases hgone
  · have htakes : s.Takes fs root maxAge names f := ⟨hstaging, isStale_iff.2 (Or.inr hage), hfits⟩
    rw [hat, if_pos ((mem_taken hwf hroot.bytes_ne_nil).2 ⟨names, f, rfl, htakes⟩)]
  · rw [← length_taken hwf hroot, taken, length_fitting]
  · have hsame : (fs.unbindAll (s.taken fs root maxAge)).at? pos = fs.at? pos := by
      rw [hat] at hthere ⊢
      split at hthere
      · exact absurd rfl hthere
      · rename_i hmem
        rw [if_neg hmem]
    exact ⟨hsame, by rw [view, view, hsame, nodeOf_unbindAll]⟩
  · rintro rfl hplain name path hname id
    exact staging_after_purge hwf hroot hplain hname id

/-- A store with an abandoned staging file that has a second name, below a directory with the
name of a staging file, and with a link of such a name. -/
def littered : FileSystem :=
  ((WriteCall.abandoned.bind [[114], Bytes.ofString "d.tmp"] (.directory directoryMode)).bind
    [[114], Bytes.ofString "d.tmp", Bytes.ofString "x.tmp"] (.file 0)).bind
      [[114], Bytes.ofString "l.tmp"] (.link (.ofString "n"))

theorem littered_wellFormed : littered.WellFormed := by
  have hname {name : Bytes} (h : name ∈ ["d.tmp", "x.tmp", "l.tmp"].map Bytes.ofString) :
      IsEntryName name := by
    simp only [List.map_cons, List.map_nil, List.mem_cons, List.not_mem_nil, or_false] at h
    rcases h with rfl | rfl | rfl
    · exact ⟨⟨by decide, by decide, by decide, by decide⟩, by decide, by decide⟩
    · exact ⟨⟨by decide, by decide, by decide, by decide⟩, by decide, by decide⟩
    · exact ⟨⟨by decide, by decide, by decide, by decide⟩, by decide, by decide⟩
  have hdirectory := @WellFormed.bind _ WriteCall.abandoned_tidy.wellFormed [[114]]
    (Bytes.ofString "d.tmp") (.directory directoryMode) directoryMode rfl (hname (by simp))
    (Or.inl rfl) fun id hid => by cases hid
  have hfile := @WellFormed.bind _ hdirectory [[114], Bytes.ofString "d.tmp"]
    (Bytes.ofString "x.tmp") (.file 0) directoryMode rfl (hname (by simp))
    (Or.inr fun _ hmode => by cases hmode) fun id hid => ⟨_, by cases hid; rfl⟩
  exact @WellFormed.bind _ hfile [[114]] (Bytes.ofString "l.tmp") (.link (.ofString "n"))
    directoryMode rfl (hname (by simp)) (Or.inr fun _ hmode => by cases hmode)
    fun id hid => by cases hid

/-- Both names of the file are removed, the directory and the link stay. -/
theorem purge_takes_staging_littered :
    ∃ w', ((atTop [114]).purge 0).run (.ofFileSystem littered) = (.ok ⟨2, 0⟩, w') ∧
      (littered.entries.keys.filter fun pos => w'.fs.at? pos = none).length = 2 ∧
      w'.fs.view [[114], Bytes.ofString "d.tmp"] = some (.directory directoryMode) ∧
      w'.fs.view [[114], Bytes.ofString "l.tmp"] = some (.link (.ofString "n")) := by
  have hrooted : (atTop [114]).RootedAt littered [[114]] := ⟨directoryMode, rfl⟩
  have hpurged := purge_takes_staging littered_wellFormed hrooted 0
  have hreport : (((atTop [114]).purge 0).run (.ofFileSystem littered)).1 = .ok ⟨2, 0⟩ := by
    decide +kernel
  rcases hrun : ((atTop [114]).purge 0).run (.ofFileSystem littered) with ⟨result, w'⟩
  rw [hrun] at hreport
  subst hreport
  have h := hpurged.of_ok rfl hrun
  have hkept (pos : Position) (entry : Entry) (he : littered.at? pos = some entry)
      (hentry : entry.isFile = false) : w'.fs.view pos = littered.view pos := by
    refine (h.kept pos fun hgone => ?_).2
    rw [(h.gone pos entry he hgone).1] at hentry
    cases hentry
  exact ⟨w', rfl, h.removed.symm, hkept _ (.directory directoryMode) rfl rfl,
    hkept _ (.link (.ofString "n")) rfl rfl⟩

/-! ## What a purge keeps -/

/-- A staging file stands at a position, and a purge comes to it and can remove it. -/
def InReach (s : Store) (fs : FileSystem) (root pos : Position) : Prop :=
  ∃ names f, pos = root ++ names ∧ IsStagingFile fs root names f ∧ (s.pathOf names).fits = true

theorem isStale_of_fresh {now modified : Int} (hfresh : now - maxAge < modified) :
    isStale now maxAge modified = true ↔ now < modified := by
  rw [isStale_iff]
  constructor
  · rintro (hlater | hage)
    · exact hlater
    · omega
  · exact Or.inl

theorem mem_taken_of_fresh (hwf : fs.WellFormed) (hroot : s.RootedAt fs root) {id : Nat}
    (hid : fs.at? pos = some (.file id)) (hf : fs.file? id = some f)
    (hfresh : fs.clock - maxAge < f.modified) :
    pos ∈ s.taken fs root maxAge ↔ fs.clock < f.modified ∧ s.InReach fs root pos := by
  rw [mem_taken hwf hroot.bytes_ne_nil]
  constructor
  · rintro ⟨names, f', rfl, hstaging, hstale, hfits⟩
    obtain rfl := hstaging.eq_of_bound hid hf
    exact ⟨(isStale_of_fresh hfresh).1 hstale, names, f', rfl, hstaging, hfits⟩
  · rintro ⟨hlater, names, f', rfl, hstaging, hfits⟩
    obtain rfl := hstaging.eq_of_bound hid hf
    exact ⟨names, f', rfl, hstaging, (isStale_of_fresh hfresh).2 hlater, hfits⟩

theorem modified_append {writing writing' : Writing} {data : Bytes} {before after : World}
    {id : Nat} {f₀ : File} (hrun : (writing.append data).run before = (.ok writing', after))
    (hhandle : writing.handle = .file id) (hf₀ : before.fs.file? id = some f₀) :
    ∃ f, after.fs.file? id = some f ∧ f.modified = before.fs.clock := by
  have hafter : after.fs = before.fs.writeAt writing.handle writing.written data := by
    cases hrun
    rfl
  rw [hafter, hhandle, writeAt, hf₀]
  dsimp only
  rw [file?_store, if_pos rfl]
  exact ⟨_, rfl, rfl⟩

/-- What a purge does about files that are younger than the age asked for. -/
structure KeepsFresh (s : Store) (root : Position) (maxAge : Nat) (fs fs' : FileSystem) : Prop where
  file : ∀ pos id f, fs.at? pos = some (.file id) → fs.file? id = some f →
    fs.clock - maxAge < f.modified →
      (fs'.at? pos = some (.file id) ↔ ¬ (fs.clock < f.modified ∧ s.InReach fs root pos))
  /-- The file of a write in progress, as the latest bytes have left it. -/
  writing : ∀ (writing writing' : Writing) (data : Bytes) (before after : World) (id : Nat),
    (writing.append data).run before = (.ok writing', after) → writing.handle = .file id →
      before.fs.file? id ≠ none → fs.file? id = after.fs.file? id →
        fs.clock ≤ before.fs.clock → 0 < maxAge → ∀ pos, fs.at? pos = some (.file id) →
          (fs'.at? pos = some (.file id) ↔
            ¬ (fs.clock < before.fs.clock ∧ s.InReach fs root pos))

/-- A file that is younger than the age asked for stays, unless it is a staging file that was
changed after the purge read the clock.  So the file of a write in progress is removed if bytes
were added to it then. -/
theorem fresh_kept_iff (hwf : fs.WellFormed) (hroot : s.RootedAt fs root) (maxAge : Nat) :
    (s.purge maxAge).Runs fs (fun _ => True) (fun _ fs' => s.KeepsFresh root maxAge fs fs')
      (fun _ _ => False) := by
  refine (purge_exact hroot maxAge).weaken (fun _ _ => trivial) ?_ fun _ _ h => h
  rintro report fs' ⟨-, rfl⟩
  have hfile : ∀ pos id f, fs.at? pos = some (.file id) → fs.file? id = some f →
      fs.clock - maxAge < f.modified →
        ((fs.unbindAll (s.taken fs root maxAge)).at? pos = some (.file id) ↔
          ¬ (fs.clock < f.modified ∧ s.InReach fs root pos)) := by
    intro pos id f hid hf hfresh
    rw [at?_after_purge hwf hroot, ← mem_taken_of_fresh hwf hroot hid hf hfresh, hid]
    simp
  refine ⟨hfile, ?_⟩
  intro writing writing' data before after id hrun hhandle hbefore hsame hclock hage pos hid
  obtain ⟨f₀, hf₀⟩ := Option.ne_none_iff_exists'.1 hbefore
  obtain ⟨f, hf, hmodified⟩ := modified_append hrun hhandle hf₀
  rw [← hmodified]
  exact hfile pos id f hid (hsame.trans hf) (by omega)

/-- A staging file that has just been written stays. -/
theorem fresh_kept_iff_abandoned :
    WriteCall.abandoned.at? ([[114]] ++ keyN.staging) = some (.file 0) ∧
      ∃ report w', ((atTop [114]).purge 3600).run (.ofFileSystem WriteCall.abandoned) =
        (.ok report, w') ∧ w'.fs.at? ([[114]] ++ keyN.staging) = some (.file 0) := by
  have hfresh := fresh_kept_iff (s := atTop [114]) WriteCall.abandoned_tidy.wellFormed
    WriteCall.abandoned_tidy.leadsTo.rootedAt 3600
  have hid : WriteCall.abandoned.at? ([[114]] ++ keyN.staging) = some (.file 0) := rfl
  have hclock : ¬ (WriteCall.abandoned.clock < 0 ∧
      (atTop [114]).InReach WriteCall.abandoned [[114]] ([[114]] ++ keyN.staging)) :=
    fun h => absurd h.1 (by decide)
  rcases hrun : ((atTop [114]).purge 3600).run (.ofFileSystem WriteCall.abandoned) with
    ⟨result, w'⟩
  cases result with
  | error e => exact (hfresh.of_error rfl hrun).elim
  | ok report =>
      exact ⟨hid, report, w', rfl,
        ((hfresh.of_ok rfl hrun).file _ 0 ⟨[108], fileMode, 0⟩ hid rfl (by decide)).2 hclock⟩

/-- A staging file whose last change is later than the clock of the purge is removed, however old
the files are that it asks for. -/
theorem later_change_is_removed :
    ¬ ∀ (s : Store) (root pos : Position) (w : World) (maxAge id : Nat) (f : File),
      w.fs.WellFormed → s.RootedAt w.fs root → w.fs.at? pos = some (.file id) →
        w.fs.file? id = some f → w.fs.clock - maxAge < f.modified →
          ((s.purge maxAge).run w).2.fs.at? pos = some (.file id) := by
  intro hall
  have htidy := WriteCall.abandoned_tidy.atTime (-100)
  have hkept := hall (atTop [114]) [[114]] ([[114]] ++ keyN.staging)
    (.ofFileSystem { WriteCall.abandoned with clock := -100 }) 3600 0 ⟨[108], fileMode, 0⟩
    htidy.wellFormed htidy.leadsTo.rootedAt rfl rfl (by decide)
  have hgone : (((atTop [114]).purge 3600).run
      (.ofFileSystem { WriteCall.abandoned with clock := -100 })).2.fs.at?
        ([[114]] ++ keyN.staging) = none := by decide +kernel
  rw [hgone] at hkept
  cases hkept

end Store

end Depot
