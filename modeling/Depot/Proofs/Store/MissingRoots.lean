import Depot.Proofs.CommandLine.SavedFile
import Depot.Proofs.FileSystem.Unobstructed
import Depot.Proofs.Store.ResolvedRoots
import Depot.Proofs.Store.Writable
/-!
# Stores at roots that were missing

Where nothing is in the way, a store is opened at a path that finds nothing: the root is made with
all above it, and what is saved is stored below it.  Only a path that ends in a dot is refused, as
the directory before the dot is not made, unless double dots name it on the way.

* `Unobstructed.fresh` — the root is new, and nothing is below it;
* `Store.save_stores` — an object that nothing is in the way of;
* `NewRoot` — what an opening at such a path yields;
* `Store.openAt_missing_iff` — when it does.
-/

namespace Depot

open FileSystem

variable {fs st : FileSystem} {p : Pathname} {pos : Position}

namespace FileSystem

theorem Lacks.checkPath (h : fs.Lacks p) (hne : p ≠ .empty) : checkPath p = .ok () := by
  obtain ⟨e, hstat, hkind⟩ := h
  exact checkPath_of_linkStat hne hstat hkind

theorem Lacks.not_named (h : fs.Lacks p) (hne : p ≠ .empty) : ¬ fs.NamesDirectoryAt p pos := by
  intro hnamed
  obtain ⟨mode, hlocate⟩ := hnamed.locateEntry (h.checkPath hne)
  obtain ⟨found, hfound, -⟩ := linkStat_of_locateEntry hlocate
  obtain ⟨e, hstat, -⟩ := h
  rw [hfound] at hstat
  cases hstat

theorem Paved.above_of_dotted (hdot : p.names.getLast? = some Pathname.dot)
    (h : fs.Paved (p.ancestors (p.bytes.length + 1)) st) : fs.Paved p.above st := by
  induction h with
  | refl => exact .refl
  | make _ hq hmake ih =>
    rw [Pathname.ancestors] at hq
    rcases List.mem_cons.1 hq with rfl | hq
    · obtain ⟨dir, name, hlast, -, -⟩ := makeDirectory_eq_ok hmake
      obtain ⟨-, front, mode, hnames, -, hne, -⟩ := locateLast_eq_name_iff.1 hlast
      rw [hnames, List.getLast?_concat] at hdot
      exact absurd (Option.some.inj hdot) hne
    · refine ih.make ?_ hmake
      rw [Pathname.above, Pathname.ancestors]
      exact hq

theorem Unobstructed.fresh (h : fs.Unobstructed p) (hne : p ≠ .empty) (hlacks : fs.Lacks p)
    (hdots : Pathname.dotDot ∉ p.names) (hst : fs.Paved (p.ancestors (p.bytes.length + 1)) st)
    (hnamed : st.NamesDirectoryAt p pos) :
    fs.at? pos = none ∧ ∀ rest, rest ≠ [] → st.at? (pos ++ rest) = none := by
  have hwf := h.wellFormed
  have hgrown := hst.grown hwf
  obtain ⟨mode, hwalk⟩ := hnamed
  rw [startOf_eq hst.same.workingDir] at hwalk
  have hnone : fs.at? pos = none := by
    cases h.clear.way hwf hgrown (startOf_directory h.workingDir p) h.length_le
        (fun hup => absurd hup hdots) List.prefix_rfl with
    | old pos' mode' hold => exact absurd ⟨mode', hold⟩ (hlacks.not_named hne)
    | new pos' mode' hnew hnone =>
      rw [hnew] at hwalk
      cases hwalk
      exact hnone
    | missing hmisses =>
      rcases hmisses.missing with ⟨dir, name, hvacant⟩ | herror
      · rw [hvacant] at hwalk
        cases hwalk
      · rw [herror] at hwalk
        cases hwalk
  refine ⟨hnone, fun rest hrest => ?_⟩
  by_contra hsome
  obtain ⟨entry, he⟩ := Option.ne_none_iff_exists'.1 hsome
  -- what is below is named by a beginning of the path, so it leads to the end of the path
  obtain ⟨rfl, q, hq, dir, name, hlast, hpos⟩ := hst.new hwf (hwf.at?_below_none hnone rest) he
  obtain ⟨hnames, habs⟩ := Pathname.names_isPrefix_of_mem_ancestors hq
  obtain ⟨-, front, mode', hfront, hdir, -⟩ := locateLast_eq_name_iff.1 hlast
  rw [hpos] at he
  have hbelow := walk_concat_directory hdir (isEntryName_of_locateLast hlast).1 he
  rw [← hfront, startOf, habs, ← startOf, startOf_eq hst.same.workingDir, ← hpos] at hbelow
  obtain ⟨more, hmore⟩ := hnames
  have hpre : pos ++ rest <+: pos := by
    by_cases hnil : more = []
    · rw [hnil, List.append_nil] at hmore
      rw [hmore, hwalk] at hbelow
      have hsame := (Place.occupied.inj (Except.ok.inj hbelow)).1
      exact ⟨[], (List.append_nil _).trans hsame.symm⟩
    · obtain ⟨links', hresume⟩ := walk_resume hbelow
      rw [← hmore, hresume more hnil] at hwalk
      exact hgrown.isPrefix_of_walk hwf (hwf.at?_below_none hnone rest)
        (fun hup => hdots (hmore ▸ List.mem_append_right _ hup)) hwalk
  have hlength := hpre.length_le
  rw [List.length_append] at hlength
  exact hrest (List.length_eq_zero_iff.1 (by omega))

end FileSystem

namespace Store

variable {s : Store} {k : Key}

/-- Nothing is in the way of an object below a directory. -/
structure HasRoom (fs : FileSystem) (pos : Position) (k : Key) : Prop where
  plain : fs.PlainBelow pos
  staging : ∀ mode, fs.at? (pos ++ k.staging) ≠ some (.directory mode)
  object : ∀ mode, fs.at? (pos ++ k.names) ≠ some (.directory mode)
  passable : ∀ front entry, front <+: k.dirs → fs.at? (pos ++ front) = some entry →
    entry.isDirectory

theorem HasRoom.of_empty {mode : Nat} (hpos : fs.at? pos = some (.directory mode))
    (hempty : ∀ rest, rest ≠ [] → fs.at? (pos ++ rest) = none) (k : Key) :
    HasRoom fs pos k where
  plain := by
    intro names entry hne he
    rw [hempty names hne] at he
    cases he
  staging := by
    intro mode h
    rw [hempty _ k.staging_ne_nil] at h
    cases h
  object := by
    intro mode h
    rw [hempty _ k.names_ne_nil] at h
    cases h
  passable := by
    intro front entry _ he
    by_cases hfront : front = []
    · rw [hfront, List.append_nil, hpos] at he
      cases he
      rfl
    · rw [hempty front hfront] at he
      cases he

theorem length_root_le (hroot : s.root.bytes ≠ []) {names : List Bytes}
    (hnames : ∀ name ∈ names, Pathname.IsName name) :
    s.root.bytes.length ≤ (s.pathOf names).bytes.length := by
  rw [pathOf, Pathname.join_ofNames hroot hnames]
  simp only [List.length_append, List.length_cons]
  by_cases hslash : s.root.endsInSlash
  · rw [Pathname.bytes_of_endsInSlash hslash]
    simp
  · rw [Pathname.stem, if_neg hslash]
    omega

/-- A store saves what there is room for, if the system takes the path and the names of the staging
file. -/
theorem save_stores (hwf : fs.WellFormed) (hclean : s.root.IsClean) (hreach : s.Reaches fs [] pos)
    (hroom : HasRoom fs pos k) (hcheck : checkPath (s.pathOf k.staging) = .ok ())
    (hlength : ∀ name ∈ k.staging, name.length ≤ maxNameLength) {name : String}
    (hname : ObjectName.ofObject name = .ok k.names) {source : List Delivery} {bytes : Bytes}
    (hsource : payload source = some bytes) (expected : Nat) {w : World} (hw : w.fs = fs) :
    ∃ w', (s.save name source expected).run w = (.ok (), w') ∧
      w'.fs.objectAt? pos k.names = some bytes := by
  have hroot := hclean.bytes_ne_nil
  have hsame {names : List Bytes} (h : ∀ name ∈ names, Pathname.IsName name) :
      s.slashed.pathOf names = s.pathOf names := pathOf_slashed hroot h
  have hfront : FileSystem.checkPath (s.pathOf []) = .ok () := by
    refine checkPath_of_isPrefix (Pathname.join_ofNames_isPrefix hroot [] k.staging
      k.isName_staging) ?_ hcheck
    rw [pathOf, Pathname.join_ofNames hroot (by simp)]
    simp
  have htidy : s.slashed.Tidy fs pos := ⟨hwf, leadsTo_slashed hclean hfront hreach, hroom.plain⟩
  have hwritable : s.slashed.Writable pos k fs := by
    refine ⟨⟨⟨?_, hroom.staging⟩, hlength, hroom.passable⟩, hroom.object⟩
    rw [hsame k.isName_staging]
    exact hcheck
  have hresolve : s.slashed.resolve name = .ok (s.slashed.pathOf k.names) := by
    rw [resolve, hname]
  have hsave : s.slashed.save name source expected = s.save name source expected := by
    rw [save, save, saveFrom_slashed hroot]
  have hruns := hwritable.save_runs htidy hresolve source expected
  rw [hsave] at hruns
  rcases hrun : (s.save name source expected).run w with ⟨result, w'⟩
  cases result with
  | error e =>
    have hnone := hruns.of_error hw hrun
    rw [hsource] at hnone
    cases hnone
  | ok _ =>
    obtain ⟨bytes', hbytes, hpublished⟩ := hruns.of_ok hw hrun
    rw [hsource] at hbytes
    cases hbytes
    obtain ⟨id, time, hid, hf⟩ := hpublished.object
    exact ⟨w', rfl, objectAt?_eq_some_iff.2 ⟨isObjectPosition_names k, id, _, hid, hf, rfl⟩⟩

end Store

/-! ## Openings -/

/-- A store that was opened at a path that found nothing. -/
structure NewRoot (fs : FileSystem) (p : Pathname) (s : Store) (pos : Position)
    (st : FileSystem) : Prop where
  clean : s.root.IsClean
  named : st.NamesDirectoryAt p pos
  leads : (∃ mode, st.locateEntry true s.root = .ok (pos, .directory mode)) ↔
    s.root.bytes.length < pathLimit
  /-- Without double dots in the path, the root is new and empty. -/
  fresh : Pathname.dotDot ∉ p.names →
    fs.at? pos = none ∧ ∀ rest, rest ≠ [] → st.at? (pos ++ rest) = none
  saves : ∀ {k : Key} {name : String} {source : List Delivery} {bytes : Bytes},
    ObjectName.ofObject name = .ok k.names → checkPath (s.pathOf k.staging) = .ok () →
      (∀ part ∈ k.staging, part.length ≤ maxNameLength) →
        (Pathname.dotDot ∈ p.names → Store.HasRoom st pos k) → payload source = some bytes →
          ∀ (w : World) (expected : Nat), w.fs = st → ∃ w',
            (s.save name source expected).run w = (.ok (), w') ∧
              w'.fs.objectAt? pos k.names = some bytes

/-- The root is made, or stuck at a dot. -/
theorem resolveRoot_missing_runs (h : fs.Unobstructed p) (hne : p ≠ .empty)
    (hlacks : fs.Lacks p) :
    (resolveRoot p true).Runs fs (fun _ => True)
      (fun _ st => fs.Paved (p.ancestors (p.bytes.length + 1)) st ∧ st.NamesDirectory p)
      (fun _ st => fs.StuckAtDot p st) := by
  obtain ⟨e, hstat, hkind⟩ := id hlacks
  have hmade := (makeDirectories_paves fs p).and (h.makeDirectories_runs (hlacks.checkPath hne))
  rw [resolveRoot, if_neg hne]
  apply Op.Runs.get
  rintro w rfl
  rw [hstat]
  dsimp only
  rw [if_pos hkind, if_pos rfl]
  exact (makeRoot_of_made hne (hmade.weaken (fun _ _ => trivial) (fun _ _ hst => hst.1)
    fun _ _ hst => hst.2)).weaken (fun _ hst => hst) (fun _ _ hst => ⟨hst.1, hst.2.1⟩)
    fun _ _ hst => hst

theorem FileSystem.RootLeads.newRoot {s : Store} (hleads : st.RootLeads p s.root)
    (h : fs.Unobstructed p) (hne : p ≠ .empty) (hlacks : fs.Lacks p)
    (hst : fs.Paved (p.ancestors (p.bytes.length + 1)) st) : ∃ pos, NewRoot fs p s pos st := by
  obtain ⟨hclean, pos, hnamed, hiff⟩ := hleads
  have hfresh (hdots : Pathname.dotDot ∉ p.names) := h.fresh hne hlacks hdots hst hnamed
  have hwf := (hst.grown h.wellFormed).wellFormed
  refine ⟨pos, hclean, hnamed, hiff, hfresh, ?_⟩
  intro k name source bytes hname hcheck hlength hroom hsource w expected hw
  -- a path below the root is longer than the root
  have hshort : s.root.bytes.length < pathLimit := by
    have hstaging := Store.length_root_le (s := s) hclean.bytes_ne_nil k.isName_staging
    have := (checkPath_eq_ok.1 hcheck).2.2
    omega
  obtain ⟨mode, hlocate⟩ := hiff.2 hshort
  have hwalk := walk_names_of_steps (locate_eq_ok.1 (locateEntry_eq_ok.1 hlocate)).2
  rw [startOf, if_pos hclean.1] at hwalk
  have hreach : s.Reaches st [] pos := ⟨mode, by rwa [List.append_nil]⟩
  have hroom' : Store.HasRoom st pos k := by
    by_cases hdots : Pathname.dotDot ∈ p.names
    · exact hroom hdots
    · exact .of_empty (walk_occupied hwalk) (hfresh hdots).2 k
  exact Store.save_stores hwf hclean hreach hroom' hcheck hlength hname hsource expected hw

namespace Store

/-- Where nothing is in the way, a store is opened at a path that finds nothing exactly if the path
does not end in a dot, or names a directory once those above it are made. -/
theorem openAt_missing_iff {w : World} (h : w.fs.Unobstructed p) (hne : p ≠ .empty)
    (hlacks : w.fs.Lacks p) :
    let opened := (openAt p true).run w
    ((∃ s, opened.1 = .ok s) ↔ p.names.getLast? ≠ some Pathname.dot ∨
      ∃ st, w.fs.Paved p.above st ∧ st.NamesDirectory p) ∧
    ∀ s, opened.1 = .ok s → ∃ pos, NewRoot w.fs p s pos opened.2.fs := by
  intro opened
  have hruns := openAt_of_resolveRoot (resolveRoot_missing_runs h hne hlacks)
  obtain ⟨houtcome, -⟩ := openAt_outcome h.wellFormed p true
  rcases hrun : (openAt p true).run w with ⟨result, w'⟩
  rw [show opened = (result, w') from hrun]
  rw [hrun] at houtcome
  cases result with
  | ok s =>
    obtain ⟨hpaved, hnamed⟩ := hruns.of_ok rfl hrun
    refine ⟨⟨fun _ => ?_, fun _ => ⟨s, rfl⟩⟩, ?_⟩
    · by_cases hdot : p.names.getLast? = some Pathname.dot
      · exact .inr ⟨w'.fs, hpaved.above_of_dotted hdot, hnamed⟩
      · exact .inl hdot
    · rintro _ ⟨⟩
      exact (houtcome.root rfl).newRoot h hne hlacks hpaved
  | error e =>
    have hstuck := hruns.of_error rfl hrun
    refine ⟨⟨by simp, ?_⟩, by simp⟩
    rintro (hdot | ⟨st, hst, hnamed⟩)
    · exact absurd hstuck.dotted hdot
    · exact absurd hnamed (hstuck.not_named h.wellFormed hst)

theorem newDirectory_unobstructed (last : Bytes) (hnames : p.names = [[114], [120], last])
    (hlength : last.length ≤ maxNameLength) (hdots : last ≠ Pathname.dotDot) :
    (newDirectory [114]).Unobstructed p where
  wellFormed := newDirectory_wellFormed isEntryName_r
  workingDir := ⟨directoryMode, rfl⟩
  length_le := by
    intro name hname
    rw [hnames] at hname
    rcases List.mem_cons.1 hname with rfl | hname
    · decide
    rcases List.mem_cons.1 hname with rfl | hname
    · decide
    · exact List.mem_singleton.1 hname ▸ hlength
  clear := by
    intro front hfront pos entry hfound
    have hstart : (newDirectory [114]).startOf p = [] := by
      rw [startOf]
      split <;> rfl
    have hvacant (follow : Bool) : (newDirectory [114]).walk follow linkLimit [] [[114], [120]] =
        .ok (.vacant [[114]] [120]) := by
      cases follow <;> decide +kernel
    rw [hnames] at hfront
    rw [hstart] at hfound ⊢
    rcases List.prefix_cons_iff.1 hfront with rfl | ⟨front, rfl, hnext⟩
    · exact ⟨[], directoryMode, by decide +kernel⟩
    rcases List.prefix_cons_iff.1 hnext with rfl | ⟨front, rfl, hlast⟩
    · exact ⟨[[114]], directoryMode, by decide +kernel⟩
    rcases List.prefix_cons_iff.1 hlast with rfl | ⟨front, rfl, hnil⟩
    · rw [hvacant false] at hfound
      cases hfound
    · obtain rfl := List.prefix_nil.1 hnil
      have herror := walk_append_of_vacant (hvacant true) (List.cons_ne_nil last []) false
      rw [List.cons_append, List.cons_append, List.nil_append, hfound] at herror
      cases herror
  clear_above := by
    intro hmem
    have hmem' : Pathname.dotDot = [114] ∨ Pathname.dotDot = [120] ∨ Pathname.dotDot = last := by
      simpa [hnames] using hmem
    rcases hmem' with h | h | h
    · cases h
    · cases h
    · exact absurd h.symm hdots

/-- The path r/x//y is made, and the root is new. -/
theorem openAt_missing_iff_doubled :
    let w := World.ofFileSystem (newDirectory [114])
    let p := Pathname.ofString "r/x//y"
    w.fs.Unobstructed p ∧ p ≠ .empty ∧ w.fs.Lacks p ∧
      ((openAt p true).run w).1 = .ok ⟨.ofString "/r/x/y"⟩ ∧
        ∃ pos, NewRoot w.fs p ⟨.ofString "/r/x/y"⟩ pos ((openAt p true).run w).2.fs := by
  intro w p
  have hfree : w.fs.Unobstructed p :=
    newDirectory_unobstructed [121] (by decide) (by decide) (by decide)
  have hlacks : w.fs.Lacks p := ⟨.noEntry, by decide +kernel, rfl⟩
  have hopen : ((openAt p true).run w).1 = .ok ⟨.ofString "/r/x/y"⟩ := by decide +kernel
  exact ⟨hfree, by decide, hlacks, hopen,
    (openAt_missing_iff hfree (by decide) hlacks).2 _ hopen⟩

/-- Nothing is in the way of r/x/., and it is not made. -/
theorem missing_root_is_not_made :
    ¬ ∀ (w : World) (p : Pathname), w.fs.Unobstructed p → p ≠ .empty → w.fs.Lacks p →
      ∃ s, ((openAt p true).run w).1 = .ok s := by
  intro hall
  obtain ⟨s, hs⟩ := hall (.ofFileSystem (newDirectory [114])) (.ofString "r/x/.")
    (newDirectory_unobstructed Pathname.dot (by decide) (by decide) (by decide))
    (by decide) ⟨.noEntry, by decide +kernel, rfl⟩
  have hopen : ((openAt (.ofString "r/x/.") true).run (.ofFileSystem (newDirectory [114]))).1 =
      .error (.during "mkdir r/x/." .noEntry) := by decide +kernel
  rw [hopen] at hs
  cases hs

end Store

end Depot
