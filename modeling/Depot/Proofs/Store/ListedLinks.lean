import Depot.Proofs.Store.Homes
import Depot.Proofs.Store.ListedObjects
/-!
# What is listed among links

An object is found through links, but a listing goes down real directories only, and follows at most
the link that its own path ends in.  So an object is listed below a beginning of its name exactly if
no link stands on the way from there to it, and then once and with its length.  A listing fails only
if it meets an entry whose path has become too long for the system.

* `traverse_of_followed`, `traverse_of_not_directory`, `traverse_of_error` — the walk below a path,
  by what it leads to;
* `LeadsTo.traverse_of_reaches` — the walk below names that reach a directory;
* `LeadsTo.list_reached_runs` — both outcomes of a listing;
* `listed_iff_unlinked` — which objects are listed;
* `linked_is_not_listed` — an object behind a link.
-/

namespace Depot

open FileSystem

namespace Store

variable {s : Store} {root pos base rest : Position} {fs : FileSystem}

/-! ## The walk of a listing -/

theorem traverse_of_followed {p : Pathname} {mode : Nat}
    (h : fs.locateEntry true p = .ok (pos, .directory mode)) :
    ∃ top entry, fs.traverse p = .ok ⟨top, entry, pos, fs.reached p pos⟩ ∧
      entry.isFile = false := by
  rcases fs.locateEntry_unfollowed p with hsame | ⟨top, target, hlink⟩
  · refine ⟨pos, .directory mode, ?_, rfl⟩
    rw [traverse_of_locateEntry (hsame.trans h) (by simp [Entry.isLink])]
    rfl
  · refine ⟨top, .link target, ?_, rfl⟩
    rw [FileSystem.traverse, hlink, ok_bind]
    dsimp only
    rw [h]
    rfl

theorem traverse_of_not_directory {p : Pathname} {entry : Entry}
    (hentry : entry.isDirectory = false) (h : fs.locateEntry true p = .ok (pos, entry)) :
    ∃ found, fs.traverse p = .ok found ∧ found.entries = [] := by
  rw [FileSystem.traverse]
  rcases fs.locateEntry_unfollowed p with hsame | ⟨top, target, hlink⟩
  · rw [hsame, h]
    cases entry with
    | directory mode => cases hentry
    | file id => exact ⟨_, rfl, rfl⟩
    | device => exact ⟨_, rfl, rfl⟩
    | link target => exact ⟨_, rfl, rfl⟩
  · rw [hlink, ok_bind]
    dsimp only
    rw [h]
    exact ⟨_, rfl, by rw [hentry]; rfl⟩

theorem traverse_of_error {p : Pathname} {e : IoError} (h : fs.locateEntry true p = .error e) :
    fs.traverse p = .error e := by
  rw [FileSystem.traverse]
  rcases fs.locateEntry_unfollowed p with hsame | ⟨top, target, hlink⟩
  · rw [hsame, h]
    rfl
  · rw [hlink, ok_bind]
    dsimp only
    rw [h]
    rfl

theorem LeadsTo.traverse_of_reaches (h : s.LeadsTo fs root)
    (hbase : ∀ name ∈ base, Pathname.IsName name)
    (hcheck : checkPath (s.pathOf base) = .ok ()) (hreach : s.Reaches fs base pos) :
    ∃ top entry, fs.traverse (s.pathOf base) =
      .ok ⟨top, entry, pos, fs.reached (s.pathOf base) pos⟩ := by
  have hsteps : ∃ mode, fs.walk true linkLimit [] (s.pathOf base).steps =
      .ok (.occupied pos (.directory mode)) := by
    obtain ⟨mode, hwalk⟩ := hreach
    rcases List.eq_nil_or_concat' base with rfl | ⟨dirs, leaf, rfl⟩
    · obtain ⟨mode', hwalk'⟩ := h.walk_pathOf_nil true
      obtain rfl : pos = root := Reaches.unique ⟨mode, hwalk⟩ h.reaches
      exact ⟨mode', hwalk'⟩
    · exact ⟨mode, by rwa [pathOf, Pathname.steps_join_ofNames h.bytes_ne_nil hbase]⟩
  obtain ⟨mode, hwalk⟩ := hsteps
  have hfollowed : fs.locateEntry true (s.pathOf base) = .ok (pos, .directory mode) := by
    rw [locateEntry_eq_ok, locate_eq_ok, h.startOf_pathOf hbase]
    exact ⟨hcheck, hwalk⟩
  obtain ⟨top, entry, htraverse, -⟩ := traverse_of_followed hfollowed
  exact ⟨top, entry, htraverse⟩

theorem fits_of_unreachable {path : Pathname} {ending doing : String} {names : Position}
    {entry : Entry} (h : listEntry fs path ending names entry = .unreachable doing) :
    (entryPath path names).fits = false := by
  cases entry with
  | link target => cases h
  | device => cases h
  | directory mode =>
      rw [listEntry] at h
      split at h
      · cases h
      · exact Bool.eq_false_iff.2 ‹_›
  | file id =>
      rw [listEntry, listFile] at h
      split at h
      · cases h
      split at h
      · cases h
      split at h
      · cases h
      · exact Bool.eq_false_iff.2 ‹_›

theorem LeadsTo.list_reached_runs (h : s.LeadsTo fs root) {beginning : String}
    (hname : ObjectName.ofBeginning beginning = .ok base)
    (hcheck : checkPath (s.pathOf base) = .ok ()) (hreach : s.Reaches fs base pos)
    (ending : String) :
    (s.list beginning ending).Runs fs (fun _ => False)
      (fun infos _ => infos = (fs.reached (s.pathOf base) pos).filterMap fun found =>
        (listEntry fs (s.pathOf base) ending found.1 found.2).info?)
      (fun _ _ => ∃ names entry, (names, entry) ∈ fs.below pos ∧
        (entryPath (s.pathOf base) names).fits = false) := by
  have hbase : ∀ name ∈ base, Pathname.IsName name :=
    fun name hmem => (ObjectName.normalize_eq_ok hname name hmem).1
  obtain ⟨top, entry, htraverse⟩ := h.traverse_of_reaches hbase hcheck hreach
  rw [list, resolveBeginning, hname]
  apply Op.Runs.lift_ok
  apply Op.Runs.get
  rintro w rfl
  rw [htraverse]
  refine (collect_runs w.fs (s.pathOf base) ending _).weaken (fun _ hst => hst)
    (fun _ _ hst => hst.2.1) ?_
  rintro e st ⟨-, ⟨names, entry'⟩, hmem, doing, hlisted, -⟩
  exact ⟨names, entry', (List.mem_filter.1 hmem).1, fits_of_unreachable hlisted⟩

/-! ## Objects and links -/

/-- No link is bound on the way from a directory down to a place. -/
def Unlinked (fs : FileSystem) (pos rest : Position) : Prop :=
  ∀ front target, front ≠ [] → front <+: rest → fs.at? (pos ++ front) ≠ some (.link target)

theorem Unlinked.not_isLink (h : Unlinked fs pos rest) (front : Position) (entry : Entry)
    (hne : front ≠ []) (hfront : front <+: rest) (he : fs.at? (pos ++ front) = some entry) :
    ¬ entry.isLink := by
  intro hlink
  obtain ⟨target, rfl⟩ := Entry.isLink_iff.1 hlink
  exact h front target hne hfront he

theorem at?_of_unlinked (hwf : fs.WellFormed) (hrest : ∀ name ∈ rest, Pathname.IsName name)
    (hunlinked : Unlinked fs pos rest) {links : Nat} {found : Position} {entry : Entry}
    (hwalk : fs.walk true links pos rest = .ok (.occupied found entry)) :
    fs.at? (pos ++ rest) = some entry := by
  rw [walk_eq_straight_of_way hunlinked.not_isLink hrest] at hwalk
  exact ((straight_eq_occupied_iff hwf).1 hwalk).2

theorem unlinked_of_file (hwf : fs.WellFormed) {id : Nat}
    (hid : fs.at? (pos ++ rest) = some (.file id)) : Unlinked fs pos rest := by
  rintro front target - ⟨tail, rfl⟩ hlink
  by_cases htail : tail = []
  · rw [htail, List.append_nil, hlink] at hid
    cases hid
  · rw [← List.append_assoc] at hid
    obtain ⟨mode, hmode⟩ := hwf.directory_of_append htail hid
    rw [hlink] at hmode
    cases hmode

theorem stat_found_runs {name : String} {path : Pathname} (hname : s.resolve name = .ok path) :
    (s.stat name).Runs fs (fun _ => False)
      (fun info _ => ∃ id, fs.stat path = .ok (.file id) ∧ info.size = fs.sizeOf (.file id))
      (fun _ _ => True) := by
  rw [Store.stat, hname]
  apply Op.Runs.lift_ok
  apply Op.Runs.get
  rintro w rfl
  cases hstat : w.fs.stat path with
  | error e =>
      dsimp only
      split <;> exact Op.Runs.throw trivial
  | ok entry =>
      dsimp only
      split
      · exact Op.Runs.throw trivial
      apply Op.Runs.get
      intro w' hw'
      rw [hw']
      split
      · exact Op.Runs.throw trivial
      · rename_i hsize
        cases entry with
        | file id => exact Op.Runs.pure ⟨id, rfl, rfl⟩
        | directory mode => exact absurd rfl hsize
        | link target => exact absurd rfl hsize
        | device => exact absurd rfl hsize

theorem file_of_listed (hwf : fs.WellFormed) {path : Pathname} {ending : String}
    {names : Position} {entry : Entry} {info : ObjectInfo}
    (hrest : ∀ name ∈ rest, Pathname.IsName name) (ht : slashName? rest = some info.name)
    (hmem : (names, entry) ∈ fs.reached path pos)
    (hinfo : (listEntry fs path ending names entry).info? = some info) :
    names = rest ∧ ∃ id, fs.at? (pos ++ rest) = some (.file id) := by
  obtain ⟨hfile, ht', -⟩ := info?_listEntry_eq_some.1 hinfo
  obtain ⟨-, he⟩ := mem_below.1 (List.mem_filter.1 hmem).1
  have hnames : ∀ name ∈ names, Pathname.IsName name :=
    fun name hname => (hwf.names_of_append he name hname).toIsName
  obtain rfl := eq_of_slashName? hnames hrest ht' ht
  refine ⟨rfl, ?_⟩
  cases entry with
  | file id => exact ⟨id, he⟩
  | directory mode => cases hfile
  | link target => cases hfile
  | device => cases hfile

theorem filter_fst_eq_singleton {l : List (Position × Entry)} {names : Position} {entry : Entry}
    (hpairs : l.Pairwise fun found found' => found.1 ≠ found'.1) (hmem : (names, entry) ∈ l) :
    l.filter (fun found => found.1 = names) = [(names, entry)] := by
  induction l with
  | nil => cases hmem
  | cons first l ih =>
      obtain ⟨hfirst, hlater⟩ := List.pairwise_cons.1 hpairs
      rcases List.mem_cons.1 hmem with rfl | hmem
      · rw [List.filter_cons_of_pos (by simp), List.filter_eq_nil_iff.2]
        intro found hfound
        simpa [eq_comm] using hfirst found hfound
      · rw [List.filter_cons_of_neg (by simpa using hfirst _ hmem), ih hlater hmem]

theorem filter_listed (hwf : fs.WellFormed) {path : Pathname} {t : String}
    (hrest : ∀ name ∈ rest, Pathname.IsName name) (ht : slashName? rest = some t) {id : Nat}
    (hmem : (rest, .file id) ∈ fs.reached path pos) (hfits : (entryPath path rest).fits) :
    ((fs.reached path pos).filterMap fun found =>
      (listEntry fs path "" found.1 found.2).info?).filter (·.name = t) =
        [⟨t, fs.sizeOf (.file id)⟩] := by
  have hlisted : (listEntry fs path "" rest (.file id)).info? = some ⟨t, fs.sizeOf (.file id)⟩ :=
    info?_listEntry_eq_some.2 ⟨rfl, ht, String.Slice.endsWith_string_empty, hfits, rfl⟩
  have honly : ∀ found ∈ fs.reached path pos,
      ((listEntry fs path "" found.1 found.2).info?).filter (·.name = t) =
        if found.1 = rest then (listEntry fs path "" found.1 found.2).info? else none := by
    rintro ⟨names, entry⟩ hfound
    cases hinfo : (listEntry fs path "" names entry).info? with
    | none => simp
    | some info =>
        rw [Option.filter_some]
        by_cases hname : info.name = t
        · rw [if_pos (by simpa using hname),
            if_pos (file_of_listed hwf hrest (hname ▸ ht) hfound hinfo).1]
        · rw [if_neg (by simpa using hname), if_neg]
          rintro rfl
          exact hname (Option.some.inj ((info?_listEntry_eq_some.1 hinfo).2.1.symm.trans ht))
  calc ((fs.reached path pos).filterMap fun found =>
        (listEntry fs path "" found.1 found.2).info?).filter (·.name = t)
      = ((fs.reached path pos).filter fun found => found.1 = rest).filterMap fun found =>
          (listEntry fs path "" found.1 found.2).info? := by
        rw [List.filter_filterMap, List.filterMap_filter, List.filterMap_congr honly]
        simp
    _ = [⟨t, fs.sizeOf (.file id)⟩] := by
        have hpairs : (fs.reached path pos).Pairwise fun found found' => found.1 ≠ found'.1 :=
          (pairwise_below fs pos).filter _
        rw [filter_fst_eq_singleton hpairs hmem]
        simp [hlisted]

/-- An object with bytes is listed below a beginning of its name, once and with its length, if no
link is on the way from there to it, and is not listed otherwise; and a listing fails only when it
meets a path that is too long. -/
theorem listed_iff_unlinked {s : Store} {root base rest : Position} {w w' : World}
    (hwf : w.fs.WellFormed) (h : s.LeadsTo w.fs root) {name beginning : String}
    (hname : ObjectName.ofObject name = .ok (base ++ rest)) (hne : rest ≠ [])
    (hbeginning : ObjectName.ofBeginning beginning = .ok base) {info : ObjectInfo}
    (hstat : (s.stat name).run w = (.ok info, w')) :
    ∃ pos t, s.Reaches w.fs base pos ∧ slashName? rest = some t ∧
      match ((s.list beginning "").run w).1 with
      | .ok infos =>
        (Unlinked w.fs pos rest → infos.filter (·.name = t) = [⟨t, info.size⟩]) ∧
        (¬ Unlinked w.fs pos rest → ∀ found ∈ infos, found.name ≠ t)
      | .error _ => ∃ names entry, (names, entry) ∈ w.fs.below pos ∧
        (entryPath (s.pathOf base) names).fits = false := by
  obtain ⟨k, hk, htext⟩ := ObjectName.ofObject_eq_ok hname
  have hall : ∀ name ∈ base ++ rest, Pathname.IsName name := hk ▸ k.isName
  have hbase : ∀ name ∈ base, Pathname.IsName name := fun name hmem => hall name (by simp [hmem])
  have hrest : ∀ name ∈ rest, Pathname.IsName name := fun name hmem => hall name (by simp [hmem])
  have hroot := h.bytes_ne_nil
  obtain ⟨t, ht⟩ := exists_slashName? fun name hmem => htext name (List.mem_append_right _ hmem)
  -- The walk of the measurement comes by the directory of the listing.
  obtain ⟨id, hfound, hsize⟩ :=
    (stat_found_runs (WriteCall.resolve_of_ofObject hname)).of_ok rfl hstat
  obtain ⟨place, hlocate⟩ := stat_eq_ok.1 hfound
  obtain ⟨hcheck, hwalk⟩ := locate_eq_ok.1 hlocate
  have hsteps : (s.pathOf (base ++ rest)).steps = s.root.names ++ base ++ rest := by
    obtain ⟨dirs, leaf, hconcat⟩ := (List.eq_nil_or_concat' (base ++ rest)).resolve_left
      (by simp [hne])
    rw [List.append_assoc, hconcat, pathOf,
      Pathname.steps_join_ofNames hroot (hconcat ▸ hall)]
  rw [h.startOf_pathOf hall, hsteps] at hwalk
  obtain ⟨pos, mode, links, hfront, hback⟩ := walk_front hne hwalk
  have hreach : s.Reaches w.fs base pos := ⟨mode, hfront⟩
  have hcheckBase : checkPath (s.pathOf base) = .ok () :=
    checkPath_of_isPrefix (Pathname.join_ofNames_isPrefix hroot base rest hall)
      (h.bytes_pathOf_ne_nil hbase) hcheck
  refine ⟨pos, t, hreach, ht, ?_⟩
  have hruns := h.list_reached_runs hbeginning hcheckBase hreach ""
  rcases hrun : (s.list beginning "").run w with ⟨result, w''⟩
  cases result with
  | error e => exact hruns.of_error rfl hrun
  | ok infos =>
      obtain rfl := hruns.of_ok rfl hrun
      refine ⟨fun hunlinked => ?_, fun hlinked found hmem hname => hlinked ?_⟩
      · have hid := at?_of_unlinked hwf hrest hunlinked hback
        rw [hsize]
        refine filter_listed hwf hrest ht ?_ (fits_entryPath hroot hne hall hcheck)
        exact List.mem_filter.2 ⟨mem_below.2 ⟨hne, hid⟩, isReached_pathOf hroot hall hcheck⟩
      · obtain ⟨⟨names, entry⟩, hreached, hinfo⟩ := List.mem_filterMap.1 hmem
        obtain ⟨-, id', hid⟩ := file_of_listed hwf hrest (hname ▸ ht) hreached hinfo
        exact unlinked_of_file hwf hid

/-! ### A link beside an object -/

/-- A store with an object o, and a link l to it. -/
def shortcut : FileSystem :=
  (((newDirectory [114]).allocate ⟨[108], fileMode, 0⟩).1.bind [[114], [111]] (.file 0)).bind
    [[114], [108]] (.link ⟨[111]⟩)

theorem shortcut_wellFormed : shortcut.WellFormed := by
  have hobject : IsEntryName [111] := isEntryName_letter (by decide)
  have hlink : IsEntryName [108] := isEntryName_letter (by decide)
  have hnew := (newDirectory_wellFormed isEntryName_r).allocate ⟨[108], fileMode, 0⟩
  have hbound := @WellFormed.bind _ hnew [[114]] _ (.file 0) _ rfl hobject
    (Or.inr fun _ hmode => by cases hmode) fun id hid => ⟨_, by cases hid; rfl⟩
  exact @WellFormed.bind _ hbound [[114]] _ (.link ⟨[111]⟩) _ rfl hlink
    (Or.inr fun _ hmode => by cases hmode) fun id hid => by cases hid

theorem shortcut_leadsTo : (atTop [114]).LeadsTo shortcut [[114]] :=
  ⟨rfl, by decide, directoryMode, rfl⟩

theorem listed_iff_unlinked_shortcut :
    ∃ infos w', ((atTop [114]).list "" "").run (.ofFileSystem shortcut) = (.ok infos, w') ∧
      infos.filter (·.name = "o") = [⟨"o", 1⟩] := by
  have hstat : ((atTop [114]).stat "o").run (.ofFileSystem shortcut) =
      (.ok ⟨"o", 1⟩, .ofFileSystem shortcut) := rfl
  obtain ⟨pos, t, hreach, ht, h⟩ := @listed_iff_unlinked (atTop [114]) [[114]] [] [[111]] _ _
    shortcut_wellFormed shortcut_leadsTo "o" "" rfl (by decide) rfl _ hstat
  obtain rfl := hreach.unique shortcut_leadsTo.reaches
  obtain rfl : "o" = t := Option.some.inj ht
  have hok : (((atTop [114]).list "" "").run (.ofFileSystem shortcut)).1.isOk = true := by
    decide +kernel
  rcases hrun : ((atTop [114]).list "" "").run (.ofFileSystem shortcut) with ⟨result, w'⟩
  rw [hrun] at h hok
  cases result with
  | error e => cases hok
  | ok infos =>
      have hfile : shortcut.at? ([[114]] ++ [[111]]) = some (.file 0) := rfl
      exact ⟨infos, w', rfl, h.1 (unlinked_of_file shortcut_wellFormed hfile)⟩

/-- An object that is found behind a link is not listed. -/
theorem linked_is_not_listed :
    ¬ ∀ (s : Store) (root base rest : Position) (w w' : World) (name beginning : String)
      (info : ObjectInfo), w.fs.WellFormed → s.LeadsTo w.fs root →
        ObjectName.ofObject name = .ok (base ++ rest) → rest ≠ [] →
          ObjectName.ofBeginning beginning = .ok base → (s.stat name).run w = (.ok info, w') →
            ∃ infos w'' t, (s.list beginning "").run w = (.ok infos, w'') ∧
              slashName? rest = some t ∧ infos.filter (·.name = t) = [⟨t, info.size⟩] := by
  intro hall
  have hstat : ((atTop [114]).stat "l").run (.ofFileSystem shortcut) =
      (.ok ⟨"l", 1⟩, .ofFileSystem shortcut) := rfl
  obtain ⟨infos, w'', t, hrun, ht, hlisted⟩ := hall (atTop [114]) [[114]] [] [[108]] _ _ "l" "" _
    shortcut_wellFormed shortcut_leadsTo rfl (by decide) rfl hstat
  obtain rfl : "l" = t := Option.some.inj ht
  have honly : (((atTop [114]).list "" "").run (.ofFileSystem shortcut)).1.toOption =
      some [⟨"o", 1⟩] := by decide +kernel
  rw [hrun] at honly
  cases honly
  simp at hlisted

end Store

end Depot
