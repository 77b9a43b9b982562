import Depot.Proofs.Store.CrashSafety
import Depot.Proofs.Store.Listings
import Depot.Proofs.Store.Reading
import Depot.Proofs.Store.Writable
/-!
# What is listed can be opened

The beginning of a name that was asked for and a listed name make a name together.  The store
accepts it, opens it and measures it with the listed size, at any moment of a write — unless the
listed name ends as the names of staging files do: a listing shows those too, and the store refuses
every one of them.

* `normalize_joinedName` — the normal form of the two names together;
* `Tidy.listed` — one entry of a listing;
* `WriteCall.listed_is_object` — the listings at all moments of a write;
* `WriteCall.staging_is_listed` — a staging file is listed and refused.
-/

namespace Depot

open FileSystem

def joinedName (beginning name : String) : String :=
  if beginning = "" then name else beginning ++ "/" ++ name

/-- The store accepts the name, opens it, and measures it with a size or says that it is empty. -/
structure Store.Offers (s : Store) (name : String) (size : Nat) (w : World) : Prop where
  accepted : ∃ path, s.resolve name = .ok path
  opened : ∃ reader w', (s.openReader name).run w = (.ok reader, w')
  measured : match (s.stat name).run w with
    | (.ok info, _) => size ≠ 0 ∧ info = ⟨name, size⟩
    | (.error e, _) => size = 0 ∧ e.isEmptyObject

/-! ## The normal form of a joined name -/

namespace Pathname

theorem components_ofNames {names : List Bytes} (h : ∀ name ∈ names, IsName name) :
    names.filterMap Component.ofPiece? = names.map .normal := by
  induction names with
  | nil => rfl
  | cons name names ih =>
      have hname := h name List.mem_cons_self
      rw [List.filterMap_cons, Component.ofPiece?, if_neg (by simp [hname.ne_nil, hname.ne_dot]),
        if_neg hname.ne_dotDot, ih fun name hmem => h name (List.mem_cons_of_mem _ hmem)]
      rfl

theorem components_append_slash {front : Bytes} {names : List Bytes} (hfront : front ≠ [])
    (hne : names ≠ []) (h : ∀ name ∈ names, IsName name) :
    (⟨front ++ slash :: [slash].intercalate names⟩ : Pathname).components =
      (⟨front⟩ : Pathname).components ++ names.map .normal := by
  have hpieces : (⟨front ++ slash :: [slash].intercalate names⟩ : Pathname).pieces =
      (⟨front⟩ : Pathname).pieces ++ names := by
    rw [pieces_append_slash]
    exact congrArg _ (pieces_ofNames hne h)
  rw [components, components, hpieces]
  cases hsplit : (⟨front⟩ : Pathname).pieces with
  | nil => exact absurd hsplit (List.splitOn_ne_nil _ _)
  | cons first rest =>
      simp only [List.cons_append, List.filterMap_append, components_ofNames h]
      by_cases hnil : first = []
      · -- A path that starts with a slash has another piece behind it.
        have hrest : rest ≠ [] := by
          rintro rfl
          have hjoined : [slash].intercalate (front.splitOn slash) = front :=
            List.intercalate_splitOn slash
          rw [show front.splitOn slash = [first] from hsplit, hnil] at hjoined
          exact hfront hjoined.symm
        rw [if_pos hnil, if_pos hnil, if_neg (by simp [hrest]), if_neg hrest, List.cons_append]
      · rw [if_neg hnil, if_neg hnil]
        split
        · rw [List.cons_append]
        · rw [List.append_assoc]

end Pathname

namespace ObjectName

theorem evaluate_append (stack : List Bytes) (comps comps' : List Pathname.Component) :
    evaluate stack (comps ++ comps') =
      evaluate stack comps >>= fun stack' => evaluate stack' comps' := by
  induction comps generalizing stack with
  | nil => rfl
  | cons comp comps ih =>
      cases comp with
      | root => cases stack <;> rfl
      | current => simp only [List.cons_append, evaluate, ih]
      | normal name => simp only [List.cons_append, evaluate, ih]
      | parent =>
          cases stack with
          | nil => rfl
          | cons top stack => simp only [List.cons_append, evaluate, ih]

theorem normalize_eq_ok_iff {name : String} {names : List Bytes} :
    normalize name = .ok names ↔
      evaluate [] (Pathname.ofString name).components = .ok names.reverse := by
  rw [normalize, map_eq_ok]
  constructor
  · rintro ⟨stack, hstack, rfl⟩
    rw [hstack, List.reverse_reverse]
  · intro h
    exact ⟨_, h, List.reverse_reverse names⟩

theorem normalize_joinedName {beginning t : String} {base names : Position}
    (hbase : ofBeginning beginning = .ok base) (hne : names ≠ [])
    (hnames : ∀ name ∈ names, Pathname.IsName name) (ht : slashName? names = some t) :
    normalize (joinedName beginning t) = .ok (base ++ names) := by
  have htext := ofString_of_slashName? ht
  rw [ofBeginning, normalize_eq_ok_iff] at hbase
  rw [normalize_eq_ok_iff, joinedName, List.reverse_append]
  split
  · rename_i hempty
    obtain rfl : base = [] := by
      rw [hempty] at hbase
      exact List.reverse_eq_nil_iff.1 (Except.ok.inj hbase).symm
    have hcomps : (Pathname.ofString t).components = names.map .normal := by
      rw [htext, Pathname.components, Pathname.pieces_ofNames hne hnames]
      cases names with
      | nil => exact absurd rfl hne
      | cons first rest =>
          have hfirst := hnames first List.mem_cons_self
          rw [← Pathname.components_ofNames hnames, List.filterMap_cons]
          dsimp only
          rw [if_neg hfirst.ne_nil, if_neg hfirst.ne_dot, Pathname.Component.ofPiece?,
            if_neg (by simp [hfirst.ne_nil, hfirst.ne_dot]), if_neg hfirst.ne_dotDot]
          rfl
    rw [hcomps, evaluate_normal, List.reverse_nil]
  · rename_i hbeginning
    have hfront : Bytes.ofString beginning ≠ [] := fun hnil =>
      hbeginning (Bytes.ofString_injective hnil)
    have hbytes : Pathname.ofString (beginning ++ "/" ++ t) =
        ⟨Bytes.ofString beginning ++ Pathname.slash :: [Pathname.slash].intercalate names⟩ := by
      have hslash : Bytes.ofString "/" = [Pathname.slash] := rfl
      rw [Pathname.ofString, Bytes.ofString_append, Bytes.ofString_append, hslash,
        show Bytes.ofString t = [Pathname.slash].intercalate names from
          congrArg Pathname.bytes htext]
      simp
    rw [hbytes, Pathname.components_append_slash hfront hne hnames, evaluate_append,
      show evaluate [] (⟨Bytes.ofString beginning⟩ : Pathname).components = .ok base.reverse
        from hbase, ok_bind, evaluate_normal]

theorem ofObject_of_normalize {name : String} {dirs : List Bytes} {leaf : Bytes}
    (h : normalize name = .ok (dirs ++ [leaf])) :
    ofObject name = if isStagingLeaf leaf then .error .reserved else .ok (dirs ++ [leaf]) := by
  rw [ofObject, h, ok_bind]
  simp only [List.getLast?_append, List.getLast?_singleton, Option.some_or]
  rfl

theorem isSuffix_intercalate_iff {suffix : Bytes} (hslash : Pathname.slash ∉ suffix)
    (dirs : List Bytes) (leaf : Bytes) :
    suffix <:+ [Pathname.slash].intercalate (dirs ++ [leaf]) ↔ suffix <:+ leaf := by
  by_cases hdirs : dirs = []
  · simp [hdirs]
  rw [Pathname.intercalate_append hdirs (by simp), List.intercalate_singleton]
  constructor
  · intro h
    rcases List.suffix_or_suffix_of_suffix h (List.suffix_append _ _) with hsuffix | hsuffix
    · rcases List.suffix_cons_iff.1 hsuffix with heq | hleaf
      · exact absurd (heq ▸ List.mem_cons_self) hslash
      · exact hleaf
    · exact absurd (hsuffix.subset List.mem_cons_self) hslash
  · intro h
    exact (h.trans (List.suffix_cons _ _)).trans (List.suffix_append _ _)

end ObjectName

/-! ## One entry of a listing -/

namespace Store

variable {s : Store} {root base : Position} {fs : FileSystem}

/-- A regular file below a base that a listing shows. -/
structure ListedFile (s : Store) (fs : FileSystem) (root base : Position) (info : ObjectInfo)
    (names : Position) (f : File) : Prop where
  ne_nil : names ≠ []
  file : ∃ id, fs.at? (root ++ (base ++ names)) = some (.file id) ∧ fs.file? id = some f
  text : slashName? names = some info.name
  fits : (entryPath (s.pathOf base) names).fits = true
  size : info.size = f.bytes.length

theorem info?_listEntry_eq_some {path : Pathname} {ending : String} {names : Position}
    {entry : Entry} {info : ObjectInfo} :
    (listEntry fs path ending names entry).info? = some info ↔
      entry.isFile ∧ slashName? names = some info.name ∧ info.name.endsWith ending ∧
        (entryPath path names).fits ∧ info.size = fs.sizeOf entry := by
  obtain ⟨name, size⟩ := info
  cases entry with
  | link target => simp [listEntry, Listed.info?, Entry.isFile]
  | device => simp [listEntry, Listed.info?, Entry.isFile]
  | directory mode =>
      rw [listEntry]
      split <;> simp [Listed.info?, Entry.isFile]
  | file id =>
      rw [listEntry, listFile]
      cases ht : slashName? names with
      | none => simp [Listed.info?]
      | some t =>
          dsimp only
          split
          · grind [Listed.info?]
          split
          · grind [Listed.info?, Entry.isFile]
          · grind [Listed.info?]

theorem listedFile_of_listEntry (h : s.Tidy fs root) {ending : String} {names : Position}
    {entry : Entry} {info : ObjectInfo}
    (hmem : (names, entry) ∈ fs.reached (s.pathOf base) (root ++ base))
    (hinfo : (listEntry fs (s.pathOf base) ending names entry).info? = some info) :
    ∃ f, s.ListedFile fs root base info names f := by
  obtain ⟨hfile, ht, -, hfits, hsize⟩ := info?_listEntry_eq_some.1 hinfo
  obtain ⟨hne, he⟩ := mem_below.1 (List.mem_filter.1 hmem).1
  rw [List.append_assoc] at he
  cases entry with
  | file id =>
      obtain ⟨f, hf⟩ := h.wellFormed.file he
      exact ⟨f, hne, ⟨id, he, hf⟩, ht, hfits, by rw [hsize, FileSystem.sizeOf, hf]; rfl⟩
  | directory mode => cases hfile
  | link target => cases hfile
  | device => cases hfile

theorem list_files_runs (h : s.Tidy fs root) {beginning : String}
    (hname : ObjectName.ofBeginning beginning = .ok base) (ending : String) :
    (s.list beginning ending).Runs fs (fun _ => False)
      (fun infos st => st = fs ∧ ∀ info ∈ infos, ∃ names f, s.ListedFile fs root base info names f)
      (fun _ st => st = fs) := by
  have hbase : ∀ name ∈ base, Pathname.IsName name :=
    fun name hmem => (ObjectName.normalize_eq_ok hname name hmem).1
  rw [list, resolveBeginning, hname]
  apply Op.Runs.lift_ok
  apply Op.Runs.get
  rintro w rfl
  cases htraverse : w.fs.traverse (s.pathOf base) with
  | error e =>
      dsimp only
      split
      · exact Op.Runs.pure ⟨rfl, by simp⟩
      · exact Op.Runs.throw rfl
  | ok found =>
      obtain ⟨-, entry, he, rfl⟩ := (h.traverse_base hbase).1 htraverse
      dsimp only
      refine (collect_runs w.fs (s.pathOf base) ending _).weaken (fun _ hst => hst) ?_
        fun _ _ hst => hst.1
      rintro infos st ⟨rfl, rfl, -⟩
      refine ⟨rfl, fun info hinfo => ?_⟩
      obtain ⟨⟨names, entry'⟩, hmem, hinfo⟩ := List.mem_filterMap.1 hinfo
      split at hmem
      · exact ⟨names, listedFile_of_listEntry h hmem hinfo⟩
      · cases hmem

namespace ListedFile

variable {info : ObjectInfo} {names : Position} {f : File}

theorem checkPath (h : s.ListedFile fs root base info names f) (htidy : s.Tidy fs root) :
    checkPath (s.pathOf (base ++ names)) = .ok () := by
  obtain ⟨id, hid, -⟩ := h.file
  have hentry := htidy.wellFormed.names_of_append hid
  have hall : ∀ name ∈ base ++ names, Pathname.IsName name :=
    fun name hname => (hentry name hname).toIsName
  have hroot := htidy.leadsTo.bytes_ne_nil
  have hfits := h.fits
  rw [entryPath_pathOf hroot (fun name hname => hall name (by simp [hname])) h.ne_nil
    (fun name hname => hall name (by simp [hname])), Pathname.fits, decide_eq_true_eq] at hfits
  refine checkPath_eq_ok.2 ⟨?_, htidy.leadsTo.bytes_pathOf_ne_nil hall, hfits⟩
  rw [pathOf, Pathname.join_ofNames hroot hall, List.mem_append, List.mem_cons]
  rintro (hzero | hzero | hzero)
  · exact (checkPath_eq_ok.1 htidy.leadsTo.checkPath_root).1
      ((Pathname.stem_isPrefix s.root).subset hzero)
  · exact absurd hzero (by decide)
  · rcases Pathname.mem_intercalate hzero with hslash | ⟨name, hname, hmem⟩
    · exact absurd hslash (by decide)
    · exact (hentry name hname).zero_notMem hmem

theorem resolve_joinedName (h : s.ListedFile fs root base info names f) (htidy : s.Tidy fs root)
    {beginning : String} (hname : ObjectName.ofBeginning beginning = .ok base) :
    if stagingSuffix <:+ Bytes.ofString info.name then
      s.resolve (joinedName beginning info.name) =
        .error (NameFault.toError (joinedName beginning info.name) .reserved)
    else ∃ k : Key, k.names = base ++ names ∧
      s.resolve (joinedName beginning info.name) = .ok (s.pathOf k.names) := by
  obtain ⟨id, hid, -⟩ := h.file
  have hentry := htidy.wellFormed.names_of_append hid
  obtain ⟨dirs, leaf, rfl⟩ := (List.eq_nil_or_concat' names).resolve_left h.ne_nil
  have hnames : ∀ name ∈ dirs ++ [leaf], Pathname.IsName name :=
    fun name hname => (hentry name (List.mem_append_right _ hname)).toIsName
  have hnormal := ObjectName.normalize_joinedName hname h.ne_nil hnames h.text
  rw [← List.append_assoc] at hnormal
  have hsuffix : stagingSuffix <:+ Bytes.ofString info.name ↔
      ObjectName.isStagingLeaf leaf = true := by
    rw [show Bytes.ofString info.name = [Pathname.slash].intercalate (dirs ++ [leaf]) from
      congrArg Pathname.bytes (ofString_of_slashName? h.text),
      ObjectName.isSuffix_intercalate_iff (by decide), ObjectName.isStagingLeaf,
      List.isSuffixOf_iff_suffix]
  have hobject := ObjectName.ofObject_of_normalize hnormal
  split
  · rename_i hends
    rw [if_pos (hsuffix.1 hends)] at hobject
    exact WriteCall.resolve_of_refused hobject
  · rename_i hends
    have hleaf : ObjectName.isStagingLeaf leaf = false := by simpa using mt hsuffix.2 hends
    rw [if_neg (by simp [hleaf])] at hobject
    refine ⟨⟨base ++ dirs, leaf, fun name hname => ?_, hleaf⟩, List.append_assoc .., ?_⟩
    · exact (hentry name (by simpa using hname)).toIsName
    · exact WriteCall.resolve_of_ofObject hobject

end ListedFile

theorem Tidy.offers {w : World} (h : s.Tidy w.fs root) {k : Key} {name : String} {bytes : Bytes}
    (hname : s.resolve name = .ok (s.pathOf k.names))
    (hcheck : FileSystem.checkPath (s.pathOf k.names) = .ok ())
    (hobject : w.fs.objectAt? root k.names = some bytes) : s.Offers name bytes.length w where
  accepted := ⟨_, hname⟩
  opened := by
    rcases hrun : (s.openReader name).run w with ⟨result, w'⟩
    cases result with
    | ok reader => exact ⟨reader, w', rfl⟩
    | error e =>
        obtain ⟨id, f, hstat, -⟩ := h.stat_of_objectAt? hcheck hobject
        exact absurd hstat (((openReader_runs hname).of_error rfl hrun).2 _)
  measured := by
    rcases hrun : (s.stat name).run w with ⟨result, w'⟩
    cases result with
    | ok info =>
        obtain ⟨-, bytes', hobject', hne, rfl⟩ := (stat_runs h hname).of_ok rfl hrun
        obtain rfl : bytes = bytes' := Option.some.inj (hobject.symm.trans hobject')
        exact ⟨mt List.length_eq_zero_iff.1 hne, rfl⟩
    | error e =>
        rcases ((stat_runs h hname).of_error rfl hrun).2 with ⟨hempty, hobject'⟩ | ⟨-, hnone⟩
        · obtain rfl : bytes = [] := Option.some.inj (hobject.symm.trans hobject')
          exact ⟨rfl, hempty⟩
        · exact absurd (hobject.symm.trans (hnone hcheck)) (by simp)

theorem Tidy.listed {w w' : World} (h : s.Tidy w.fs root) {beginning ending : String}
    {infos : List ObjectInfo} (hrun : (s.list beginning ending).run w = (.ok infos, w'))
    {info : ObjectInfo} (hinfo : info ∈ infos) :
    if stagingSuffix <:+ Bytes.ofString info.name then
      s.resolve (joinedName beginning info.name) =
        .error (NameFault.toError (joinedName beginning info.name) .reserved)
    else s.Offers (joinedName beginning info.name) info.size w := by
  cases hname : ObjectName.ofBeginning beginning with
  | error fault => exact ((list_refused_runs hname ending).of_ok rfl hrun).elim
  | ok base =>
      obtain ⟨-, hall⟩ := (list_files_runs h hname ending).of_ok rfl hrun
      obtain ⟨names, f, hlisted⟩ := hall info hinfo
      have hresolve := hlisted.resolve_joinedName h hname
      split
      · rwa [if_pos ‹_›] at hresolve
      · rw [if_neg ‹_›] at hresolve
        obtain ⟨k, hk, hpath⟩ := hresolve
        obtain ⟨id, hid, hf⟩ := hlisted.file
        have hobject : w.fs.objectAt? root k.names = some f.bytes :=
          objectAt?_eq_some_iff.2 ⟨isObjectPosition_names k, id, f, by rw [hk, hid], hf, rfl⟩
        rw [hlisted.size]
        exact h.offers hpath (hk ▸ hlisted.checkPath h) hobject

end Store

/-! ## Listings at all moments of a write -/

namespace WriteCall

/-- At every moment of a write, and when the write was abandoned there at every later time, whatever
a listing shows is an object of the listed size, unless its name ends as the names of staging files
do: then the store refuses it. -/
theorem listed_is_object {s : Store} {root : Position} (call : WriteCall) (w : World)
    (h : s.Tidy w.fs root) :
    ∃ since, ((call.perform s).run w).2.states = since ++ w.past ∧
      ∀ st ∈ since, ∀ (time : Int) (v v' : World) (beginning ending : String)
        (infos : List ObjectInfo), v.fs = { st with clock := time } →
          (s.list beginning ending).run v = (.ok infos, v') → ∀ info ∈ infos,
            if stagingSuffix <:+ Bytes.ofString info.name then
              s.resolve (joinedName beginning info.name) =
                .error (NameFault.toError (joinedName beginning info.name) .reserved)
            else s.Offers (joinedName beginning info.name) info.size v := by
  obtain ⟨since, hstates, hall⟩ := call.passes_outcome w h
  refine ⟨since, hstates, ?_⟩
  intro st hst time v v' beginning ending infos hv hrun info hinfo
  have htidy : s.Tidy v.fs root := by
    rw [hv]
    exact (hall st hst).1.atTime time
  exact htidy.listed hrun hinfo

theorem listed_is_object_abandoned :
    ∃ since, (((save "n" [.chunk [1], .fault .busy] 1).perform (Store.atTop [114])).run
        (.ofFileSystem abandoned)).2.states = since ++ [] ∧
      ∀ st ∈ since, ∀ (time : Int) (v v' : World) (beginning ending : String)
        (infos : List ObjectInfo), v.fs = { st with clock := time } →
          ((Store.atTop [114]).list beginning ending).run v = (.ok infos, v') →
            ∀ info ∈ infos,
              if stagingSuffix <:+ Bytes.ofString info.name then
                (Store.atTop [114]).resolve (joinedName beginning info.name) =
                  .error (NameFault.toError (joinedName beginning info.name) .reserved)
              else (Store.atTop [114]).Offers (joinedName beginning info.name) info.size v :=
  listed_is_object (save "n" [.chunk [1], .fault .busy] 1) (.ofFileSystem abandoned)
    abandoned_tidy

/-- When a save has taken three bytes, its staging file is listed with three bytes. -/
theorem staging_is_listed :
    ¬ ∀ (s : Store) (root : Position) (call : WriteCall) (w : World), s.Tidy w.fs root →
      ∃ since, ((call.perform s).run w).2.states = since ++ w.past ∧
        ∀ st ∈ since, ∀ (v v' : World) (beginning ending : String) (infos : List ObjectInfo),
          v.fs = st → (s.list beginning ending).run v = (.ok infos, v') →
            ∀ info ∈ infos, s.Offers (joinedName beginning info.name) info.size v := by
  intro hall
  obtain ⟨since, hstates, hoffers⟩ := hall (Store.atTop [114]) [[114]]
    (save "n" [.chunk [65, 65, 65], .chunk [67, 67]] 5) (.ofFileSystem (Store.newDirectory [114]))
    (Store.tidy_atTop Store.isEntryName_r)
  -- The states are, from the last on: published, both chunks, one chunk, mode set, opened, before.
  have hlists : (((save "n" [.chunk [65, 65, 65], .chunk [67, 67]] 5).perform
      (Store.atTop [114])).run (.ofFileSystem (Store.newDirectory [114]))).2.states.map
        (fun st => (((Store.atTop [114]).list "" "").run (.ofFileSystem st)).1.toOption) =
      [some [⟨"n", 5⟩], some [⟨"n.tmp", 5⟩], some [⟨"n.tmp", 3⟩], some [⟨"n.tmp", 0⟩],
        some [⟨"n.tmp", 0⟩], some []] := by decide +kernel
  have hrefused : ((Store.atTop [114]).resolve "n.tmp").isOk = false := by decide +kernel
  have hmem : some [⟨"n.tmp", 3⟩] ∈ since.map fun st =>
      (((Store.atTop [114]).list "" "").run (.ofFileSystem st)).1.toOption := by
    rw [← List.append_nil since, ← show _ = since ++ [] from hstates, hlists]
    simp
  obtain ⟨st, hst, hlist⟩ := List.mem_map.1 hmem
  rcases hrun : ((Store.atTop [114]).list "" "").run (.ofFileSystem st) with ⟨result, v'⟩
  rw [hrun] at hlist
  cases result with
  | error e => cases hlist
  | ok infos =>
      cases hlist
      obtain ⟨⟨path, hpath⟩, -, -⟩ := hoffers st hst (.ofFileSystem st) v' "" "" _ rfl hrun
        ⟨"n.tmp", 3⟩ List.mem_cons_self
      rw [show joinedName "" "n.tmp" = "n.tmp" from rfl] at hpath
      rw [hpath] at hrefused
      cases hrefused

end WriteCall

end Depot
