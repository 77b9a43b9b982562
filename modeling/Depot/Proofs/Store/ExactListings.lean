import Depot.Proofs.Store.Keeping
import Depot.Proofs.Store.PurgedFiles
/-!
# Exact listings

In any tree, a listing that ends well shows the regular files that are found by going down through
real directories, from the directory that its path leads to.  It shows each of them once, with its
length, if its names are text and end in the wanted way, and it shows nothing else.

Of a directory whose path is too long for the system nothing below is seen, but then the listing
fails.  So one that ends well has come to every entry.

* `foundBelow_iff` — what is found is what is bound;
* `isReached_of_readable` — where every directory can be looked into, every entry is come to;
* `listsFiles_reached` — what is listed of what a walk comes to;
* `list_exact` — every listing, by what its path leads to.
-/

namespace Depot

open FileSystem

namespace FileSystem

variable {fs : FileSystem} {pos names : Position} {f : File}

/-- A regular file that is found below a position by going down through real directories. -/
inductive FoundBelow (fs : FileSystem) : Position → Position → File → Prop
  | here {pos : Position} {name : Bytes} {id : Nat} {f : File}
      (bound : fs.at? (pos ++ [name]) = some (.file id)) (file : fs.file? id = some f) :
      FoundBelow fs pos [name] f
  | down {pos : Position} {name : Bytes} {mode : Nat} {names : Position} {f : File}
      (directory : fs.at? (pos ++ [name]) = some (.directory mode))
      (found : FoundBelow fs (pos ++ [name]) names f) : FoundBelow fs pos (name :: names) f

theorem FoundBelow.exists_bound (h : fs.FoundBelow pos names f) :
    names ≠ [] ∧ ∃ id, fs.at? (pos ++ names) = some (.file id) ∧ fs.file? id = some f := by
  induction h with
  | here bound file => exact ⟨by simp, _, bound, file⟩
  | down directory found ih =>
      obtain ⟨-, id, hid, hf⟩ := ih
      rw [List.append_assoc, List.singleton_append] at hid
      exact ⟨by simp, id, hid, hf⟩

theorem foundBelow_iff (hwf : fs.WellFormed) :
    fs.FoundBelow pos names f ↔
      names ≠ [] ∧ ∃ id, fs.at? (pos ++ names) = some (.file id) ∧ fs.file? id = some f := by
  refine ⟨FoundBelow.exists_bound, ?_⟩
  rintro ⟨hne, id, hid, hf⟩
  induction names generalizing pos with
  | nil => exact absurd rfl hne
  | cons name names ih =>
      by_cases hnames : names = []
      · subst hnames
        exact .here hid hf
      · have hbelow : fs.at? (pos ++ [name] ++ names) = some (.file id) := by
          rwa [List.append_assoc, List.singleton_append]
        obtain ⟨mode, hmode⟩ := hwf.directory_of_append hnames hbelow
        exact .down hmode (ih hnames hbelow)

end FileSystem

/-- The names of a position are texts, and joined with slashes they make one text. -/
def IsSpelled (names : Position) (t : String) : Prop :=
  ∃ texts : List String, names = texts.map Bytes.ofString ∧ t = "/".intercalate texts

theorem slashName?_eq_some_iff {names : Position} {t : String} :
    slashName? names = some t ↔ IsSpelled names t := by
  refine ⟨texts_of_slashName?, ?_⟩
  rintro ⟨texts, rfl, rfl⟩
  exact ObjectName.slashName?_map_ofString texts

theorem endsWith_iff_exists_append {t ending : String} :
    t.endsWith ending = true ↔ ∃ front, t = front ++ ending := by
  rw [String.endsWith_eq_endsWith_toSlice, String.Slice.endsWith_string_iff, String.copy_toSlice]
  constructor
  · rintro ⟨front, hfront⟩
    refine ⟨String.ofList front, String.toList_injective ?_⟩
    rw [String.toList_append, String.toList_ofList, hfront]
  · rintro ⟨front, rfl⟩
    rw [String.toList_append]
    exact List.suffix_append ..

/-- What a listing says about a regular file below a position. -/
structure Describes (fs : FileSystem) (pos : Position) (ending : String) (info : ObjectInfo)
    (names : Position) (f : File) : Prop where
  found : fs.FoundBelow pos names f
  spelled : IsSpelled names info.name
  ends : ∃ front, info.name = front ++ ending
  size : info.size = f.bytes.length

/-- A list describes the regular files below a position, each once, and nothing else. -/
structure ListsFiles (fs : FileSystem) (pos : Position) (ending : String)
    (infos : List ObjectInfo) : Prop where
  sound : ∀ info ∈ infos, ∃! found : Position × File, Describes fs pos ending info found.1 found.2
  complete : ∀ info names f, Describes fs pos ending info names f → info ∈ infos
  nodup : (infos.map ObjectInfo.name).Nodup

namespace Store

variable {fs : FileSystem} {pos names : Position} {path : Pathname} {ending : String}

/-! ## What a walk comes to -/

theorem isReached_of_readable (hwf : fs.WellFormed)
    (hreadable : ∀ found ∈ fs.reached path pos, ∀ doing,
      listEntry fs path ending found.1 found.2 ≠ .unreachable doing)
    {entry : Entry} (he : fs.at? (pos ++ names) = some entry) : isReached path names = true := by
  induction names using List.reverseRecOn generalizing entry with
  | nil => rfl
  | append_singleton dirs leaf ih =>
      rw [isReached, Bool.or_eq_true, List.dropLast_concat]
      by_cases hdirs : dirs = []
      · exact Or.inl (by simp [hdirs])
      · -- The walk has come to the directory above, and could look into it.
        rw [← List.append_assoc] at he
        obtain ⟨mode, hmode⟩ := hwf.directory_of_append (by simp) he
        have hmem : (dirs, .directory mode) ∈ fs.reached path pos :=
          List.mem_filter.2 ⟨mem_below.2 ⟨hdirs, hmode⟩, ih hmode⟩
        have hlisted := hreadable _ hmem s!"walking the path {path.display}"
        rw [listEntry] at hlisted
        split at hlisted
        · exact Or.inr ‹_›
        · exact absurd rfl hlisted

theorem sizeOf_file {id : Nat} {f : File} (hf : fs.file? id = some f) :
    fs.sizeOf (.file id) = f.bytes.length := by
  rw [FileSystem.sizeOf, hf]
  rfl

theorem info?_eq_some_iff_describes (hwf : fs.WellFormed)
    (hreadable : ∀ found ∈ fs.reached path pos, ∀ doing,
      listEntry fs path ending found.1 found.2 ≠ .unreachable doing) {info : ObjectInfo} :
    (∃ entry, (names, entry) ∈ fs.reached path pos ∧
      (listEntry fs path ending names entry).info? = some info) ↔
    ∃ f, Describes fs pos ending info names f := by
  constructor
  · rintro ⟨entry, hreached, hinfo⟩
    obtain ⟨hne, he⟩ := mem_below.1 (List.mem_filter.1 hreached).1
    obtain ⟨hfile, ht, hends, -, hsize⟩ := info?_listEntry_eq_some.1 hinfo
    cases entry with
    | directory mode => cases hfile
    | link target => cases hfile
    | device => cases hfile
    | file id =>
        obtain ⟨f, hf⟩ := hwf.file he
        exact ⟨f, (foundBelow_iff hwf).2 ⟨hne, id, he, hf⟩, slashName?_eq_some_iff.1 ht,
          endsWith_iff_exists_append.1 hends, by rw [hsize, sizeOf_file hf]⟩
  · rintro ⟨f, hfound, hspelled, hends, hsize⟩
    obtain ⟨hne, id, hid, hf⟩ := (foundBelow_iff hwf).1 hfound
    have ht := slashName?_eq_some_iff.2 hspelled
    have hends' := endsWith_iff_exists_append.2 hends
    have hmem : (names, .file id) ∈ fs.reached path pos :=
      List.mem_filter.2 ⟨mem_below.2 ⟨hne, hid⟩, isReached_of_readable hwf hreadable hid⟩
    refine ⟨.file id, hmem, info?_listEntry_eq_some.2 ⟨rfl, ht, hends', ?_, ?_⟩⟩
    · have hlisted := hreadable _ hmem s!"stat {(entryPath path names).display}"
      rw [listEntry, listFile, ht] at hlisted
      dsimp only at hlisted
      rw [hends', if_neg (by simp)] at hlisted
      split at hlisted
      · assumption
      · exact absurd rfl hlisted
    · rw [hsize, sizeOf_file hf]

theorem Describes.unique (hwf : fs.WellFormed) {info info' : ObjectInfo} {names' : Position}
    {f f' : File} (h : Describes fs pos ending info names f)
    (h' : Describes fs pos ending info' names' f') (hname : info.name = info'.name) :
    names = names' ∧ f = f' := by
  obtain ⟨-, id, hid, hf⟩ := h.found.exists_bound
  obtain ⟨-, id', hid', hf'⟩ := h'.found.exists_bound
  have hnames {names : Position} {entry : Entry} (he : fs.at? (pos ++ names) = some entry) :
      ∀ name ∈ names, Pathname.IsName name :=
    fun name hmem => (hwf.names_of_append he name hmem).toIsName
  obtain rfl : names = names' := eq_of_slashName? (hnames hid) (hnames hid')
    (slashName?_eq_some_iff.2 h.spelled) (hname ▸ slashName?_eq_some_iff.2 h'.spelled)
  rw [hid, Option.some.injEq, Entry.file.injEq] at hid'
  rw [← hid', hf] at hf'
  exact ⟨rfl, Option.some.inj hf'⟩

/-- What is listed of the entries that a walk comes to is exact, if none of them is
unreachable. -/
theorem listsFiles_reached (hwf : fs.WellFormed)
    (hreadable : ∀ found ∈ fs.reached path pos, ∀ doing,
      listEntry fs path ending found.1 found.2 ≠ .unreachable doing) :
    ListsFiles fs pos ending ((fs.reached path pos).filterMap fun found =>
      (listEntry fs path ending found.1 found.2).info?) where
  sound := by
    intro info hmem
    obtain ⟨⟨names, entry⟩, hreached, hinfo⟩ := List.mem_filterMap.1 hmem
    obtain ⟨f, hf⟩ := (info?_eq_some_iff_describes hwf hreadable).1 ⟨entry, hreached, hinfo⟩
    refine ⟨(names, f), hf, ?_⟩
    rintro ⟨names', f'⟩ hf'
    obtain ⟨rfl, rfl⟩ := Describes.unique hwf hf hf' rfl
    rfl
  complete := by
    intro info names f hf
    obtain ⟨entry, hreached, hinfo⟩ := (info?_eq_some_iff_describes hwf hreadable).2 ⟨f, hf⟩
    exact List.mem_filterMap.2 ⟨(names, entry), hreached, hinfo⟩
  nodup := by
    rw [List.Nodup, List.pairwise_map, List.pairwise_filterMap]
    refine ((pairwise_below fs pos).filter _).imp_of_mem ?_
    rintro ⟨names, entry⟩ ⟨names', entry'⟩ hmem hmem' hne info hinfo info' hinfo' heq
    obtain ⟨f, hf⟩ := (info?_eq_some_iff_describes hwf hreadable).1 ⟨entry, hmem, hinfo⟩
    obtain ⟨f', hf'⟩ := (info?_eq_some_iff_describes hwf hreadable).1 ⟨entry', hmem', hinfo'⟩
    exact hne (Describes.unique hwf hf hf' heq).1

/-! ## Listings -/

/-- A listing changes nothing.  If its path leads to a directory, it is exact, or it fails because
of an entry whose path is too long; if its path leads to anything else or to nothing, it is
empty. -/
theorem list_exact {s : Store} {w : World} (hwf : w.fs.WellFormed) {beginning : String}
    (hname : s.resolveBeginning beginning = .ok path) (ending : String) :
    ∃ result w', (s.list beginning ending).run w = (result, w') ∧ w'.states = w.states ∧
      match w.fs.locateEntry true path with
      | .ok (pos, .directory _) =>
        (∃ infos, result = .ok infos ∧ ListsFiles w.fs pos ending infos) ∨
          ∃ e names entry, result = .error e ∧ (names, entry) ∈ w.fs.below pos ∧
            (entryPath path names).fits = false
      | .ok _ => result = .ok []
      | .error e => if e.kind = .notFound then result = .ok [] else ∃ e', result = .error e' := by
  have hstates := (list_still s beginning ending w.fs).states_eq rfl
  rcases hrun : (s.list beginning ending).run w with ⟨result, w'⟩
  rw [hrun] at hstates
  refine ⟨result, w', rfl, hstates, ?_⟩
  rw [list, hname, Op.run_lift_ok, Op.run_get] at hrun
  cases hlookup : w.fs.locateEntry true path with
  | error e =>
      rw [traverse_of_error hlookup] at hrun
      dsimp only at hrun ⊢
      by_cases hkind : e.kind = .notFound
      · rw [if_pos hkind] at hrun ⊢
        cases hrun
        rfl
      · rw [if_neg hkind] at hrun ⊢
        cases hrun
        exact ⟨_, rfl⟩
  | ok found =>
      obtain ⟨pos, entry⟩ := found
      by_cases hdirectory : entry.isDirectory = true
      · obtain ⟨mode, rfl⟩ := Entry.isDirectory_iff.1 hdirectory
        obtain ⟨top, topEntry, htraverse, -⟩ := traverse_of_followed hlookup
        rw [htraverse] at hrun
        have hcollect := collect_runs w.fs path ending (w.fs.reached path pos)
        cases result with
        | ok infos =>
            obtain ⟨-, rfl, hreadable⟩ := hcollect.of_ok rfl hrun
            exact Or.inl ⟨_, rfl, listsFiles_reached hwf hreadable⟩
        | error e =>
            obtain ⟨-, ⟨names, entry⟩, hmem, doing, hlisted, -⟩ := hcollect.of_error rfl hrun
            exact Or.inr ⟨e, names, entry, rfl, (List.mem_filter.1 hmem).1,
              fits_of_unreachable hlisted⟩
      · obtain ⟨found, htraverse, hempty⟩ :=
          traverse_of_not_directory (Bool.eq_false_iff.2 hdirectory) hlookup
        rw [htraverse] at hrun
        dsimp only at hrun
        rw [hempty] at hrun
        cases hrun
        cases entry with
        | directory mode => exact absurd rfl hdirectory
        | file id => rfl
        | link target => rfl
        | device => rfl

/-- A store with links to a file and to a directory, staging files, a file of three names, and one
of them no text. -/
def assorted : FileSystem :=
  (littered.bind [[114], [255]] (.file 0)).bind [[114], [107]] (.link (.ofString "d.tmp"))

theorem assorted_wellFormed : assorted.WellFormed := by
  have hbytes : IsEntryName [255] := isEntryName_letter (by decide)
  have hlink : IsEntryName [107] := isEntryName_letter (by decide)
  have hfile := @WellFormed.bind _ littered_wellFormed [[114]] [255] (.file 0) directoryMode rfl
    hbytes (Or.inr fun _ hmode => by cases hmode) fun id hid => ⟨_, by cases hid; rfl⟩
  exact @WellFormed.bind _ hfile [[114]] [107] (.link (.ofString "d.tmp")) directoryMode rfl hlink
    (Or.inr fun _ hmode => by cases hmode) fun id hid => by cases hid

/-- The link that the path ends in is followed, and the file behind it is listed by its name from
there. -/
theorem list_exact_assorted :
    ∃ infos w', ((atTop [114]).list "k" "mp").run (.ofFileSystem assorted) = (.ok infos, w') ∧
      w'.fs = assorted ∧ ListsFiles assorted [[114], Bytes.ofString "d.tmp"] "mp" infos ∧
      infos = [⟨"x.tmp", 1⟩] := by
  have hname : (atTop [114]).resolveBeginning "k" = .ok (.ofString "/r/k") := rfl
  obtain ⟨result, w', hrun, hstates, hlisted⟩ :=
    list_exact (w := .ofFileSystem assorted) assorted_wellFormed hname "mp"
  have hlookup : assorted.locateEntry true (.ofString "/r/k") =
      .ok ([[114], Bytes.ofString "d.tmp"], .directory directoryMode) := by decide +kernel
  have hresult : (((atTop [114]).list "k" "mp").run (.ofFileSystem assorted)).1 =
      .ok [⟨"x.tmp", 1⟩] := by decide +kernel
  have hfs : (World.ofFileSystem assorted).fs = assorted := rfl
  rw [hfs, hlookup] at hlisted
  rw [hrun] at hresult
  obtain rfl : result = .ok [⟨"x.tmp", 1⟩] := hresult
  rcases hlisted with ⟨infos, hinfos, hlists⟩ | ⟨e, -, -, herror, -⟩
  · cases hinfos
    exact ⟨_, w', hrun, (List.cons.inj hstates).1, hlists, rfl⟩
  · cases herror

end Store

end Depot
