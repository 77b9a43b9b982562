import Depot.Store.Listing
import Depot.Proofs.Store.Purging
import Depot.Proofs.Store.Settled
/-!
# What a listing finds

A listing that ends well names every object below its base whose remaining name ends in the wanted
way, once and with its length, and nothing else.  This needs a store whose files all have paths that
the system takes and names that are text.

* `eq_of_slashName?` — a listed name stands for one position;
* `Tidy.locateEntry_base` — where a listing starts;
* `Settled.list_runs` — a listing of a settled store.
-/

namespace Depot

open FileSystem

/-! ## Names as one text -/

namespace Bytes

theorem ofString_intercalate (texts : List String) :
    ofString ("/".intercalate texts) = [Pathname.slash].intercalate (texts.map ofString) := by
  have hslash : ofString "/" = [Pathname.slash] := rfl
  induction texts with
  | nil => rfl
  | cons t rest ih =>
      cases rest with
      | nil => simp
      | cons t' rest =>
          rw [String.intercalate_cons_cons, ofString_append, ofString_append, ih, hslash]
          simp only [List.map_cons, List.intercalate_cons_cons]

end Bytes

theorem texts_of_slashName? {names : Position} {t : String} (h : slashName? names = some t) :
    ∃ texts : List String, names = texts.map Bytes.ofString ∧ t = "/".intercalate texts := by
  obtain ⟨texts, htexts, rfl⟩ := Option.map_eq_some_iff.1 h
  refine ⟨texts, ?_, rfl⟩
  clear h
  induction names generalizing texts with
  | nil =>
      cases htexts
      rfl
  | cons name names ih =>
      rw [List.mapM_cons] at htexts
      obtain ⟨t, ht, htexts⟩ := Option.bind_eq_some_iff.1 htexts
      obtain ⟨rest, hrest, htexts⟩ := Option.bind_eq_some_iff.1 htexts
      cases htexts
      rw [List.map_cons, ← ih rest hrest, Bytes.ofString_of_text? ht]

theorem ofString_of_slashName? {names : Position} {t : String} (h : slashName? names = some t) :
    Pathname.ofString t = Pathname.ofNames names := by
  obtain ⟨texts, rfl, rfl⟩ := texts_of_slashName? h
  rw [Pathname.ofString, Pathname.ofNames, Bytes.ofString_intercalate]

theorem exists_slashName? {names : Position}
    (h : ∀ name ∈ names, ∃ t, Bytes.text? name = some t) : ∃ t, slashName? names = some t := by
  have hmap : ∃ texts, names.mapM Bytes.text? = some texts := by
    induction names with
    | nil => exact ⟨[], rfl⟩
    | cons name names ih =>
        obtain ⟨t, ht⟩ := h name List.mem_cons_self
        obtain ⟨rest, hrest⟩ := ih fun name hname => h name (List.mem_cons_of_mem _ hname)
        exact ⟨t :: rest, by rw [List.mapM_cons, ht, hrest]; rfl⟩
  obtain ⟨texts, htexts⟩ := hmap
  exact ⟨_, by rw [slashName?, htexts]; rfl⟩

theorem eq_of_slashName? {names names' : Position} {t : String}
    (hnames : ∀ name ∈ names, Pathname.IsName name)
    (hnames' : ∀ name ∈ names', Pathname.IsName name)
    (h : slashName? names = some t) (h' : slashName? names' = some t) : names = names' := by
  have hpath := (ofString_of_slashName? h).symm.trans (ofString_of_slashName? h')
  rw [← Pathname.names_ofNames hnames, hpath, Pathname.names_ofNames hnames']

/-! ## Where a listing starts -/

namespace Store

variable {s : Store} {root : Position} {fs₀ fs : FileSystem}

theorem entryPath_pathOf {base names : Position} (hroot : s.root.bytes ≠ [])
    (hbase : ∀ name ∈ base, Pathname.IsName name) (hne : names ≠ [])
    (hnames : ∀ name ∈ names, Pathname.IsName name) :
    entryPath (s.pathOf base) names = s.pathOf (base ++ names) := by
  have hall : ∀ name ∈ base ++ names, Pathname.IsName name := fun name hname =>
    (List.mem_append.1 hname).elim (hbase name) (hnames name)
  have hbytes := Pathname.join_ofNames hroot hbase
  have hjoined : (s.root.join (.ofNames base)).bytes ≠ [] := by simp [hbytes]
  rw [entryPath, pathOf, pathOf, Pathname.join_ofNames hjoined hnames,
    Pathname.join_ofNames hroot hall]
  rcases List.eq_nil_or_concat' base with rfl | ⟨dirs, leaf, rfl⟩
  · have hends : (s.root.join (.ofNames [])).endsInSlash = true := by
      rw [Pathname.endsInSlash, hbytes]
      simp
    rw [Pathname.stem, if_pos hends, hbytes]
    simp
  · rw [Pathname.stem, Pathname.not_endsInSlash_join hroot hbase, if_neg (by simp), hbytes,
      Pathname.intercalate_append (by simp) hne]
    simp

theorem fits_entryPath {base names : Position} (hroot : s.root.bytes ≠ []) (hne : names ≠ [])
    (hall : ∀ name ∈ base ++ names, Pathname.IsName name)
    (hcheck : checkPath (s.pathOf (base ++ names)) = .ok ()) :
    (entryPath (s.pathOf base) names).fits = true := by
  rw [entryPath_pathOf hroot (fun name hname => hall name (List.mem_append_left _ hname)) hne
    fun name hname => hall name (List.mem_append_right _ hname), Pathname.fits, decide_eq_true_eq]
  exact (checkPath_eq_ok.1 hcheck).2.2

theorem isReached_pathOf {base names : Position} (hroot : s.root.bytes ≠ [])
    (hall : ∀ name ∈ base ++ names, Pathname.IsName name)
    (hcheck : checkPath (s.pathOf (base ++ names)) = .ok ()) :
    isReached (s.pathOf base) names = true := by
  have hbase : ∀ name ∈ base, Pathname.IsName name :=
    fun name hname => hall name (List.mem_append_left _ hname)
  have hpath : (s.pathOf base).bytes ≠ [] := by
    rw [pathOf, Pathname.join_ofNames hroot hbase]
    simp
  by_cases hnames : names = []
  · subst hnames
    rfl
  · exact isReached_of_fits hpath (fun name hname => hall name (List.mem_append_right _ hname))
      (fits_entryPath hroot hnames hall hcheck)

theorem Tidy.locateEntry_base (h : s.Tidy fs root) {base : Position}
    (hbase : ∀ name ∈ base, Pathname.IsName name) {pos : Position} {entry : Entry} :
    fs.locateEntry false (s.pathOf base) = .ok (pos, entry) ↔
      checkPath (s.pathOf base) = .ok () ∧ pos = root ++ base ∧
        fs.at? (root ++ base) = some entry := by
  rw [locateEntry_eq_ok]
  rcases List.eq_nil_or_concat' base with rfl | ⟨dirs, leaf, rfl⟩
  · obtain ⟨mode, hwalk⟩ := h.leadsTo.walk_pathOf_nil false
    rw [locate_eq_ok, h.startOf_pathOf hbase, hwalk, List.append_nil, walk_occupied hwalk]
    simp [eq_comm]
  · exact h.locate_occupied_iff hbase

theorem traverse_of_locateEntry {p : Pathname} {pos : Position} {entry : Entry}
    (hlocate : fs.locateEntry false p = .ok (pos, entry)) (hlink : ¬ entry.isLink) :
    fs.traverse p =
      .ok ⟨pos, entry, pos, if entry.isDirectory then fs.reached p pos else []⟩ := by
  rw [FileSystem.traverse, hlocate]
  cases entry with
  | directory mode => rfl
  | file id => rfl
  | device => rfl
  | link target => exact absurd rfl hlink

theorem Tidy.traverse_base (h : s.Tidy fs root) {base : Position}
    (hbase : ∀ name ∈ base, Pathname.IsName name) {found : Traversal} :
    fs.traverse (s.pathOf base) = .ok found ↔ checkPath (s.pathOf base) = .ok () ∧
      ∃ entry, fs.at? (root ++ base) = some entry ∧
        found = ⟨root ++ base, entry, root ++ base,
          if entry.isDirectory then fs.reached (s.pathOf base) (root ++ base) else []⟩ := by
  have hplain : ∀ entry, fs.at? (root ++ base) = some entry → ¬ entry.isLink := by
    intro entry he
    by_cases hnil : base = []
    · obtain ⟨mode, hmode⟩ := h.leadsTo.at?_root
      rw [hnil, List.append_nil, hmode] at he
      cases he
      simp [Entry.isLink]
    · exact h.plain.not_isLink hnil he
  constructor
  · intro htraverse
    obtain ⟨⟨pos, entry⟩, hlocate, -⟩ := bind_eq_ok.1 htraverse
    obtain ⟨hcheck, rfl, he⟩ := (h.locateEntry_base hbase).1 hlocate
    rw [traverse_of_locateEntry hlocate (hplain entry he)] at htraverse
    exact ⟨hcheck, entry, he, (Except.ok.inj htraverse).symm⟩
  · rintro ⟨hcheck, entry, he, rfl⟩
    exact traverse_of_locateEntry ((h.locateEntry_base hbase).2 ⟨hcheck, rfl, he⟩) (hplain entry he)

/-! ## What is collected -/

def Listed.info? : Listed → Option ObjectInfo
  | object info => some info
  | _ => none

theorem collect_runs (fs : FileSystem) (base : Pathname) (ending : String)
    (entries : List (Position × Entry)) :
    (collect base ending entries).Runs fs (fun _ => False)
      (fun infos st => st = fs ∧
        (infos = entries.filterMap fun found =>
          (listEntry fs base ending found.1 found.2).info?) ∧
        ∀ found ∈ entries, ∀ doing, listEntry fs base ending found.1 found.2 ≠ .unreachable doing)
      (fun e st => st = fs ∧ ∃ found ∈ entries, ∃ doing,
        listEntry fs base ending found.1 found.2 = .unreachable doing ∧
          e = .during doing (.atPath (entryPath base found.1).display .nameTooLong)) := by
  induction entries with
  | nil => exact Op.Runs.pure ⟨rfl, rfl, by simp⟩
  | cons found rest ih =>
      obtain ⟨names, entry⟩ := found
      rw [collect]
      apply Op.Runs.get
      rintro w rfl
      rw [List.filterMap_cons]
      simp only [List.forall_mem_cons, List.exists_mem_cons_iff]
      cases hlisted : listEntry w.fs base ending names entry with
      | object info =>
          refine Op.Runs.bind _ (ih.weaken (fun _ hst => hst) (fun _ _ hst => hst)
            fun _ _ hst => ⟨hst.1, Or.inr hst.2⟩) ?_
          rintro infos st ⟨rfl, rfl, hreached⟩
          exact Op.Runs.pure ⟨rfl, rfl, nofun, hreached⟩
      | skipped =>
          exact ih.weaken (fun _ hst => hst)
            (fun _ _ hst => ⟨hst.1, hst.2.1, nofun, hst.2.2⟩)
            fun _ _ hst => ⟨hst.1, Or.inr hst.2⟩
      | unreachable doing => exact Op.Runs.throw ⟨rfl, Or.inl ⟨doing, rfl, rfl⟩⟩
      | nameless =>
          refine Op.Runs.bind (fun _ st => st = w.fs) (Op.Runs.report rfl) ?_
          rintro _ st rfl
          exact ih.weaken (fun _ hst => hst)
            (fun _ _ hst => ⟨hst.1, hst.2.1, nofun, hst.2.2⟩)
            fun _ _ hst => ⟨hst.1, Or.inr hst.2⟩

/-- A list names every object below a base whose remaining name ends in the wanted way, once and
with its length, and nothing else. -/
structure Lists (objects : Position → Option Bytes) (base : Position) (ending : String)
    (infos : List ObjectInfo) : Prop where
  nodup : (infos.map ObjectInfo.name).Nodup
  mem_iff : ∀ info, info ∈ infos ↔ ∃ names bytes, names ≠ [] ∧
    objects (base ++ names) = some bytes ∧ slashName? names = some info.name ∧
      info.name.endsWith ending ∧ info.size = bytes.length

theorem Lists.nil {objects : Position → Option Bytes} {base : Position} {ending : String}
    (hempty : ∀ names bytes, names ≠ [] → objects (base ++ names) ≠ some bytes) :
    Lists objects base ending [] where
  nodup := List.nodup_nil
  mem_iff := by
    intro info
    refine ⟨fun hmem => absurd hmem List.not_mem_nil, ?_⟩
    rintro ⟨names, bytes, hne, hobject, -⟩
    exact absurd hobject (hempty names bytes hne)

namespace Settled

variable {base names : Position} {ending : String}

theorem isName (h : s.Settled root fs₀ fs) {entry : Entry}
    (he : fs.at? (root ++ (base ++ names)) = some entry) :
    (∀ name ∈ base, Pathname.IsName name) ∧ ∀ name ∈ names, Pathname.IsName name := by
  have hall := h.tidy.wellFormed.names_of_append he
  exact ⟨fun name hname => (hall name (by simp [hname])).toIsName,
    fun name hname => (hall name (by simp [hname])).toIsName⟩

theorem listEntry_file (h : s.Settled root fs₀ fs) (ending : String) (hne : names ≠ []) {id : Nat}
    {f : File} (hid : fs.at? (root ++ (base ++ names)) = some (.file id))
    (hf : fs.file? id = some f) :
    ∃ t, slashName? names = some t ∧
      (listEntry fs (s.pathOf base) ending names (.file id)).info? =
        if t.endsWith ending then some ⟨t, f.bytes.length⟩ else none := by
  obtain ⟨hbase, hnames⟩ := h.isName hid
  have htext : ∀ name ∈ names, ∃ t, Bytes.text? name = some t :=
    fun name hname => h.isText hid name (by simp [hname])
  obtain ⟨t, ht⟩ := exists_slashName? htext
  have hall : ∀ name ∈ base ++ names, Pathname.IsName name := fun name hname =>
    (List.mem_append.1 hname).elim (hbase name) (hnames name)
  have hfits := fits_entryPath h.tidy.leadsTo.bytes_ne_nil hne hall (h.taken hid)
  have hsize : fs.sizeOf (.file id) = f.bytes.length := by
    rw [FileSystem.sizeOf, hf]
    rfl
  refine ⟨t, ht, ?_⟩
  rw [listEntry, listFile, ht, hsize]
  dsimp only
  rw [if_pos hfits]
  cases t.endsWith ending <;> rfl

theorem isReached_file (h : s.Settled root fs₀ fs) {id : Nat}
    (hid : fs.at? (root ++ (base ++ names)) = some (.file id)) :
    isReached (s.pathOf base) names = true :=
  isReached_pathOf h.tidy.leadsTo.bytes_ne_nil
    (fun name hname => (h.tidy.wellFormed.names_of_append hid name hname).toIsName) (h.taken hid)

theorem info?_eq_some_iff (h : s.Settled root fs₀ fs) {info : ObjectInfo} :
    (∃ entry, (names, entry) ∈ fs.reached (s.pathOf base) (root ++ base) ∧
      (listEntry fs (s.pathOf base) ending names entry).info? = some info) ↔
    ∃ bytes, names ≠ [] ∧ fs.objectAt? root (base ++ names) = some bytes ∧
      slashName? names = some info.name ∧ info.name.endsWith ending ∧
        info.size = bytes.length := by
  simp only [h.objectAt?_eq_some_iff]
  constructor
  · rintro ⟨entry, hreached, hinfo⟩
    obtain ⟨hne, he⟩ := mem_below.1 (List.mem_filter.1 hreached).1
    rw [List.append_assoc] at he
    cases entry with
    | file id =>
        obtain ⟨f, hf⟩ := h.tidy.wellFormed.file he
        obtain ⟨t, ht, hlisted⟩ := h.listEntry_file ending hne he hf
        rw [hlisted] at hinfo
        split at hinfo
        · rename_i hends
          cases hinfo
          exact ⟨f.bytes, hne, ⟨id, f, he, hf, rfl⟩, ht, hends, rfl⟩
        · cases hinfo
    | directory mode =>
        rw [listEntry] at hinfo
        split at hinfo <;> cases hinfo
    | link target => cases hinfo
    | device => cases hinfo
  · rintro ⟨bytes, hne, ⟨id, f, hid, hf, rfl⟩, ht, hends, hsize⟩
    refine ⟨.file id, ?_, ?_⟩
    · rw [reached, List.mem_filter]
      exact ⟨mem_below.2 ⟨hne, by rw [List.append_assoc, hid]⟩, h.isReached_file hid⟩
    · obtain ⟨t, ht', hlisted⟩ := h.listEntry_file ending hne hid hf
      rw [ht] at ht'
      cases ht'
      rw [hlisted, if_pos hends, ← hsize]

theorem lists_reached (h : s.Settled root fs₀ fs) (base : Position) (ending : String) :
    Lists (fs.objectAt? root) base ending
      ((fs.reached (s.pathOf base) (root ++ base)).filterMap fun found =>
        (listEntry fs (s.pathOf base) ending found.1 found.2).info?) where
  nodup := by
    rw [List.Nodup, List.pairwise_map, List.pairwise_filterMap]
    refine ((pairwise_below fs (root ++ base)).filter _).imp_of_mem ?_
    rintro ⟨names, entry⟩ ⟨names', entry'⟩ hmem hmem' hne info hinfo info' hinfo' heq
    obtain ⟨bytes, -, hobject, ht, -⟩ := h.info?_eq_some_iff.1 ⟨entry, hmem, hinfo⟩
    obtain ⟨bytes', -, hobject', ht', -⟩ := h.info?_eq_some_iff.1 ⟨entry', hmem', hinfo'⟩
    obtain ⟨id, f, hid, -⟩ := h.objectAt?_eq_some_iff.1 hobject
    obtain ⟨id', f', hid', -⟩ := h.objectAt?_eq_some_iff.1 hobject'
    -- Both texts are the text of one position, so the entries were the same.
    rw [heq] at ht
    exact hne (eq_of_slashName? (h.isName hid).2 (h.isName hid').2 ht ht')
  mem_iff := by
    intro info
    rw [List.mem_filterMap]
    constructor
    · rintro ⟨⟨names, entry⟩, hmem, hinfo⟩
      exact ⟨names, h.info?_eq_some_iff.1 ⟨entry, hmem, hinfo⟩⟩
    · rintro ⟨names, hobject⟩
      obtain ⟨entry, hmem, hinfo⟩ := h.info?_eq_some_iff.2 hobject
      exact ⟨(names, entry), hmem, hinfo⟩

theorem base_of_objectAt? (h : s.Settled root fs₀ fs)
    (hbase : ∀ name ∈ base, Pathname.IsName name) {bytes : Bytes} (hne : names ≠ [])
    (hobject : fs.objectAt? root (base ++ names) = some bytes) :
    checkPath (s.pathOf base) = .ok () ∧
      ∃ mode, fs.at? (root ++ base) = some (.directory mode) := by
  obtain ⟨id, f, hid, -⟩ := h.objectAt?_eq_some_iff.1 hobject
  have hall := h.tidy.wellFormed.names_of_append hid
  have hroot := h.tidy.leadsTo.bytes_ne_nil
  have hstart := Pathname.join_ofNames_isPrefix hroot base names
    fun name hmem => (hall name hmem).toIsName
  have hbaseNe : (s.pathOf base).bytes ≠ [] := by
    rw [pathOf, Pathname.join_ofNames hroot hbase]
    simp
  refine ⟨checkPath_of_isPrefix hstart hbaseNe (h.taken hid), ?_⟩
  rw [← List.append_assoc] at hid
  exact h.tidy.wellFormed.directory_of_append hne hid

theorem list_runs (h : s.Settled root fs₀ fs) {beginning : String} {base : Position}
    (hname : ObjectName.ofBeginning beginning = .ok base) (ending : String) :
    (s.list beginning ending).Runs fs (fun _ => False)
      (fun infos st => st = fs ∧ Lists (fs.objectAt? root) base ending infos)
      (fun _ st => st = fs) := by
  have hbase : ∀ name ∈ base, Pathname.IsName name :=
    fun name hmem => (ObjectName.normalize_eq_ok hname name hmem).1
  rw [list, resolveBeginning, hname]
  apply Op.Runs.lift_ok
  apply Op.Runs.get
  rintro w rfl
  cases htraverse : w.fs.traverse (s.pathOf base) with
  | ok found =>
      obtain ⟨-, entry, he, rfl⟩ := (h.tidy.traverse_base hbase).1 htraverse
      dsimp only
      refine (collect_runs w.fs (s.pathOf base) ending _).weaken (fun _ hst => hst) ?_
        fun _ _ hst => hst.1
      rintro infos st ⟨rfl, rfl, -⟩
      refine ⟨rfl, ?_⟩
      split
      · exact h.lists_reached base ending
      · rename_i hdirectory
        apply Lists.nil
        intro names bytes hne hobject
        obtain ⟨-, mode, hmode⟩ := h.base_of_objectAt? hbase hne hobject
        rw [he] at hmode
        cases hmode
        exact hdirectory rfl
  | error e =>
      dsimp only
      split
      · refine Op.Runs.pure ⟨rfl, ?_⟩
        apply Lists.nil
        intro names bytes hne hobject
        obtain ⟨hcheck, mode, hmode⟩ := h.base_of_objectAt? hbase hne hobject
        have hok := (h.tidy.traverse_base hbase).2 ⟨hcheck, _, hmode, rfl⟩
        rw [htraverse] at hok
        cases hok
      · exact Op.Runs.throw rfl

end Settled

theorem list_refused_runs {beginning : String} {fault : NameFault}
    (hname : ObjectName.ofBeginning beginning = .error fault) (ending : String) :
    (s.list beginning ending).Runs fs (fun _ => False) (fun _ _ => False)
      (fun _ st => st = fs) := by
  rw [list, resolveBeginning, hname]
  exact Op.Runs.lift_error rfl

end Store

end Depot
