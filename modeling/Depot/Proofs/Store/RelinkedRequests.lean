import Depot.Proofs.Store.AlikeRequests
import Depot.Proofs.Store.Blind
import Depot.Proofs.Store.NameGrammar
import Depot.Proofs.Store.PurgedFiles
import Depot.Proofs.Store.RelinkedWrites
/-!
# Requests to stores that differ in one link

Two file systems differ in one link, and the names that a request asks for lead the same way in
both.  Then the request has the same reply in both, and afterwards they differ in the link only, or
not at all any more: a deletion may have taken the link with it.

* `Request.AsksFor` — the names that a request asks for;
* `copy_relinked`, `delete_relinked`, `list_relinked`, `purge_relinked` — single operations;
* `Request.perform_relinked` — all requests.
-/

namespace Depot

open FileSystem

namespace FileSystem

variable {spot pos : Position} {fs fs' : FileSystem}

/-- All that differs is one link, if anything differs. -/
def AtMostRelinked (spot : Position) (fs fs' : FileSystem) : Prop := fs' = fs ∨ Relinked spot fs fs'

namespace Relinked

theorem sizeOf_eq (h : Relinked spot fs fs') (entry : Entry) :
    fs'.sizeOf entry = fs.sizeOf entry := by
  cases entry with
  | file id => rw [FileSystem.sizeOf, FileSystem.sizeOf, h.file?_eq]
  | directory mode => rfl
  | link target => rfl
  | device => rfl

theorem readFrom_eq (h : Relinked spot fs fs') (handle : Handle) (offset : Nat) :
    fs'.readFrom handle offset = fs.readFrom handle offset := by
  cases handle with
  | file id => rw [readFrom, readFrom, h.file?_eq]
  | directory => rfl
  | device => rfl

theorem filter_reached (h : Relinked spot fs fs') (base : Pathname) (pos : Position) :
    ((fs'.reached base pos).filter fun found => !found.2.isLink) =
      (fs.reached base pos).filter fun found => !found.2.isLink := by
  rw [reached, reached, List.filter_filter, List.filter_filter, ← List.filterMap_eq_filter]
  exact h.filterMap_below (fun names target => by simp [Option.guard, Entry.isLink]) pos

theorem unbindAll (h : Relinked spot fs fs') {positions : List Position}
    (hpositions : ∀ pos ∈ positions, pos ≠ [] ∧ pos ≠ spot ∧
      ∀ mode, fs.at? pos ≠ some (.directory mode)) :
    Relinked spot (fs.unbindAll positions) (fs'.unbindAll positions) := by
  induction positions generalizing fs fs' with
  | nil => exact h
  | cons first rest ih =>
      obtain ⟨hne, hspot, hplain⟩ := hpositions first List.mem_cons_self
      refine ih (h.unbind hne hspot hplain) fun pos hpos => ?_
      obtain ⟨hne', hspot', hplain'⟩ := hpositions pos (List.mem_cons_of_mem first hpos)
      refine ⟨hne', hspot', fun mode hmode => ?_⟩
      rw [at?_unbind hne] at hmode
      split at hmode
      · cases hmode
      · exact hplain' mode hmode

end Relinked

end FileSystem

namespace Store

variable {s : Store} {root spot : Position} {k : Key} {g fs fs' : FileSystem}

/-! ## One object -/

theorem locate_names_eq (hb : Bypass spot fs fs' (s.root.names ++ k.names))
    (h : Relinked spot fs fs') (hroot : s.LeadsTo g root) (follow : Bool) :
    fs'.locate follow (s.pathOf k.names) = fs.locate follow (s.pathOf k.names) := by
  have habs : (s.pathOf k.names).isAbsolute := hroot.isAbsolute_pathOf k.isName
  have hsteps : (s.pathOf k.names).steps = s.root.names ++ k.names := hroot.steps_pathOf k.isName
  exact hb.locate_eq h habs (hsteps ▸ List.prefix_rfl) follow

theorem locateEntry_names_eq (hb : Bypass spot fs fs' (s.root.names ++ k.names))
    (h : Relinked spot fs fs') (hroot : s.LeadsTo g root) (follow : Bool) :
    fs'.locateEntry follow (s.pathOf k.names) = fs.locateEntry follow (s.pathOf k.names) := by
  rw [locateEntry, locateEntry, locate_names_eq hb h hroot]

theorem openObject_relinked (hb : Bypass spot fs fs' (s.root.names ++ k.names))
    (h : Relinked spot fs fs') (hroot : s.LeadsTo g root) (doing : String) :
    (openObject (s.pathOf k.names) doing).Pairs (openObject (s.pathOf k.names) doing) fs fs'
      (fun handle handle' st st' => handle' = handle ∧ st = fs ∧ st' = fs') (Relinked spot) := by
  have hopen : fs'.openRead (s.pathOf k.names) = fs.openRead (s.pathOf k.names) := by
    rw [openRead, openRead, FileSystem.stat, FileSystem.stat, locateEntry_names_eq hb h hroot]
  rw [openObject]
  apply Op.Pairs.mapError
  apply Op.Pairs.query
  rw [hopen]
  cases fs.openRead (s.pathOf k.names) with
  | ok handle => exact .ok ⟨rfl, rfl, rfl⟩
  | error e => exact .error e h

theorem copy_relinked {src dst : String} (h : Relinked spot fs fs') (hroot : s.LeadsTo g root)
    (hsource : ∀ k : Key, ObjectName.ofObject src = .ok k.names →
      Bypass spot fs fs' (s.root.names ++ k.names))
    (htarget : ∀ k : Key, ObjectName.ofObject dst = .ok k.names → s.OnWay k spot fs fs') :
    (s.copy src dst).Pairs (s.copy src dst) fs fs' (fun _ _ st st' => Relinked spot st st')
      (Relinked spot) := by
  rw [copy]
  cases hsrc : s.resolve src with
  | error fault => exact Op.Pairs.lift_error h
  | ok source =>
      apply Op.Pairs.lift_ok
      cases hdst : s.resolve dst with
      | error fault => exact Op.Pairs.lift_error h
      | ok target =>
          apply Op.Pairs.lift_ok
          obtain ⟨k', hk', rfl, -⟩ := resolve_eq_ok hsrc
          obtain ⟨k, hk, rfl, -⟩ := resolve_eq_ok hdst
          refine Op.Pairs.bind _ (openObject_relinked (hsource k' hk') h hroot "open src") ?_
          rintro _ handle st st' ⟨rfl, rfl, rfl⟩
          rw [stageAndPublish]
          refine Op.Pairs.bind (fun written written' st st' =>
            written' = written ∧ Relinked spot st st') ?_ ?_
          · refine Op.Pairs.bind _ (beginWriting_relinked (htarget k hk) hroot) ?_
            intro w w' st st' hw
            apply Op.Pairs.get
            rintro w₁ w₁' rfl rfl
            rw [deliveriesOf, deliveriesOf, hw.underway.relinked.readFrom_eq]
            refine Op.Pairs.bind _
              ((RelinkedWriting.writesAlike hroot).receiveAll_pairs hw _) ?_
            exact fun _ _ _ _ hw => hw.publish_pairs hroot
          · rintro _ written st st' ⟨rfl, hst⟩
            exact Op.Pairs.report hst

/-- When a directory at the path of some names has been emptied, the path is looked for again in
both with the same result. -/
def FoundAgain (s : Store) (fs fs' : FileSystem) (names : List Bytes) : Prop :=
  ∀ pos mode, fs.locateEntry false (s.pathOf names) = .ok (pos, .directory mode) →
    (fs'.clear pos).locateLast (s.pathOf names) = (fs.clear pos).locateLast (s.pathOf names)

theorem delete_relinked {name : String} (h : Relinked spot fs fs') (hroot : s.LeadsTo g root)
    (hway : ∀ k : Key, ObjectName.ofObject name = .ok k.names →
      Bypass spot fs fs' (s.root.names ++ k.names))
    (hagain : ∀ k : Key, ObjectName.ofObject name = .ok k.names → s.FoundAgain fs fs' k.names) :
    (s.delete name).Pairs (s.delete name) fs fs' (fun _ _ st st' => AtMostRelinked spot st st')
      (AtMostRelinked spot) := by
  rw [delete]
  cases hname : s.resolve name with
  | error fault => exact Op.Pairs.lift_error (Or.inr h)
  | ok path =>
      obtain ⟨k, hk, rfl, -⟩ := resolve_eq_ok hname
      have hb := hway k hk
      have habs : (s.pathOf k.names).isAbsolute := hroot.isAbsolute_pathOf k.isName
      have hnames : (s.pathOf k.names).names = s.root.names ++ k.names :=
        s.names_pathOf k.isName
      have hprefix : (s.pathOf k.names).names <+: s.root.names ++ k.names :=
        hnames ▸ List.prefix_rfl
      apply Op.Pairs.lift_ok
      refine Op.Pairs.bind (fun entry entry' st st' => entry' = entry ∧ st = fs ∧ st' = fs') ?_ ?_
      · apply Op.Pairs.mapError
        apply Op.Pairs.query
        rw [linkStat, linkStat, locateEntry_names_eq hb h hroot]
        cases fs.locateEntry false (s.pathOf k.names) with
        | ok found => exact .ok ⟨rfl, rfl, rfl⟩
        | error e => exact .error e (Or.inr h)
      rintro _ entry st st' ⟨rfl, rfl, rfl⟩
      refine Op.Pairs.bind (fun _ _ st st' => AtMostRelinked spot st st') ?_
        fun _ _ _ _ hst => Op.Pairs.report hst
      apply Op.Pairs.mapError
      split
      · exact h.removeTree (s.endsInName_pathOf k.isName) (locate_names_eq hb h hroot false)
          (hagain k hk)
      · apply Op.Pairs.change_
        exact (h.unlink (hb.locateLast_eq habs hprefix) fun dir name hlast =>
          hb.ne_spot_of_locateLast habs hprefix hlast).weaken
            (fun _ _ _ _ hst => Or.inr hst) fun _ => Or.inr h

theorem readWhole_relinked {name : String} (h : Relinked spot fs fs') (hroot : s.LeadsTo g root)
    (hway : ∀ k : Key, ObjectName.ofObject name = .ok k.names →
      Bypass spot fs fs' (s.root.names ++ k.names)) :
    (s.readWhole name).Pairs (s.readWhole name) fs fs'
      (fun bytes bytes' st st' => bytes' = bytes ∧ Relinked spot st st') (Relinked spot) := by
  rw [readWhole, openReader]
  cases hname : s.resolve name with
  | error fault => exact Op.Pairs.lift_error h
  | ok path =>
      obtain ⟨k, hk, rfl, -⟩ := resolve_eq_ok hname
      refine Op.Pairs.bind (fun reader reader' st st' => reader' = reader ∧ st = fs ∧ st' = fs')
        ?_ ?_
      · apply Op.Pairs.lift_ok
        refine Op.Pairs.bind _ (openObject_relinked (hway k hk) h hroot "open reader") ?_
        rintro _ handle st st' ⟨rfl, rfl, rfl⟩
        exact Op.Pairs.pure ⟨rfl, rfl, rfl⟩
      · rintro _ reader st st' ⟨rfl, rfl, rfl⟩
        refine Op.Pairs.bind (fun found found' st st' => found' = found ∧ Relinked spot st st')
          ?_ ?_
        · apply Op.Pairs.mapError
          apply Op.Pairs.query
          rw [Reader.read, Reader.read, if_neg (by simp), if_neg (by simp), h.readFrom_eq]
          cases st.readFrom reader.handle reader.offset with
          | error e => exact .error e h
          | ok bytes => exact .ok ⟨rfl, h⟩
        · rintro _ found st st' ⟨rfl, hst⟩
          exact Op.Pairs.pure ⟨rfl, hst⟩

theorem stat_relinked {name : String} (h : Relinked spot fs fs') (hroot : s.LeadsTo g root)
    (hway : ∀ k : Key, ObjectName.ofObject name = .ok k.names →
      Bypass spot fs fs' (s.root.names ++ k.names)) :
    (s.stat name).Pairs (s.stat name) fs fs'
      (fun info info' st st' => info' = info ∧ Relinked spot st st') (Relinked spot) := by
  rw [Store.stat]
  cases hname : s.resolve name with
  | error fault => exact Op.Pairs.lift_error h
  | ok path =>
      obtain ⟨k, hk, rfl, -⟩ := resolve_eq_ok hname
      apply Op.Pairs.lift_ok
      apply Op.Pairs.get
      rintro w w' rfl rfl
      have hstat : w'.fs.stat (s.pathOf k.names) = w.fs.stat (s.pathOf k.names) := by
        rw [FileSystem.stat, FileSystem.stat, locateEntry_names_eq (hway k hk) h hroot]
      rw [hstat]
      cases w.fs.stat (s.pathOf k.names) with
      | error e =>
          dsimp only
          split
          · exact Op.Pairs.throw h
          · exact Op.Pairs.throw h
      | ok entry =>
          dsimp only
          split
          · exact Op.Pairs.throw h
          · apply Op.Pairs.get
            intro w₁ w₁' hw₁ hw₁'
            rw [hw₁, hw₁', h.sizeOf_eq]
            split
            · exact Op.Pairs.throw h
            · exact Op.Pairs.pure ⟨rfl, h⟩

/-! ## All objects below a base -/

theorem run_collect_filter (base : Pathname) (ending : String) (entries : List (Position × Entry))
    (w : World) :
    (collect base ending (entries.filter fun found => !found.2.isLink)).run w =
      (collect base ending entries).run w := by
  induction entries generalizing w with
  | nil => rfl
  | cons found rest ih =>
      obtain ⟨names, entry⟩ := found
      by_cases hlink : entry.isLink
      · obtain ⟨target, rfl⟩ := Entry.isLink_iff.1 hlink
        rw [List.filter_cons_of_neg (by simp [Entry.isLink]), ih]
        rfl
      · rw [List.filter_cons_of_pos (by simpa using hlink), collect, collect, Op.run_get,
          Op.run_get]
        cases listEntry w.fs base ending names entry with
        | object info =>
            dsimp only
            rw [Op.run_bind, Op.run_bind, ih]
        | skipped => exact ih w
        | unreachable doing => rfl
        | nameless =>
            dsimp only
            rw [Op.run_bind, Op.run_bind]
            exact ih _

theorem listed_relinked (h : Relinked spot fs fs') (base : Pathname) (ending : String)
    (entries : List (Position × Entry)) :
    listed fs' base ending entries = listed fs base ending entries := by
  rw [listed, listed]
  refine List.map_congr_left fun found _ => ?_
  obtain ⟨names, entry⟩ := found
  cases entry with
  | file id => simp only [listEntry, listFile, h.sizeOf_eq]
  | directory mode => rfl
  | link target => rfl
  | device => rfl

theorem collect_relinked (h : Relinked spot fs fs') (base : Pathname) (pos : Position)
    (ending : String) {w w' : World} (hw : w.fs = fs) (hw' : w'.fs = fs') :
    ((collect base ending (fs'.reached base pos)).run w').1 =
      ((collect base ending (fs.reached base pos)).run w).1 := by
  rw [← run_collect_filter, ← run_collect_filter base ending (fs.reached base pos),
    h.filter_reached]
  exact collect_eq (listed_relinked h base ending _) hw hw'

theorem locateEntry_base_eq {base : List Bytes} (h : Relinked spot fs fs')
    (hroot : s.LeadsTo fs root) (hbase : ∀ name ∈ base, Pathname.IsName name)
    (hb : Bypass spot fs fs' (s.root.names ++ base)) (follow : Bool) :
    fs'.locateEntry follow (s.pathOf base) = fs.locateEntry follow (s.pathOf base) := by
  have hlocate : fs'.locate follow (s.pathOf base) = fs.locate follow (s.pathOf base) := by
    rcases List.eq_nil_or_concat' base with rfl | ⟨dirs, leaf, rfl⟩
    · obtain ⟨mode, hwalk⟩ := hroot.walk_names
      have hwalk' := hwalk
      rw [← hb.same (List.prefix_append _ _)] at hwalk'
      rw [locate, locate, hroot.startOf_pathOf hbase, hroot.startOf_pathOf hbase,
        walk_pathOf_nil hroot.bytes_ne_nil hwalk, walk_pathOf_nil hroot.bytes_ne_nil hwalk']
    · exact hb.locate_eq h (hroot.isAbsolute_pathOf hbase)
        (hroot.steps_pathOf hbase ▸ List.prefix_rfl) follow
  rw [locateEntry, locateEntry, hlocate]

theorem list_relinked {beginning : String} (h : Relinked spot fs fs') (hroot : s.LeadsTo fs root)
    (hway : ∀ base, ObjectName.ofBeginning beginning = .ok base →
      Bypass spot fs fs' (s.root.names ++ base)) (ending : String) {w w' : World} (hw : w.fs = fs)
    (hw' : w'.fs = fs') :
    ((s.list beginning ending).run w').1 = ((s.list beginning ending).run w).1 := by
  rw [list]
  cases hname : s.resolveBeginning beginning with
  | error fault => rfl
  | ok path =>
      obtain ⟨base, hbase, rfl⟩ := resolveBeginning_eq_ok_iff.1 hname
      have hsame := locateEntry_base_eq h hroot (ObjectName.isName_of_ofBeginning hbase)
        (hway base hbase) true
      rw [Op.run_lift_ok, Op.run_lift_ok, Op.run_get, Op.run_get, hw, hw']
      cases hfound : fs.locateEntry true (s.pathOf base) with
      | error e =>
          rw [traverse_of_error hfound, traverse_of_error (hsame.trans hfound)]
          dsimp only
          split
          · rfl
          · rfl
      | ok found =>
          obtain ⟨pos, entry⟩ := found
          by_cases hdirectory : entry.isDirectory = true
          · obtain ⟨mode, rfl⟩ := Entry.isDirectory_iff.1 hdirectory
            obtain ⟨top, topEntry, htraverse, -⟩ := traverse_of_followed hfound
            obtain ⟨top', topEntry', htraverse', -⟩ := traverse_of_followed (hsame.trans hfound)
            rw [htraverse, htraverse']
            exact collect_relinked h (s.pathOf base) pos ending hw hw'
          · have hplain := Bool.eq_false_iff.2 hdirectory
            obtain ⟨found, htraverse, hempty⟩ := traverse_of_not_directory hplain hfound
            obtain ⟨found', htraverse', hempty'⟩ :=
              traverse_of_not_directory hplain (hsame.trans hfound)
            rw [htraverse, htraverse']
            dsimp only
            rw [hempty, hempty']
            rfl

/-! ## Purging -/

theorem stalePaths_relinked (h : Relinked spot fs fs') (maxAge : Nat) :
    s.stalePaths fs' root maxAge = s.stalePaths fs root maxAge := by
  have hpurged (path : Pathname) (leaf : Option Bytes) (entry : Entry) :
      isPurged fs' fs'.clock maxAge path leaf entry =
        isPurged fs fs.clock maxAge path leaf entry := by
    cases entry with
    | file id => rw [isPurged, isPurged, h.file?_eq, h.clock_eq]
    | directory mode => rfl
    | link target => rfl
    | device => rfl
  -- A link is never taken, so the walk may just as well skip it.
  have hskip (fs : FileSystem) : ((fs.reached s.root root).filter fun found =>
        isPurged fs fs.clock maxAge (s.pathOf found.1) found.1.getLast? found.2) =
      ((fs.reached s.root root).filter fun found => !found.2.isLink).filter fun found =>
        isPurged fs fs.clock maxAge (s.pathOf found.1) found.1.getLast? found.2 := by
    rw [List.filter_filter]
    refine List.filter_congr fun found _ => ?_
    obtain ⟨names, entry⟩ := found
    cases entry with
    | link target => rfl
    | file id => simp [Entry.isLink]
    | directory mode => rfl
    | device => rfl
  rw [stalePaths, stalePaths, hskip, hskip, h.filter_reached]
  simp only [hpurged]

theorem purge_relinked (h : Relinked spot fs fs') (hroot : s.LeadsTo fs root)
    (hroot' : s.LeadsTo fs' root) (maxAge : Nat) :
    (s.purge maxAge).Pairs (s.purge maxAge) fs fs'
      (fun report report' st st' => report' = report ∧ Relinked spot st st') (Relinked spot) := by
  have hwf := h.left.toWellFormed
  refine Op.Pairs.of_runs (purge_exact hroot.rootedAt maxAge) (purge_exact hroot'.rootedAt maxAge)
    ?_
  rintro _ _ _ _ ⟨rfl, rfl⟩ ⟨rfl, rfl⟩
  have htaken : s.taken fs' root maxAge = s.taken fs root maxAge := by
    rw [taken, taken, stalePaths_relinked h]
  rw [htaken, stalePaths_relinked h]
  refine ⟨rfl, h.unbindAll fun pos hpos => ?_⟩
  obtain ⟨hne, id, hid⟩ := file_of_mem_taken hwf hroot.rootedAt pos hpos
  refine ⟨hne, h.ne_spot hid (by simp [Entry.isLink]), fun mode hmode => ?_⟩
  rw [hid] at hmode
  cases hmode

/-! ## All requests -/

namespace Request

/-- The names of the object that a name stands for, and of its staging file. -/
def Stages (name : String) (names : List Bytes) : Prop :=
  ∃ k : Key, ObjectName.ofObject name = .ok k.names ∧ (names = k.names ∨ names = k.staging)

/-- The names below the root that a request asks for. -/
def AsksFor : Request → List Bytes → Prop
  | .write (.save name _ _), names => Stages name names
  | .write (.copy src dst), names => ObjectName.ofObject src = .ok names ∨ Stages dst names
  | .delete name, names => ObjectName.ofObject name = .ok names
  | .read name, names => ObjectName.ofObject name = .ok names
  | .stat name, names => ObjectName.ofObject name = .ok names
  | .list beginning _, names => ObjectName.ofBeginning beginning = .ok names
  | .purge _, _ => False

/-- The names below the root of what a request deletes. -/
def Deletes : Request → List Bytes → Prop
  | .delete name, names => ObjectName.ofObject name = .ok names
  | _, _ => False

theorem onWay (h : Relinked spot fs fs') {name : String}
    (hways : ∀ names, Stages name names → Bypass spot fs fs' (s.root.names ++ names))
    (hk : ObjectName.ofObject name = .ok k.names) : s.OnWay k spot fs fs' := by
  refine ⟨h, ?_⟩
  rintro names (rfl | rfl)
  · exact hways _ ⟨k, hk, Or.inl rfl⟩
  · exact hways _ ⟨k, hk, Or.inr rfl⟩

/-- A request whose names bypass the link does the same in both, provided that what it deletes is
looked for again with the same result. -/
theorem perform_relinked (request : Request) (h : Relinked spot fs fs') (hroot : s.LeadsTo fs root)
    (hroot' : s.LeadsTo fs' root)
    (hways : ∀ names, request.AsksFor names → Bypass spot fs fs' (s.root.names ++ names))
    (hagain : ∀ names, request.Deletes names → s.FoundAgain fs fs' names) :
    (request.perform s).Pairs (request.perform s) fs fs'
      (fun reply reply' st st' => reply' = reply ∧ AtMostRelinked spot st st')
      (AtMostRelinked spot) := by
  have hmap {α : Type} {op : Op StorageError α} {f : α → Reply}
      (hop : op.Pairs op fs fs' (fun a a' st st' => a' = a ∧ AtMostRelinked spot st st')
        (AtMostRelinked spot)) :
      (f <$> op).Pairs (f <$> op) fs fs'
        (fun reply reply' st st' => reply' = reply ∧ AtMostRelinked spot st st')
        (AtMostRelinked spot) := by
    apply Op.Pairs.map
    refine hop.weaken ?_ fun _ _ hst => hst
    rintro _ a st st' ⟨rfl, hst⟩
    exact ⟨rfl, hst⟩
  cases request with
  | write call =>
      cases call with
      | save name source expected =>
          exact hmap ((save_relinked (fun k hk => onWay h hways hk) h hroot source
            expected).weaken (fun _ _ _ _ hst => ⟨rfl, Or.inr hst⟩) fun _ _ hst => Or.inr hst)
      | copy src dst =>
          exact hmap ((copy_relinked h hroot (fun k hk => hways _ (Or.inl hk))
            fun k hk => onWay h (fun names hnames => hways names (Or.inr hnames)) hk).weaken
              (fun _ _ _ _ hst => ⟨rfl, Or.inr hst⟩) fun _ _ hst => Or.inr hst)
  | delete name =>
      exact hmap ((delete_relinked h hroot (fun k hk => hways _ hk)
        fun k hk => hagain _ hk).weaken (fun _ _ _ _ hst => ⟨rfl, hst⟩) fun _ _ hst => hst)
  | read name =>
      exact hmap ((readWhole_relinked h hroot fun k hk => hways _ hk).weaken
        (fun _ _ _ _ hst => ⟨hst.1, Or.inr hst.2⟩) fun _ _ hst => Or.inr hst)
  | stat name =>
      exact hmap ((stat_relinked h hroot fun k hk => hways _ hk).weaken
        (fun _ _ _ _ hst => ⟨hst.1, Or.inr hst.2⟩) fun _ _ hst => Or.inr hst)
  | list beginning ending =>
      refine hmap fun w w' hw hw' => ?_
      rw [list_relinked h hroot (fun base hbase => hways _ hbase) ending hw hw',
        (list_still s beginning ending).run_fs w, (list_still s beginning ending).run_fs w',
        hw, hw']
      cases ((s.list beginning ending).run w).1 with
      | ok infos => exact .ok ⟨rfl, Or.inr h⟩
      | error e => exact .error e (Or.inr h)
  | purge maxAge =>
      exact hmap ((purge_relinked h hroot hroot' maxAge).weaken
        (fun _ _ _ _ hst => ⟨hst.1, Or.inr hst.2⟩) fun _ _ hst => Or.inr hst)

end Request

end Store

end Depot
