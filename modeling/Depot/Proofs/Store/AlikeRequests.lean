import Depot.Proofs.Store.AlikeWrites
import Depot.Proofs.Store.ObjectMap
/-!
# Requests to stores that look alike

Deleting, reading, measuring, listing and purging come to the same in two file systems that look
alike.  A listing reads the directories in the order in which the file system keeps them, so it may
name the objects in another order, and one that fails may have met another of the entries that it
cannot look at.  Where both keep the entries in one order, they list the same.

* `reached_perm`, `reached_eq` — what is made of the entries below a position;
* `delete_pairs`, `readWhole_pairs`, `stat_pairs` — one object;
* `SameReply`, `list_same`, `list_eq` — the objects below a base;
* `purge_pairs` — the staging files below the root.
-/

namespace Depot

open FileSystem

namespace FileSystem

variable {fs fs' : FileSystem} {pos : Position}

theorem filterMap_reached {β : Type} (fs : FileSystem) (base : Pathname) (pos : Position)
    (f : Position × Entry → Option β) :
    (fs.reached base pos).filterMap f =
      ((fs.namesBelow pos).filter (isReached base)).filterMap fun names =>
        (fs.at? (pos ++ names)).bind fun entry => f (names, entry) := by
  rw [namesBelow, List.filter_map, List.filterMap_map]
  apply List.filterMap_congr
  rintro ⟨names, entry⟩ hfound
  rw [Function.comp_apply, (mem_below.1 (List.mem_filter.1 hfound).1).2, Option.bind_some]

variable {β : Type} {f f' : Position × Entry → Option β}

theorem bind_at?_eq (htwin : ∀ names, TwinAt fs fs' (pos ++ names))
    (hsame : ∀ names entry entry', Twin fs fs' entry entry' →
      f' (names, entry') = f (names, entry)) :
    (fun names => (fs'.at? (pos ++ names)).bind fun entry => f' (names, entry)) =
      fun names => (fs.at? (pos ++ names)).bind fun entry => f (names, entry) := by
  funext names
  rcases htwin names with ⟨hnone, hnone'⟩ | ⟨entry, entry', he, he', htwin⟩
  · rw [hnone, hnone']
    rfl
  · rw [he, he', Option.bind_some, Option.bind_some, hsame names entry entry' htwin]

theorem reached_perm (htwin : ∀ names, TwinAt fs fs' (pos ++ names))
    (hsame : ∀ names entry entry', Twin fs fs' entry entry' →
      f' (names, entry') = f (names, entry)) (base : Pathname) :
    ((fs.reached base pos).filterMap f).Perm ((fs'.reached base pos).filterMap f') := by
  have hnames : (fs.namesBelow pos).Perm (fs'.namesBelow pos) := by
    refine (List.perm_ext_iff_of_nodup (nodup_namesBelow fs pos) (nodup_namesBelow fs' pos)).2 ?_
    intro names
    rw [mem_namesBelow, mem_namesBelow]
    rcases htwin names with ⟨hnone, hnone'⟩ | ⟨entry, entry', he, he', -⟩
    · simp [hnone, hnone']
    · simp [he, he']
  rw [filterMap_reached, filterMap_reached, bind_at?_eq htwin hsame]
  exact (hnames.filter _).filterMap _

theorem reached_eq (htwin : ∀ names, TwinAt fs fs' (pos ++ names))
    (hsame : ∀ names entry entry', Twin fs fs' entry entry' →
      f' (names, entry') = f (names, entry)) (base : Pathname)
    (horder : fs'.namesBelow pos = fs.namesBelow pos) :
    (fs'.reached base pos).filterMap f' = (fs.reached base pos).filterMap f := by
  rw [filterMap_reached, filterMap_reached, bind_at?_eq htwin hsame, horder]

theorem traverse_guided {p : Pathname}
    (h : SameEnd fs fs' pos (fs.locate false p) (fs'.locate false p)) :
    Both (fun found found' =>
        found.entries = (if found.topEntry.isDirectory then fs.reached p pos else []) ∧
        found'.entries = (if found.topEntry.isDirectory then fs'.reached p pos else [])) True
      (fs.traverse p) (fs'.traverse p) := by
  have hentry := locateEntry_guided h
  generalize hx : fs.locateEntry false p = x at hentry
  generalize hx' : fs'.locateEntry false p = x' at hentry
  cases hentry with
  | error e _ =>
      rw [traverse, traverse, hx, hx']
      exact .error e trivial
  | @ok found found' hfound =>
      obtain ⟨_, entry⟩ := found
      obtain ⟨_, entry'⟩ := found'
      obtain ⟨rfl, rfl, htwin⟩ := hfound
      rw [Store.traverse_of_locateEntry hx htwin.not_isLink.1,
        Store.traverse_of_locateEntry hx' htwin.not_isLink.2, htwin.isDirectory_eq]
      exact .ok ⟨rfl, rfl⟩

end FileSystem

namespace Store

variable {s : Store} {root : Position} {g g' fs fs' : FileSystem}

/-! ## One object -/

theorem delete_pairs (h : s.Alike root g g' fs fs') (name : String) :
    (s.delete name).Pairs (s.delete name) fs fs'
      (fun _ _ st st' => s.Alike root g g' st st') (s.Alike root g g') := by
  rw [delete]
  cases hname : s.resolve name with
  | error fault => exact Op.Pairs.lift_error h
  | ok path =>
      obtain ⟨k, -, rfl, -⟩ := resolve_eq_ok hname
      apply Op.Pairs.lift_ok
      refine Op.Pairs.bind (fun entry entry' st st' => entry'.isDirectory = entry.isDirectory ∧
        st = fs ∧ st' = fs') ?_ ?_
      · apply Op.Pairs.mapError
        apply Op.Pairs.query
        exact (linkStat_guided (h.locate_pathOf k.isName false)).weaken
          (fun _ _ _ _ htwin => ⟨htwin.isDirectory_eq, rfl, rfl⟩) fun _ => h
      rintro entry entry' st st' ⟨hkind, rfl, rfl⟩
      rw [hkind]
      refine Op.Pairs.bind (fun _ _ st st' => s.Alike root g g' st st') ?_
        fun _ _ _ _ hst => Op.Pairs.report hst
      apply Op.Pairs.mapError
      split
      · exact h.removeTree k.isName
      · apply Op.Pairs.change_
        exact (h.unlink k.isName).weaken (fun _ _ _ _ hst => hst) fun _ => h

theorem readWhole_pairs (h : s.Alike root g g' fs fs') (name : String) :
    (s.readWhole name).Pairs (s.readWhole name) fs fs'
      (fun bytes bytes' st st' => bytes' = bytes ∧ s.Alike root g g' st st')
      (s.Alike root g g') := by
  rw [readWhole, openReader]
  cases hname : s.resolve name with
  | error fault => exact Op.Pairs.lift_error h
  | ok path =>
      obtain ⟨k, -, rfl, -⟩ := resolve_eq_ok hname
      refine Op.Pairs.bind (fun reader reader' st st' => st = fs ∧ st' = fs' ∧
        reader.offset = 0 ∧ reader'.offset = 0 ∧
        SameHandle root k.names fs fs' reader.handle reader'.handle) ?_ ?_
      · apply Op.Pairs.lift_ok
        refine Op.Pairs.bind (fun handle handle' st st' => st = fs ∧ st' = fs' ∧
          SameHandle root k.names fs fs' handle handle') ?_ ?_
        · rw [openObject]
          apply Op.Pairs.mapError
          apply Op.Pairs.query
          exact (h.openRead k.isName).weaken (fun _ _ _ _ hsame => ⟨rfl, rfl, hsame⟩) fun _ => h
        · rintro handle handle' st st' ⟨rfl, rfl, hsame⟩
          exact Op.Pairs.pure ⟨rfl, rfl, rfl, rfl, hsame⟩
      · rintro reader reader' st st' ⟨rfl, rfl, hoffset, hoffset', hsame⟩
        refine Op.Pairs.bind (fun found found' st st' => found'.1 = found.1 ∧
          s.Alike root g g' st st') ?_ ?_
        · apply Op.Pairs.mapError
          apply Op.Pairs.query
          rw [Reader.read, Reader.read, if_neg (by simp), if_neg (by simp), hoffset, hoffset',
            h.readFrom hsame]
          cases st.readFrom reader.handle 0 with
          | error e => exact .error e h
          | ok bytes => exact .ok ⟨rfl, h⟩
        · rintro found found' st st' ⟨hbytes, hst⟩
          exact Op.Pairs.pure ⟨hbytes, hst⟩

theorem stat_pairs (h : s.Alike root g g' fs fs') (name : String) :
    (s.stat name).Pairs (s.stat name) fs fs'
      (fun info info' st st' => info' = info ∧ s.Alike root g g' st st') (s.Alike root g g') := by
  rw [Store.stat]
  cases hname : s.resolve name with
  | error fault => exact Op.Pairs.lift_error h
  | ok path =>
      obtain ⟨k, -, rfl, -⟩ := resolve_eq_ok hname
      apply Op.Pairs.lift_ok
      apply Op.Pairs.get
      rintro w w' rfl rfl
      have hstat := stat_guided (h.locate_pathOf k.isName true)
      rw [← Key.names] at hstat
      generalize w.fs.stat (s.pathOf k.names) = x at hstat ⊢
      generalize w'.fs.stat (s.pathOf k.names) = x' at hstat ⊢
      cases hstat with
      | error e _ =>
          dsimp only
          split
          · exact Op.Pairs.throw h
          · exact Op.Pairs.throw h
      | ok htwin =>
          dsimp only
          rw [htwin.isDirectory_eq]
          split
          · exact Op.Pairs.throw h
          · apply Op.Pairs.get
            intro w₁ w₁' hw₁ hw₁'
            rw [hw₁, hw₁', htwin.sizeOf_eq]
            split
            · exact Op.Pairs.throw h
            · exact Op.Pairs.pure ⟨rfl, h⟩

/-! ## All objects below a base -/

namespace Alike

variable {base : Position}

theorem locate_base (h : s.Alike root g g' fs fs')
    (hbase : ∀ name ∈ base, Pathname.IsName name) :
    SameEnd fs fs' (root ++ base) (fs.locate false (s.pathOf base))
      (fs'.locate false (s.pathOf base)) := by
  rcases List.eq_nil_or_concat' base with rfl | ⟨dirs, leaf, rfl⟩
  · obtain ⟨way, hway, hguided⟩ := h.guided
    obtain ⟨mode, hwalk⟩ := hway.walk_pathOf_nil false
    apply locate_guided
    rw [hway.startOf_pathOf hbase, hway.startOf_pathOf hbase, List.append_nil]
    exact walk_guided hguided hwalk
  · exact h.locate_pathOf hbase false

theorem locate_root (h : s.Alike root g g' fs fs') :
    SameEnd fs fs' root (fs.locate false s.root) (fs'.locate false s.root) := by
  obtain ⟨way, hway, hguided⟩ := h.guided
  obtain ⟨mode, hlocate⟩ := hway.isDirectory
  rw [locateEntry_eq_ok, locate_eq_ok, startOf, if_pos hway.isAbsolute] at hlocate
  apply locate_guided
  rw [startOf, startOf, if_pos hway.isAbsolute, if_pos hway.isAbsolute]
  exact walk_guided hguided hlocate.2

theorem twinAt_base (h : s.Alike root g g' fs fs') (base names : Position) :
    TwinAt fs fs' (root ++ base ++ names) :=
  List.append_assoc root base names ▸ h.twinAt (base ++ names)

end Alike

theorem listEntry_twin {base : Pathname} {ending : String} {names : Position}
    {entry entry' : Entry} (h : Twin fs fs' entry entry') :
    listEntry fs' base ending names entry' = listEntry fs base ending names entry := by
  have hsize := h.sizeOf_eq
  cases h with
  | directory mode => rfl
  | file hf hf' => rw [listEntry, listEntry, listFile, listFile, hsize]

def listed (fs : FileSystem) (base : Pathname) (ending : String)
    (entries : List (Position × Entry)) : List (Position × Listed) :=
  entries.map fun found => (found.1, listEntry fs base ending found.1 found.2)

theorem listed_reached_perm {pos : Position} (htwin : ∀ names, TwinAt fs fs' (pos ++ names))
    (base : Pathname) (ending : String) :
    (listed fs base ending (fs.reached base pos)).Perm
      (listed fs' base ending (fs'.reached base pos)) := by
  rw [listed, listed, ← List.filterMap_eq_map', ← List.filterMap_eq_map']
  exact reached_perm htwin (fun names entry entry' htwin => by rw [listEntry_twin htwin]) base

theorem listed_reached_eq {pos : Position} (htwin : ∀ names, TwinAt fs fs' (pos ++ names))
    (horder : fs'.namesBelow pos = fs.namesBelow pos) (base : Pathname) (ending : String) :
    listed fs' base ending (fs'.reached base pos) =
      listed fs base ending (fs.reached base pos) := by
  rw [listed, listed, ← List.filterMap_eq_map', ← List.filterMap_eq_map']
  exact reached_eq htwin (fun names entry entry' htwin => by rw [listEntry_twin htwin]) base horder

theorem collect_eq {base : Pathname} {ending : String} {entries entries' : List (Position × Entry)}
    (hlisted : listed fs' base ending entries' = listed fs base ending entries) {w w' : World}
    (hw : w.fs = fs) (hw' : w'.fs = fs') :
    ((collect base ending entries').run w').1 = ((collect base ending entries).run w).1 := by
  induction entries generalizing entries' w w' with
  | nil =>
      obtain rfl := List.map_eq_nil_iff.1 hlisted
      rfl
  | cons found rest ih =>
      obtain ⟨⟨names, entry'⟩, rest', rfl, hfound, hrest⟩ := List.map_eq_cons_iff.1 hlisted
      obtain ⟨names, entry⟩ := found
      rw [Prod.mk.injEq] at hfound
      obtain ⟨rfl, hentry⟩ := hfound
      rw [collect, collect, Op.run_get, Op.run_get, hw, hw', hentry]
      cases listEntry fs base ending names entry with
      | object info =>
          have hcollect := ih hrest hw hw'
          dsimp only
          rw [Op.run_bind, Op.run_bind]
          generalize (collect base ending rest).run w = ran at hcollect ⊢
          generalize (collect base ending rest').run w' = ran' at hcollect ⊢
          obtain ⟨result, w₁⟩ := ran
          obtain ⟨result', w₁'⟩ := ran'
          obtain rfl : result' = result := hcollect
          cases result' <;> rfl
      | skipped => exact ih hrest hw hw'
      | unreachable doing => rfl
      | nameless => exact ih hrest hw hw'

theorem collect_listed (fs : FileSystem) (base : Pathname) (ending : String)
    (entries : List (Position × Entry)) :
    (collect base ending entries).Runs fs (fun _ => False)
      (fun infos _ => infos = (listed fs base ending entries).filterMap (fun said => said.2.info?) ∧
        ∀ said ∈ listed fs base ending entries, ∀ doing, said.2 ≠ .unreachable doing)
      (fun e _ => ∃ said ∈ listed fs base ending entries, ∃ doing, said.2 = .unreachable doing ∧
        e = .during doing (.atPath (entryPath base said.1).display .nameTooLong)) := by
  refine (collect_runs fs base ending entries).weaken (fun _ hst => hst) ?_ ?_
  · rintro infos st ⟨-, rfl, hreached⟩
    refine ⟨by rw [listed, List.filterMap_map]; rfl, ?_⟩
    intro said hsaid doing
    obtain ⟨found, hfound, rfl⟩ := List.mem_map.1 hsaid
    exact hreached found hfound doing
  · rintro e st ⟨-, found, hfound, doing, hdoing, rfl⟩
    exact ⟨_, List.mem_map.2 ⟨found, hfound, rfl⟩, doing, hdoing, rfl⟩

/-- What two stores that look alike reply to a request: the same, but that they may list the
objects in another order, or fail to list them at another path that is too long. -/
inductive SameReply : Request → Except StorageError Reply → Except StorageError Reply → Prop
  | same (request : Request) (result : Except StorageError Reply) :
    SameReply request result result
  | listing (beginning ending : String) {infos infos' : List ObjectInfo} (h : infos.Perm infos') :
    SameReply (.list beginning ending) (.ok (.listing infos)) (.ok (.listing infos'))
  | tooLong (beginning ending doing doing' path path' : String) :
    SameReply (.list beginning ending) (.error (.during doing (.atPath path .nameTooLong)))
      (.error (.during doing' (.atPath path' .nameTooLong)))

theorem collect_same {base : Pathname} {ending : String}
    {entries entries' : List (Position × Entry)}
    (hlisted : (listed fs base ending entries).Perm (listed fs' base ending entries'))
    (beginning : String) {w w' : World} (hw : w.fs = fs) (hw' : w'.fs = fs') :
    SameReply (.list beginning ending) (.listing <$> ((collect base ending entries).run w).1)
      (.listing <$> ((collect base ending entries').run w').1) := by
  have hleft := collect_listed fs base ending entries
  have hright := collect_listed fs' base ending entries'
  simp only [← hlisted.mem_iff] at hright
  rcases hrun : (collect base ending entries).run w with ⟨result, w₁⟩
  rcases hrun' : (collect base ending entries').run w' with ⟨result', w₁'⟩
  cases result with
  | ok infos =>
      obtain ⟨rfl, hreached⟩ := hleft.of_ok hw hrun
      cases result' with
      | ok infos' =>
          obtain ⟨rfl, -⟩ := hright.of_ok hw' hrun'
          exact .listing beginning ending (hlisted.filterMap _)
      | error e =>
          obtain ⟨said, hsaid, doing, hdoing, -⟩ := hright.of_error hw' hrun'
          exact absurd hdoing (hreached said hsaid doing)
  | error e =>
      obtain ⟨said, hsaid, doing, hdoing, rfl⟩ := hleft.of_error hw hrun
      cases result' with
      | ok infos' =>
          obtain ⟨-, hreached⟩ := hright.of_ok hw' hrun'
          exact absurd hdoing (hreached said hsaid doing)
      | error e =>
          obtain ⟨said', -, doing', -, rfl⟩ := hright.of_error hw' hrun'
          exact .tooLong ..

/-- Listings of stores that look alike end at once, with the same result, or collect entries of
which the same is said. -/
theorem list_cases (h : s.Alike root g g' fs fs') (beginning ending : String) {w w' : World}
    (hw : w.fs = fs) (hw' : w'.fs = fs') :
    ((s.list beginning ending).run w').1 = ((s.list beginning ending).run w).1 ∨
      ∃ base entries entries',
        (s.list beginning ending).run w = (collect base ending entries).run w ∧
        (s.list beginning ending).run w' = (collect base ending entries').run w' ∧
        (listed fs base ending entries).Perm (listed fs' base ending entries') ∧
        (g'.namesBelow root = g.namesBelow root →
          listed fs' base ending entries' = listed fs base ending entries) := by
  rw [list, resolveBeginning]
  cases hname : ObjectName.ofBeginning beginning with
  | error fault => exact Or.inl rfl
  | ok base =>
      have hbase : ∀ name ∈ base, Pathname.IsName name :=
        fun name hmem => (ObjectName.normalize_eq_ok hname name hmem).1
      dsimp only
      rw [Op.run_lift_ok, Op.run_lift_ok, Op.run_get, Op.run_get, hw, hw']
      have htraverse := traverse_guided (h.locate_base hbase)
      generalize fs.traverse (s.pathOf base) = x at htraverse ⊢
      generalize fs'.traverse (s.pathOf base) = x' at htraverse ⊢
      cases htraverse with
      | error e _ =>
          refine Or.inl ?_
          dsimp only
          split
          · rfl
          · rfl
      | ok hfound =>
          refine Or.inr ⟨_, _, _, rfl, rfl, ?_⟩
          rw [hfound.1, hfound.2]
          split
          · refine ⟨listed_reached_perm (h.twinAt_base base) _ ending, fun horder => ?_⟩
            refine listed_reached_eq (h.twinAt_base base) ?_ _ ending
            rw [namesBelow_append, namesBelow_append, h.order horder]
          · exact ⟨List.Perm.refl _, fun _ => rfl⟩

theorem list_same (h : s.Alike root g g' fs fs') (beginning ending : String) {w w' : World}
    (hw : w.fs = fs) (hw' : w'.fs = fs') :
    SameReply (.list beginning ending) (.listing <$> ((s.list beginning ending).run w).1)
      (.listing <$> ((s.list beginning ending).run w').1) := by
  rcases list_cases h beginning ending hw hw' with
    hsame | ⟨base, entries, entries', hrun, hrun', hlisted, -⟩
  · exact hsame ▸ .same ..
  · rw [hrun, hrun']
    exact collect_same hlisted beginning hw hw'

theorem list_eq (h : s.Alike root g g' fs fs') (beginning ending : String) {w w' : World}
    (hw : w.fs = fs) (hw' : w'.fs = fs') (horder : g'.namesBelow root = g.namesBelow root) :
    ((s.list beginning ending).run w').1 = ((s.list beginning ending).run w).1 := by
  rcases list_cases h beginning ending hw hw' with
    hsame | ⟨base, entries, entries', hrun, hrun', -, hlisted⟩
  · exact hsame
  · rw [hrun, hrun']
    exact collect_eq (hlisted horder) hw hw'

/-! ## Purging -/

theorem isPurged_twin (h : s.Alike root g g' fs fs') (maxAge : Nat) (path : Pathname)
    (leaf : Option Bytes) {entry entry' : Entry} (htwin : Twin fs fs' entry entry') :
    isPurged fs' fs'.clock maxAge path leaf entry' =
      isPurged fs fs.clock maxAge path leaf entry := by
  cases htwin with
  | directory mode => rfl
  | file hf hf' => rw [isPurged, isPurged, hf, hf', h.clock]

theorem stalePaths_perm (h : s.Alike root g g' fs fs') (maxAge : Nat) :
    (s.stalePaths fs root maxAge).Perm (s.stalePaths fs' root maxAge) := by
  rw [stalePaths, stalePaths]
  simp only [← List.filterMap_eq_map', List.filterMap_filter]
  refine reached_perm h.twinAt ?_ s.root
  intro names entry entry' htwin
  rw [isPurged_twin h maxAge _ _ htwin]

theorem tally_perm {stale stale' : List (Pathname × Position)} (h : stale.Perm stale') :
    tally stale' = tally stale := by
  rw [tally, tally, h.countP_eq, h.countP_eq]

namespace Removed

variable {stale stale' : List (Pathname × Position)}

theorem of_perm (h : Removed s root stale' fs fs') (hperm : stale.Perm stale') :
    Removed s root stale fs fs' where
  tidy := h.tidy
  file := h.file
  clock := h.clock
  kept := fun pos => (h.kept pos).imp_right fun ⟨⟨path, hmem, hfits⟩, hnone⟩ =>
    ⟨⟨path, hperm.mem_iff.2 hmem, hfits⟩, hnone⟩
  gone := fun path pos hmem => h.gone path pos (hperm.mem_iff.1 hmem)
  thinned := h.thinned

open Classical in
theorem item?_eq (h : Removed s root stale fs fs') (pos : Position) :
    fs'.item? pos =
      if ∃ path : Pathname, (path, pos) ∈ stale ∧ path.fits then none else fs.item? pos := by
  rw [item?, item?, itemOf_of_file?_eq h.file]
  split
  · rename_i hremoved
    obtain ⟨path, hmem, hfits⟩ := hremoved
    rw [h.gone path pos hmem hfits]
    rfl
  · rename_i hleft
    rw [(h.kept pos).resolve_right fun hgone => hleft hgone.1]

end Removed

open Classical in
theorem Alike.of_removed (h : s.Alike root g g' fs fs') {st st' : FileSystem}
    {stale : List (Pathname × Position)} (hstale : ∀ path pos, (path, pos) ∈ stale → root <+: pos)
    (hst : Removed s root stale fs st) (hst' : Removed s root stale fs' st') :
    s.Alike root g g' st st' :=
  h.step_removing hst.tidy.grounded hst'.tidy.grounded
    (fun pos ⟨path, hmem, _⟩ => hstale path pos hmem) hst.item?_eq hst'.item?_eq hst.clock
    hst'.clock hst.thinned hst'.thinned

theorem purge_pairs (h : s.Alike root g g' fs fs') (maxAge : Nat) :
    (s.purge maxAge).Pairs (s.purge maxAge) fs fs'
      (fun report report' st st' => report' = report ∧ s.Alike root g g' st st')
      (s.Alike root g g') := by
  have htraverse := traverse_guided h.locate_root
  generalize hx : fs.traverse s.root = x at htraverse
  generalize hx' : fs'.traverse s.root = x' at htraverse
  cases htraverse with
  | error e _ =>
      -- Where the root cannot be found, there is nothing to walk through.
      rw [Store.purge]
      apply Op.Pairs.get
      rintro w w' rfl rfl
      dsimp only
      rw [hx, hx']
      exact Op.Pairs.pure ⟨rfl, h⟩
  | ok _ =>
      have htidy := h.left.toGrounded.tidy (h.left.toGrounded.leadsTo_of_traverse hx)
      have htidy' := h.right.toGrounded.tidy (h.right.toGrounded.leadsTo_of_traverse hx')
      have hperm := stalePaths_perm h maxAge
      refine Op.Pairs.of_runs (purge_removed htidy maxAge) (purge_removed htidy' maxAge) ?_
      rintro _ _ st st' ⟨rfl, hremoved⟩ ⟨rfl, hremoved'⟩
      refine ⟨tally_perm hperm, h.of_removed ?_ hremoved (hremoved'.of_perm hperm)⟩
      intro path pos hmem
      obtain ⟨names, id, -, rfl, -⟩ := mem_stalePaths.1 hmem
      exact List.prefix_append ..

end Store

end Depot
