import Depot.Proofs.FileSystem.Filling
import Depot.Proofs.Store.Alike
import Depot.Proofs.Store.PairedWrites
import Depot.Proofs.Store.Staging
/-!
# Steps of stores that look alike

Each change that a store makes, and each look that it takes, comes to the same in two file systems
that look alike: it fails with the same failure, or it ends well and they still look alike.

* `Alike.store`, `Alike.create`, `Alike.unlink`, `Alike.removeTree`, `Alike.rename` — changes;
* `Alike.openRead`, `SameHandle` — files that are opened;
* `makeDirectories_pairs` — the directories above an object.
-/

namespace Depot

open FileSystem

namespace Store

variable {s : Store} {root : Position} {k : Key} {g g' fs fs' : FileSystem}

/-- Open files that are the same to whoever reads them. -/
inductive SameHandle (root names : Position) (fs fs' : FileSystem) : Handle → Handle → Prop
  | directory : SameHandle root names fs fs' .directory .directory
  | file {id id' : Nat} (hid : fs.at? (root ++ names) = some (.file id))
    (hid' : fs'.at? (root ++ names) = some (.file id')) :
    SameHandle root names fs fs' (.file id) (.file id')

theorem item?_moved {id : Nat} {f : File} (hf : fs.file? id = some f) (pos : Position) :
    (moved fs root k id).item? pos =
      if pos = root ++ k.names ∨ pos = root ++ k.staging then
        if pos = root ++ k.names then some (.file f) else none
      else fs.item? pos := by
  rw [moved, item?_bind (by simp [k.names_ne_nil]), item?_unbind (by simp [k.staging_ne_nil])]
  by_cases hnames : pos = root ++ k.names
  · rw [if_pos hnames, if_pos (Or.inl hnames), if_pos hnames, itemOf, file?_unbind, hf]
    rfl
  · by_cases hstaging : pos = root ++ k.staging
    · rw [if_neg hnames, if_pos hstaging, if_pos (Or.inr hstaging), if_neg hnames]
    · rw [if_neg hnames, if_neg hstaging, if_neg (not_or.2 ⟨hnames, hstaging⟩)]

namespace Alike

variable {names : Position} {dirs : List Bytes} {leaf : Bytes} {id id' : Nat}

theorem file (h : s.Alike root g g' fs fs') (hid : fs.at? (root ++ names) = some (.file id))
    (hid' : fs'.at? (root ++ names) = some (.file id')) :
    ∃ f, fs.file? id = some f ∧ fs'.file? id' = some f := by
  rcases h.twinAt names with ⟨hnone, -⟩ | ⟨entry, entry', he, he', htwin⟩
  · rw [hid] at hnone
    cases hnone
  · rw [hid] at he
    rw [hid'] at he'
    cases he
    cases he'
    cases htwin with
    | file hf hf' => exact ⟨_, hf, hf'⟩

/-! ## Changes -/

theorem store (h : s.Alike root g g' fs fs') (hne : names ≠ [])
    (hid : fs.at? (root ++ names) = some (.file id))
    (hid' : fs'.at? (root ++ names) = some (.file id')) (f : File) :
    s.Alike root g g' (fs.store id f) (fs'.store id' f) := by
  obtain ⟨f₀, hf, hf'⟩ := h.file hid hid'
  have hitem {fs : FileSystem} {id : Nat} (hplain : fs.PlainBelow root)
      (hid : fs.at? (root ++ names) = some (.file id)) (pos : Position) :
      (fs.store id f).item? pos =
        if pos = root ++ names then some (.file f) else fs.item? pos := by
    have hspot : fs.at? pos = some (.file id) ↔ pos = root ++ names :=
      ⟨hplain.eq_of_file hne hid, fun heq => heq ▸ hid⟩
    rw [item?_store]
    simp only [hspot]
  refine h.step (h.left.toGrounded.store hf f) (h.right.toGrounded.store hf' f) ?_
    (hitem h.left.plain hid) (hitem h.right.plain hid') rfl rfl fun horder => horder
  rintro pos rfl
  exact List.prefix_append ..

theorem of_pruned (h : s.Alike root g g' fs fs') (hne : names ≠ []) {st st' : FileSystem}
    (hst : Pruned root names fs st) (hst' : Pruned root names fs' st') (gone : Position → Prop)
    [DecidablePred gone] (hgone : ∀ pos, gone pos → root ++ names <+: pos)
    (hat : ∀ pos, st.at? pos = if gone pos then none else fs.at? pos)
    (hat' : ∀ pos, st'.at? pos = if gone pos then none else fs'.at? pos)
    (hclock : st.clock = fs.clock) (hclock' : st'.clock = fs'.clock)
    (hthinned : st.entries.pairs.Sublist fs.entries.pairs)
    (hthinned' : st'.entries.pairs.Sublist fs'.entries.pairs) : s.Alike root g g' st st' := by
  have hitem {fs st : FileSystem} (hst : Pruned root names fs st)
      (hat : ∀ pos, st.at? pos = if gone pos then none else fs.at? pos) (pos : Position) :
      st.item? pos = if gone pos then none else fs.item? pos := by
    rw [item?, item?, hat, itemOf_of_file?_eq hst.file?_eq]
    split
    · rfl
    · rfl
  exact h.step_removing (h.left.toGrounded.of_pruned hne hst)
    (h.right.toGrounded.of_pruned hne hst')
    (fun pos hpos => (List.prefix_append ..).trans (hgone pos hpos)) (hitem hst hat)
    (hitem hst' hat') hclock hclock' hthinned hthinned'

theorem unlink (h : s.Alike root g g' fs fs')
    (hnames : ∀ name ∈ dirs ++ [leaf], Pathname.IsName name) :
    Both (fun st st' => s.Alike root g g' st st') True (fs.unlink (s.pathOf (dirs ++ [leaf])))
      (fs'.unlink (s.pathOf (dirs ++ [leaf]))) := by
  rw [FileSystem.unlink, FileSystem.unlink]
  refine Both.bind (h.locateLast_pathOf hnames) ?_
  rintro _ found - - ⟨rfl, rfl⟩
  dsimp only
  rw [List.append_assoc, s.not_endsInSlash_pathOf hnames]
  rcases h.twinAt (dirs ++ [leaf]) with ⟨hnone, hnone'⟩ | ⟨entry, entry', he, he', htwin⟩
  · rw [hnone, hnone']
    exact .error _ trivial
  · rw [he, he']
    cases htwin with
    | directory mode => exact .error _ trivial
    | file hf hf' =>
        have hne : dirs ++ [leaf] ≠ [] := by simp
        have hpos : root ++ (dirs ++ [leaf]) ≠ [] := by simp
        exact .ok (h.of_pruned hne
          (h.left.wellFormed.pruned_unbind hne (by simp [he]))
          (h.right.wellFormed.pruned_unbind hne (by simp [he']))
          (fun pos => pos = root ++ (dirs ++ [leaf]))
          (fun _ heq => heq ▸ List.prefix_rfl) (at?_unbind hpos) (at?_unbind hpos) rfl rfl
          List.filter_sublist List.filter_sublist)

theorem clear (h : s.Alike root g g' fs fs') (hne : names ≠ []) {mode mode' : Nat}
    (hmode : fs.at? (root ++ names) = some (.directory mode))
    (hmode' : fs'.at? (root ++ names) = some (.directory mode')) :
    s.Alike root g g' (fs.clear (root ++ names)) (fs'.clear (root ++ names)) :=
  h.of_pruned hne (h.left.wellFormed.pruned_clear hmode) (h.right.wellFormed.pruned_clear hmode')
    (fun pos => root ++ names <+: pos ∧ pos ≠ root ++ names) (fun _ hbelow => hbelow.1)
    (at?_clear fs _) (at?_clear fs' _) rfl rfl List.filter_sublist
    List.filter_sublist

theorem prune (h : s.Alike root g g' fs fs') (hne : names ≠ []) :
    s.Alike root g g' (fs.prune (root ++ names)) (fs'.prune (root ++ names)) := by
  have hpos : root ++ names ≠ [] := by simp [hne]
  exact h.of_pruned hne (h.left.wellFormed.pruned_prune hne) (h.right.wellFormed.pruned_prune hne)
    (root ++ names <+: ·) (fun _ hbelow => hbelow) (at?_prune hpos) (at?_prune hpos) rfl rfl
    List.filter_sublist
    List.filter_sublist

theorem removeTree (h : s.Alike root g g' fs fs')
    (hnames : ∀ name ∈ dirs ++ [leaf], Pathname.IsName name) :
    (Depot.removeTree (s.pathOf (dirs ++ [leaf]))).Pairs
      (Depot.removeTree (s.pathOf (dirs ++ [leaf]))) fs fs'
      (fun _ _ st st' => s.Alike root g g' st st') (s.Alike root g g') := by
  have hne : dirs ++ [leaf] ≠ [] := by simp
  refine removeTree_pairs (fun st st' => ∃ mode mode',
    fs.locateEntry false (s.pathOf (dirs ++ [leaf])) =
      .ok (root ++ (dirs ++ [leaf]), .directory mode) ∧
    fs'.locateEntry false (s.pathOf (dirs ++ [leaf])) =
      .ok (root ++ (dirs ++ [leaf]), .directory mode') ∧
    st = fs.clear (root ++ (dirs ++ [leaf])) ∧ st' = fs'.clear (root ++ (dirs ++ [leaf]))) ?_ ?_
  · rw [emptyDirectory, emptyDirectory]
    refine Both.bind ((locateEntry_guided (h.locate_pathOf hnames false)).weaken
      (fun _ _ _ _ hfound => hfound) fun _ => h) ?_
    rintro ⟨_, entry⟩ ⟨pos, entry'⟩ hfound hfound' ⟨rfl, rfl, htwin⟩
    cases htwin with
    | directory mode => exact .ok ⟨mode, mode, hfound, hfound', rfl, rfl⟩
    | file hf hf' => exact .error _ h
  · rintro _ _ ⟨mode, mode', hfound, hfound', rfl, rfl⟩
    have hcleared := h.clear hne (at?_of_locateEntry hfound) (at?_of_locateEntry hfound')
    exact removeDirectory_clear_both (s.endsInName_pathOf hnames) hfound hfound' _
      (hcleared.locateLast_pathOf hnames) (h.prune hne) ⟨hcleared, hcleared⟩

theorem create (h : s.Alike root g g' fs fs') (k : Key) :
    Both (fun created created' => s.Alike root g g' created.1 created'.1 ∧
        ∃ id id', created.2 = .file id ∧ created'.2 = .file id' ∧
          created.1.at? (root ++ k.staging) = some (.file id) ∧
            created'.1.at? (root ++ k.staging) = some (.file id')) True
      (fs.create (s.pathOf k.staging)) (fs'.create (s.pathOf k.staging)) := by
  have hends := s.not_endsInSlash_pathOf k.isName_staging
  have hlocate := h.locate_pathOf k.isName_staging true
  rw [← Key.staging] at hends hlocate
  rw [FileSystem.create_eq hends, FileSystem.create_eq hends]
  refine Both.bind hlocate ?_
  rintro place place' hplace hplace' ⟨htwin, hpos⟩
  cases htwin with
  | occupied pos htwin =>
      obtain rfl : pos = root ++ k.staging := hpos
      cases htwin with
      | directory mode => exact .error _ trivial
      | file hf hf' =>
          have he := walk_occupied (locate_eq_ok.1 hplace).2
          have he' := walk_occupied (locate_eq_ok.1 hplace').2
          dsimp only
          rw [hf, hf', h.clock]
          exact .ok ⟨h.store k.staging_ne_nil he he' _, _, _, rfl, rfl, he, he'⟩
  | vacant dir name =>
      have hpos : dir ++ [name] = root ++ k.staging := hpos
      have hcreate : fs.create (s.pathOf k.staging) = _ := FileSystem.create_eq hends
      have hcreate' : fs'.create (s.pathOf k.staging) = _ := FileSystem.create_eq hends
      rw [hplace] at hcreate
      rw [hplace'] at hcreate'
      have htidy := h.left.toGrounded.tidy
        (h.left.toGrounded.leadsTo_of_locate k.isName_staging hplace)
      have htidy' := h.right.toGrounded.tidy
        (h.right.toGrounded.leadsTo_of_locate k.isName_staging hplace')
      obtain ⟨hstaged, -, id, -, -, hid, he, -⟩ := Staged.create htidy hcreate
      obtain ⟨hstaged', -, id', -, -, hid', he', -⟩ := Staged.create htidy' hcreate'
      refine .ok ⟨h.step hstaged.tidy.grounded hstaged'.tidy.grounded ?_
        (item?_allocate h.left.wellFormed (by simp) _) ?_ rfl rfl ?_, id, id', hid, hid', he, he'⟩
      · rintro pos rfl
        exact ⟨k.staging, hpos.symm⟩
      · rw [← h.clock]
        exact item?_allocate h.right.wellFormed (by simp) _
      · intro horder
        dsimp only
        rw [hpos, namesBelow_bind _ _ _ k.staging_ne_nil, namesBelow_bind _ _ _ k.staging_ne_nil,
          namesBelow_allocate, namesBelow_allocate, horder]

theorem rename_found (h : s.Alike root g g' fs fs')
    (hid : fs.at? (root ++ k.staging) = some (.file id))
    (hid' : fs'.at? (root ++ k.staging) = some (.file id'))
    (hsource : fs.locateLast (s.pathOf k.staging) =
      .ok (.name (root ++ k.dirs) (k.leaf ++ stagingSuffix)))
    (hsource' : fs'.locateLast (s.pathOf k.staging) =
      .ok (.name (root ++ k.dirs) (k.leaf ++ stagingSuffix)))
    (htarget : fs.locateLast (s.pathOf k.names) = .ok (.name (root ++ k.dirs) k.leaf))
    (htarget' : fs'.locateLast (s.pathOf k.names) = .ok (.name (root ++ k.dirs) k.leaf)) :
    Both (fun st st' => s.Alike root g g' st st') True
      (fs.rename (s.pathOf k.staging) (s.pathOf k.names))
      (fs'.rename (s.pathOf k.staging) (s.pathOf k.names)) := by
  have htidy := h.left.toGrounded.tidy
    (h.left.toGrounded.leadsTo_of_locateLast k.isName_staging hsource)
  have htidy' := h.right.toGrounded.tidy
    (h.right.toGrounded.leadsTo_of_locateLast k.isName_staging hsource')
  obtain ⟨f, hf, hf'⟩ := h.file hid hid'
  have hcases := htidy.rename_file k.isName_staging k.isName k.leaf_ne hsource htarget hid
  have hcases' := htidy'.rename_file k.isName_staging k.isName k.leaf_ne hsource' htarget' hid'
  rw [← Key.staging, ← Key.names] at hcases hcases'
  rcases hcases with ⟨⟨mode, hmode⟩, herror⟩ | ⟨hfree, hok⟩
  · have hmode' := at?_of_item?_eq (h.below k.names) (Or.inl rfl) hmode
    rcases hcases' with ⟨-, herror'⟩ | ⟨hfree', -⟩
    · rw [herror, herror']
      exact .error _ trivial
    · exact absurd hmode' (hfree' mode)
  · rcases hcases' with ⟨⟨mode, hmode'⟩, -⟩ | ⟨-, hok'⟩
    · exact absurd (at?_of_item?_eq (h.below k.names).symm (Or.inl rfl) hmode') (hfree mode)
    · rw [hok, hok']
      refine .ok (h.step (htidy.publish hid hf hok).1.grounded
        (htidy'.publish hid' hf' hok').1.grounded ?_ (item?_moved hf) (item?_moved hf') rfl rfl ?_)
      · rintro pos (rfl | rfl)
        · exact List.prefix_append ..
        · exact List.prefix_append ..
      · intro horder
        rw [namesBelow_bind _ _ _ k.names_ne_nil, namesBelow_bind _ _ _ k.names_ne_nil,
          namesBelow_unbind _ _ _ k.staging_ne_nil, namesBelow_unbind _ _ _ k.staging_ne_nil,
          horder]

theorem rename (h : s.Alike root g g' fs fs')
    (hid : fs.at? (root ++ k.staging) = some (.file id))
    (hid' : fs'.at? (root ++ k.staging) = some (.file id')) :
    Both (fun st st' => s.Alike root g g' st st') True
      (fs.rename (s.pathOf k.staging) (s.pathOf k.names))
      (fs'.rename (s.pathOf k.staging) (s.pathOf k.names)) := by
  have hsource := h.locateLast_pathOf k.isName_staging
  have htarget := h.locateLast_pathOf k.isName
  rw [← Key.staging] at hsource
  rw [← Key.names] at htarget
  generalize hx : fs.locateLast (s.pathOf k.staging) = x at hsource
  generalize hx' : fs'.locateLast (s.pathOf k.staging) = x' at hsource
  generalize hy : fs.locateLast (s.pathOf k.names) = y at htarget
  generalize hy' : fs'.locateLast (s.pathOf k.names) = y' at htarget
  cases hsource with
  | error e _ =>
      rw [FileSystem.rename, FileSystem.rename, hx, hx']
      exact .error e trivial
  | ok hfound =>
      obtain ⟨rfl, rfl⟩ := hfound
      cases htarget with
      | error e _ =>
          rw [FileSystem.rename, FileSystem.rename, hx, hx', ok_bind, ok_bind, hy, hy']
          exact .error e trivial
      | ok hfound =>
          obtain ⟨rfl, rfl⟩ := hfound
          exact h.rename_found hid hid' hx hx' hy hy'

/-! ## Looks -/

theorem openRead (h : s.Alike root g g' fs fs')
    (hnames : ∀ name ∈ dirs ++ [leaf], Pathname.IsName name) :
    Both (fun handle handle' => SameHandle root (dirs ++ [leaf]) fs fs' handle handle') True
      (fs.openRead (s.pathOf (dirs ++ [leaf]))) (fs'.openRead (s.pathOf (dirs ++ [leaf]))) := by
  apply Both.map
  refine (stat_guided (h.locate_pathOf hnames true)).weaken ?_ id
  rintro entry entry' hstat hstat' htwin
  have hroot := h.left.toGrounded.leadsTo_of_stat hnames hstat
  have hroot' := h.right.toGrounded.leadsTo_of_stat hnames hstat'
  have he := (((h.left.toGrounded.tidy hroot).stat_pathOf hnames).1 hstat).2
  have he' := (((h.right.toGrounded.tidy hroot').stat_pathOf hnames).1 hstat').2
  cases htwin with
  | directory mode => exact .directory
  | file hf hf' => exact .file he he'

theorem readFrom (h : s.Alike root g g' fs fs') {names : Position} {handle handle' : Handle}
    (hsame : SameHandle root names fs fs' handle handle') (offset : Nat) :
    fs'.readFrom handle' offset = fs.readFrom handle offset := by
  cases hsame with
  | directory => rfl
  | file hid hid' =>
      obtain ⟨f, hf, hf'⟩ := h.file hid hid'
      rw [FileSystem.readFrom, FileSystem.readFrom, hf, hf']

end Alike

/-! ## Directories above an object -/

theorem Alike.makesAlike {p : Pathname} (hp : s.IsAlong k p) :
    MakesAlike (s.Alike root g g') p :=
  ⟨fun h => h.makeDirectory hp, fun h => h.leadsToDirectory hp⟩

theorem makeDirectories_pairs (h : s.Alike root g g' fs fs') {parent : Pathname}
    (hparent : (s.pathOf k.staging).parent? = some parent) :
    (makeDirectories parent).Pairs (makeDirectories parent) fs fs'
      (fun _ _ st st' => s.Alike root g g' st st') (s.Alike root g g') := by
  have hroot := h.start.left.leadsTo
  have hall := (hroot.isAlong_parent hparent).ancestors hroot (parent.bytes.length + 1)
  exact makeFrom_pairs h (fun q hq => Alike.makesAlike (hall q hq)) (by simp)

end Store

end Depot
