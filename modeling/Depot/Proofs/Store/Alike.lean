import Depot.Proofs.FileSystem.Below
import Depot.Proofs.FileSystem.Guided
import Depot.Proofs.Store.Grounded
/-!
# Stores that look alike

Two file systems agree on a store when its path takes the same way to the root in both and the same
items are below the root.  Whatever else they hold, no walk that the store asks for can tell them
apart; and what such a walk finds missing is below the root.  `Alike` is what stays of this while
the store works: nothing has changed outside of the root, and what is below is still the same.

* `Agrees`, `Alike` — the relation at the start and later on;
* `Alike.step` — a change that is made to both, below the root;
* `Alike.locate_pathOf`, `Alike.locateLast_pathOf` — walks to an object;
* `Alike.leadsToDirectory`, `Alike.makeDirectory` — paths above an object.
-/

namespace Depot

open FileSystem

namespace Store

variable {s : Store} {root pos : Position} {g g' fs fs' st st' : FileSystem}

/-- Two file systems with the same items below the root of a store, and with a common part that
leads to it. -/
structure Agrees (s : Store) (root : Position) (fs fs' : FileSystem) : Prop where
  left : s.Tidy fs root
  right : s.Tidy fs' root
  way : ∃ way, s.LeadsTo way root ∧ way.KeepsPaths fs ∧ way.KeepsPaths fs'
  below : ∀ names, fs'.item? (root ++ names) = fs.item? (root ++ names)

/-- A store that has changed nothing outside of its root. -/
structure Confined (s : Store) (root : Position) (g fs : FileSystem) : Prop extends
    s.Grounded root fs where
  outside : ∀ {pos}, ¬ root <+: pos → fs.item? pos = g.item? pos

/-- Two stores that looked alike at the start and do so still. -/
structure Alike (s : Store) (root : Position) (g g' fs fs' : FileSystem) : Prop where
  start : s.Agrees root g g'
  left : s.Confined root g fs
  right : s.Confined root g' fs'
  below : ∀ names, fs'.item? (root ++ names) = fs.item? (root ++ names)
  clock : fs'.clock = fs.clock
  /-- If both kept the entries below the root in one order at the start, they do so still. -/
  order : g'.namesBelow root = g.namesBelow root → fs'.namesBelow root = fs.namesBelow root

theorem Agrees.refl (h : s.Tidy fs root) : s.Agrees root fs fs :=
  ⟨h, h, ⟨fs, h.leadsTo, KeepsPaths.refl fs, KeepsPaths.refl fs⟩, fun _ => rfl⟩

theorem Agrees.alike (h : s.Agrees root fs fs') (time : Int) :
    s.Alike root fs fs' { fs with clock := time } { fs' with clock := time } :=
  ⟨h, ⟨h.left.grounded.atTime time, fun _ => rfl⟩, ⟨h.right.grounded.atTime time, fun _ => rfl⟩,
    h.below, rfl, id⟩

theorem Grounded.kind (h : s.Grounded root fs) {names : Position} {entry : Entry}
    (he : fs.at? (root ++ names) = some entry) : entry.isDirectory ∨ entry.isFile := by
  by_cases hne : names = []
  · obtain ⟨mode, hmode⟩ := h.isDirectory
    rw [hne, List.append_nil, hmode] at he
    cases he
    exact Or.inl rfl
  · rcases h.plain names entry hne he with ⟨mode, rfl⟩ | ⟨id, rfl, -⟩
    · exact Or.inl rfl
    · exact Or.inr rfl

namespace Alike

variable {names : Position} {dirs : List Bytes} {leaf : Bytes}

theorem atTime (h : s.Alike root g g' fs fs') (time : Int) :
    s.Alike root g g' { fs with clock := time } { fs' with clock := time } :=
  ⟨h.start, ⟨h.left.toGrounded.atTime time, h.left.outside⟩,
    ⟨h.right.toGrounded.atTime time, h.right.outside⟩, h.below, rfl, h.order⟩

theorem step (h : s.Alike root g g' fs fs') (hst : s.Grounded root st)
    (hst' : s.Grounded root st') {spots : Position → Prop} [DecidablePred spots]
    {content : Position → Option Item} (hspots : ∀ pos, spots pos → root <+: pos)
    (heq : ∀ pos, st.item? pos = if spots pos then content pos else fs.item? pos)
    (heq' : ∀ pos, st'.item? pos = if spots pos then content pos else fs'.item? pos)
    (hclock : st.clock = fs.clock) (hclock' : st'.clock = fs'.clock)
    (horder : fs'.namesBelow root = fs.namesBelow root →
      st'.namesBelow root = st.namesBelow root) :
    s.Alike root g g' st st' where
  start := h.start
  left := ⟨hst, fun {pos} hpos => by
    rw [heq, if_neg (fun hspot => hpos (hspots pos hspot)), h.left.outside hpos]⟩
  right := ⟨hst', fun {pos} hpos => by
    rw [heq', if_neg (fun hspot => hpos (hspots pos hspot)), h.right.outside hpos]⟩
  below := by
    intro names
    rw [heq, heq', h.below]
  clock := by rw [hclock, hclock', h.clock]
  order := fun hstart => horder (h.order hstart)

theorem step_removing (h : s.Alike root g g' fs fs') (hst : s.Grounded root st)
    (hst' : s.Grounded root st') {spots : Position → Prop} [DecidablePred spots]
    (hspots : ∀ pos, spots pos → root <+: pos)
    (heq : ∀ pos, st.item? pos = if spots pos then none else fs.item? pos)
    (heq' : ∀ pos, st'.item? pos = if spots pos then none else fs'.item? pos)
    (hclock : st.clock = fs.clock) (hclock' : st'.clock = fs'.clock)
    (hthinned : st.entries.pairs.Sublist fs.entries.pairs)
    (hthinned' : st'.entries.pairs.Sublist fs'.entries.pairs) : s.Alike root g g' st st' := by
  refine h.step hst hst' hspots heq heq' hclock hclock' fun horder => ?_
  refine namesBelow_of_sublist horder hthinned hthinned' fun names => ?_
  rw [← item?_eq_none_iff hst'.wellFormed, ← item?_eq_none_iff hst.wellFormed, heq, heq', h.below]

theorem twinAt (h : s.Alike root g g' fs fs') (names : Position) :
    TwinAt fs fs' (root ++ names) := by
  cases he : fs.at? (root ++ names) with
  | none =>
      have hnone := (item?_eq_none_iff h.left.wellFormed).2 he
      rw [← h.below, item?_eq_none_iff h.right.wellFormed] at hnone
      exact Or.inl ⟨he, hnone⟩
  | some entry =>
      obtain ⟨entry', he', htwin⟩ :=
        exists_twin h.left.wellFormed (h.left.kind he) he (h.below names)
      exact Or.inr ⟨entry, entry', he, he', htwin⟩

/-- Outside of the root, the directories and links of the common part are still there. -/
theorem guided (h : s.Alike root g g' fs fs') :
    ∃ way, s.LeadsTo way root ∧ Guided way root fs fs' := by
  obtain ⟨way, hway, hkeep, hkeep'⟩ := h.start.way
  refine ⟨way, hway, ?_, ?_, ?_, ?_⟩
  · exact fun hpos he hkind =>
      at?_of_item?_eq (h.left.outside hpos) hkind (hkeep _ _ he hkind)
  · exact fun hpos he hkind =>
      at?_of_item?_eq (h.right.outside hpos) hkind (hkeep' _ _ he hkind)
  · rintro pos target ⟨names, rfl⟩ ht
    rcases h.start.left.grounded.kind (hkeep _ _ ht (Or.inr rfl)) with hkind | hkind
    · cases hkind
    · cases hkind
  · rintro pos ⟨names, rfl⟩
    exact h.twinAt names

/-! ## Walks -/

theorem walk_front (h : s.Alike root g g' fs fs') {front : List Bytes}
    (hfront : front <+: s.root.names) :
    ∃ pos, SameEnd fs fs' pos (fs.walk true linkLimit [] front)
      (fs'.walk true linkLimit [] front) := by
  obtain ⟨way, hway, hguided⟩ := h.guided
  obtain ⟨pos, mode, hwalk⟩ := hway.walk_of_isPrefix hfront
  exact ⟨pos, walk_guided hguided hwalk⟩

theorem walk_root (h : s.Alike root g g' fs fs') :
    SameEnd fs fs' root (fs.walk true linkLimit [] s.root.names)
      (fs'.walk true linkLimit [] s.root.names) := by
  obtain ⟨way, hway, hguided⟩ := h.guided
  obtain ⟨mode, hwalk⟩ := hway.walk_names
  exact walk_guided hguided hwalk

theorem walk_names (h : s.Alike root g g' fs fs')
    (hnames : ∀ name ∈ names, Pathname.IsName name) (hne : names ≠ []) (follow : Bool) :
    SameEnd fs fs' (root ++ names) (fs.walk follow linkLimit [] (s.root.names ++ names))
      (fs'.walk follow linkLimit [] (s.root.names ++ names)) := by
  have hfront := h.walk_root
  generalize hw : fs.walk true linkLimit [] s.root.names = x at hfront
  generalize hw' : fs'.walk true linkLimit [] s.root.names = x' at hfront
  cases hfront with
  | error e _ =>
      rw [walk_append_of_error hw hne, walk_append_of_error hw' hne]
      exact .error e trivial
  | ok hplace =>
      obtain ⟨hplace, hpos⟩ := hplace
      cases hplace with
      | vacant dir name =>
          rw [walk_append_of_vacant hw hne, walk_append_of_vacant hw' hne]
          exact .error _ trivial
      | occupied pos htwin =>
          obtain rfl : pos = root := hpos
          obtain ⟨links, hresume⟩ := walk_resume hw
          obtain ⟨links', hresume'⟩ := walk_resume hw'
          rw [hresume names hne, hresume' names hne,
            walk_eq_straight h.left.plain follow links hnames,
            walk_eq_straight h.right.plain follow links' hnames]
          refine straight_guided ?_ List.prefix_rfl names
          rintro pos ⟨names, rfl⟩
          exact h.twinAt names

theorem walk_below (h : s.Alike root g g' fs fs')
    (hnames : ∀ name ∈ names, Pathname.IsName name) :
    SameEnd fs fs' (root ++ names) (fs.walk true linkLimit [] (s.root.names ++ names))
      (fs'.walk true linkLimit [] (s.root.names ++ names)) := by
  by_cases hne : names = []
  · rw [hne, List.append_nil, List.append_nil]
    exact h.walk_root
  · exact h.walk_names hnames hne true

/-! ## Paths of objects -/

theorem locate_pathOf (h : s.Alike root g g' fs fs')
    (hnames : ∀ name ∈ dirs ++ [leaf], Pathname.IsName name) (follow : Bool) :
    SameEnd fs fs' (root ++ (dirs ++ [leaf])) (fs.locate follow (s.pathOf (dirs ++ [leaf])))
      (fs'.locate follow (s.pathOf (dirs ++ [leaf]))) := by
  have hroot := h.start.left.leadsTo
  apply locate_guided
  rw [hroot.startOf_pathOf hnames, hroot.startOf_pathOf hnames, pathOf,
    Pathname.steps_join_ofNames hroot.bytes_ne_nil hnames]
  exact h.walk_names hnames (by simp) follow

theorem locateLast_below (h : s.Alike root g g' fs fs') {p : Pathname} (habs : p.isAbsolute)
    (hdirs : ∀ name ∈ dirs, Pathname.IsName name)
    (hsplit : p.names = s.root.names ++ (dirs ++ [leaf])) :
    Both (fun found found' => found' = found ∧
      (found = .special ∨ found = .name (root ++ dirs) leaf)) True (fs.locateLast p)
      (fs'.locateLast p) := by
  rw [← List.append_assoc] at hsplit
  apply locateLast_guided hsplit
  rw [startOf, startOf, if_pos habs, if_pos habs]
  exact h.walk_below hdirs

theorem locateLast_pathOf (h : s.Alike root g g' fs fs')
    (hnames : ∀ name ∈ dirs ++ [leaf], Pathname.IsName name) :
    Both (fun found found' => found' = found ∧ found = .name (root ++ dirs) leaf) True
      (fs.locateLast (s.pathOf (dirs ++ [leaf]))) (fs'.locateLast (s.pathOf (dirs ++ [leaf]))) := by
  have hroot := h.start.left.leadsTo
  have habs : (s.pathOf (dirs ++ [leaf])).isAbsolute = true := by
    rw [pathOf, Pathname.isAbsolute_join_ofNames hroot.bytes_ne_nil hnames, hroot.isAbsolute]
  refine (h.locateLast_below habs (fun name hname => hnames name (by simp [hname]))
    (s.names_pathOf hnames)).weaken ?_ id
  rintro found found' hfound - ⟨rfl, rfl | hname⟩
  · exact absurd hfound (locateLast_ne_special hnames)
  · exact ⟨rfl, hname⟩

end Alike

/-! ## Paths above an object -/

namespace Alike

variable {k : Key} {p : Pathname}

theorem walk_along (h : s.Alike root g g' fs fs') (hp : s.IsAlong k p) :
    ∃ pos, SameEnd fs fs' pos (fs.walk true linkLimit [] p.names)
      (fs'.walk true linkLimit [] p.names) := by
  rcases hp.names_cases with hfront | ⟨dirs, leaf, hbelow, hnames⟩
  · exact h.walk_front hfront
  · rw [hnames]
    exact ⟨_, h.walk_below fun name hname => k.isName_of_mem_dirs (hbelow.subset hname)⟩

theorem leadsToDirectory (h : s.Alike root g g' fs fs') (hp : s.IsAlong k p) :
    fs'.leadsToDirectory p = fs.leadsToDirectory p := by
  obtain ⟨pos, hend⟩ := h.walk_along hp
  have hlocate : SameEnd fs fs' pos (fs.locate true p) (fs'.locate true p) := by
    apply locate_guided
    rw [startOf, startOf, if_pos hp.isAbsolute, if_pos hp.isAbsolute, hp.steps]
    exact hend
  exact leadsToDirectory_guided hlocate

theorem locateLast_along (h : s.Alike root g g' fs fs') (hp : s.IsAlong k p) :
    Both (fun found found' => found' = found ∧ ∀ dir name, found = .name dir name →
      root <+: dir ++ [name] ∨ ∃ entry, fs.at? (dir ++ [name]) = some entry ∧
        fs'.at? (dir ++ [name]) = some entry) True (fs.locateLast p) (fs'.locateLast p) := by
  rcases hp.names_cases with hfront | ⟨dirs, leaf, hbelow, hsplit⟩
  case inr =>
    have hdirs : ∀ name ∈ dirs, Pathname.IsName name := fun name hname =>
      k.isName_of_mem_dirs (hbelow.subset (List.mem_append_left _ hname))
    refine (h.locateLast_below hp.isAbsolute hdirs hsplit).weaken ?_ id
    rintro found found' - - ⟨rfl, hfound⟩
    refine ⟨rfl, fun dir name heq => Or.inl ?_⟩
    rcases hfound with rfl | rfl
    · cases heq
    · cases heq
      rw [List.append_assoc]
      exact List.prefix_append ..
  rcases List.eq_nil_or_concat' p.names with hnil | ⟨front, last, hnames⟩
  · rw [locateLast, locateLast, hnil]
    cases checkPath p with
    | error e => exact .error e trivial
    | ok u => exact .ok ⟨rfl, fun dir name heq => by cases heq⟩
  · -- The common part has an entry of this name, for its walk to the root goes on from there.
    obtain ⟨way, hway, hguided⟩ := h.guided
    obtain ⟨pos, mode, hwalk⟩ := hway.walk_of_isPrefix hfront
    rw [hnames] at hwalk
    obtain ⟨dir, mode', links, hwalk', hlast⟩ := FileSystem.walk_front (by simp) hwalk
    have hend := walk_guided hguided hwalk'
    refine (locateLast_guided hnames (by
      rwa [startOf, startOf, if_pos hp.isAbsolute, if_pos hp.isAbsolute])).weaken ?_ id
    rintro found found' hfound - ⟨rfl, hcases⟩
    refine ⟨rfl, fun dir' name heq => ?_⟩
    rcases hcases with rfl | rfl
    · cases heq
    cases heq
    obtain ⟨-, -, -, -, -, hdot, hup, -⟩ := locateLast_eq_name_iff.1 hfound
    obtain ⟨child, hchild, hkind⟩ := entry_of_walk_single hdot hup hlast
    by_cases hbelow : root <+: dir ++ [last]
    · exact Or.inl hbelow
    · exact Or.inr ⟨child, hguided.left hbelow hchild hkind, hguided.right hbelow hchild hkind⟩

theorem makeDirectory (h : s.Alike root g g' fs fs') (hp : s.IsAlong k p) :
    Both (fun st st' => s.Alike root g g' st st') True (fs.makeDirectory p)
      (fs'.makeDirectory p) := by
  rw [FileSystem.makeDirectory, FileSystem.makeDirectory]
  refine Both.bind (h.locateLast_along hp) ?_
  rintro _ found hlast hlast' ⟨rfl, hfound⟩
  cases found with
  | special => exact .error _ trivial
  | name dir name =>
      dsimp only
      rcases hfound dir name rfl with hbelow | ⟨entry, he, he'⟩
      · obtain ⟨names, hnames⟩ := hbelow
        rcases hnames ▸ h.twinAt names with ⟨hnone, hnone'⟩ | ⟨entry, entry', he, he', -⟩
        · rw [hnone, hnone']
          obtain ⟨hname, mode, hmode⟩ := isEntryName_of_locateLast hlast
          obtain ⟨-, mode', hmode'⟩ := isEntryName_of_locateLast hlast'
          have hne : names ≠ [] := by
            rintro rfl
            obtain ⟨mode₀, hmode₀⟩ := h.left.isDirectory
            rw [← hnames, List.append_nil, hmode₀] at hnone
            cases hnone
          refine .ok (h.step
            (h.left.toGrounded.of_grown (Grown.bind h.left.wellFormed hmode hname hnone))
            (h.right.toGrounded.of_grown (Grown.bind h.right.wellFormed hmode' hname hnone')) ?_
            (item?_bind (by simp) _) (item?_bind (by simp) _) rfl rfl ?_)
          · rintro pos rfl
            exact ⟨names, hnames⟩
          · intro horder
            rw [← hnames, namesBelow_bind _ _ _ hne, namesBelow_bind _ _ _ hne, horder]
        · rw [he, he']
          exact .error _ trivial
      · rw [he, he']
        exact .error _ trivial

end Alike

end Store

end Depot
