import Depot.Proofs.FileSystem.Below
import Depot.Proofs.FileSystem.Growing
import Depot.Proofs.Pairs
/-!
# File systems that differ in one link

A link was removed, or made to lead elsewhere, and nothing else has changed.  What is done along a
way that does not meet the link comes to the same in both file systems, and they still differ in
that link only.

* `Relinked` — the relation, with one lemma for each primitive change that is made to both;
* `LinkChanged.relinked` — removing a link and letting it lead elsewhere;
* `SameWay`, `Bypass` — names along which both walks come to the same;
* `Bypass.makeDirectory` — a directory that is made along such a way.
-/

namespace Depot

namespace FileSystem

variable {spot pos root : Position} {fs fs' st st' : FileSystem}

/-- A tree in which no link holds a zero byte, as no path of the system does. -/
structure WellLinked (fs : FileSystem) : Prop extends fs.WellFormed where
  target : ∀ {pos target}, fs.at? pos = some (.link target) → 0 ∉ target.bytes

theorem WellLinked.of_links (h : fs.WellLinked) (hst : st.WellFormed)
    (hlinks : ∀ pos target, st.at? pos = some (.link target) →
      ∃ pos', fs.at? pos' = some (.link target)) : st.WellLinked where
  toWellFormed := hst
  target := by
    intro pos target ht
    obtain ⟨pos', ht'⟩ := hlinks pos target ht
    exact h.target ht'

/-- All that differs is a link at one position: one of the file systems lacks it, or it leads
elsewhere there. -/
structure Relinked (spot : Position) (fs fs' : FileSystem) : Prop where
  left : fs.WellLinked
  right : fs'.WellLinked
  rest : fs'.unbind spot = fs.unbind spot
  link : ∀ entry, fs.at? spot = some entry → entry.isLink
  link' : ∀ entry, fs'.at? spot = some entry → entry.isLink
  changed : fs'.at? spot ≠ fs.at? spot

namespace Relinked

theorem symm (h : Relinked spot fs fs') : Relinked spot fs' fs :=
  ⟨h.right, h.left, h.rest.symm, h.link', h.link, h.changed.symm⟩

theorem spot_ne_nil (h : Relinked spot fs fs') : spot ≠ [] := by
  rintro rfl
  exact h.changed rfl

theorem at?_eq (h : Relinked spot fs fs') (hpos : pos ≠ spot) : fs'.at? pos = fs.at? pos := by
  have hat := congrArg (fun st => st.at? pos) h.rest
  simpa only [at?_unbind h.spot_ne_nil, if_neg hpos] using hat

theorem file?_eq (h : Relinked spot fs fs') (id : Nat) : fs'.file? id = fs.file? id :=
  congrArg (fun st => st.file? id) h.rest

theorem clock_eq (h : Relinked spot fs fs') : fs'.clock = fs.clock :=
  congrArg (fun st => st.clock) h.rest

theorem nextId_eq (h : Relinked spot fs fs') : fs'.nextId = fs.nextId :=
  congrArg (fun st => st.nextId) h.rest

theorem kept (h : Relinked spot fs fs') {entry : Entry} (he : fs.at? pos = some entry)
    (hentry : ¬ entry.isLink) : fs'.at? pos = some entry := by
  rw [h.at?_eq, he]
  rintro rfl
  exact hentry (h.link entry he)

theorem ne_spot (h : Relinked spot fs fs') {entry : Entry} (he : fs.at? pos = some entry)
    (hentry : ¬ entry.isLink) : pos ≠ spot := by
  rintro rfl
  exact hentry (h.link entry he)

theorem concat_ne_spot (h : Relinked spot fs fs') {dir : Position}
    (hdir : ∀ mode, fs.at? dir ≠ some (.directory mode)) (name : Bytes) :
    dir ++ [name] ≠ spot := by
  rintro rfl
  have hnone {st : FileSystem} (hst : st.WellFormed)
      (hdir : ∀ mode, st.at? dir ≠ some (.directory mode)) : st.at? (dir ++ [name]) = none :=
    hst.at?_append_of_not_directory hdir (by simp)
  have hdir' : ∀ mode, fs'.at? dir ≠ some (.directory mode) := fun mode hmode =>
    hdir mode (h.symm.kept hmode (by simp [Entry.isLink]))
  exact h.changed (by rw [hnone h.left.toWellFormed hdir, hnone h.right.toWellFormed hdir'])

/-! ## Changes that are made to both -/

theorem of_spot_eq (h : Relinked spot fs fs') (hst : st.WellLinked) (hst' : st'.WellLinked)
    (hrest : st'.unbind spot = st.unbind spot) (hspot : st.at? spot = fs.at? spot)
    (hspot' : st'.at? spot = fs'.at? spot) : Relinked spot st st' where
  left := hst
  right := hst'
  rest := hrest
  link := hspot ▸ h.link
  link' := hspot' ▸ h.link'
  changed := by
    rw [hspot, hspot']
    exact h.changed

theorem store (h : Relinked spot fs fs') {id : Nat} {f₀ : File} (hf₀ : fs.file? id = some f₀)
    (f : File) : Relinked spot (fs.store id f) (fs'.store id f) :=
  h.of_spot_eq ⟨h.left.toWellFormed.store f hf₀, h.left.target⟩
    ⟨h.right.toWellFormed.store f ((h.file?_eq id).trans hf₀), h.right.target⟩
    (congrArg (fun st => st.store id f) h.rest) rfl rfl

theorem allocate (h : Relinked spot fs fs') (f : File) :
    Relinked spot (fs.allocate f).1 (fs'.allocate f).1 :=
  h.of_spot_eq ⟨h.left.toWellFormed.allocate f, h.left.target⟩
    ⟨h.right.toWellFormed.allocate f, h.right.target⟩
    (congrArg (fun st => (st.allocate f).1) h.rest) rfl rfl

theorem bind (h : Relinked spot fs fs') {dir : Position} {name : Bytes} {entry : Entry} {mode : Nat}
    (hne : dir ++ [name] ≠ spot) (hdir : fs.at? dir = some (.directory mode))
    (hname : IsEntryName name)
    (hbelow : entry.isDirectory ∨ ∀ mode, fs.at? (dir ++ [name]) ≠ some (.directory mode))
    (hfile : ∀ id, entry = .file id → ∃ f, fs.file? id = some f)
    (hlink : ∀ target, entry = .link target → 0 ∉ target.bytes) :
    Relinked spot (fs.bind (dir ++ [name]) entry) (fs'.bind (dir ++ [name]) entry) := by
  have hdir' : fs'.at? dir = some (.directory mode) := h.kept hdir (by simp [Entry.isLink])
  have hlinks {fs : FileSystem} (hfs : fs.WellLinked) {pos : Position} {target : Pathname}
      (ht : (fs.bind (dir ++ [name]) entry).at? pos = some (.link target)) :
      0 ∉ target.bytes := by
    rw [at?_bind (by simp)] at ht
    split at ht
    · exact hlink target (Option.some.inj ht)
    · exact hfs.target ht
  refine h.of_spot_eq ⟨h.left.toWellFormed.bind hdir hname hbelow hfile, hlinks h.left⟩
    ⟨h.right.toWellFormed.bind hdir' hname ?_ ?_, hlinks h.right⟩ ?_
    (by rw [at?_bind (by simp), if_neg hne.symm]) (by rw [at?_bind (by simp), if_neg hne.symm])
  · rwa [h.at?_eq hne]
  · simpa only [h.file?_eq] using hfile
  · rw [unbind_bind_of_ne hne, unbind_bind_of_ne hne, h.rest]

theorem unbind (h : Relinked spot fs fs') (hroot : pos ≠ []) (hne : pos ≠ spot)
    (hpos : ∀ mode, fs.at? pos ≠ some (.directory mode)) :
    Relinked spot (fs.unbind pos) (fs'.unbind pos) := by
  have hpos' : ∀ mode, fs'.at? pos ≠ some (.directory mode) := by rwa [h.at?_eq hne]
  have hlinks (fs : FileSystem) (pos' : Position) (target : Pathname)
      (ht : (fs.unbind pos).at? pos' = some (.link target)) :
      ∃ pos', fs.at? pos' = some (.link target) := by
    rw [at?_unbind hroot] at ht
    split at ht
    · cases ht
    · exact ⟨pos', ht⟩
  refine h.of_spot_eq (h.left.of_links (h.left.toWellFormed.unbind hroot hpos) (hlinks fs))
    (h.right.of_links (h.right.toWellFormed.unbind hroot hpos') (hlinks fs')) ?_
    (by rw [at?_unbind hroot, if_neg hne.symm]) (by rw [at?_unbind hroot, if_neg hne.symm])
  rw [unbind_comm, h.rest, unbind_comm]

theorem prune (h : Relinked spot fs fs') (hroot : pos ≠ []) :
    fs'.prune pos = fs.prune pos ∨ Relinked spot (fs.prune pos) (fs'.prune pos) := by
  by_cases hbelow : pos <+: spot
  · have hgone (st : FileSystem) : (st.unbind spot).prune pos = st.prune pos := by
      have hkeys : ∀ key : Position, (!pos.isPrefixOf key && !decide (key = spot)) =
          !pos.isPrefixOf key := by
        intro key
        by_cases hkey : key = spot
        · simp [hkey, List.isPrefixOf_iff_prefix.2 hbelow]
        · simp [hkey]
      simp [FileSystem.prune, FileSystem.unbind, Table.remove, Table.filter, List.filter_filter,
        hkeys]
    exact Or.inl (by rw [← hgone, h.rest, hgone])
  · have hlinks (fs : FileSystem) (pos' : Position) (target : Pathname)
        (ht : (fs.prune pos).at? pos' = some (.link target)) :
        ∃ pos', fs.at? pos' = some (.link target) := by
      rw [at?_prune hroot] at ht
      split at ht
      · cases ht
      · exact ⟨pos', ht⟩
    refine Or.inr (h.of_spot_eq (h.left.of_links (h.left.toWellFormed.prune hroot) (hlinks fs))
      (h.right.of_links (h.right.toWellFormed.prune hroot) (hlinks fs')) ?_
      (by rw [at?_prune hroot, if_neg hbelow]) (by rw [at?_prune hroot, if_neg hbelow]))
    rw [unbind_prune, unbind_prune, h.rest]

theorem clear (h : Relinked spot fs fs') (pos : Position) :
    fs'.clear pos = fs.clear pos ∨ Relinked spot (fs.clear pos) (fs'.clear pos) := by
  have hcomm (st : FileSystem) : (st.clear pos).unbind spot = (st.unbind spot).clear pos := by
    simp [FileSystem.clear, FileSystem.unbind, Table.remove_filter]
  by_cases hbelow : pos <+: spot ∧ spot ≠ pos
  · have hgone (st : FileSystem) : (st.unbind spot).clear pos = st.clear pos := by
      have hkeys : ∀ key : Position,
          (!decide (key = spot) && (!pos.isPrefixOf key || decide (key = pos))) =
            (!pos.isPrefixOf key || decide (key = pos)) := by
        intro key
        by_cases hkey : key = spot
        · simp [hkey, List.isPrefixOf_iff_prefix.2 hbelow.1, hbelow.2]
        · simp [hkey]
      simp [FileSystem.clear, FileSystem.unbind, Table.remove, Table.filter, List.filter_filter,
        Bool.and_comm, hkeys]
    exact Or.inl (by rw [← hgone, h.rest, hgone])
  · have hlinks (fs : FileSystem) (pos' : Position) (target : Pathname)
        (ht : (fs.clear pos).at? pos' = some (.link target)) :
        ∃ pos', fs.at? pos' = some (.link target) := by
      rw [at?_clear] at ht
      split at ht
      · cases ht
      · exact ⟨pos', ht⟩
    refine Or.inr (h.of_spot_eq (h.left.of_links (h.left.toWellFormed.clear pos) (hlinks fs))
      (h.right.of_links (h.right.toWellFormed.clear pos) (hlinks fs')) ?_
      (by rw [at?_clear, if_neg hbelow]) (by rw [at?_clear, if_neg hbelow]))
    rw [hcomm, hcomm, h.rest]

theorem atTime (h : Relinked spot fs fs') (time : Int) :
    Relinked spot { fs with clock := time } { fs' with clock := time } :=
  h.of_spot_eq
    ⟨⟨h.left.parent, h.left.name, h.left.file, h.left.fresh⟩, h.left.target⟩
    ⟨⟨h.right.parent, h.right.name, h.right.file, h.right.fresh⟩, h.right.target⟩
    (congrArg (fun st => { st with clock := time }) h.rest) rfl rfl

theorem filterMap_below (h : Relinked spot fs fs') {β : Type} {f : Position × Entry → Option β}
    (hf : ∀ names target, f (names, .link target) = none) (pos : Position) :
    (fs'.below pos).filterMap f = (fs.below pos).filterMap f := by
  have hunbind {st : FileSystem} (hlink : ∀ entry, st.at? spot = some entry → entry.isLink) :
      (st.below pos).filterMap f = ((st.unbind spot).below pos).filterMap f := by
    rw [below_eq, below_eq, List.filterMap_filterMap, List.filterMap_filterMap,
      FileSystem.unbind, Table.remove, Table.filter, List.filterMap_filter]
    apply List.filterMap_congr
    rintro ⟨key, entry⟩ hmem
    by_cases hkey : key = spot
    · have hentry : entry.isLink := by
        refine hlink entry ?_
        rw [at?, if_neg h.spot_ne_nil]
        exact Table.mem_pairs.1 (hkey ▸ hmem)
      cases entry with
      | link target => simp [hkey, Option.bind_map, hf]
      | directory mode => cases hentry
      | file id => cases hentry
      | device => cases hentry
    · simp [hkey]
  rw [hunbind h.link', hunbind h.link, h.rest]

end Relinked

/-- The link at a position was removed, or replaced by one that leads elsewhere. -/
def LinkChanged (spot : Position) (fs fs' : FileSystem) : Prop :=
  ∃ target, fs.at? spot = some (.link target) ∧
    (fs' = fs.unbind spot ∨ ∃ target' : Pathname, 0 ∉ target'.bytes ∧ target' ≠ target ∧
      fs' = (fs.unbind spot).bind spot (.link target'))

theorem LinkChanged.relinked (h : LinkChanged spot fs fs') (hfs : fs.WellLinked) :
    Relinked spot fs fs' := by
  obtain ⟨target, ht, hcases⟩ := h
  have hroot : spot ≠ [] := by
    rintro rfl
    cases ht
  have hgone : (fs.unbind spot).at? spot = none := by rw [at?_unbind hroot, if_pos rfl]
  have hunbound : (fs.unbind spot).WellLinked := by
    refine hfs.of_links (hfs.toWellFormed.unbind hroot (by simp [ht])) fun pos target' ht' => ?_
    rw [at?_unbind hroot] at ht'
    split at ht'
    · cases ht'
    · exact ⟨pos, ht'⟩
  have hlink : ∀ entry, fs.at? spot = some entry → entry.isLink := by
    intro entry he
    rw [ht] at he
    cases he
    rfl
  rcases hcases with rfl | ⟨target', hzero, hother, rfl⟩
  · refine ⟨hfs, hunbound, by simp, hlink, by simp [hgone], by simp [hgone, ht]⟩
  · obtain ⟨dir, name, rfl⟩ := (List.eq_nil_or_concat' spot).resolve_left hroot
    have hat (pos : Position) :
        ((fs.unbind (dir ++ [name])).bind (dir ++ [name]) (.link target')).at? pos =
          if pos = dir ++ [name] then some (.link target')
          else (fs.unbind (dir ++ [name])).at? pos := at?_bind hroot _ _
    obtain ⟨mode, hmode⟩ := hfs.parent ht
    have hdir : (fs.unbind (dir ++ [name])).at? dir = some (.directory mode) := by
      rw [at?_unbind hroot, if_neg (by simp), hmode]
    refine ⟨hfs, ⟨hunbound.toWellFormed.bind hdir (hfs.name ht) (Or.inr (by simp [hgone]))
      (by simp), fun {pos} target ht' => ?_⟩, by simp, hlink, ?_, ?_⟩
    · rw [hat] at ht'
      split at ht'
      · cases ht'
        exact hzero
      · exact hunbound.target ht'
    · intro entry he
      rw [hat, if_pos rfl] at he
      cases he
      rfl
    · rw [hat, if_pos rfl, ht]
      simp [hother]

/-! ## Ways that do not meet the link -/

/-- Walks along some names, and along every beginning of them, come to the same in both. -/
def SameWay (fs fs' : FileSystem) (pos : Position) (names : List Bytes) : Prop :=
  ∀ front, front <+: names → ∀ follow,
    fs'.walk follow linkLimit pos front = fs.walk follow linkLimit pos front

/-- Walks along some names from the root directory come to the same, and never ask for the link. -/
structure Bypass (spot : Position) (fs fs' : FileSystem) (names : List Bytes) : Prop where
  isName : ∀ name ∈ names, Pathname.IsName name
  same : ∀ {front}, front <+: names →
    fs'.walk true linkLimit [] front = fs.walk true linkLimit [] front
  beside : ∀ {front name dir mode}, front ++ [name] <+: names →
    fs.walk true linkLimit [] front = .ok (.occupied dir (.directory mode)) → dir ++ [name] ≠ spot

theorem at?_of_walk_eq (hwf : fs.WellFormed) {front : List Bytes} {name : Bytes} {dir : Position}
    {mode : Nat} {entry : Entry}
    (hwalk : fs.walk true linkLimit pos front = .ok (.occupied dir (.directory mode)))
    (he : fs.at? (dir ++ [name]) = some entry)
    (hsame : fs'.walk false linkLimit pos (front ++ [name]) =
      fs.walk false linkLimit pos (front ++ [name])) :
    fs'.at? (dir ++ [name]) = some entry := by
  have hname := hwf.name he
  rw [(walk_concat_iff hname.toIsName).2 ⟨dir, mode, hwalk, hname.length_le, rfl, he⟩] at hsame
  exact walk_occupied hsame

theorem SameWay.bypass (h : Relinked spot fs fs') {mode : Nat}
    (hroot : fs.at? root = some (.directory mode)) {names : List Bytes}
    (hnames : ∀ name ∈ names, Pathname.IsName name) (hway : SameWay fs fs' root names) :
    Bypass spot fs fs' (root ++ names) := by
  have hroot' : fs'.at? root = some (.directory mode) := h.kept hroot (by simp [Entry.isLink])
  have hsplit {front : List Bytes} (hfront : front <+: root ++ names) :
      front <+: root ∨ ∃ rest, rest <+: names ∧ front = root ++ rest := by
    rcases List.prefix_or_prefix_of_prefix hfront (List.prefix_append root names) with
      habove | ⟨rest, rfl⟩
    · exact Or.inl habove
    · exact Or.inr ⟨rest, (List.prefix_append_right_inj root).1 hfront, rfl⟩
  have hthrough (rest : List Bytes) :
      fs.walk true linkLimit [] (root ++ rest) = fs.walk true linkLimit root rest :=
    walk_through h.left.toWellFormed hroot rest
  have hthrough' (rest : List Bytes) :
      fs'.walk true linkLimit [] (root ++ rest) = fs'.walk true linkLimit root rest :=
    walk_through h.right.toWellFormed hroot' rest
  refine ⟨?_, ?_, ?_⟩
  · intro name hname
    rcases List.mem_append.1 hname with hname | hname
    · exact h.left.isName hroot name hname
    · exact hnames name hname
  · intro front hfront
    rcases hsplit hfront with habove | ⟨rest, hrest, rfl⟩
    · obtain ⟨mode', hmode'⟩ := h.left.directory_of_isPrefix hroot habove
      rw [walk_directory h.left.toWellFormed hmode',
        walk_directory h.right.toWellFormed (h.kept hmode' (by simp [Entry.isLink]))]
    · rw [hthrough, hthrough', hway rest hrest true]
  · intro front name dir mode' hfront hwalk
    rcases hsplit hfront with habove | ⟨rest, hrest, heq⟩
    · obtain ⟨mode₁, hmode₁⟩ := h.left.directory_of_isPrefix hroot habove
      obtain ⟨mode₂, hmode₂⟩ := h.left.parent hmode₁
      rw [walk_directory h.left.toWellFormed hmode₂] at hwalk
      cases hwalk
      exact h.ne_spot hmode₁ (by simp [Entry.isLink])
    · rcases List.eq_nil_or_concat' rest with rfl | ⟨rest, last, rfl⟩
      · -- The last name is that of the root itself.
        rw [List.append_nil] at heq
        obtain ⟨mode₂, hmode₂⟩ := h.left.parent (heq ▸ hroot)
        rw [walk_directory h.left.toWellFormed hmode₂] at hwalk
        cases hwalk
        exact h.ne_spot (heq ▸ hroot) (by simp [Entry.isLink])
      · rw [← List.append_assoc] at heq
        obtain ⟨rfl, hlast⟩ := List.append_inj' heq rfl
        cases hlast
        have hsame := hway rest ((List.prefix_append rest [name]).trans hrest) true
        rw [hthrough] at hwalk
        rintro rfl
        cases he : fs.at? (dir ++ [name]) with
        | some entry =>
            have heq := at?_of_walk_eq h.left.toWellFormed hwalk he (hway _ hrest false)
            exact h.changed (heq.trans he.symm)
        | none =>
            obtain ⟨entry, he'⟩ := Option.ne_none_iff_exists'.1 (he ▸ h.changed)
            rw [← hsame] at hwalk
            have heq := at?_of_walk_eq h.right.toWellFormed hwalk he' (hway _ hrest false).symm
            rw [he] at heq
            cases heq

namespace Bypass

variable {names front : List Bytes} {p : Pathname}

theorem at?_eq (hb : Bypass spot fs fs' names) (h : Relinked spot fs fs') {name : Bytes}
    {dir : Position} {mode : Nat} (hfront : front ++ [name] <+: names)
    (hwalk : fs.walk true linkLimit [] front = .ok (.occupied dir (.directory mode))) :
    fs'.at? (dir ++ [name]) = fs.at? (dir ++ [name]) :=
  h.at?_eq (hb.beside hfront hwalk)

theorem symm (hb : Bypass spot fs fs' names) : Bypass spot fs' fs names where
  isName := hb.isName
  same := fun hfront => (hb.same hfront).symm
  beside := fun hfront hwalk => hb.beside hfront
    (hb.same ((List.prefix_append _ _).trans hfront) ▸ hwalk)

theorem walk_eq (hb : Bypass spot fs fs' names) (h : Relinked spot fs fs')
    (hfront : front <+: names) (follow : Bool) :
    fs'.walk follow linkLimit [] front = fs.walk follow linkLimit [] front := by
  cases follow with
  | true => exact hb.same hfront
  | false =>
      -- A link that is not followed is one that both have.
      have hlink {fs fs' : FileSystem} (hb : Bypass spot fs fs' names) (h : Relinked spot fs fs')
          {pos : Position} {target : Pathname}
          (hwalk : fs.walk false linkLimit [] front = .ok (.occupied pos (.link target))) :
          fs'.walk false linkLimit [] front = .ok (.occupied pos (.link target)) := by
        rcases List.eq_nil_or_concat' front with rfl | ⟨dirs, leaf, rfl⟩
        · rw [walk_nil (at?_root fs)] at hwalk
          cases hwalk
        · have hleaf := hb.isName leaf (hfront.subset (by simp))
          obtain ⟨dir, mode, hdir, hlength, rfl, he⟩ := (walk_concat_iff hleaf).1 hwalk
          refine (walk_concat_iff hleaf).2 ⟨dir, mode, ?_, hlength, rfl, ?_⟩
          · rw [hb.same ((List.prefix_append _ _).trans hfront), hdir]
          · rw [hb.at?_eq h hfront hdir, he]
      rcases @walk_unfollowed fs linkLimit [] front with hsame | ⟨pos, target, hend⟩
      · rcases @walk_unfollowed fs' linkLimit [] front with hsame' | ⟨pos, target, hend'⟩
        · rw [hsame, hsame', hb.same hfront]
        · rw [hend', hlink hb.symm h.symm hend']
      · rw [hend, hlink hb h hend]

theorem locate_eq (hb : Bypass spot fs fs' names) (h : Relinked spot fs fs') (habs : p.isAbsolute)
    (hp : p.steps <+: names) (follow : Bool) : fs'.locate follow p = fs.locate follow p := by
  rw [locate, locate, startOf, startOf, if_pos habs, if_pos habs, hb.walk_eq h hp]

theorem locateLast_eq (hb : Bypass spot fs fs' names) (habs : p.isAbsolute)
    (hp : p.names <+: names) : fs'.locateLast p = fs.locateLast p := by
  rw [locateLast, locateLast, startOf, startOf, if_pos habs, if_pos habs,
    hb.same ((List.dropLast_prefix _).trans hp)]

theorem ne_spot_of_locateLast (hb : Bypass spot fs fs' names) (habs : p.isAbsolute)
    (hp : p.names <+: names) {dir : Position} {name : Bytes}
    (hlast : fs.locateLast p = .ok (.name dir name)) : dir ++ [name] ≠ spot := by
  obtain ⟨-, front, mode, hnames, hwalk, -⟩ := locateLast_eq_name_iff.1 hlast
  rw [startOf, if_pos habs] at hwalk
  exact hb.beside (hnames ▸ hp) hwalk

/-! ## Directories that are made along the way -/

theorem walk_into_empty {links mode : Nat} {start dir : Position} {name : Bytes} {rest : List Bytes}
    (hwalk : fs.walk true links start front = .ok (.occupied dir (.directory mode)))
    (hempty : ∀ name, fs.at? (dir ++ [name]) = none) (hname : Pathname.IsName name) :
    fs.walk true links start (front ++ name :: rest) =
      if maxNameLength < name.length then .error .nameTooLong
      else if rest = [] then .ok (.vacant dir name) else .error .noEntry := by
  obtain ⟨links', hresume⟩ := walk_resume hwalk
  rw [hresume (name :: rest) (by simp)]
  have hdir := walk_occupied hwalk
  by_cases hlong : maxNameLength < name.length
  · rw [if_pos hlong, walk_refused (turn_tooLong hdir hname hlong)]
  · rw [if_neg hlong]
    have hlooks := LooksUp.of_isName hdir hname (Nat.not_lt.1 hlong)
    exact walk_missing (hlooks.turn_missing (hempty name)) rest

theorem walk_of_bind (hwf : fs.WellFormed) {name : Bytes} {dir : Position} {mode : Nat}
    {first : List Bytes}
    (hwalk : fs.walk true linkLimit [] front = .ok (.occupied dir (.directory mode)))
    (hname : IsEntryName name) (hnone : fs.at? (dir ++ [name]) = none) (hfirst : first <+: front) :
    ∃ pos mode, fs.walk true linkLimit [] first = .ok (.occupied pos (.directory mode)) ∧
      (fs.bind (dir ++ [name]) (.directory directoryMode)).walk true linkLimit [] first =
        .ok (.occupied pos (.directory mode)) := by
  have hgrown := Grown.bind hwf (walk_occupied hwalk) hname hnone
  obtain ⟨pos, mode', hpos⟩ : ∃ pos mode,
      fs.walk true linkLimit [] first = .ok (.occupied pos (.directory mode)) := by
    obtain ⟨rest, rfl⟩ := hfirst
    by_cases hrest : rest = []
    · exact ⟨dir, mode, by rwa [hrest, List.append_nil] at hwalk⟩
    · obtain ⟨pos, mode', -, hpos, -⟩ := walk_front hrest hwalk
      exact ⟨pos, mode', hpos⟩
  exact ⟨pos, mode', hpos, walk_of_keeps hgrown.keepsPaths id hpos⟩

theorem walk_to_bound (hwf : fs.WellFormed) {name : Bytes} {dir : Position} {mode : Nat}
    (hwalk : fs.walk true linkLimit [] front = .ok (.occupied dir (.directory mode)))
    (hname : IsEntryName name) (hnone : fs.at? (dir ++ [name]) = none) :
    (fs.bind (dir ++ [name]) (.directory directoryMode)).walk true linkLimit []
        (front ++ [name]) = .ok (.occupied (dir ++ [name]) (.directory directoryMode)) ∧
      ∀ next, (fs.bind (dir ++ [name]) (.directory directoryMode)).at?
        (dir ++ [name] ++ [next]) = none := by
  obtain ⟨pos, mode', hpos, hpos'⟩ := walk_of_bind hwf hwalk hname hnone List.prefix_rfl
  rw [hwalk] at hpos
  cases hpos
  refine ⟨walk_concat_directory hpos' hname (by rw [at?_bind (by simp), if_pos rfl]), ?_⟩
  intro next
  rw [at?_bind (by simp), if_neg (by simp),
    hwf.at?_append_of_not_directory (by simp [hnone]) (by simp)]

/-- A beginning of the way ends before the new directory, at it, or below it. -/
theorem beginning_cases (hb : Bypass spot fs fs' names) {name : Bytes} {first : List Bytes}
    (hfront : front ++ [name] <+: names) (hfirst : first <+: names) :
    first <+: front ∨ first = front ++ [name] ∨
      ∃ next rest, Pathname.IsName next ∧ first = front ++ [name] ++ next :: rest := by
  rcases List.prefix_or_prefix_of_prefix hfirst hfront with hbefore | ⟨rest, rfl⟩
  · rcases List.prefix_concat_iff.1 hbefore with heq | hbefore
    · exact Or.inr (Or.inl heq)
    · exact Or.inl hbefore
  · cases rest with
    | nil => exact Or.inr (Or.inl (List.append_nil _))
    | cons next rest =>
        exact Or.inr (Or.inr ⟨next, rest, hb.isName next (hfirst.subset (by simp)), rfl⟩)

theorem bind_directory (hb : Bypass spot fs fs' names) (h : Relinked spot fs fs') {name : Bytes}
    {dir : Position} {mode : Nat} (hfront : front ++ [name] <+: names)
    (hwalk : fs.walk true linkLimit [] front = .ok (.occupied dir (.directory mode)))
    (hname : IsEntryName name) (hnone : fs.at? (dir ++ [name]) = none) :
    Bypass spot (fs.bind (dir ++ [name]) (.directory directoryMode))
      (fs'.bind (dir ++ [name]) (.directory directoryMode)) names := by
  have habove : front <+: names := (List.prefix_append _ _).trans hfront
  have hwalk' : fs'.walk true linkLimit [] front = .ok (.occupied dir (.directory mode)) := by
    rw [hb.same habove, hwalk]
  have hnone' : fs'.at? (dir ++ [name]) = none := by rw [hb.at?_eq h hfront hwalk, hnone]
  obtain ⟨hnew, hempty⟩ := walk_to_bound h.left.toWellFormed hwalk hname hnone
  obtain ⟨hnew', hempty'⟩ := walk_to_bound h.right.toWellFormed hwalk' hname hnone'
  refine ⟨hb.isName, ?_, ?_⟩
  · intro first hfirst
    rcases hb.beginning_cases hfront hfirst with hbefore | rfl | ⟨next, rest, hnext, rfl⟩
    · obtain ⟨pos, mode', hpos, hst⟩ :=
        walk_of_bind h.left.toWellFormed hwalk hname hnone hbefore
      obtain ⟨pos', mode'', hpos', hst'⟩ :=
        walk_of_bind h.right.toWellFormed hwalk' hname hnone' hbefore
      rw [hb.same (hbefore.trans habove), hpos] at hpos'
      cases hpos'
      rw [hst, hst']
    · rw [hnew, hnew']
    · rw [walk_into_empty hnew hempty hnext, walk_into_empty hnew' hempty' hnext]
  · intro first last dir' mode' hfirst hlast
    rcases hb.beginning_cases hfront ((List.prefix_append _ _).trans hfirst) with
      hbefore | rfl | ⟨next, rest, hnext, rfl⟩
    · obtain ⟨pos, mode'', hpos, hst⟩ :=
        walk_of_bind h.left.toWellFormed hwalk hname hnone hbefore
      rw [hst] at hlast
      cases hlast
      exact hb.beside hfirst hpos
    · rw [hnew] at hlast
      cases hlast
      exact h.concat_ne_spot (by simp [hnone]) last
    · rw [walk_into_empty hnew hempty hnext] at hlast
      split at hlast
      · cases hlast
      · split at hlast
        · cases hlast
        · cases hlast

theorem makeDirectory {ways : List Bytes → Prop} (h : Relinked spot fs fs')
    (hb : ∀ names, ways names → Bypass spot fs fs' names) (habs : p.isAbsolute)
    (hp : ∀ names, ways names → p.names <+: names) (hsome : ∃ names, ways names) :
    Both (fun st st' => Relinked spot st st' ∧ ∀ names, ways names → Bypass spot st st' names)
      True (fs.makeDirectory p) (fs'.makeDirectory p) := by
  obtain ⟨names, hway⟩ := hsome
  rw [FileSystem.makeDirectory, FileSystem.makeDirectory,
    (hb names hway).locateLast_eq habs (hp names hway)]
  cases hlast : fs.locateLast p with
  | error e => exact .error e trivial
  | ok last =>
      rw [ok_bind, ok_bind]
      cases last with
      | special => exact .error _ trivial
      | name dir name =>
          have hne := (hb names hway).ne_spot_of_locateLast habs (hp names hway) hlast
          obtain ⟨hname, mode, hmode⟩ := isEntryName_of_locateLast hlast
          obtain ⟨-, front, mode', hnames, hwalk, -⟩ := locateLast_eq_name_iff.1 hlast
          rw [startOf, if_pos habs] at hwalk
          dsimp only
          rw [h.at?_eq hne]
          cases he : fs.at? (dir ++ [name]) with
          | some entry => exact .error _ trivial
          | none =>
              refine .ok ⟨h.bind hne hmode hname (Or.inl rfl) (by simp) (by simp), ?_⟩
              intro names' hway'
              exact (hb names' hway').bind_directory h (hnames ▸ hp names' hway') hwalk hname he

end Bypass

end FileSystem

end Depot
