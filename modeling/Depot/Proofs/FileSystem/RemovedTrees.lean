import Depot.Proofs.FileSystem.Below
import Depot.Proofs.FileSystem.Thinned
import Depot.Proofs.Pairs
/-!
# Removing trees

A directory is removed with everything in it by being emptied and then removed by its path.  The
path may lead through what was in the directory, by a link back out of it, and then it leads nowhere
any more: the empty directory stays.

* `ComesBy`, `isMissing_of_comesBy`, `walk_of_comesBy` — a walk after removals, by the positions it
  comes by;
* `ReturnsThrough`, `removeDirectory_of_returnsThrough`, `removeDirectory_of_stays` — whether the
  emptied directory is found again;
* `removeTree_runs`, `removeTree_pairs` — the removal of a tree, and two removals side by side.
-/

namespace Depot

namespace FileSystem

variable {fs fs' : FileSystem} {follow : Bool} {links mode : Nat} {pos spot : Position}
  {steps front : List Bytes} {leaf : Bytes} {entry : Entry} {p : Pathname}

/-! ## What a walk comes by -/

/-- The walk looks at what stands at the position. -/
inductive ComesBy (fs : FileSystem) (follow : Bool) (spot : Position) :
    Nat → Position → List Bytes → Prop
  | here {links : Nat} {steps : List Bytes} : ComesBy fs follow spot links spot steps
  | into {links : Nat} {pos next : Position} {name : Bytes} {rest : List Bytes}
    (hturn : fs.turn pos name = .into next) (hrest : ComesBy fs follow spot links next rest) :
    ComesBy fs follow spot links pos (name :: rest)
  | atLink {links : Nat} {pos : Position} {name : Bytes} {rest : List Bytes} {target : Pathname}
    (hturn : fs.turn pos name = .link target) (hspot : pos ++ [name] = spot) :
    ComesBy fs follow spot links pos (name :: rest)
  | link {links : Nat} {pos : Position} {name : Bytes} {rest : List Bytes} {target : Pathname}
    (hturn : fs.turn pos name = .link target) (hgo : rest ≠ [] ∨ follow = true)
    (hrest : ComesBy fs follow spot links (if target.isAbsolute then [] else pos)
      (target.steps ++ rest)) :
    ComesBy fs follow spot (links + 1) pos (name :: rest)

theorem isMissing_of_turn {name : Bytes} {rest : List Bytes}
    (h : fs.turn pos name = .refused .noEntry ∨ fs.turn pos name = .missing) :
    IsMissing (fs.walk follow links pos (name :: rest)) := by
  rcases h with h | h
  · rw [walk_refused h]
    rfl
  · rw [walk_missing h]
    split
    · trivial
    · rfl

/-- A walk that came by what has gone finds nothing. -/
theorem isMissing_of_comesBy (h : Thinned fs fs') (hcome : fs.ComesBy follow spot links pos steps)
    (hgone : fs'.at? spot = none) : IsMissing (fs'.walk follow links pos steps) := by
  induction hcome with
  | @here links steps =>
      cases steps with
      | nil =>
          rw [walk_nil_of_none hgone]
          rfl
      | cons name rest => exact isMissing_of_turn (Or.inl (turn_of_none hgone name))
  | @into links pos next name rest hturn _ ih =>
      rcases turn_of_thinned h pos name with hsame | hmissing
      · rw [walk_into (hsame.trans hturn)]
        exact ih
      · exact isMissing_of_turn hmissing
  | @atLink links pos name rest target hturn hspot =>
      rcases turn_of_thinned h pos name with hsame | hmissing
      · rw [← hspot, (turn_eq_link_iff.1 (hsame.trans hturn)).2] at hgone
        cases hgone
      · exact isMissing_of_turn hmissing
  | @link links pos name rest target hturn hgo _ ih =>
      rcases turn_of_thinned h pos name with hsame | hmissing
      · rw [walk_link (hsame.trans hturn) hgo]
        exact ih
      · exact isMissing_of_turn hmissing

/-- A walk that comes by nothing that has gone does what it did. -/
theorem walk_of_comesBy (h : Thinned fs fs') {place : Place}
    (hwalk : fs.walk follow links pos steps = .ok place)
    (hkept : ∀ spot entry, fs.ComesBy follow spot links pos steps → fs.at? spot = some entry →
      fs'.at? spot = some entry) : fs'.walk follow links pos steps = .ok place := by
  induction walksTo_of_walk hwalk with
  | here hpos => exact walk_nil (hkept _ _ .here hpos) _ _
  | @into links pos next name rest place hturn hrest ih =>
      have hturn' : fs'.turn pos name = .into next := by
        rcases turn_eq_into_iff.1 hturn with
          ⟨⟨mode, hpos⟩, hdots⟩ | ⟨hlooks, rfl, child, hchild, hlink⟩
        · exact turn_dots (hkept _ _ .here hpos) hdots
        · obtain ⟨mode, hpos⟩ := hlooks.isDirectory
          exact (hlooks.of_directory ⟨mode, hkept _ _ .here hpos⟩).turn_into
            (hkept _ _ (.into hturn .here) hchild) hlink
      rw [walk_into hturn']
      exact ih hrest.walk_eq fun spot entry hcome => hkept spot entry (.into hturn hcome)
  | vacant hturn =>
      obtain ⟨hlooks, hnone⟩ := turn_eq_missing_iff.1 hturn
      obtain ⟨mode, hpos⟩ := hlooks.isDirectory
      have hlooks' := hlooks.of_directory ⟨mode, hkept _ _ .here hpos⟩
      rw [walk_missing (hlooks'.turn_missing (none_of_thinned h hnone)), if_pos rfl]
  | atLink hfollow hturn =>
      subst hfollow
      obtain ⟨hlooks, ht⟩ := turn_eq_link_iff.1 hturn
      obtain ⟨mode, hpos⟩ := hlooks.isDirectory
      exact walk_atLink ((hlooks.of_directory ⟨mode, hkept _ _ .here hpos⟩).turn_link
        (hkept _ _ (.atLink hturn rfl) ht))
  | link hturn hgo hrest ih =>
      obtain ⟨hlooks, ht⟩ := turn_eq_link_iff.1 hturn
      obtain ⟨mode, hpos⟩ := hlooks.isDirectory
      have hturn' := (hlooks.of_directory ⟨mode, hkept _ _ .here hpos⟩).turn_link
        (hkept _ _ (.atLink hturn rfl) ht)
      rw [walk_link hturn' hgo]
      exact ih hrest.walk_eq fun spot entry hcome => hkept spot entry (.link hturn hgo hcome)

theorem isPrefix_of_comesBy (hcome : fs.ComesBy follow spot links pos steps)
    (hlink : ∀ front entry, front ≠ [] → front <+: steps → fs.at? (pos ++ front) = some entry →
      ¬ entry.isLink)
    (hnames : ∀ name ∈ steps, Pathname.IsName name) : spot <+: pos ++ steps := by
  have hunlinked {pos : Position} {name : Bytes} {rest : List Bytes} {target : Pathname}
      (hturn : fs.turn pos name = .link target)
      (hlink : ∀ front entry, front ≠ [] → front <+: name :: rest →
        fs.at? (pos ++ front) = some entry → ¬ entry.isLink) : False :=
    hlink [name] _ (by simp) (by simp) (turn_eq_link_iff.1 hturn).2 rfl
  induction hcome with
  | here => exact List.prefix_append ..
  | @into links pos next name rest hturn _ ih =>
      rcases turn_eq_into_iff.1 hturn with ⟨-, hdots⟩ | ⟨-, rfl, -⟩
      · have hname := hnames name (by simp)
        cases hdots with
        | dot => exact (hname.ne_dot rfl).elim
        | dotDot => exact (hname.ne_dotDot rfl).elim
      · have hnext := ih (fun front entry hne hfront he => ?_) fun other hother =>
          hnames other (by simp [hother])
        · simpa using hnext
        · rw [List.append_assoc] at he
          exact hlink _ entry (by simp) ((List.cons_prefix_cons).2 ⟨rfl, hfront⟩) he
  | atLink hturn _ => exact (hunlinked hturn hlink).elim
  | link hturn _ _ => exact (hunlinked hturn hlink).elim

namespace EndsInName

theorem locateLast_of_missing (hp : EndsInName p front leaf) (hcheck : checkPath p = .ok ())
    (hmissing : IsMissing (fs.walk true linkLimit (fs.startOf p) front)) :
    fs.locateLast p = .error .noEntry := by
  rw [locateLast, hcheck, ok_bind, hp.names_eq]
  simp only [List.getLast?_append, List.getLast?_singleton, Option.some_or, List.dropLast_concat]
  generalize fs.walk true linkLimit (fs.startOf p) front = result at hmissing ⊢
  rcases result with e | ⟨pos, entry⟩ | ⟨dir, name⟩
  · obtain rfl : e = .noEntry := hmissing
    rfl
  · exact hmissing.elim
  · rfl

theorem linkStat_of_missing (hp : EndsInName p front leaf) (hcheck : checkPath p = .ok ())
    (hmissing : IsMissing (fs.walk true linkLimit (fs.startOf p) front)) :
    fs.linkStat p = .error .noEntry := by
  have hwalk : fs.walk false linkLimit (fs.startOf p) (front ++ [leaf]) = .error .noEntry := by
    cases hfront : fs.walk true linkLimit (fs.startOf p) front with
    | error e =>
        rw [hfront] at hmissing
        obtain rfl : e = .noEntry := hmissing
        exact walk_append_of_error hfront (by simp) false
    | ok place =>
        cases place with
        | occupied pos entry =>
            rw [hfront] at hmissing
            exact hmissing.elim
        | vacant dir name => exact walk_append_of_vacant hfront (by simp) false
  rw [linkStat, locateEntry, locate, hcheck, ok_bind, hp.steps_eq, hwalk]
  rfl

end EndsInName

/-! ## Emptying and removing a directory -/

theorem emptyDirectory_eq_ok :
    fs.emptyDirectory p = .ok fs' ↔
      ∃ pos mode, fs.locateEntry false p = .ok (pos, .directory mode) ∧ fs' = fs.clear pos := by
  rw [emptyDirectory, bind_eq_ok]
  constructor
  · rintro ⟨⟨pos, entry⟩, hlocate, h⟩
    dsimp only at h
    split at h
    · rename_i hentry
      obtain ⟨mode, rfl⟩ := Entry.isDirectory_iff.1 hentry
      cases h
      exact ⟨pos, mode, hlocate, rfl⟩
    · cases h
  · rintro ⟨pos, mode, hlocate, rfl⟩
    exact ⟨_, hlocate, rfl⟩

theorem thinned_clear (fs : FileSystem) (pos : Position) : Thinned fs (fs.clear pos) := by
  intro pos' entry he
  rw [at?_clear] at he
  split at he
  · cases he
  · exact he

theorem at?_clear_self (fs : FileSystem) (pos : Position) :
    (fs.clear pos).at? pos = fs.at? pos := by
  rw [at?_clear, if_neg fun h => h.2 rfl]

theorem below_clear (fs : FileSystem) (pos : Position) : (fs.clear pos).below pos = [] := by
  rw [List.eq_nil_iff_forall_not_mem]
  rintro ⟨names, entry⟩ hmem
  obtain ⟨hne, he⟩ := mem_below.1 hmem
  rw [at?_clear, if_pos ⟨List.prefix_append .., by simpa using hne⟩] at he
  cases he

theorem removeDirectory_of_name {dir : Position} {name : Bytes}
    (hlast : fs.locateLast p = .ok (.name dir name))
    (hat : fs.at? (dir ++ [name]) = some (.directory mode))
    (hempty : fs.below (dir ++ [name]) = []) :
    fs.removeDirectory p = .ok (fs.unbind (dir ++ [name])) := by
  rw [removeDirectory, hlast, ok_bind]
  dsimp only
  rw [hat]
  dsimp only
  rw [hempty]
  rfl

theorem removeDirectory_of_error {e : IoError} (hlast : fs.locateLast p = .error e) :
    fs.removeDirectory p = .error e := by
  rw [removeDirectory, hlast, error_bind]

/-- The path leads through what is below the directory that it names. -/
def ReturnsThrough (fs : FileSystem) (p : Pathname) (pos : Position) : Prop :=
  ∃ spot, pos <+: spot ∧ spot ≠ pos ∧
    fs.ComesBy true spot linkLimit (fs.startOf p) p.names.dropLast

theorem not_returnsThrough_of_way (hp : EndsInName p front leaf)
    (hlink : ∀ above entry, above ≠ [] → above <+: front →
      fs.at? (fs.startOf p ++ above) = some entry → ¬ entry.isLink)
    (hnames : ∀ name ∈ front, Pathname.IsName name) :
    ¬ fs.ReturnsThrough p (fs.startOf p ++ (front ++ [leaf])) := by
  rintro ⟨spot, hbelow, -, hcome⟩
  rw [hp.names_eq, List.dropLast_concat] at hcome
  have hlength := (hbelow.trans (isPrefix_of_comesBy hcome hlink hnames)).length_le
  simp only [List.length_append, List.length_cons, List.length_nil] at hlength
  omega

/-- Once the directory is empty, a path through what was in it leads nowhere. -/
theorem isMissing_of_returnsThrough (hp : EndsInName p front leaf)
    (hreturns : fs.ReturnsThrough p pos) :
    IsMissing ((fs.clear pos).walk true linkLimit (fs.startOf p) front) := by
  obtain ⟨spot, hbelow, hne, hcome⟩ := hreturns
  rw [hp.names_eq, List.dropLast_concat] at hcome
  exact isMissing_of_comesBy (thinned_clear fs pos) hcome
    (by rw [at?_clear, if_pos ⟨hbelow, hne⟩])

theorem removeDirectory_of_returnsThrough (hp : EndsInName p front leaf)
    (hcheck : checkPath p = .ok ()) (hreturns : fs.ReturnsThrough p pos) :
    (fs.clear pos).locateLast p = .error .noEntry ∧
      (fs.clear pos).removeDirectory p = .error .noEntry := by
  have hlast := hp.locateLast_of_missing hcheck (isMissing_of_returnsThrough hp hreturns)
  exact ⟨hlast, removeDirectory_of_error hlast⟩

theorem removeDirectory_of_stays (hp : EndsInName p front leaf)
    (hlocate : fs.locateEntry false p = .ok (pos, .directory mode))
    (hstays : ¬ fs.ReturnsThrough p pos) :
    (∃ dir, (fs.clear pos).locateLast p = .ok (.name dir leaf)) ∧
      (fs.clear pos).removeDirectory p = .ok (fs.prune pos) := by
  obtain ⟨hcheck, dir, mode', hwalk, hlength, rfl, he⟩ := hp.locateEntry_iff.1 hlocate
  have hsame : (fs.clear (dir ++ [leaf])).walk true linkLimit (fs.startOf p) front =
      .ok (.occupied dir (.directory mode')) := by
    refine walk_of_comesBy (thinned_clear fs _) hwalk fun spot entry hcome he => ?_
    rw [at?_clear, if_neg, he]
    rintro ⟨hbelow, hne⟩
    refine hstays ⟨spot, hbelow, hne, ?_⟩
    rwa [hp.names_eq, List.dropLast_concat]
  have hlast : (fs.clear (dir ++ [leaf])).locateLast p = .ok (.name dir leaf) :=
    hp.locateLast_of_walk hcheck hsame hlength
  refine ⟨⟨dir, hlast⟩, ?_⟩
  rw [removeDirectory_of_name hlast ((at?_clear_self fs _).trans he) (below_clear fs _),
    unbind_clear]

/-- In two file systems, the emptied directory goes in both or in none if the last name of its path
is still found in both or in none. -/
theorem removeDirectory_clear_both {pos' : Position} {mode' : Nat} (hp : EndsInName p front leaf)
    (hlocate : fs.locateEntry false p = .ok (pos, .directory mode))
    (hlocate' : fs'.locateEntry false p = .ok (pos', .directory mode'))
    (same : LastName → LastName → Prop) {failed : Prop}
    (hlast : Both same True ((fs.clear pos).locateLast p) ((fs'.clear pos').locateLast p))
    {done : FileSystem → FileSystem → Prop} (hdone : done (fs.prune pos) (fs'.prune pos'))
    (hfailed : failed) :
    Both done failed ((fs.clear pos).removeDirectory p) ((fs'.clear pos').removeDirectory p) := by
  have hcheck := (hp.locateEntry_iff.1 hlocate).1
  by_cases hreturns : fs.ReturnsThrough p pos
  · obtain ⟨hnone, hremove⟩ := removeDirectory_of_returnsThrough hp hcheck hreturns
    by_cases hreturns' : fs'.ReturnsThrough p pos'
    · rw [hremove, (removeDirectory_of_returnsThrough hp hcheck hreturns').2]
      exact .error _ hfailed
    · obtain ⟨⟨dir, hsome⟩, -⟩ := removeDirectory_of_stays hp hlocate' hreturns'
      rw [hnone, hsome] at hlast
      cases hlast
  · obtain ⟨⟨dir, hsome⟩, hremove⟩ := removeDirectory_of_stays hp hlocate hreturns
    by_cases hreturns' : fs'.ReturnsThrough p pos'
    · rw [hsome, (removeDirectory_of_returnsThrough hp hcheck hreturns').1] at hlast
      cases hlast
    · rw [hremove, (removeDirectory_of_stays hp hlocate' hreturns').2]
      exact .ok hdone

end FileSystem

/-! ## The removal of a tree -/

open FileSystem

variable {fs fs' : FileSystem} {p : Pathname} {front : List Bytes} {leaf : Bytes}

/-- A removal that finds a directory ends well: it leaves the directory empty, or takes it, too. -/
theorem removeTree_run {mode : Nat} {pos : Position} (hp : EndsInName p front leaf) {w : World}
    (hlocate : w.fs.locateEntry false p = .ok (pos, .directory mode)) :
    (w.fs.ReturnsThrough p pos ∧ (removeTree p).run w = (.ok (), w.advance (w.fs.clear pos))) ∨
      (¬ w.fs.ReturnsThrough p pos ∧ (removeTree p).run w =
        (.ok (), (w.advance (w.fs.clear pos)).advance (w.fs.prune pos))) := by
  have hempty := emptyDirectory_eq_ok.2 ⟨pos, mode, hlocate, rfl⟩
  have hfs : (w.advance (w.fs.clear pos)).fs = w.fs.clear pos := rfl
  rw [removeTree, Op.run_bind, Op.run_change_, hempty]
  dsimp only
  rw [Op.run_bind, Op.run_attempt, Op.run_change_, hfs]
  by_cases hreturns : w.fs.ReturnsThrough p pos
  · refine Or.inl ⟨hreturns, ?_⟩
    rw [(removeDirectory_of_returnsThrough hp (hp.locateEntry_iff.1 hlocate).1 hreturns).2]
    rfl
  · refine Or.inr ⟨hreturns, ?_⟩
    rw [(removeDirectory_of_stays hp hlocate hreturns).2]
    rfl

theorem removeTree_runs (hp : EndsInName p front leaf) {passes : FileSystem → Prop}
    {done : Unit → FileSystem → Prop} {failed : IoError → FileSystem → Prop}
    (hclear : ∀ pos mode, fs.locateEntry false p = .ok (pos, .directory mode) →
      passes (fs.clear pos) ∧ done () (fs.clear pos))
    (hprune : ∀ pos mode, fs.locateEntry false p = .ok (pos, .directory mode) →
      passes (fs.prune pos) ∧ done () (fs.prune pos))
    (hfailed : ∀ e, failed e fs) : (removeTree p).Runs fs passes done failed := by
  rintro w rfl
  cases hempty : w.fs.emptyDirectory p with
  | error e =>
      rw [removeTree, Op.run_bind, Op.run_change_, hempty]
      exact ⟨[], rfl, by simp, hfailed e⟩
  | ok st =>
      obtain ⟨pos, mode, hlocate, rfl⟩ := emptyDirectory_eq_ok.1 hempty
      have hcleared := hclear pos mode hlocate
      rcases removeTree_run hp hlocate with ⟨-, hrun⟩ | ⟨-, hrun⟩
      · rw [hrun]
        exact ⟨[w.fs.clear pos], rfl, by simpa using hcleared.1, hcleared.2⟩
      · have hpruned := hprune pos mode hlocate
        rw [hrun]
        exact ⟨[w.fs.prune pos, w.fs.clear pos], rfl, by simpa using ⟨hpruned.1, hcleared.1⟩,
          hpruned.2⟩

theorem removeTree_pairs (mid : FileSystem → FileSystem → Prop)
    {done failed : FileSystem → FileSystem → Prop}
    (hempty : Both mid (failed fs fs') (fs.emptyDirectory p) (fs'.emptyDirectory p))
    (hremove : ∀ st st', mid st st' → Both done (done st st' ∧ failed st st')
      (st.removeDirectory p) (st'.removeDirectory p)) :
    (removeTree p).Pairs (removeTree p) fs fs' (fun _ _ => done) failed := by
  rw [removeTree]
  refine Op.Pairs.bind (fun _ _ => mid) (Op.Pairs.change_ hempty) ?_
  intro _ _ st st' hmid
  refine Op.Pairs.bind (fun result result' st₁ st₁' => result' = result ∧ done st₁ st₁' ∧
    (result = .ok () ∨ failed st₁ st₁')) ?_ ?_
  · apply Op.Pairs.attempt
    apply Op.Pairs.change_
    exact (hremove st st' hmid).weaken (fun _ _ _ _ hdone => ⟨rfl, hdone, Or.inl rfl⟩)
      fun hstays e => ⟨rfl, hstays.1, Or.inr hstays.2⟩
  · rintro _ result st₁ st₁' ⟨rfl, hdone, hfailed⟩
    cases result with
    | ok u => exact Op.Pairs.pure hdone
    | error e =>
        dsimp only
        split
        · exact Op.Pairs.pure hdone
        · exact Op.Pairs.throw (hfailed.resolve_left (by simp))

end Depot
