import Depot.Proofs.FileSystem.ClearPaths
/-!
# Making directories where nothing is in the way

A directory whose path is clear, and stays so while those above it are made, can be made with all
above it, unless its path ends in a dot: the system finds no directory to make at a dot, and the
directory before the dot is not among the paths above.

* `Unobstructed` — the path is clear, and stays so;
* `StuckAtDot` — all directories above are there, and the path does not name one;
* `Unobstructed.makeDirectories_runs` — the directory is made, or is stuck at a dot;
* `StuckAtDot.not_named` — that is so however the directories above are made.
-/

namespace Depot

open FileSystem

namespace Pathname

variable {p q : Pathname}

def above (p : Pathname) : List Pathname := (p.ancestors (p.bytes.length + 1)).tail

theorem above_eq (p : Pathname) :
    p.above = match p.parent? with
      | some q => q.ancestors p.bytes.length
      | none => [] := by
  rw [above, ancestors]
  rfl

theorem mem_ancestors_of_mem_above (h : q ∈ p.above) : q ∈ p.ancestors (p.bytes.length + 1) :=
  List.mem_of_mem_tail h

theorem parent_of_mem_above (h : q ∈ p.above) :
    ∃ parent bound, p.parent? = some parent ∧ q ∈ parent.ancestors bound := by
  rw [above_eq] at h
  split at h
  · exact ⟨_, _, ‹_›, h⟩
  · cases h

end Pathname

namespace FileSystem

variable {fs st : FileSystem} {p q r : Pathname} {pos : Position}

theorem Paved.le_of_named {paths : List Pathname} {st' : FileSystem} (hwf : fs.WellFormed)
    (h : fs.Paved paths st') (hst : fs.Paved paths st) (hnamed : ∀ q ∈ paths, st.NamesDirectory q)
    {pos : Position} {entry : Entry} (he : st'.at? pos = some entry) :
    st.at? pos = some entry := by
  induction h generalizing pos entry with
  | refl => exact (hst.grown hwf).kept he
  | @make st₁ st₂ q hpaved hq hmake ih =>
    obtain ⟨dir, name, hlast, hvacant, rfl⟩ := makeDirectory_eq_ok hmake
    rw [at?_bind (by simp)] at he
    split at he
    · subst pos
      cases he
      have hworking : st.workingDir = st₁.workingDir :=
        hst.same.workingDir.trans hpaved.same.workingDir.symm
      have hlast' := locateLast_of_keeps (fun _ _ he _ => ih he) hworking hlast
      obtain ⟨-, front, mode, hnames, hwalk, hdot, hup, -⟩ := locateLast_eq_name_iff.1 hlast'
      obtain ⟨pos', mode', hdirectory⟩ := hnamed q hq
      obtain ⟨links', hresume⟩ := walk_resume hwalk
      rw [hnames, hresume [name] (by simp)] at hdirectory
      obtain ⟨child, hchild, -⟩ := entry_of_walk_single hdot hup hdirectory
      -- it was not there before, so it is new in both
      have hnone : fs.at? (dir ++ [name]) = none := by
        by_contra hsome
        obtain ⟨old, hold⟩ := Option.ne_none_iff_exists'.1 hsome
        rw [(hpaved.grown hwf).kept hold] at hvacant
        cases hvacant
      rw [hchild, (hst.new hwf hnone hchild).1]
    · exact ih he

/-- Nothing is in the way to a path, whatever directories are made above it. -/
structure Unobstructed (fs : FileSystem) (p : Pathname) : Prop where
  wellFormed : fs.WellFormed
  workingDir : ∃ mode, fs.at? fs.workingDir = some (.directory mode)
  length_le : ∀ name ∈ p.names, name.length ≤ maxNameLength
  clear : fs.ClearAlong p
  /-- With double dots, the way can go through what was there and what is made. -/
  clear_above : Pathname.dotDot ∈ p.names → ∀ st, fs.Paved p.above st → st.ClearAlong p

namespace Unobstructed

theorem start (h : fs.Unobstructed p) (hst : fs.Paved p.above st) :
    ∃ mode, st.at? (st.startOf p) = some (.directory mode) := by
  obtain ⟨mode, hstart⟩ := startOf_directory h.workingDir p
  rw [startOf_eq hst.same.workingDir]
  exact ⟨mode, (hst.grown h.wellFormed).kept hstart⟩

theorem clearAlong (h : fs.Unobstructed p) (hst : fs.Paved p.above st) : st.ClearAlong p := by
  by_cases hdots : Pathname.dotDot ∈ p.names
  · exact h.clear_above hdots st hst
  · exact h.clear.of_grown h.wellFormed (hst.grown h.wellFormed) hst.same.workingDir
      (startOf_directory h.workingDir p) h.length_le hdots

theorem making (h : fs.Unobstructed p) (hcheck : checkPath p = .ok ()) (hst : fs.Paved p.above st)
    (hq : q ∈ p.ancestors (p.bytes.length + 1)) (hne : q ≠ .empty) : Making st q := by
  obtain ⟨hnames, habs⟩ := Pathname.names_isPrefix_of_mem_ancestors hq
  exact (h.clearAlong hst).making (hst.grown h.wellFormed).wellFormed (h.start hst) h.length_le
    hnames habs (checkPath_of_isPrefix (Pathname.bytes_isPrefix_of_mem_ancestors hq)
      (fun hnil => hne (congrArg Pathname.mk hnil)) hcheck)

end Unobstructed

/-- The directories above a path are there, and its own cannot be made, as it ends in a dot. -/
structure StuckAtDot (fs : FileSystem) (p : Pathname) (st : FileSystem) : Prop where
  paved : fs.Paved p.above st
  dotted : p.names.getLast? = some Pathname.dot
  parent : ∀ q, p.parent? = some q → st.NamesDirectory q
  unnamed : ¬ st.NamesDirectory p

theorem StuckAtDot.not_named {st' : FileSystem} (hwf : fs.WellFormed) (h : fs.StuckAtDot p st)
    (hst' : fs.Paved p.above st') : ¬ st'.NamesDirectory p := by
  rintro ⟨pos, mode, hwalk⟩
  have hnamed : ∀ q ∈ p.above, st.NamesDirectory q := by
    intro q hq
    obtain ⟨parent, bound, hparent, hq⟩ := Pathname.parent_of_mem_above hq
    obtain ⟨hnames, habs⟩ := Pathname.names_isPrefix_of_mem_ancestors hq
    obtain ⟨pos', mode', hwalk'⟩ := h.parent parent hparent
    rw [startOf, ← habs, ← startOf] at hwalk'
    exact walk_of_isPrefix hnames hwalk'
  have hkeep : st'.KeepsPaths st := fun _ _ he _ => hst'.le_of_named hwf h.paved hnamed he
  refine h.unnamed ⟨pos, mode, ?_⟩
  rw [startOf_eq (h.paved.same.workingDir.trans hst'.same.workingDir.symm)]
  exact walk_of_keeps hkeep id hwalk

theorem dot_of_noParent {front : List Bytes} {last : Bytes} (hparent : q.parent? = some r)
    (hr : fs.NamesDirectory r) (hnames : q.names = front ++ [last])
    (hfront : ∀ pos mode, fs.walk true linkLimit (fs.startOf q) front ≠
      .ok (.occupied pos (.directory mode))) : last = Pathname.dot := by
  obtain ⟨pos, mode, hwalk⟩ := hr
  obtain ⟨mid, cut, tail, hsplit, hmid, htail, -⟩ := Pathname.names_of_parent? hparent
  rw [startOf, (Pathname.names_isPrefix_of_parent? hparent).2, ← startOf] at hwalk
  rcases List.eq_nil_or_concat' tail with rfl | ⟨dots, dot, rfl⟩
  · obtain ⟨rfl, -⟩ := List.append_inj' (hnames.symm.trans hsplit) rfl
    exact absurd (walk_append_dots hmid hwalk) (hfront pos mode)
  · have hlast := congrArg List.getLast? (hnames.symm.trans hsplit)
    rw [List.getLast?_concat, ← List.cons_append, ← List.append_assoc,
      List.getLast?_concat] at hlast
    rw [Option.some.inj hlast]
    exact htail dot (by simp)

end FileSystem

/-! ## The way down, and the way up -/

variable {fs st : FileSystem} {p q r : Pathname}

theorem makePending_cons_runs {rest : List Pathname} {failed : IoError → FileSystem → Prop}
    (hmaking : Making st q)
    (hmade : ∀ st', st.makeDirectory q = .ok st' →
      (makePending rest).Runs st' (fun _ => True) (fun _ _ => True) failed)
    (hthere : st.leadsToDirectory q = true →
      (makePending rest).Runs st (fun _ => True) (fun _ _ => True) failed)
    (hno : ∀ front last, q.names = front ++ [last] →
      (∀ pos mode, st.walk true linkLimit (st.startOf q) front ≠
        .ok (.occupied pos (.directory mode))) → failed .noEntry st) :
    (makePending (q :: rest)).Runs st (fun _ => True) (fun _ _ => True) failed := by
  rw [makePending]
  refine Op.Runs.bind _ (Op.Runs.attempt_change_ fun _ _ => trivial) ?_
  rintro result st' (⟨rfl, hok⟩ | ⟨e, rfl, he, rfl⟩)
  · exact hmade st' hok
  · apply Op.Runs.get
    rintro w rfl
    cases hmaking with
    | made st' h =>
      rw [h] at he
      cases he
    | there h hleads =>
      rw [h] at he
      cases he
      rw [if_pos ⟨rfl, hleads⟩]
      exact hthere hleads
    | noParent h front last hnames hfront =>
      rw [h] at he
      cases he
      rw [if_neg fun hkind => absurd hkind.1 (by decide)]
      exact Op.Runs.throw (hno front last hnames hfront)

theorem makeFrom_cons_runs {pending rest : List Pathname} {failed : IoError → FileSystem → Prop}
    (hmaking : q ≠ .empty → Making st q)
    (htop : q = .empty ∨ q.parent? = none →
      (makePending pending).Runs st (fun _ => True) (fun _ _ => True) failed)
    (hmade : ∀ st', st.makeDirectory q = .ok st' →
      (makePending pending).Runs st' (fun _ => True) (fun _ _ => True) failed)
    (hthere : st.leadsToDirectory q = true →
      (makePending pending).Runs st (fun _ => True) (fun _ _ => True) failed)
    (hup : ∀ upper, q.parent? = some upper →
      (makeFrom (q :: pending) rest).Runs st (fun _ => True) (fun _ _ => True) failed) :
    (makeFrom pending (q :: rest)).Runs st (fun _ => True) (fun _ _ => True) failed := by
  rw [makeFrom]
  split
  · exact htop ‹_›
  rename_i hbelow
  rw [not_or] at hbelow
  obtain ⟨upper, hupper⟩ := Option.ne_none_iff_exists'.1 hbelow.2
  refine Op.Runs.bind _ (Op.Runs.attempt_change_ fun _ _ => trivial) ?_
  rintro result st' (⟨rfl, hok⟩ | ⟨e, rfl, he, rfl⟩)
  · exact hmade st' hok
  cases hmaking hbelow.1 with
  | made st' h =>
    rw [h] at he
    cases he
  | there h hleads =>
    rw [h] at he
    cases he
    dsimp only
    rw [if_neg (by decide)]
    apply Op.Runs.get
    rintro w rfl
    rw [if_pos ⟨rfl, hleads⟩]
    exact hthere hleads
  | noParent h front last hnames hfront =>
    rw [h] at he
    cases he
    have hkind : IoError.noEntry.kind = .notFound := rfl
    dsimp only
    rw [if_pos hkind]
    exact hup upper hupper

namespace FileSystem.Unobstructed

theorem makePending_runs (h : fs.Unobstructed p) (hcheck : checkPath p = .ok ())
    {mids : List Pathname} (hst : fs.Paved p.above st) (hq : st.NamesDirectory q)
    (hchain : List.IsChain (fun upper lower => lower.parent? = some upper) (q :: (mids ++ [p])))
    (hmids : ∀ r ∈ mids, r ∈ p.above) :
    (makePending (mids ++ [p])).Runs st (fun _ => True) (fun _ _ => True)
      (fun _ st' => fs.StuckAtDot p st') := by
  have hne : p ≠ .empty :=
    fun hempty => (checkPath_eq_ok.1 hcheck).2.1 (congrArg Pathname.bytes hempty)
  induction mids generalizing q st with
  | nil =>
    obtain ⟨hparent, -⟩ := List.isChain_cons_cons.1 hchain
    have hp : p ∈ p.ancestors (p.bytes.length + 1) := by
      rw [Pathname.ancestors]
      exact List.mem_cons_self
    refine makePending_cons_runs (h.making hcheck hst hp hne) (fun _ _ => Op.Runs.pure trivial)
      (fun _ => Op.Runs.pure trivial) fun front last hnames hfront => ⟨hst, ?_, ?_, ?_⟩
    · rw [hnames, List.getLast?_concat, dot_of_noParent hparent hq hnames hfront]
    · intro upper hupper
      rw [hparent] at hupper
      exact Option.some.inj hupper ▸ hq
    · rintro ⟨pos, mode, hwalk⟩
      obtain ⟨pos', mode', hwalk'⟩ :=
        walk_of_isPrefix (hnames ▸ List.prefix_append front [last]) hwalk
      exact hfront pos' mode' hwalk'
  | cons r mids ih =>
    obtain ⟨hparent, hrest⟩ := List.isChain_cons_cons.1 hchain
    have hr := hmids r List.mem_cons_self
    have hrest' : ∀ r' ∈ mids, r' ∈ p.above := fun r' hr' => hmids r' (List.mem_cons_of_mem r hr')
    have hmem := Pathname.mem_ancestors_of_mem_above hr
    refine makePending_cons_runs (h.making hcheck hst hmem ?_) ?_ ?_ ?_
    · rintro rfl
      cases hparent
    · exact fun st' hmake => ih (hst.make hr hmake) (.of_makeDirectory hmake) hrest hrest'
    · exact fun hleads => ih hst (.of_leadsToDirectory hleads) hrest hrest'
    · -- no parent ends in a dot, but for a dot alone
      intro front last hnames hfront
      have hdot := dot_of_noParent hparent hq hnames hfront
      obtain ⟨child, hchild⟩ : ∃ child : Pathname, child.parent? = some r := by
        cases mids with
        | nil => exact ⟨p, (List.isChain_cons_cons.1 hrest).1⟩
        | cons child mids => exact ⟨child, (List.isChain_cons_cons.1 hrest).1⟩
      have hbare := Pathname.bare_of_parent? hchild (by rw [hnames, List.getLast?_concat, hdot])
      have hnil : front ++ [last] = [] ++ [Pathname.dot] := hnames.symm.trans hbare
      obtain ⟨rfl, -⟩ := List.append_inj' hnil rfl
      obtain ⟨mode, hstart⟩ := h.start hst
      rw [startOf, (Pathname.names_isPrefix_of_mem_ancestors hmem).2, ← startOf] at hfront
      exact absurd (walk_nil hstart true linkLimit) (hfront _ mode)

theorem makeFrom_runs (h : fs.Unobstructed p) (hcheck : checkPath p = .ok ())
    {mids : List Pathname} {bound : Nat} (hst : fs.Paved p.above st)
    (hchain : List.IsChain (fun upper lower => lower.parent? = some upper) (q :: (mids ++ [p])))
    (hmids : ∀ r ∈ mids, r ∈ p.above) (habove : ∀ r ∈ q.ancestors bound, r ∈ p.above)
    (hbound : q.bytes.length < bound) :
    (makeFrom (mids ++ [p]) (q.ancestors bound)).Runs st (fun _ => True) (fun _ _ => True)
      (fun _ st' => fs.StuckAtDot p st') := by
  induction bound generalizing q mids with
  | zero => omega
  | succ bound ih =>
    rw [Pathname.ancestors] at habove ⊢
    have hq : q ∈ p.above := habove q List.mem_cons_self
    have hmem := Pathname.mem_ancestors_of_mem_above hq
    refine makeFrom_cons_runs (h.making hcheck hst hmem) ?_ ?_ ?_ ?_
    · -- the root directory, or where the path starts
      intro htop
      refine h.makePending_runs hcheck hst ?_ hchain hmids
      by_cases hempty : q = .empty
      · subst q
        obtain ⟨mode, hstart⟩ := h.start hst
        rw [startOf, ← (Pathname.names_isPrefix_of_mem_ancestors hmem).2, ← startOf] at hstart
        exact ⟨_, mode, walk_nil hstart true linkLimit⟩
      · exact .of_parent?_eq_none hempty (htop.resolve_left hempty)
    · exact fun st' hmake =>
        h.makePending_runs hcheck (hst.make hq hmake) (.of_makeDirectory hmake) hchain hmids
    · exact fun hleads =>
        h.makePending_runs hcheck hst (.of_leadsToDirectory hleads) hchain hmids
    · intro upper hupper
      rw [hupper] at habove ⊢
      rw [← List.cons_append]
      refine ih (List.isChain_cons_cons.2 ⟨hupper, hchain⟩) ?_
        (fun r hr => habove r (List.mem_cons_of_mem q hr)) ?_
      · rintro r (_ | ⟨_, hr⟩)
        · exact hq
        · exact hmids r hr
      · have := (Pathname.bytes_of_parent? hupper).2
        omega

theorem makeDirectories_runs (h : fs.Unobstructed p) (hcheck : checkPath p = .ok ()) :
    (makeDirectories p).Runs fs (fun _ => True) (fun _ _ => True)
      (fun _ st => fs.StuckAtDot p st) := by
  have hp : p ∈ p.ancestors (p.bytes.length + 1) := by
    rw [Pathname.ancestors]
    exact List.mem_cons_self
  rw [makeDirectories, Pathname.ancestors]
  refine makeFrom_cons_runs (h.making hcheck .refl hp) (fun _ => Op.Runs.pure trivial)
    (fun _ _ => Op.Runs.pure trivial) (fun _ => Op.Runs.pure trivial) fun upper hupper => ?_
  rw [hupper]
  -- nothing is pending but the path
  have hchain : List.IsChain (fun upper lower : Pathname => lower.parent? = some upper)
      (upper :: ([] ++ [p])) := List.isChain_cons_cons.2 ⟨hupper, .singleton p⟩
  refine h.makeFrom_runs hcheck .refl hchain (by simp) (fun r hr => ?_)
    (Pathname.bytes_of_parent? hupper).2
  rw [Pathname.above_eq, hupper]
  exact hr

end FileSystem.Unobstructed

end Depot
