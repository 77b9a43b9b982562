import Depot.Proofs.FileSystem.RemovedTrees
import Depot.Proofs.Store.Absence
import Depot.Proofs.Store.NameGrammar
/-!
# Deletions in any tree

Whatever is below the root, with links that lead anywhere or nowhere, a deletion takes the entry
that stands at the path of the name, and what is below it if it is a real directory.  It follows no
link, so nothing else goes, and afterwards every operation on the name says that nothing is there.
A deletion fails only if there is no such entry.

A directory is looked for once more when it is empty.  If the path of the name leads through what
was in the directory, it is not found any more: the deletion ends well, and the directory stays.

* `LostOnly`, `lost_clear`, `lost_prune`, `lost_unbind` — what a removal takes and what it leaves;
* `delete_of_directory`, `delete_of_other` — deletions of an entry that is there;
* `delete_exact` — both outcomes of a deletion;
* `directory_outlives_deletion` — a deletion that leaves a directory behind.
-/

namespace Depot

open FileSystem

namespace FileSystem

variable {fs fs' : FileSystem} {pos : Position} {entry : Entry} {mode : Nat}
  {gone : Position → Prop}

/-- The second file system is the first without the entries at certain positions. -/
structure LostOnly (gone : Position → Prop) (fs fs' : FileSystem) : Prop where
  none_of_gone : ∀ pos, gone pos → fs'.at? pos = none
  at?_eq : ∀ pos, ¬ gone pos → fs'.at? pos = fs.at? pos
  /-- Kinds, bytes, modes and targets of everything else are as they were. -/
  view_eq : ∀ pos, ¬ gone pos → fs'.view pos = fs.view pos
  /-- All files, be they bound or not, the working directory and the clock. -/
  rest_eq : fs' = { fs with entries := fs'.entries }

namespace LostOnly

theorem of_at?_eq (hgone : ∀ pos, gone pos → fs'.at? pos = none)
    (hkept : ∀ pos, ¬ gone pos → fs'.at? pos = fs.at? pos)
    (hrest : fs' = { fs with entries := fs'.entries }) : LostOnly gone fs fs' where
  none_of_gone := hgone
  at?_eq := hkept
  view_eq := by
    have hnode : fs'.nodeOf = fs.nodeOf := by
      rw [hrest]
      rfl
    intro pos hpos
    rw [view, view, hkept pos hpos, hnode]
  rest_eq := hrest

theorem thinned (h : LostOnly gone fs fs') : Thinned fs fs' := by
  intro pos entry he
  by_cases hpos : gone pos
  · rw [h.none_of_gone pos hpos] at he
    cases he
  · exact (h.at?_eq pos hpos).symm.trans he

theorem workingDir_eq (h : LostOnly gone fs fs') : fs'.workingDir = fs.workingDir := by
  rw [h.rest_eq]

end LostOnly

/-- What is physically below a position, the position itself left out. -/
def Beneath (pos pos' : Position) : Prop := pos <+: pos' ∧ pos' ≠ pos

/-- An entry and, if it is a real directory, everything physically below it. -/
def Subtree (pos : Position) (entry : Entry) (pos' : Position) : Prop :=
  pos' = pos ∨ entry.isDirectory ∧ Beneath pos pos'

theorem subtree_directory {pos' : Position} :
    Subtree pos (.directory mode) pos' ↔ pos <+: pos' := by
  constructor
  · rintro (rfl | ⟨-, hbelow, -⟩)
    · exact List.prefix_rfl
    · exact hbelow
  · intro hbelow
    by_cases hself : pos' = pos
    · exact Or.inl hself
    · exact Or.inr ⟨rfl, hbelow, hself⟩

theorem lost_clear (pos : Position) (fs : FileSystem) : LostOnly (Beneath pos) fs (fs.clear pos) :=
  LostOnly.of_at?_eq (fun pos' hbelow => (at?_clear fs pos pos').trans (if_pos hbelow))
    (fun pos' hbelow => (at?_clear fs pos pos').trans (if_neg hbelow)) rfl

theorem lost_prune (hpos : pos ≠ []) (fs : FileSystem) :
    LostOnly (Subtree pos (.directory mode)) fs (fs.prune pos) := by
  refine LostOnly.of_at?_eq (fun pos' hbelow => ?_) (fun pos' hbelow => ?_) rfl
  · rw [at?_prune hpos, if_pos (subtree_directory.1 hbelow)]
  · rw [at?_prune hpos, if_neg fun h => hbelow (subtree_directory.2 h)]

theorem lost_unbind (hpos : pos ≠ []) (hentry : ¬ entry.isDirectory) (fs : FileSystem) :
    LostOnly (Subtree pos entry) fs (fs.unbind pos) := by
  have hself (pos' : Position) : Subtree pos entry pos' ↔ pos' = pos := by
    simp only [Subtree, hentry, Bool.false_eq_true, false_and, or_false]
  refine LostOnly.of_at?_eq (fun pos' hpos' => ?_) (fun pos' hpos' => ?_) rfl
  · rw [at?_unbind hpos, if_pos ((hself pos').1 hpos')]
  · rw [at?_unbind hpos, if_neg fun h => hpos' ((hself pos').2 h)]

theorem EndsInName.unlink_of_found {p : Pathname} {front : List Bytes} {leaf : Bytes}
    (hp : EndsInName p front leaf) (hlocate : fs.locateEntry false p = .ok (pos, entry))
    (hentry : ¬ entry.isDirectory) : fs.unlink p = .ok (fs.unbind pos) := by
  obtain ⟨hcheck, dir, mode, hwalk, hlength, rfl, he⟩ := hp.locateEntry_iff.1 hlocate
  rw [unlink, hp.locateLast_of_walk hcheck hwalk hlength, ok_bind]
  dsimp only
  rw [he]
  cases entry with
  | directory mode' => exact absurd rfl hentry
  | file id => rw [hp.bare]; rfl
  | link target => rw [hp.bare]; rfl
  | device => rw [hp.bare]; rfl

end FileSystem

namespace Store

variable {s : Store} {name : String} {path : Pathname} {w : World} {pos : Position}
  {entry : Entry}

/-! ## Deletions -/

theorem delete_of_removal (hname : s.resolve name = .ok path)
    (hlink : w.fs.linkStat path = .ok entry) {w' : World}
    (hremove : (if entry.isDirectory then removeTree path else Op.change_ (·.unlink path)).run w =
      (.ok (), w')) : ∃ event, (s.delete name).run w = (.ok (), w'.report event) := by
  refine ⟨Event.mk .debug objectTarget "Object deleted" [("path", .plain path.display)], ?_⟩
  rw [Store.delete, hname, Op.run_lift_ok, Op.run_bind, Op.run_mapError, Op.run_query, hlink]
  dsimp only [Except.mapError]
  rw [Op.run_bind, Op.run_mapError, hremove]
  rfl

theorem delete_of_directory {mode : Nat} (hname : s.resolve name = .ok path)
    (hlocate : w.fs.locateEntry false path = .ok (pos, .directory mode)) :
    ∃ w', (s.delete name).run w = (.ok (), w') ∧ w'.fs.linkStat path = .error .noEntry ∧
      (¬ w.fs.ReturnsThrough path pos → LostOnly (Subtree pos (.directory mode)) w.fs w'.fs) ∧
      (w.fs.ReturnsThrough path pos → LostOnly (Beneath pos) w.fs w'.fs) := by
  obtain ⟨k, -, rfl, -⟩ := resolve_eq_ok hname
  have hp := s.endsInName_pathOf k.isName
  have hlink := linkStat_eq_ok.2 ⟨pos, locateEntry_eq_ok.1 hlocate⟩
  rcases removeTree_run hp hlocate with ⟨hreturns, hrun⟩ | ⟨hstays, hrun⟩
  · -- The way leads through what has gone, and so it does when the name is asked for again.
    have hmissing := isMissing_of_returnsThrough hp hreturns
    obtain ⟨event, hdelete⟩ := delete_of_removal hname hlink hrun
    refine ⟨_, hdelete, ?_, fun hstays => absurd hreturns hstays, fun _ => lost_clear pos w.fs⟩
    exact hp.linkStat_of_missing (hp.locateEntry_iff.1 hlocate).1 hmissing
  · have hlost := @lost_prune pos mode (hp.position_ne_nil hlocate) w.fs
    obtain ⟨event, hdelete⟩ := delete_of_removal hname hlink hrun
    refine ⟨_, hdelete, ?_, fun _ => hlost, fun hreturns => absurd hreturns hstays⟩
    exact linkStat_of_removed hlost.thinned hlost.workingDir_eq hlocate
      (hlost.none_of_gone pos (Or.inl rfl))

theorem delete_of_other (hname : s.resolve name = .ok path)
    (hlocate : w.fs.locateEntry false path = .ok (pos, entry)) (hentry : ¬ entry.isDirectory) :
    ∃ w', (s.delete name).run w = (.ok (), w') ∧ w'.fs.linkStat path = .error .noEntry ∧
      LostOnly (Subtree pos entry) w.fs w'.fs := by
  obtain ⟨k, -, rfl, -⟩ := resolve_eq_ok hname
  have hp := s.endsInName_pathOf k.isName
  have hlink := linkStat_eq_ok.2 ⟨pos, locateEntry_eq_ok.1 hlocate⟩
  have hrun : (if entry.isDirectory then removeTree (s.pathOf k.names)
      else Op.change_ (·.unlink (s.pathOf k.names))).run w =
        (.ok (), w.advance (w.fs.unbind pos)) := by
    have hunlink : w.fs.unlink (s.pathOf k.names) = .ok (w.fs.unbind pos) :=
      hp.unlink_of_found hlocate hentry
    rw [if_neg hentry, Op.run_change_, hunlink]
  have hlost := lost_unbind (hp.position_ne_nil hlocate) hentry w.fs
  obtain ⟨event, hdelete⟩ := delete_of_removal hname hlink hrun
  refine ⟨_, hdelete, ?_, hlost⟩
  exact linkStat_of_removed hlost.thinned hlost.workingDir_eq hlocate
    (hlost.none_of_gone pos (Or.inl rfl))

/-- A deletion that ends well has found an entry at the path of the name.  It has taken exactly that
entry, with what was below it if it was a real directory — unless the path leads through what was
below it: then all of that has gone, and the directory has stayed.  Either way every operation on
the name says then that nothing is there.  A deletion that fails has found no entry, and changes
nothing. -/
theorem delete_exact {s : Store} {name : String} {path : Pathname}
    (hname : s.resolve name = .ok path) (w : World) :
    match (s.delete name).run w with
    | (.ok (), w') => ∃ pos entry, w.fs.locateEntry false path = .ok (pos, entry) ∧
        (¬ (entry.isDirectory ∧ w.fs.ReturnsThrough path pos) →
          LostOnly (Subtree pos entry) w.fs w'.fs) ∧
        (entry.isDirectory ∧ w.fs.ReturnsThrough path pos → LostOnly (Beneath pos) w.fs w'.fs) ∧
        s.ReportsAbsence name w'
    | (.error _, w') => w' = w ∧ ∃ e, w.fs.linkStat path = .error e := by
  cases hlink : w.fs.linkStat path with
  | error e =>
      rw [delete_error hname hlink]
      exact ⟨rfl, e, rfl⟩
  | ok entry =>
      obtain ⟨pos, hlocate⟩ := linkStat_eq_ok.1 hlink
      rw [← locateEntry_eq_ok] at hlocate
      by_cases hentry : entry.isDirectory
      · obtain ⟨mode, rfl⟩ := Entry.isDirectory_iff.1 hentry
        obtain ⟨w', hrun, hgone, hstays, hreturns⟩ := delete_of_directory hname hlocate
        rw [hrun]
        exact ⟨pos, _, hlocate, fun hnot => hstays fun h => hnot ⟨rfl, h⟩, fun h => hreturns h.2,
          (unfound_of_linkStat hname hgone).reports_iff.2 rfl⟩
      · obtain ⟨w', hrun, hgone, hlost⟩ := delete_of_other hname hlocate hentry
        rw [hrun]
        exact ⟨pos, entry, hlocate, fun _ => hlost, fun h => absurd h.1 hentry,
          (unfound_of_linkStat hname hgone).reports_iff.2 rfl⟩

/-- A store with an object n, a second name of it in a directory d, and beside this a link out of
the directory. -/
def shared : FileSystem :=
  (furnished.bind [[114], [100], [120]] (.file 0)).bind [[114], [100], [121]]
    (.link (.ofString "../n"))

/-- No link is on the way to the directory. -/
theorem shared_stays : ¬ shared.ReturnsThrough (.ofString "/r/d") [[114], [100]] := by
  have hp : EndsInName (.ofString "/r/d") [[114]] [100] :=
    ⟨rfl, (isEntryName_letter (by decide)).toIsName, rfl⟩
  refine @not_returnsThrough_of_way shared _ _ _ hp (fun above entry hne habove he => ?_) ?_
  · rcases List.prefix_cons_iff.1 habove with rfl | ⟨rest, rfl, hrest⟩
    · exact absurd rfl hne
    · obtain rfl := List.prefix_nil.1 hrest
      cases he
      simp [Entry.isLink]
  · simpa using isEntryName_r.toIsName

/-- The directory goes with what is in it, the file stays under its other name. -/
theorem delete_exact_shared :
    ∃ w', ((atTop [114]).delete "d").run (.ofFileSystem shared) = (.ok (), w') ∧
      w'.fs.at? [[114], [100]] = none ∧ w'.fs.at? [[114], [100], [120]] = none ∧
      w'.fs.at? [[114], [100], [121]] = none ∧
      w'.fs.view [[114], [110]] = some (.file [108] fileMode) ∧
      (atTop [114]).ReportsAbsence "d" w' := by
  have hname : (atTop [114]).resolve "d" = .ok (.ofString "/r/d") := rfl
  have hdeleted := delete_exact hname (.ofFileSystem shared)
  have hresult : (((atTop [114]).delete "d").run (.ofFileSystem shared)).1 = .ok () := rfl
  rcases hrun : ((atTop [114]).delete "d").run (.ofFileSystem shared) with ⟨result, w'⟩
  rw [hrun] at hdeleted hresult
  obtain rfl : result = .ok () := hresult
  obtain ⟨pos, entry, hlocate, hstays, -, hreports⟩ := hdeleted
  have hfound : shared.locateEntry false (.ofString "/r/d") =
      .ok ([[114], [100]], .directory directoryMode) := rfl
  cases hfound.symm.trans hlocate
  have hlost := hstays fun h => shared_stays h.2
  have hgone (below : Position) : w'.fs.at? ([[114], [100]] ++ below) = none :=
    hlost.none_of_gone _ (subtree_directory.2 (List.prefix_append _ below))
  have hkept : w'.fs.view [[114], [110]] = shared.view [[114], [110]] :=
    hlost.view_eq _ fun h => absurd (subtree_directory.1 h) (by decide)
  exact ⟨w', rfl, hgone [], hgone [[120]], hgone [[121]], hkept, hreports⟩

/-- A store with a directory d, and in it a link back out of it. -/
def returning : FileSystem :=
  furnished.bind [[114], [100], [108]] (.link (.ofString ".."))

/-- Through the link, the directory that is to go is named by a path that leads out of it again:
when the link has gone, the path is at an end, and the directory stays. -/
theorem directory_outlives_deletion :
    ¬ ∀ (s : Store) (name : String) (path : Pathname) (w w' : World) (pos : Position)
      (entry : Entry), s.resolve name = .ok path → (s.delete name).run w = (.ok (), w') →
        w.fs.locateEntry false path = .ok (pos, entry) → w'.fs.at? pos = none := by
  intro hall
  have hgone := hall (atTop [114]) "d/l/d" (.ofString "/r/d/l/d") (.ofFileSystem returning)
    (((atTop [114]).delete "d/l/d").run (.ofFileSystem returning)).2 [[114], [100]]
    (.directory directoryMode) rfl rfl rfl
  have hstays : (((atTop [114]).delete "d/l/d").run (.ofFileSystem returning)).2.fs.at?
      [[114], [100]] = some (.directory directoryMode) := rfl
  rw [hstays] at hgone
  cases hgone

end Store

end Depot
