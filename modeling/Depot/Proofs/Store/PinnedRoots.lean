import Depot.Proofs.Path.IdleTails
import Depot.Proofs.Path.Parents
import Depot.Proofs.Store.Reopening
import Depot.Proofs.Store.Undisturbed
/-!
# Stores that are opened through a link

A store can be opened at the path of a symbolic link.  If the path is bare, the root is the path of
the directory that the link leads to, and what becomes of the link does not matter any more.  With a
slash or a dot behind it, the path is taken for that of a directory, and stays as it is: the link is
on the way to the root from then on.

* `front_of_link` — the path of a link is bare;
* `openAt_bare_runs`, `openAt_tailed_runs` — the two ways to write it;
* `atPosition_staysAt`, `not_reaches_unbind` — what becomes of the store when the link changes;
* `opened_staysAt_iff` — all together.
-/

namespace Depot

open FileSystem

namespace FileSystem

variable {fs fs' : FileSystem} {p q : Pathname} {spot : Position} {target : Pathname} {tail : Bytes}

theorem walk_special_ne_link (hwf : fs.WellFormed) {links : Nat} {pos : Position}
    {front : List Bytes} {last : Bytes} (hlast : last = Pathname.dot ∨ last = Pathname.dotDot) :
    fs.walk false links pos (front ++ [last]) ≠ .ok (.occupied spot (.link target)) := by
  intro hwalk
  obtain ⟨dir, mode, links', hfront, hrest⟩ := walk_front (List.cons_ne_nil last []) hwalk
  have hdir := walk_occupied hfront
  rcases hlast with rfl | rfl
  · rw [walk_dot hdir, walk_nil hdir] at hrest
    cases hrest
  · obtain ⟨mode', hup⟩ := hwf.directory_of_isPrefix hdir (List.dropLast_prefix dir)
    rw [walk_into (turn_dots hdir .dotDot), walk_nil hup] at hrest
    cases hrest

theorem startOf_appended (hne : q.bytes ≠ []) : fs.startOf (q.appended tail) = fs.startOf q := by
  rw [startOf, startOf, Pathname.isAbsolute_appended hne]

/-- Only a bare path finds a link: its last name is that of the link, in the directory that the
other names lead to. -/
theorem front_of_link (hwf : fs.WellFormed)
    (hlink : fs.locateEntry false q = .ok (spot, .link target)) :
    q.endsInSlash = false ∧ ∃ front last dir mode, q.names = front ++ [last] ∧
      Pathname.IsName last ∧ spot = dir ++ [last] ∧
      fs.walk true linkLimit (fs.startOf q) front = .ok (.occupied dir (.directory mode)) := by
  have hwalk := (locate_eq_ok.1 (locateEntry_eq_ok.1 hlink)).2
  rcases List.eq_nil_or_concat' q.names with hnil | ⟨front, last, hnames⟩
  · -- Without names, the path is that of the root directory.
    have hne := (checkPath_eq_ok.1 (locate_eq_ok.1 (locateEntry_eq_ok.1 hlink)).1).2.1
    rw [startOf, if_pos (Pathname.isAbsolute_of_names_eq_nil hne hnil), Pathname.steps, hnil,
      List.isEmpty_nil, Bool.not_true, Bool.and_false, if_neg (by simp),
      walk_nil (at?_root fs)] at hwalk
    cases hwalk
  · have hends : q.endsInSlash = false := by
      rw [Bool.eq_false_iff]
      intro hends
      rw [Pathname.steps, hends, hnames, if_pos (by simp)] at hwalk
      exact walk_special_ne_link hwf (Or.inl rfl) hwalk
    rw [Pathname.steps, hends, Bool.false_and, if_neg (by simp), hnames] at hwalk
    obtain ⟨hne, hslash⟩ := Pathname.names_ne_nil_and_slash_notMem last (by rw [hnames]; simp)
    have hlast : Pathname.IsName last :=
      ⟨hne, hslash, fun hdot => walk_special_ne_link hwf (Or.inl hdot) hwalk,
        fun hup => walk_special_ne_link hwf (Or.inr hup) hwalk⟩
    obtain ⟨dir, mode, hfront, -, hspot, -⟩ := (walk_concat_iff hlast).1 hwalk
    exact ⟨hends, front, last, dir, mode, hnames, hlast, hspot, hfront⟩

theorem start_of_link (hwf : fs.WellFormed)
    (hlink : fs.locateEntry false q = .ok (spot, .link target)) (tail : Bytes) :
    ∃ mode, fs.at? (fs.startOf (q.appended tail)) = some (.directory mode) := by
  obtain ⟨-, front, last, dir, mode, -, -, -, hfront⟩ := front_of_link hwf hlink
  have hne := (checkPath_eq_ok.1 (locate_eq_ok.1 (locateEntry_eq_ok.1 hlink)).1).2.1
  rw [startOf_appended hne]
  exact start_of_walk hfront

theorem linkStat_tailed (hwf : fs.WellFormed)
    (htail : Pathname.IsIdleTail tail) (hne : tail ≠ []) {entry : Entry}
    (hstat : fs.linkStat (q.appended tail) = .ok entry) : ¬ entry.isLink := by
  intro hlink
  obtain ⟨target, rfl⟩ := Entry.isLink_iff.1 hlink
  obtain ⟨pos, hlocate⟩ := linkStat_eq_ok.1 hstat
  obtain ⟨hends, front, last, dir, mode, hnames, hlast, -⟩ :=
    front_of_link hwf (locateEntry_eq_ok.2 hlocate)
  rcases htail.not_bare hne q with hslash | hdot
  · rw [hends] at hslash
    cases hslash
  · rw [hnames, List.getLast?_append, List.getLast?_singleton] at hdot
    exact hlast.ne_dot (Option.some.inj hdot)

theorem makeDirectory_of_link (hwf : fs.WellFormed)
    (hlink : fs.locateEntry false q = .ok (spot, .link target)) (htail : Pathname.IsIdleTail tail)
    (hnames : p.names <+: (q.appended tail).names) (habs : p.isAbsolute = q.isAbsolute) :
    fs.makeDirectory p ≠ .ok fs' := by
  intro hmake
  obtain ⟨dir, name, hlast, hnone, -⟩ := makeDirectory_eq_ok hmake
  obtain ⟨-, front, mode, hfront, hwalk, hdot, hup, -⟩ := locateLast_eq_name_iff.1 hlast
  rw [show fs.startOf p = fs.startOf q by rw [startOf, startOf, habs]] at hwalk
  -- The last name is no dot, so it is one of the names that lead to the link.
  have hway : front ++ [name] <+: q.names := by
    rw [htail.names_appended, hfront] at hnames
    rcases List.prefix_or_prefix_of_prefix hnames (List.prefix_append ..) with hway | ⟨rest, hrest⟩
    · exact hway
    · rw [← hrest, List.prefix_append_right_inj] at hnames
      rcases List.eq_nil_or_concat' rest with rfl | ⟨init, last, rfl⟩
      · rw [List.append_nil] at hrest
        exact hrest ▸ List.prefix_rfl
      · rw [← List.append_assoc] at hrest
        have hlast : last = name := (List.append_inj' hrest rfl).2 |> List.singleton_inj.1
        exact absurd (hlast ▸ htail.idle last (hnames.subset (by simp))) hdot
  obtain ⟨hends, -⟩ := front_of_link hwf hlink
  have hfound := (locate_eq_ok.1 (locateEntry_eq_ok.1 hlink)).2
  rw [Pathname.steps, hends, Bool.false_and, if_neg (by simp)] at hfound
  obtain ⟨follow, pos, entry, hreached⟩ : ∃ follow pos entry,
      fs.walk follow linkLimit (fs.startOf q) (front ++ [name]) = .ok (.occupied pos entry) := by
    obtain ⟨rest, hrest⟩ := hway
    rw [← hrest] at hfound
    by_cases hnil : rest = []
    · rw [hnil, List.append_nil] at hfound
      exact ⟨false, spot, _, hfound⟩
    · obtain ⟨pos, mode', -, hreached, -⟩ := walk_front hnil hfound
      exact ⟨true, pos, _, hreached⟩
  obtain ⟨dir', mode', links, hdir', hname⟩ := walk_front (List.cons_ne_nil name []) hreached
  rw [hwalk] at hdir'
  cases hdir'
  obtain ⟨-, child, hchild, -⟩ := exists_of_walk_single hdot hup hname
  rw [hnone] at hchild
  cases hchild

end FileSystem

variable {s : Store} {fs fs' : FileSystem} {q : Pathname} {root spot : Position}
  {target : Pathname} {tail : Bytes}

/-! ## Opening -/

/-- Behind slashes or dots, a link is not looked at, and the path is only made absolute. -/
theorem openAt_tailed_runs (hwf : fs.WellFormed)
    (hlink : fs.locateEntry false q = .ok (spot, .link target)) (htail : Pathname.IsIdleTail tail)
    (hne : tail ≠ []) (create : Bool) :
    (Store.openAt (q.appended tail) create).Runs fs (fun _ => True)
      (fun s st => st = fs ∧ s.root = absolutePath fs (q.appended tail)) (fun _ st => st = fs) := by
  cases hstat : fs.linkStat (q.appended tail) with
  | ok entry =>
      refine (Store.openAt_existing_runs hstat create).weaken (fun _ hst => hst) ?_
        fun _ _ hst => hst
      rintro s st ⟨hst, entry', hroot, -⟩
      rw [StandsFor, if_neg (linkStat_tailed hwf htail hne hstat)] at hroot
      exact ⟨hst, hroot.1⟩
  | error e =>
      have hbytes : q.bytes ≠ [] :=
        (checkPath_eq_ok.1 (locate_eq_ok.1 (locateEntry_eq_ok.1 hlink)).1).2.1
      have hkept : ∀ p ∈ (q.appended tail).ancestors ((q.appended tail).bytes.length + 1),
          KeptByMaking (fun st => st = fs) p := by
        rintro p hp st st' rfl hmake
        obtain ⟨hnames, habs⟩ := Pathname.names_isPrefix_of_mem_ancestors hp
        rw [Pathname.isAbsolute_appended hbytes] at habs
        exact absurd hmake (makeDirectory_of_link hwf hlink htail hnames habs)
      refine (Store.openAt_missing_runs hstat hkept rfl create).weaken (fun _ hst => hst) ?_
        fun _ _ hst => hst
      rintro s st ⟨rfl, hroot⟩
      exact ⟨rfl, hroot⟩

theorem locateEntry_of_tailed (hwf : fs.WellFormed)
    (hlink : fs.locateEntry false q = .ok (spot, .link target)) (htail : Pathname.IsIdleTail tail)
    (hnamed : fs.NamesDirectoryAt (q.appended tail) root) :
    ∃ mode, fs.locateEntry true q = .ok (root, .directory mode) := by
  obtain ⟨mode, hwalk⟩ := hnamed
  obtain ⟨hcheck, -⟩ := locate_eq_ok.1 (locateEntry_eq_ok.1 hlink)
  obtain ⟨hends, -⟩ := front_of_link hwf hlink
  rw [startOf_appended (checkPath_eq_ok.1 hcheck).2.1, htail.names_appended] at hwalk
  have hbare := walk_without_dots hwalk
  rw [htail.filter_names, List.append_nil] at hbare
  refine ⟨mode, ?_⟩
  rw [locateEntry_eq_ok, locate_eq_ok, Pathname.steps, hends, Bool.false_and, if_neg (by simp)]
  exact ⟨hcheck, hbare⟩

theorem openAt_bare_runs (hwf : fs.WellFormed)
    (hlink : fs.locateEntry false q = .ok (spot, .link target)) (create : Bool) :
    (Store.openAt q create).Runs fs (fun _ => True)
      (fun s st => st = fs ∧ ∃ root, s = Store.atPosition root ∧
        checkPath (.ofRootNames root) = .ok () ∧
          ∃ mode, fs.locateEntry true q = .ok (root, .directory mode)) (fun _ st => st = fs) := by
  have hstat : fs.linkStat q = .ok (.link target) :=
    linkStat_eq_ok.2 ⟨spot, locateEntry_eq_ok.1 hlink⟩
  refine (Store.openAt_existing_runs hstat create).weaken (fun _ hst => hst) ?_ fun _ _ hst => hst
  rintro ⟨path⟩ st ⟨hst, entry', hroot, hdirectory⟩
  have hstart := start_of_link hwf hlink []
  rw [Pathname.appended, List.append_nil] at hstart
  obtain ⟨-, root, hnamed, -⟩ := hroot.isRootOf hwf hstart hstat hdirectory
  have hempty : Pathname.IsIdleTail [] := ⟨Or.inl rfl, by decide⟩
  obtain ⟨mode, hmode⟩ := @locateEntry_of_tailed fs q root spot target [] hwf hlink hempty
    (by rwa [Pathname.appended, List.append_nil])
  rw [StandsFor, if_pos (by rfl)] at hroot
  obtain ⟨pos, entry, hpath, hlocate, hstat'⟩ := hroot
  rw [← locateEntry_eq_ok, hmode] at hlocate
  cases hlocate
  obtain ⟨pos', hlocate'⟩ := linkStat_eq_ok.1 hstat'
  rw [hpath] at hlocate'
  exact ⟨hst, root, congrArg Store.mk hpath, (locate_eq_ok.1 hlocate').1, mode, hmode⟩

namespace Store

/-! ## When the link changes -/

/-- A store that keeps its root whatever becomes of a link. -/
structure StaysAt (s : Store) (root spot : Position) : Prop where
  /-- Its root can be opened again, and is the same again. -/
  reopens : ∀ (w : World) (create : Bool), w.fs.WellFormed →
    (∃ mode, w.fs.at? root = some (.directory mode)) →
      ((openAt s.root create).run w).1 = .ok s ∧ ((openAt s.root create).run w).2.fs = w.fs
  /-- Its root leads to the directory before and after the change. -/
  leads : ∀ fs fs' : FileSystem, fs.WellLinked →
    (∃ mode, fs.at? root = some (.directory mode)) → LinkChanged spot fs fs' →
      s.RootedAt fs root ∧ s.RootedAt fs' root
  /-- Requests that do not look at the link have the same replies, and change the same. -/
  replies : ∀ (w w' : World) (requests : List (Int × Request)), w.fs.WellLinked →
    LinkChanged spot w.fs w'.fs → s.Undisturbed root w w' requests →
      s.replies w' requests = s.replies w requests ∧
        AtMostRelinked spot (s.serve w requests).fs (s.serve w' requests).fs
  /-- With only directories and singly linked files below the root, this goes for all requests. -/
  repliesPlain : ∀ (w w' : World) (requests : List (Int × Request)), w.fs.WellLinked →
    (∃ mode, w.fs.at? root = some (.directory mode)) → w.fs.PlainBelow root →
      LinkChanged spot w.fs w'.fs → s.replies w' requests = s.replies w requests ∧
        AtMostRelinked spot (s.serve w requests).fs (s.serve w' requests).fs

theorem openAt_atPosition (hcheck : checkPath (.ofRootNames root) = .ok ()) {w : World}
    (hwf : w.fs.WellFormed) (hroot : ∃ mode, w.fs.at? root = some (.directory mode))
    (create : Bool) : ((openAt (atPosition root).root create).run w).1 = .ok (atPosition root) ∧
      ((openAt (atPosition root).root create).run w).2.fs = w.fs := by
  obtain ⟨mode, hmode⟩ := hroot
  have hleads := leadsTo_atPosition hwf hmode hcheck
  obtain ⟨mode', hlocate⟩ := hleads.isDirectory
  have hstat : w.fs.linkStat (atPosition root).root = .ok (.directory mode') :=
    linkStat_eq_ok.2 ⟨root, locateEntry_eq_ok.1 hlocate⟩
  rcases hrun : (openAt (atPosition root).root create).run w with ⟨result, w'⟩
  cases result with
  | error e => exact ((hleads.openAt_runs create).of_error rfl hrun).elim
  | ok s =>
      obtain ⟨hst, entry', hstands, -⟩ := (openAt_existing_runs hstat create).of_ok rfl hrun
      rw [StandsFor, if_neg (by simp [Entry.isLink])] at hstands
      have hpath : s.root = .ofRootNames root :=
        hstands.1.trans (Pathname.absolute_ofRootNames _ (hwf.isName hmode))
      exact ⟨congrArg (fun path => Except.ok (Store.mk path)) hpath, hst⟩

theorem atPosition_staysAt (hcheck : checkPath (.ofRootNames root) = .ok ()) (spot : Position) :
    (atPosition root).StaysAt root spot where
  reopens := fun w create hwf hroot => openAt_atPosition hcheck hwf hroot create
  leads := by
    rintro fs fs' hfs ⟨mode, hmode⟩ hchange
    have h := hchange.relinked hfs
    exact ⟨(leadsTo_atPosition hfs.toWellFormed hmode hcheck).rootedAt,
      (leadsTo_atPosition h.right.toWellFormed (h.kept hmode (by simp [Entry.isLink]))
        hcheck).rootedAt⟩
  replies := fun w w' requests hfs hchange hundisturbed =>
    replies_undisturbed hcheck (Or.inr (hchange.relinked hfs)) hundisturbed
  repliesPlain := by
    rintro w w' requests hfs ⟨mode, hmode⟩ hplain hchange
    have h := hchange.relinked hfs
    obtain ⟨target, ht, -⟩ := hchange
    have hspot : ¬ root <+: spot := by
      rintro ⟨names, rfl⟩
      by_cases hne : names = []
      · rw [hne, List.append_nil, hmode] at ht
        cases ht
      · exact hplain.not_isLink hne ht rfl
    have hplain' : w'.fs.PlainBelow root := h.plainBelow hplain hspot
    have htidy : (atPosition root).Tidy w.fs root :=
      ⟨hfs.toWellFormed, leadsTo_atPosition hfs.toWellFormed hmode hcheck, hplain⟩
    have htidy' : (atPosition root).Tidy w'.fs root :=
      ⟨h.right.toWellFormed, leadsTo_atPosition h.right.toWellFormed
        (h.kept hmode (by simp [Entry.isLink])) hcheck, hplain'⟩
    exact replies_undisturbed hcheck (Or.inr h)
      (undisturbed_of_tidy hcheck htidy htidy' (Or.inr h) hspot requests)

theorem not_reaches_unbind {s : Store} (hwf : fs.WellFormed)
    (hlink : fs.locateEntry false q = .ok (spot, .link target)) (htail : Pathname.IsIdleTail tail)
    (hroot : s.root = absolutePath fs (q.appended tail)) (pos : Position) :
    ¬ s.Reaches (fs.unbind spot) [] pos := by
  rintro ⟨mode, hwalk⟩
  obtain ⟨-, front, last, dir, mode', hnames, hlast, rfl, hfront⟩ := front_of_link hwf hlink
  have hkeeps : (fs.unbind (dir ++ [last])).KeepsPaths fs := by
    intro pos entry he _
    rw [at?_unbind (by simp)] at he
    split at he
    · cases he
    · exact he
  have hbytes : q.bytes ≠ [] :=
    (checkPath_eq_ok.1 (locate_eq_ok.1 (locateEntry_eq_ok.1 hlink)).1).2.1
  -- Without its dots, the path of the root still ends in the name of the link.
  have hsplit : s.root.names = ((if q.isAbsolute then [] else fs.workingDir) ++
      front.filter fun name => name ≠ Pathname.dot) ++ [last] := by
    rw [hroot, absolutePath, hwf.names_absolute (start_of_link hwf hlink tail),
      Pathname.isAbsolute_appended hbytes, htail.names_appended, List.filter_append,
      htail.filter_names, List.append_nil, hnames, List.filter_append,
      List.filter_cons_of_pos (by simpa using hlast.ne_dot), List.filter_nil, List.append_assoc]
  rw [List.append_nil, hsplit] at hwalk
  obtain ⟨dir', mode₁, links, hdir', hrest⟩ := walk_front (List.cons_ne_nil last []) hwalk
  have hsame := walk_of_keeps hkeeps id hdir'
  rw [walk_fromRoot hwf hfront] at hsame
  cases hsame
  obtain ⟨-, child, hchild, -⟩ := exists_of_walk_single hlast.ne_dot hlast.ne_dotDot hrest
  rw [at?_unbind (by simp), if_pos rfl] at hchild
  cases hchild

/-- Whoever opens a store at the path of a link gets the directory that the link leads to.  If the
path is bare, the root is the path of that directory, and no later change of the link matters.
With slashes or dots behind it the root is another path, and nothing is left of it once the link is
removed. -/
theorem opened_staysAt_iff {s : Store} {w w' : World} {create : Bool} (hfs : w.fs.WellLinked)
    (hlink : w.fs.locateEntry false q = .ok (spot, .link target)) (htail : Pathname.IsIdleTail tail)
    (hopen : (openAt (q.appended tail) create).run w = (.ok s, w')) :
    w'.fs = w.fs ∧ ∃ root mode, w.fs.locateEntry true q = .ok (root, .directory mode) ∧
      s.Reaches w.fs [] root ∧ (s.root = .ofRootNames root ↔ tail = []) ∧
        (s.StaysAt root spot ↔ tail = []) := by
  have hwf := hfs.toWellFormed
  have ht : w.fs.at? spot = some (.link target) := at?_of_locateEntry hlink
  by_cases hne : tail = []
  · subst hne
    rw [Pathname.appended, List.append_nil] at hopen
    obtain ⟨hst, root, rfl, hcheck, mode, hmode⟩ :=
      (openAt_bare_runs hwf hlink create).of_ok rfl hopen
    obtain ⟨mode', hreach⟩ :=
      (leadsTo_atPosition hwf (at?_of_locateEntry hmode) hcheck).walk_names
    exact ⟨hst, root, mode, hmode, ⟨mode', by rwa [List.append_nil]⟩, iff_of_true rfl rfl,
      iff_of_true (atPosition_staysAt hcheck spot) rfl⟩
  · obtain ⟨hst, hpath⟩ := (openAt_tailed_runs hwf hlink htail hne create).of_ok rfl hopen
    obtain ⟨-, hclean, root, hnamed, hreach⟩ :=
      (openAt_root_runs hwf (start_of_link hwf hlink tail) create).of_ok rfl hopen
    rw [hst] at hnamed hreach
    obtain ⟨mode, hmode⟩ := locateEntry_of_tailed hwf hlink htail hnamed
    have hchange : LinkChanged spot w.fs (w.fs.unbind spot) := ⟨target, ht, Or.inl rfl⟩
    have hlinks := hchange.relinked hfs
    have hlost := not_reaches_unbind hwf hlink htail hpath root
    refine ⟨hst, root, mode, hmode, hreach, iff_of_false (fun heq => hlost ?_) hne,
      iff_of_false (fun hstays => hlost ?_) hne⟩
    · have hkept := hlinks.kept (at?_of_locateEntry hmode) (by simp [Entry.isLink])
      refine ⟨mode, ?_⟩
      rw [List.append_nil, heq, hwf.names_ofRootNames (at?_of_locateEntry hmode)]
      exact walk_directory hlinks.right.toWellFormed hkept true
    · obtain ⟨-, hrooted⟩ :=
        hstays.leads w.fs (w.fs.unbind spot) hfs ⟨mode, at?_of_locateEntry hmode⟩ hchange
      obtain ⟨mode', hwalk⟩ := hrooted.walk_names
      rw [startOf, if_pos hclean.1] at hwalk
      exact ⟨mode', by rwa [List.append_nil]⟩

/-- The directories t and u, a link m to t and a link l to m. -/
def linkedTwice : FileSystem :=
  (((newDirectory [116]).bind [[117]] (.directory directoryMode)).bind [[109]] (.link ⟨[116]⟩)).bind
    [[108]] (.link ⟨[47, 109]⟩)

theorem linkedTwice_wellLinked : linkedTwice.WellLinked where
  toWellFormed := by
    have htop := newDirectory_wellFormed (isEntryName_letter (by decide : (116 : UInt8) ≠ 0 ∧ _))
    have hother := @WellFormed.bind _ htop [] [117] (.directory directoryMode) _ rfl
      (isEntryName_letter (by decide)) (Or.inl rfl) (by simp)
    have hlink := @WellFormed.bind _ hother [] [109] (.link ⟨[116]⟩) _ rfl
      (isEntryName_letter (by decide)) (Or.inr fun _ hmode => by cases hmode) (by simp)
    exact @WellFormed.bind _ hlink [] [108] (.link ⟨[47, 109]⟩) _ rfl
      (isEntryName_letter (by decide)) (Or.inr fun _ hmode => by cases hmode) (by simp)
  target := by
    intro pos target ht
    rw [linkedTwice, at?_bind (by simp), at?_bind (by simp), at?_bind (by simp),
      at?_newDirectory] at ht
    split at ht
    · cases ht
      decide
    split at ht
    · cases ht
      decide
    repeat (split at ht; · cases ht)
    cases ht

theorem opened_staysAt_iff_bare : ∃ s w',
    (openAt ⟨[108]⟩ true).run (.ofFileSystem linkedTwice) = (.ok s, w') ∧
      s.root = .ofRootNames [[116]] ∧ s.StaysAt [[116]] [[108]] := by
  have htail : Pathname.IsIdleTail [] := ⟨Or.inl rfl, by decide⟩
  refine ⟨_, _, rfl, ?_⟩
  obtain ⟨-, root, mode, hroot, -, hpath, hstays⟩ :=
    @opened_staysAt_iff ⟨[108]⟩ [[108]] ⟨[47, 109]⟩ [] _ (.ofFileSystem linkedTwice) _ true
      linkedTwice_wellLinked rfl htail rfl
  have hlocate : linkedTwice.locateEntry true ⟨[108]⟩ =
      .ok ([[116]], .directory directoryMode) := rfl
  rw [show (World.ofFileSystem linkedTwice).fs = linkedTwice from rfl, hlocate] at hroot
  cases hroot
  exact ⟨hpath.2 rfl, hstays.2 rfl⟩

/-- With a dot behind the link, the store moves with it: its root is not the path of the directory
and becomes another when it is opened again, and once the link leads elsewhere, so does the root,
and an object that was saved is not found there. -/
theorem dotted_link_moves :
    let opened := (openAt ⟨[47, 108, 47, 46]⟩ true).run (.ofFileSystem linkedTwice)
    let s : Store := ⟨⟨[47, 108]⟩⟩
    let moved (fs : FileSystem) := (fs.unbind [[108]]).bind [[108]] (.link ⟨[117]⟩)
    let saved := ((s.save "n" [.chunk [1]] 1).run opened.2).2.fs
    opened.1.toOption.map (fun s => s.root) = some s.root ∧
      ((openAt s.root true).run opened.2).1.toOption.map (fun s => s.root) =
        some (.ofRootNames [[116]]) ∧
      (linkedTwice.locateEntry true s.root).toOption = some ([[116]], .directory directoryMode) ∧
      ((moved linkedTwice).locateEntry true s.root).toOption =
        some ([[117]], .directory directoryMode) ∧
      ((s.readWhole "n").run (.ofFileSystem saved)).1.toOption = some [1] ∧
      ((s.readWhole "n").run (.ofFileSystem (moved saved))).1.toOption = none := by
  decide +kernel

end Store

end Depot
