import Depot.Proofs.FileSystem.Paving
/-!
# Paths with nothing in the way

A path is clear if whatever its beginnings find is a directory, or a link to one.  Every beginning
then leads to a directory or misses an entry, whatever directories were added, and making a
directory under one of them goes well, finds it there, or misses the directory above.

* `walk_concat_dot`, `walk_concat_dotDot`, `walk_concat_vacant` — one more name after a directory;
* `ClearAlong` — nothing is in the way;
* `Way`, `ClearAlong.way` — how far a beginning leads after directories were added;
* `ClearAlong.of_grown` — a path without double dots stays clear;
* `Grown.isPrefix_of_walk` — from a new directory the way leads down;
* `Making`, `ClearAlong.making` — making a directory under a beginning.
-/

namespace Depot

namespace FileSystem

variable {fs st : FileSystem} {p q : Pathname} {links mode : Nat} {start pos : Position}
  {front : List Bytes} {name : Bytes}

/-! ## One more name -/

theorem walk_concat_dot
    (h : fs.walk true links start front = .ok (.occupied pos (.directory mode))) :
    fs.walk true links start (front ++ [Pathname.dot]) =
      .ok (.occupied pos (.directory mode)) := by
  obtain ⟨links', hresume⟩ := walk_resume h
  have hat := walk_occupied h
  rw [hresume [Pathname.dot] (by simp), walk_dot hat, walk_nil hat]

theorem walk_steps_of_names
    (h : fs.walk true links start p.names = .ok (.occupied pos (.directory mode))) :
    fs.walk true links start p.steps = .ok (.occupied pos (.directory mode)) := by
  rw [Pathname.steps]
  split
  · exact walk_concat_dot h
  · exact h

theorem walk_concat_dotDot (hwf : fs.WellFormed)
    (h : fs.walk true links start front = .ok (.occupied pos (.directory mode))) :
    ∃ mode', fs.walk true links start (front ++ [Pathname.dotDot]) =
      .ok (.occupied pos.dropLast (.directory mode')) := by
  obtain ⟨links', hresume⟩ := walk_resume h
  have hat := walk_occupied h
  obtain ⟨mode', hup⟩ := hwf.directory_of_isPrefix hat (List.dropLast_prefix pos)
  exact ⟨mode', by rw [hresume [Pathname.dotDot] (by simp), walk_into (turn_dots hat .dotDot),
    walk_nil hup]⟩

theorem walk_concat_vacant (hname : Pathname.IsName name) (hlength : name.length ≤ maxNameLength)
    (h : fs.walk true links start front = .ok (.occupied pos (.directory mode)))
    (hnone : fs.at? (pos ++ [name]) = none) (follow : Bool) :
    fs.walk follow links start (front ++ [name]) = .ok (.vacant pos name) := by
  obtain ⟨links', hresume⟩ := walk_resume h
  have hlooks := LooksUp.of_isName (walk_occupied h) hname hlength
  rw [hresume [name] (by simp), walk_missing (hlooks.turn_missing hnone), if_pos rfl]

theorem walk_append_dots {dots : List Bytes} (hdots : ∀ name ∈ dots, name = Pathname.dot)
    (h : fs.walk true links start front = .ok (.occupied pos (.directory mode))) :
    fs.walk true links start (front ++ dots) = .ok (.occupied pos (.directory mode)) := by
  induction dots using List.reverseRecOn with
  | nil => rwa [List.append_nil]
  | append_singleton dots name ih =>
    rw [hdots name (by simp), ← List.append_assoc]
    exact walk_concat_dot (ih fun name hname => hdots name (List.mem_append_left _ hname))

theorem walk_of_isPrefix {names : List Bytes} (hfront : front <+: names)
    (h : fs.walk true links start names = .ok (.occupied pos (.directory mode))) :
    ∃ pos' mode', fs.walk true links start front = .ok (.occupied pos' (.directory mode')) := by
  obtain ⟨rest, rfl⟩ := hfront
  by_cases hrest : rest = []
  · exact ⟨pos, mode, by rwa [hrest, List.append_nil] at h⟩
  · obtain ⟨pos', mode', -, hwalk, -⟩ := walk_front hrest h
    exact ⟨pos', mode', hwalk⟩

/-! ## Ways -/

/-- Whatever a beginning of the path finds, it leads to a directory. -/
def ClearAlong (fs : FileSystem) (p : Pathname) : Prop :=
  ∀ front, front <+: p.names → ∀ pos entry,
    fs.walk false linkLimit (fs.startOf p) front = .ok (.occupied pos entry) →
      ∃ pos mode, fs.walk true linkLimit (fs.startOf p) front =
        .ok (.occupied pos (.directory mode))

/-- Nothing is found because an entry is missing. -/
structure Misses (fs : FileSystem) (start : Position) (front : List Bytes) : Prop where
  missing : (∃ dir name, fs.walk true linkLimit start front = .ok (.vacant dir name)) ∨
    fs.walk true linkLimit start front = .error .noEntry
  not_found : ∀ pos entry, fs.walk false linkLimit start front ≠ .ok (.occupied pos entry)

theorem Misses.concat (h : fs.Misses start front) (name : Bytes) :
    fs.Misses start (front ++ [name]) := by
  have herror (follow : Bool) :
      fs.walk follow linkLimit start (front ++ [name]) = .error .noEntry := by
    rcases h.missing with ⟨dir, vacant, hwalk⟩ | hwalk
    · exact walk_append_of_vacant hwalk (by simp) follow
    · exact walk_append_of_error hwalk (by simp) follow
  refine ⟨.inr (herror true), fun pos entry hfound => ?_⟩
  rw [herror false] at hfound
  cases hfound

/-- How far names lead after directories were added. -/
inductive Way (fs st : FileSystem) (start : Position) (front : List Bytes) : Prop
  | old (pos : Position) (mode : Nat)
    (h : fs.walk true linkLimit start front = .ok (.occupied pos (.directory mode)))
  | new (pos : Position) (mode : Nat)
    (h : st.walk true linkLimit start front = .ok (.occupied pos (.directory mode)))
    (hnone : fs.at? pos = none)
  | missing (h : st.Misses start front)

/-- From a directory that lacked the next name, the way leads to a new one, or to nothing. -/
theorem Way.of_none (hgrown : Grown fs st) (hname : Pathname.IsName name)
    (hlength : name.length ≤ maxNameLength)
    (h : st.walk true linkLimit start front = .ok (.occupied pos (.directory mode)))
    (hnone : fs.at? (pos ++ [name]) = none) : Way fs st start (front ++ [name]) := by
  cases hst : st.at? (pos ++ [name]) with
  | none =>
    have hvacant := walk_concat_vacant hname hlength h hst
    refine .missing ⟨.inl ⟨pos, name, hvacant true⟩, fun pos' entry hfound => ?_⟩
    rw [hvacant false] at hfound
    cases hfound
  | some entry =>
    obtain ⟨mode', rfl⟩ := Entry.isDirectory_iff.1 (hgrown.new hnone hst)
    exact .new _ mode' (walk_concat_directory h (hgrown.wellFormed.name hst) hst) hnone

namespace ClearAlong

/-- A beginning leads to a directory that was there or is new, or it misses an entry. -/
theorem way (hclear : fs.ClearAlong p) (hwf : fs.WellFormed) (hgrown : Grown fs st)
    (hstart : ∃ mode, fs.at? (fs.startOf p) = some (.directory mode))
    (hnames : ∀ name ∈ p.names, name.length ≤ maxNameLength)
    (hup : Pathname.dotDot ∈ p.names → st = fs) (hfront : front <+: p.names) :
    Way fs st (fs.startOf p) front := by
  induction front using List.reverseRecOn with
  | nil =>
    obtain ⟨mode, hstart⟩ := hstart
    exact .old _ mode (walk_nil hstart true linkLimit)
  | append_singleton front name ih =>
    have hmem : name ∈ p.names := hfront.subset (by simp)
    have hlength := hnames name hmem
    have hname (hdot : name ≠ Pathname.dot) (hdotDot : name ≠ Pathname.dotDot) :
        Pathname.IsName name :=
      ⟨(Pathname.names_ne_nil_and_slash_notMem name hmem).1,
        (Pathname.names_ne_nil_and_slash_notMem name hmem).2, hdot, hdotDot⟩
    cases ih ((List.prefix_append front [name]).trans hfront) with
    | old pos mode h =>
      by_cases hdot : name = Pathname.dot
      · exact hdot ▸ .old pos mode (walk_concat_dot h)
      by_cases hdotDot : name = Pathname.dotDot
      · obtain ⟨mode', hwalk⟩ := walk_concat_dotDot hwf h
        exact hdotDot ▸ .old _ mode' hwalk
      cases hfs : fs.at? (pos ++ [name]) with
      | none =>
        exact .of_none hgrown (hname hdot hdotDot) hlength
          (walk_of_keeps hgrown.keepsPaths id h) hfs
      | some entry =>
        obtain ⟨pos', mode', hwalk⟩ := hclear _ hfront _ entry
          ((walk_concat_iff (hname hdot hdotDot)).2 ⟨pos, mode, h, hlength, rfl, hfs⟩)
        exact .old pos' mode' hwalk
    | new pos mode h hnone =>
      by_cases hdot : name = Pathname.dot
      · exact hdot ▸ .new pos mode (walk_concat_dot h) hnone
      by_cases hdotDot : name = Pathname.dotDot
      · -- with double dots nothing is new
        subst hdotDot
        rw [← hup hmem, walk_occupied h] at hnone
        cases hnone
      · exact .of_none hgrown (hname hdot hdotDot) hlength h (hwf.at?_below_none hnone _)
    | missing h => exact .missing (h.concat name)

theorem of_grown (hclear : fs.ClearAlong p) (hwf : fs.WellFormed) (hgrown : Grown fs st)
    (hworking : st.workingDir = fs.workingDir)
    (hstart : ∃ mode, fs.at? (fs.startOf p) = some (.directory mode))
    (hnames : ∀ name ∈ p.names, name.length ≤ maxNameLength)
    (hdots : Pathname.dotDot ∉ p.names) : st.ClearAlong p := by
  intro front hfront pos entry hfound
  rw [startOf_eq hworking] at hfound ⊢
  cases hclear.way hwf hgrown hstart hnames (fun h => absurd h hdots) hfront with
  | old pos' mode h => exact ⟨pos', mode, walk_of_keeps hgrown.keepsPaths id h⟩
  | new pos' mode h _ => exact ⟨pos', mode, h⟩
  | missing h => exact absurd hfound (h.not_found pos entry)

end ClearAlong

theorem isPrefix_of_walk_single {pos' : Position} {entry : Entry}
    (hpos : fs.at? pos = some (.directory mode)) (hup : name ≠ Pathname.dotDot)
    (hlink : ∀ target, fs.at? (pos ++ [name]) ≠ some (.link target))
    (h : fs.walk true links pos [name] = .ok (.occupied pos' entry)) : pos <+: pos' := by
  by_cases hdot : name = Pathname.dot
  · rw [hdot, walk_dot hpos, walk_nil hpos] at h
    cases h
    exact List.prefix_rfl
  obtain ⟨-, child, hchild, hchildLink | ⟨rfl, -⟩⟩ := exists_of_walk_single hdot hup h
  · obtain ⟨target, rfl⟩ := Entry.isLink_iff.1 hchildLink
    exact absurd hchild (hlink target)
  · exact List.prefix_append pos [name]

/-- From a new directory, names without double dots lead below it. -/
theorem Grown.isPrefix_of_walk (hgrown : Grown fs st) (hwf : fs.WellFormed)
    (hnone : fs.at? pos = none) {names : List Bytes} (hdots : Pathname.dotDot ∉ names)
    {pos' : Position} {entry : Entry}
    (h : st.walk true links pos names = .ok (.occupied pos' entry)) : pos <+: pos' := by
  induction names using List.reverseRecOn generalizing pos' entry with
  | nil =>
    cases hpos : st.at? pos with
    | none =>
      rw [walk_nil_of_none hpos] at h
      cases h
    | some found =>
      rw [walk_nil hpos] at h
      cases h
      exact List.prefix_rfl
  | append_singleton names name ih =>
    rw [List.mem_append, not_or, List.mem_singleton] at hdots
    obtain ⟨dir, mode, links', hfront, hlast⟩ := walk_front (List.cons_ne_nil name []) h
    have hbelow := ih hdots.1 hfront
    refine hbelow.trans (isPrefix_of_walk_single (walk_occupied hfront) (Ne.symm hdots.2)
      (fun target hlink => ?_) hlast)
    obtain ⟨rest, rfl⟩ := hbelow
    have hnone' := hwf.at?_below_none (hwf.at?_below_none hnone rest) [name]
    exact absurd (hgrown.new hnone' hlink) (by simp [Entry.isDirectory])

/-! ## Making directories along a clear path -/

theorem leadsToDirectory_of_names (hcheck : checkPath q = .ok ())
    (h : fs.walk true linkLimit (fs.startOf q) q.names = .ok (.occupied pos (.directory mode))) :
    fs.leadsToDirectory q = true := by
  rw [leadsToDirectory, stat_eq_ok.2 ⟨pos, locate_eq_ok.2 ⟨hcheck, walk_steps_of_names h⟩⟩]
  rfl

/-- The result of making a directory where nothing is in the way. -/
inductive Making (fs : FileSystem) (q : Pathname) : Prop
  | made (st : FileSystem) (h : fs.makeDirectory q = .ok st)
  | there (h : fs.makeDirectory q = .error .alreadyExists) (hleads : fs.leadsToDirectory q = true)
  | noParent (h : fs.makeDirectory q = .error .noEntry) (front : List Bytes) (last : Bytes)
    (hnames : q.names = front ++ [last])
    (hfront : ∀ pos mode, fs.walk true linkLimit (fs.startOf q) front ≠
      .ok (.occupied pos (.directory mode)))

theorem locateLast_concat {last : Bytes} (hcheck : checkPath q = .ok ())
    (hnames : q.names = front ++ [last]) :
    fs.locateLast q = (match fs.walk true linkLimit (fs.startOf q) front with
      | .error e => .error e
      | .ok (.vacant _ _) => .error .noEntry
      | .ok (.occupied dir entry) =>
        if !entry.isDirectory then .error .notDirectory
        else if last = Pathname.dot ∨ last = Pathname.dotDot then .ok .special
        else if maxNameLength < last.length then .error .nameTooLong
        else .ok (.name dir last)) := by
  rw [locateLast, hcheck, ok_bind, hnames, List.getLast?_concat, List.dropLast_concat]
  dsimp only
  cases fs.walk true linkLimit (fs.startOf q) front with
  | error e => rfl
  | ok place => cases place <;> rfl

theorem ClearAlong.making (hclear : fs.ClearAlong p) (hwf : fs.WellFormed)
    (hstart : ∃ mode, fs.at? (fs.startOf p) = some (.directory mode))
    (hnames : ∀ name ∈ p.names, name.length ≤ maxNameLength) (hq : q.names <+: p.names)
    (habs : q.isAbsolute = p.isAbsolute) (hcheck : checkPath q = .ok ()) : Making fs q := by
  have hstartOf : fs.startOf q = fs.startOf p := by rw [startOf, startOf, habs]
  have hleads {pos : Position} {mode : Nat}
      (h : fs.walk true linkLimit (fs.startOf p) q.names = .ok (.occupied pos (.directory mode))) :
      fs.leadsToDirectory q = true := leadsToDirectory_of_names hcheck (hstartOf ▸ h)
  rcases List.eq_nil_or_concat' q.names with hnil | ⟨front, last, hlast⟩
  · -- the root directory
    obtain ⟨mode, hstart⟩ := hstart
    refine .there ?_ (hleads (hnil ▸ walk_nil hstart true linkLimit))
    rw [makeDirectory, locateLast, hcheck, ok_bind, hnil]
    rfl
  have hfront : front <+: p.names := (hlast ▸ List.prefix_append front [last]).trans hq
  have hlocate := @locateLast_concat fs q front last hcheck hlast
  rw [hstartOf] at hlocate
  cases hclear.way hwf (.refl hwf) hstart hnames (fun _ => rfl) hfront with
  | new pos mode h hnone =>
    -- The file system is compared with itself, so nothing is new.
    rw [walk_occupied h] at hnone
    cases hnone
  | missing h =>
    refine .noParent ?_ front last hlast fun pos mode hwalk => ?_
    · rcases h.missing with ⟨dir, name, hwalk⟩ | hwalk <;>
      · rw [hwalk] at hlocate
        rw [makeDirectory, hlocate]
        rfl
    · rw [hstartOf] at hwalk
      rcases h.missing with ⟨dir, name, hwalk'⟩ | hwalk' <;>
      · rw [hwalk'] at hwalk
        cases hwalk
  | old pos mode h =>
    have hdirectory : ¬ (!(Entry.directory mode).isDirectory) = true := by simp [Entry.isDirectory]
    rw [h] at hlocate
    dsimp only at hlocate
    rw [if_neg hdirectory] at hlocate
    by_cases hspecial : last = Pathname.dot ∨ last = Pathname.dotDot
    · -- The system refuses to make a dot, but the path leads to a directory all the same.
      have hwalk : ∃ pos mode, fs.walk true linkLimit (fs.startOf p) q.names =
          .ok (.occupied pos (.directory mode)) := by
        rw [hlast]
        rcases hspecial with rfl | rfl
        · exact ⟨pos, mode, walk_concat_dot h⟩
        · exact ⟨_, walk_concat_dotDot hwf h⟩
      obtain ⟨pos', mode', hwalk⟩ := hwalk
      rw [if_pos hspecial] at hlocate
      refine .there ?_ (hleads hwalk)
      rw [makeDirectory, hlocate]
      rfl
    · have hmem : last ∈ p.names := hq.subset (hlast ▸ by simp)
      have hlength := hnames last hmem
      rw [if_neg hspecial, if_neg (by omega)] at hlocate
      cases he : fs.at? (pos ++ [last]) with
      | none =>
        refine .made (fs.bind (pos ++ [last]) (.directory directoryMode)) ?_
        rw [makeDirectory, hlocate, ok_bind]
        dsimp only
        rw [he]
        rfl
      | some entry =>
        obtain ⟨hne, hslash⟩ := Pathname.names_ne_nil_and_slash_notMem last hmem
        have hname : Pathname.IsName last :=
          ⟨hne, hslash, fun hdot => hspecial (.inl hdot), fun hdot => hspecial (.inr hdot)⟩
        obtain ⟨pos', mode', hwalk⟩ := hclear q.names hq _ entry
          (hlast ▸ (walk_concat_iff hname).2 ⟨pos, mode, h, hlength, rfl, he⟩)
        refine .there ?_ (hleads hwalk)
        rw [makeDirectory, hlocate, ok_bind]
        dsimp only
        rw [he]
        rfl

end FileSystem

end Depot
