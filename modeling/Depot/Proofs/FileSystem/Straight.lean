import Depot.Proofs.FileSystem.Walk
/-!
# Walks without links

A walk that meets no links is `straight`: it goes down from directory to directory, and what it
finds is bound at the names that it has taken.

* `walk_eq_straight_of_way`, `walk_eq_straight` — where no link is on the way;
* `straight_eq_occupied_iff`, `vacant_of_straight`, `straight_of_missing` — what straight walks
  find;
* `walk_through`, `walk_directory` — a directory under its own names.
-/

namespace Depot

namespace FileSystem

variable {fs : FileSystem}

def straight (fs : FileSystem) (pos : Position) : List Bytes → Except IoError Place
  | [] =>
    match fs.at? pos with
    | some entry => .ok (.occupied pos entry)
    | none => .error .noEntry
  | name :: rest =>
    match fs.at? pos with
    | some (.directory _) =>
      if maxNameLength < name.length then .error .nameTooLong
      else match fs.at? (pos ++ [name]) with
        | none => if rest = [] then .ok (.vacant pos name) else .error .noEntry
        | some _ => fs.straight (pos ++ [name]) rest
    | some _ => .error .notDirectory
    | none => .error .noEntry

/-- Where no link is bound on the way, a walk goes straight. -/
theorem walk_eq_straight_of_way {follow : Bool} {links : Nat} {pos : Position} {names : List Bytes}
    (hlink : ∀ front entry, front ≠ [] → front <+: names → fs.at? (pos ++ front) = some entry →
      ¬ entry.isLink)
    (hnames : ∀ name ∈ names, Pathname.IsName name) :
    fs.walk follow links pos names = fs.straight pos names := by
  induction names generalizing pos with
  | nil =>
      rw [straight]
      cases hpos : fs.at? pos with
      | none => exact walk_nil_of_none hpos _ _
      | some entry => exact walk_nil hpos _ _
  | cons name rest ih =>
      have hname := hnames name (by simp)
      rw [straight]
      cases hpos : fs.at? pos with
      | none => exact walk_refused (turn_of_none hpos name) rest
      | some entry =>
          by_cases hentry : entry.isDirectory
          · obtain ⟨mode, rfl⟩ := Entry.isDirectory_iff.1 hentry
            dsimp only
            by_cases hlong : maxNameLength < name.length
            · rw [if_pos hlong, walk_refused (turn_tooLong hpos hname hlong)]
            have hlooks := LooksUp.of_isName hpos hname (Nat.not_lt.1 hlong)
            rw [if_neg hlong]
            cases hchild : fs.at? (pos ++ [name]) with
            | none => exact walk_missing (hlooks.turn_missing hchild) rest
            | some child =>
                rw [walk_into (hlooks.turn_into hchild (hlink [name] _ (by simp) (by simp) hchild))]
                apply ih
                · intro front entry hne hfront he
                  rw [List.append_assoc] at he
                  exact hlink _ entry (by simp) ((List.cons_prefix_cons).2 ⟨rfl, hfront⟩) he
                · intro other hother
                  exact hnames other (by simp [hother])
          · rw [walk_of_not_directory (List.cons_ne_nil name rest) hpos hentry]
            cases entry with
            | directory mode => exact absurd rfl hentry
            | file id => rfl
            | link target => rfl
            | device => rfl

theorem PlainBelow.not_isLink {root : Position} (h : fs.PlainBelow root) {names : Position}
    {entry : Entry} (hne : names ≠ []) (he : fs.at? (root ++ names) = some entry) :
    ¬ entry.isLink := by
  rcases h names entry hne he with ⟨mode, rfl⟩ | ⟨id, rfl, -⟩ <;> simp [Entry.isLink]

theorem walk_eq_straight {root : Position} (hplain : fs.PlainBelow root) (follow : Bool)
    (links : Nat) {names : List Bytes} (hnames : ∀ name ∈ names, Pathname.IsName name) :
    fs.walk follow links root names = fs.straight root names :=
  walk_eq_straight_of_way (fun _ _ hne _ he => hplain.not_isLink hne he) hnames

theorem straight_congr {fs' : FileSystem} {pos : Position}
    (hbelow : ∀ names, fs'.at? (pos ++ names) = fs.at? (pos ++ names)) (names : List Bytes) :
    fs'.straight pos names = fs.straight pos names := by
  induction names generalizing pos with
  | nil =>
      have hpos := hbelow []
      rw [List.append_nil] at hpos
      rw [straight, straight, hpos]
  | cons name rest ih =>
      have hpos := hbelow []
      rw [List.append_nil] at hpos
      rw [straight, straight, hpos, hbelow [name], ih fun names => ?_]
      rw [List.append_assoc]
      exact hbelow ([name] ++ names)

theorem straight_eq_occupied_iff (hwf : fs.WellFormed) {pos pos' : Position} {names : List Bytes}
    {entry : Entry} :
    fs.straight pos names = .ok (.occupied pos' entry) ↔
      pos' = pos ++ names ∧ fs.at? (pos ++ names) = some entry := by
  induction names generalizing pos with
  | nil =>
      rw [straight, List.append_nil]
      cases hpos : fs.at? pos <;> simp [eq_comm]
  | cons name rest ih =>
      have happend : pos ++ name :: rest = pos ++ [name] ++ rest := by simp
      rw [straight]
      constructor
      · intro h
        split at h
        · split at h
          · cases h
          split at h
          · split at h <;> cases h
          · rw [happend]
            exact ih.1 h
        · cases h
        · cases h
      · rintro ⟨rfl, he⟩
        obtain ⟨mode, hmode⟩ := hwf.directory_of_append (List.cons_ne_nil name rest) he
        have hname := hwf.names_of_append he name (by simp)
        -- The next entry is the one looked for, or a directory above it.
        have hchild : ∃ child, fs.at? (pos ++ [name]) = some child := by
          by_cases hrest : rest = []
          · exact ⟨entry, by rw [← he, hrest]⟩
          · rw [happend] at he
            obtain ⟨mode', hmode'⟩ := hwf.directory_of_append hrest he
            exact ⟨_, hmode'⟩
        obtain ⟨child, hchild⟩ := hchild
        rw [hmode]
        dsimp only
        rw [if_neg (Nat.not_lt.2 hname.length_le), hchild]
        dsimp only
        rw [ih, ← happend]
        exact ⟨rfl, he⟩

theorem vacant_of_straight {pos dir : Position} {names : List Bytes} {name : Bytes}
    (h : fs.straight pos names = .ok (.vacant dir name)) :
    names ≠ [] ∧ dir ++ [name] = pos ++ names ∧ name.length ≤ maxNameLength ∧
      (∃ mode, fs.at? dir = some (.directory mode)) ∧ fs.at? (dir ++ [name]) = none := by
  induction names generalizing pos with
  | nil =>
      rw [straight] at h
      split at h <;> cases h
  | cons first rest ih =>
      refine ⟨List.cons_ne_nil first rest, ?_⟩
      rw [straight] at h
      split at h
      · rename_i mode hpos
        split at h
        · cases h
        rename_i hlong
        split at h
        · rename_i hchild
          split at h
          · rename_i hrest
            simp only [Except.ok.injEq, Place.vacant.injEq] at h
            obtain ⟨rfl, rfl⟩ := h
            exact ⟨by rw [hrest], by omega, ⟨mode, hpos⟩, hchild⟩
          · cases h
        · have hnext := (ih h).2
          simpa using hnext
      · cases h
      · cases h

theorem straight_append (hwf : fs.WellFormed) {pos : Position} {front : List Bytes} {mode : Nat}
    (hfront : fs.at? (pos ++ front) = some (.directory mode)) (rest : List Bytes) :
    fs.straight pos (front ++ rest) = fs.straight (pos ++ front) rest := by
  induction front generalizing pos with
  | nil => rw [List.nil_append, List.append_nil]
  | cons name front ih =>
      have happend : pos ++ name :: front = pos ++ [name] ++ front := by simp
      obtain ⟨mode', hpos⟩ := hwf.directory_of_append (List.cons_ne_nil name front) hfront
      have hname := hwf.names_of_append hfront name List.mem_cons_self
      rw [happend] at hfront ⊢
      have hchild : ∃ child, fs.at? (pos ++ [name]) = some child := by
        by_cases hnil : front = []
        · exact ⟨_, by rwa [hnil, List.append_nil] at hfront⟩
        · obtain ⟨mode'', hmode''⟩ := hwf.directory_of_append hnil hfront
          exact ⟨_, hmode''⟩
      obtain ⟨child, hchild⟩ := hchild
      rw [List.cons_append, straight, hpos]
      dsimp only
      rw [if_neg (Nat.not_lt.2 hname.length_le), hchild]
      exact ih hfront

theorem straight_vacant (hwf : fs.WellFormed) {pos : Position} {dirs : List Bytes} {name : Bytes}
    {mode : Nat} (hdirs : fs.at? (pos ++ dirs) = some (.directory mode))
    (hlength : name.length ≤ maxNameLength) (hnone : fs.at? (pos ++ (dirs ++ [name])) = none) :
    fs.straight pos (dirs ++ [name]) = .ok (.vacant (pos ++ dirs) name) := by
  rw [← List.append_assoc] at hnone
  rw [straight_append hwf hdirs, straight, hdirs]
  dsimp only
  rw [if_neg (Nat.not_lt.2 hlength), hnone]
  rfl

theorem straight_of_missing {pos : Position} {names : List Bytes} {mode : Nat}
    (hpos : fs.at? pos = some (.directory mode))
    (hlength : ∀ name ∈ names, name.length ≤ maxNameLength)
    (hway : ∀ front entry, front <+: names → fs.at? (pos ++ front) = some entry →
      entry.isDirectory)
    (hnone : fs.at? (pos ++ names) = none) :
    fs.straight pos names = .error .noEntry ∨
      ∃ dir name, fs.straight pos names = .ok (.vacant dir name) := by
  induction names generalizing pos mode with
  | nil =>
      rw [List.append_nil, hpos] at hnone
      cases hnone
  | cons name rest ih =>
      have happend (front : List Bytes) : pos ++ name :: front = pos ++ [name] ++ front := by simp
      rw [straight, hpos]
      dsimp only
      rw [if_neg (Nat.not_lt.2 (hlength name List.mem_cons_self))]
      cases hchild : fs.at? (pos ++ [name]) with
      | none =>
          by_cases hrest : rest = []
          · exact Or.inr ⟨pos, name, by rw [if_pos hrest]⟩
          · exact Or.inl (by rw [if_neg hrest])
      | some child =>
          have hdirectory := hway [name] child (by simp) hchild
          obtain ⟨mode', rfl⟩ := Entry.isDirectory_iff.1 hdirectory
          refine ih hchild (fun other hother => hlength other (by simp [hother])) ?_ ?_
          · intro front entry hfront he
            rw [← happend] at he
            exact hway (name :: front) entry ((List.cons_prefix_cons).2 ⟨rfl, hfront⟩) he
          · rwa [← happend]

theorem walk_through (hwf : fs.WellFormed) {follow : Bool} {links : Nat} {pos : Position}
    {mode : Nat} (hpos : fs.at? pos = some (.directory mode)) (rest : List Bytes) :
    fs.walk follow links [] (pos ++ rest) = fs.walk follow links pos rest := by
  induction pos using List.reverseRecOn generalizing mode rest with
  | nil => rfl
  | append_singleton dir name ih =>
      obtain ⟨mode', hdir⟩ := hwf.parent hpos
      have hname := hwf.name hpos
      rw [List.append_assoc, ih hdir]
      exact walk_into ((LooksUp.of_isName hdir hname.toIsName hname.length_le).turn_into hpos
        (by simp [Entry.isLink])) rest

theorem walk_directory (hwf : fs.WellFormed) {root : Position} {mode : Nat}
    (hroot : fs.at? root = some (.directory mode)) (follow : Bool) :
    fs.walk follow linkLimit [] root = .ok (.occupied root (.directory mode)) := by
  have hwalk := @walk_through fs hwf follow linkLimit root mode hroot []
  rw [List.append_nil] at hwalk
  rw [hwalk, walk_nil hroot]

end FileSystem

end Depot
