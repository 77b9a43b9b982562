import Depot.Proofs.FileSystem.Turns
/-!
# Walks that go on

A walk takes one name after the other.  One that gets somewhere has a derivation, `WalksTo`, with a
rule for each kind of turn; what holds of failed walks, too, goes by `walk_induction`, on the links
that are left and the names.

* `walk_cons`, `walksTo_of_walk` — a walk by the turn of its first name, and its derivation;
* `walk_append` — what a walk along two lists of names does, by what it does along the first;
* `walk_concat_iff` — what stands under the last name;
* `walk_unfollowed` — what it means not to follow a last link;
* `walk_not_isLink` — following links ends at none.
-/

namespace Depot

namespace FileSystem

variable {fs : FileSystem} {follow : Bool} {links mode : Nat} {pos pos' : Position} {name : Bytes}
  {front rest steps : List Bytes} {entry : Entry} {place : Place} {target : Pathname}

/-! ## Walks by turns -/

theorem walk_nil (hpos : fs.at? pos = some entry) (follow : Bool) (links : Nat) :
    fs.walk follow links pos [] = .ok (.occupied pos entry) := by
  rw [walk, descend, hpos]

theorem walk_nil_of_none (hpos : fs.at? pos = none) (follow : Bool) (links : Nat) :
    fs.walk follow links pos [] = .error .noEntry := by
  rw [walk, descend, hpos]

theorem walk_cons (name : Bytes) (rest : List Bytes) :
    fs.walk follow links pos (name :: rest) = match fs.turn pos name with
      | .refused e => .error e
      | .into next => fs.walk follow links next rest
      | .missing => if rest = [] then .ok (.vacant pos name) else .error .noEntry
      | .link target =>
        if rest = [] && !follow then .ok (.occupied (pos ++ [name]) (.link target))
        else match links with
          | 0 => .error .tooManyLinks
          | links + 1 =>
            fs.walk follow links (if target.isAbsolute then [] else pos)
              (target.steps ++ rest) := by
  conv => lhs; rw [walk, descend]
  cases fs.turn pos name with
  | refused e => rfl
  | into next =>
      dsimp only
      rw [walk]
  | missing => rfl
  | link target =>
      dsimp only
      cases (decide (rest = []) && !follow) <;> rfl

theorem walk_refused {e : IoError} (h : fs.turn pos name = .refused e) (rest : List Bytes) :
    fs.walk follow links pos (name :: rest) = .error e := by
  rw [walk_cons, h]

theorem walk_of_none (hpos : fs.at? pos = none) (steps : List Bytes) :
    fs.walk follow links pos steps = .error .noEntry := by
  cases steps with
  | nil => exact walk_nil_of_none hpos follow links
  | cons name rest => exact walk_refused (turn_of_none hpos name) rest

theorem walk_into (h : fs.turn pos name = .into pos') (rest : List Bytes) :
    fs.walk follow links pos (name :: rest) = fs.walk follow links pos' rest := by
  rw [walk_cons, h]

theorem walk_missing (h : fs.turn pos name = .missing) (rest : List Bytes) :
    fs.walk follow links pos (name :: rest) =
      if rest = [] then .ok (.vacant pos name) else .error .noEntry := by
  rw [walk_cons, h]

theorem walk_atLink (h : fs.turn pos name = .link target) :
    fs.walk false links pos [name] = .ok (.occupied (pos ++ [name]) (.link target)) := by
  rw [walk_cons, h]
  rfl

theorem walk_link (h : fs.turn pos name = .link target) (hgo : rest ≠ [] ∨ follow = true) :
    fs.walk follow links pos (name :: rest) = match links with
      | 0 => .error .tooManyLinks
      | links + 1 =>
        fs.walk follow links (if target.isAbsolute then [] else pos) (target.steps ++ rest) := by
  rw [walk_cons, h]
  dsimp only
  rw [if_neg]
  rcases hgo with hrest | hfollow
  · simp [hrest]
  · simp [hfollow]

/-- A walk is over when its names are; each name leaves one name less, and each link one link. -/
theorem walk_induction {motive : Nat → Position → List Bytes → Prop}
    (nil : ∀ links pos, motive links pos [])
    (cons : ∀ links pos name rest, (∀ next, motive links next rest) →
      (∀ fewer, links = fewer + 1 → ∀ next steps, motive fewer next steps) →
      motive links pos (name :: rest)) (links : Nat) (pos : Position) (steps : List Bytes) :
    motive links pos steps := by
  induction links generalizing pos steps with
  | zero =>
      induction steps generalizing pos with
      | nil => exact nil 0 pos
      | cons name rest ih => exact cons 0 pos name rest ih (fun _ hlinks => by omega)
  | succ links ihLinks =>
      induction steps generalizing pos with
      | nil => exact nil _ pos
      | cons name rest ih =>
          refine cons _ pos name rest ih fun fewer hlinks => ?_
          obtain rfl : links = fewer := by omega
          exact ihLinks

/-- The walk along the names comes to the place. -/
inductive WalksTo (fs : FileSystem) (follow : Bool) : Nat → Position → List Bytes → Place → Prop
  | here {links : Nat} {pos : Position} {entry : Entry} (hpos : fs.at? pos = some entry) :
    WalksTo fs follow links pos [] (.occupied pos entry)
  | into {links : Nat} {pos next : Position} {name : Bytes} {rest : List Bytes} {place : Place}
    (hturn : fs.turn pos name = .into next) (hwalk : WalksTo fs follow links next rest place) :
    WalksTo fs follow links pos (name :: rest) place
  | vacant {links : Nat} {pos : Position} {name : Bytes} (hturn : fs.turn pos name = .missing) :
    WalksTo fs follow links pos [name] (.vacant pos name)
  | atLink {links : Nat} {pos : Position} {name : Bytes} {target : Pathname}
    (hfollow : follow = false) (hturn : fs.turn pos name = .link target) :
    WalksTo fs follow links pos [name] (.occupied (pos ++ [name]) (.link target))
  | link {links : Nat} {pos : Position} {name : Bytes} {rest : List Bytes} {target : Pathname}
    {place : Place} (hturn : fs.turn pos name = .link target)
    (hgo : rest ≠ [] ∨ follow = true)
    (hwalk : WalksTo fs follow links (if target.isAbsolute then [] else pos) (target.steps ++ rest)
      place) :
    WalksTo fs follow (links + 1) pos (name :: rest) place

theorem WalksTo.walk_eq (h : fs.WalksTo follow links pos steps place) :
    fs.walk follow links pos steps = .ok place := by
  induction h with
  | here hpos => exact walk_nil hpos _ _
  | into hturn _ ih => exact (walk_into hturn _).trans ih
  | vacant hturn => exact walk_missing hturn []
  | atLink hfollow hturn =>
      subst hfollow
      exact walk_atLink hturn
  | link hturn hgo _ ih => exact (walk_link hturn hgo).trans ih

theorem walksTo_of_walk (h : fs.walk follow links pos steps = .ok place) :
    fs.WalksTo follow links pos steps place := by
  induction links, pos, steps using walk_induction generalizing place with
  | nil links pos =>
      cases hpos : fs.at? pos with
      | none =>
          rw [walk_nil_of_none hpos] at h
          cases h
      | some entry =>
          rw [walk_nil hpos] at h
          cases h
          exact .here hpos
  | cons links pos name rest ihRest ihLinks =>
      cases hturn : fs.turn pos name with
      | refused e =>
          rw [walk_refused hturn] at h
          cases h
      | into next =>
          rw [walk_into hturn] at h
          exact .into hturn (ihRest next h)
      | missing =>
          rw [walk_missing hturn] at h
          split at h
          · subst rest
            cases h
            exact .vacant hturn
          · cases h
      | link target =>
          by_cases hgo : rest ≠ [] ∨ follow = true
          · rw [walk_link hturn hgo] at h
            cases links with
            | zero => cases h
            | succ links => exact .link hturn hgo (ihLinks links rfl _ _ h)
          · obtain ⟨rfl, rfl⟩ : rest = [] ∧ follow = false := by simpa using hgo
            rw [walk_atLink hturn] at h
            cases h
            exact .atLink rfl hturn

theorem WalksTo.start (h : fs.WalksTo follow links pos steps place) :
    (∃ mode, fs.at? pos = some (.directory mode)) ∨
      steps = [] ∧ ∃ entry, place = .occupied pos entry := by
  cases h with
  | here hpos => exact Or.inr ⟨rfl, _, rfl⟩
  | into hturn _ => exact Or.inl (directory_of_turn hturn (by simp))
  | vacant hturn => exact Or.inl (directory_of_turn hturn (by simp))
  | atLink _ hturn => exact Or.inl (directory_of_turn hturn (by simp))
  | link hturn _ _ => exact Or.inl (directory_of_turn hturn (by simp))

theorem walk_occupied (h : fs.walk follow links pos steps = .ok (.occupied pos' entry)) :
    fs.at? pos' = some entry := by
  generalize hplace : Place.occupied pos' entry = place at h
  induction walksTo_of_walk h with
  | here hpos =>
      cases hplace
      exact hpos
  | into _ hwalk ih => exact ih hplace hwalk.walk_eq
  | vacant _ => cases hplace
  | atLink _ hturn =>
      cases hplace
      exact (turn_eq_link_iff.1 hturn).2
  | link _ _ hwalk ih => exact ih hplace hwalk.walk_eq

theorem start_of_walk
    (h : fs.walk follow links pos steps = .ok (.occupied pos' (.directory mode))) :
    ∃ mode, fs.at? pos = some (.directory mode) := by
  rcases (walksTo_of_walk h).start with hpos | ⟨-, entry, hplace⟩
  · exact hpos
  · cases hplace
    exact ⟨mode, walk_occupied h⟩

theorem walk_of_not_directory (hsteps : steps ≠ []) (hpos : fs.at? pos = some entry)
    (hentry : ¬ entry.isDirectory) : fs.walk follow links pos steps = .error .notDirectory := by
  obtain ⟨name, rest, rfl⟩ := List.exists_cons_of_ne_nil hsteps
  exact walk_refused (turn_of_not_directory hpos hentry name) rest

/-! ## Walks along two lists of names -/

/-- A walk along two lists of names resumes where the first ends, with the links that are left, or
fails when that does not end at an entry. -/
theorem walk_append (links : Nat) (pos : Position) (front : List Bytes) :
    match fs.walk true links pos front with
    | .ok (.occupied pos' _) => ∃ links', ∀ rest, rest ≠ [] → ∀ follow,
        fs.walk follow links pos (front ++ rest) = fs.walk follow links' pos' rest
    | .ok (.vacant _ _) => ∀ rest, rest ≠ [] → ∀ follow,
        fs.walk follow links pos (front ++ rest) = .error .noEntry
    | .error e => ∀ rest, rest ≠ [] → ∀ follow,
        fs.walk follow links pos (front ++ rest) = .error e := by
  induction links, pos, front using walk_induction with
  | nil links pos =>
      cases hpos : fs.at? pos with
      | none =>
          rw [walk_nil_of_none hpos]
          intro rest hrest follow
          obtain ⟨name, rest, rfl⟩ := List.exists_cons_of_ne_nil hrest
          exact walk_refused (turn_of_none hpos name) rest
      | some entry =>
          rw [walk_nil hpos]
          exact ⟨links, fun rest _ follow => rfl⟩
  | cons links pos name front ihFront ihLinks =>
      cases hturn : fs.turn pos name with
      | refused e =>
          rw [walk_refused hturn]
          exact fun rest _ follow => walk_refused hturn _
      | into next =>
          simp only [List.cons_append, walk_into hturn]
          exact ihFront next
      | missing =>
          have hfails : ∀ rest, rest ≠ [] → ∀ follow,
              fs.walk follow links pos (name :: front ++ rest) = .error .noEntry := by
            intro rest hrest follow
            rw [List.cons_append, walk_missing hturn, if_neg (by simp [hrest])]
          rw [walk_missing hturn]
          by_cases hfront : front = []
          · rw [if_pos hfront]
            exact hfails
          · rw [if_neg hfront]
            exact hfails
      | link target =>
          -- What the link leads to is walked with one link less, and `rest` is still behind it.
          have hgoes : ∀ rest, rest ≠ [] → ∀ follow,
              fs.walk follow links pos (name :: front ++ rest) = match links with
                | 0 => .error .tooManyLinks
                | links + 1 => fs.walk follow links (if target.isAbsolute then [] else pos)
                    (target.steps ++ front ++ rest) := by
            intro rest hrest follow
            rw [List.cons_append, walk_link hturn (Or.inl (by simp [hrest])), List.append_assoc]
          rw [walk_link hturn (Or.inr rfl)]
          cases links with
          | zero => exact hgoes
          | succ links =>
              have hnext := ihLinks links rfl (if target.isAbsolute then [] else pos)
                (target.steps ++ front)
              simp only at hgoes
              dsimp only
              generalize fs.walk true links (if target.isAbsolute then [] else pos)
                (target.steps ++ front) = result at hnext ⊢
              rcases result with e | ⟨pos', entry⟩ | ⟨dir, name'⟩
              · exact fun rest hrest follow =>
                  (hgoes rest hrest follow).trans (hnext rest hrest follow)
              · obtain ⟨links', hall⟩ := hnext
                exact ⟨links', fun rest hrest follow =>
                  (hgoes rest hrest follow).trans (hall rest hrest follow)⟩
              · exact fun rest hrest follow =>
                  (hgoes rest hrest follow).trans (hnext rest hrest follow)

theorem walk_resume (h : fs.walk true links pos front = .ok (.occupied pos' entry)) :
    ∃ links', ∀ rest, rest ≠ [] → ∀ follow,
      fs.walk follow links pos (front ++ rest) = fs.walk follow links' pos' rest := by
  have hwalk := @walk_append fs links pos front
  rwa [h] at hwalk

theorem walk_append_of_error {e : IoError} (h : fs.walk true links pos front = .error e)
    (hrest : rest ≠ []) (follow : Bool) :
    fs.walk follow links pos (front ++ rest) = .error e := by
  have hwalk := @walk_append fs links pos front
  rw [h] at hwalk
  exact hwalk rest hrest follow

theorem walk_append_of_vacant {dir : Position}
    (h : fs.walk true links pos front = .ok (.vacant dir name)) (hrest : rest ≠ [])
    (follow : Bool) : fs.walk follow links pos (front ++ rest) = .error .noEntry := by
  have hwalk := @walk_append fs links pos front
  rw [h] at hwalk
  exact hwalk rest hrest follow

theorem walk_front (hrest : rest ≠ []) (h : fs.walk follow links pos (front ++ rest) = .ok place) :
    ∃ pos' mode links', fs.walk true links pos front = .ok (.occupied pos' (.directory mode)) ∧
      fs.walk follow links' pos' rest = .ok place := by
  cases hw : fs.walk true links pos front with
  | error e =>
      rw [walk_append_of_error hw hrest] at h
      cases h
  | ok front' =>
      cases front' with
      | vacant dir name =>
          rw [walk_append_of_vacant hw hrest] at h
          cases h
      | occupied pos' entry =>
          obtain ⟨links', hresume⟩ := walk_resume hw
          rw [hresume rest hrest] at h
          by_cases hentry : entry.isDirectory
          · obtain ⟨mode, rfl⟩ := Entry.isDirectory_iff.1 hentry
            exact ⟨pos', mode, links', rfl, h⟩
          · rw [walk_of_not_directory hrest (walk_occupied hw) hentry] at h
            cases h

/-! ## The last name -/

theorem LooksUp.walk_last (h : fs.LooksUp pos name) (he : fs.at? (pos ++ [name]) = some entry)
    (hlink : entry.isLink → follow = false) :
    fs.walk follow links pos [name] = .ok (.occupied (pos ++ [name]) entry) := by
  by_cases hentry : entry.isLink
  · obtain ⟨target, rfl⟩ := Entry.isLink_iff.1 hentry
    rw [hlink hentry, walk_atLink (h.turn_link he)]
  · rw [walk_into (h.turn_into he hentry), walk_nil he]

theorem exists_of_walk_single (hdot : name ≠ Pathname.dot) (hup : name ≠ Pathname.dotDot)
    (h : fs.walk follow links pos [name] = .ok (.occupied pos' entry)) :
    fs.LooksUp pos name ∧ ∃ child, fs.at? (pos ++ [name]) = some child ∧
      (child.isLink ∨ pos' = pos ++ [name] ∧ child = entry) := by
  cases walksTo_of_walk h with
  | into hturn hwalk =>
      rcases turn_eq_into_iff.1 hturn with ⟨-, _ | _⟩ | ⟨hlooks, rfl, child, hchild, hlink⟩
      · exact absurd rfl hdot
      · exact absurd rfl hup
      · cases hwalk with
        | here hpos => exact ⟨hlooks, _, hpos, Or.inr ⟨rfl, rfl⟩⟩
  | atLink _ hturn =>
      obtain ⟨hlooks, ht⟩ := turn_eq_link_iff.1 hturn
      exact ⟨hlooks, _, ht, Or.inl rfl⟩
  | link hturn _ _ =>
      obtain ⟨hlooks, ht⟩ := turn_eq_link_iff.1 hturn
      exact ⟨hlooks, _, ht, Or.inl rfl⟩

theorem entry_of_walk_single (hdot : name ≠ Pathname.dot) (hup : name ≠ Pathname.dotDot)
    (h : fs.walk follow links pos [name] = .ok (.occupied pos' (.directory mode))) :
    ∃ child, fs.at? (pos ++ [name]) = some child ∧ (child.isDirectory ∨ child.isLink) := by
  obtain ⟨-, child, hchild, hlink | ⟨-, rfl⟩⟩ := exists_of_walk_single hdot hup h
  · exact ⟨child, hchild, Or.inr hlink⟩
  · exact ⟨_, hchild, Or.inl rfl⟩

theorem walk_concat_iff {leaf : Bytes} (hleaf : Pathname.IsName leaf) :
    fs.walk false links pos (front ++ [leaf]) = .ok (.occupied pos' entry) ↔
      ∃ dir mode, fs.walk true links pos front = .ok (.occupied dir (.directory mode)) ∧
        leaf.length ≤ maxNameLength ∧ pos' = dir ++ [leaf] ∧
          fs.at? (dir ++ [leaf]) = some entry := by
  constructor
  · intro h
    obtain ⟨dir, mode, links', hfront, hrest⟩ := walk_front (List.cons_ne_nil leaf []) h
    obtain ⟨hlooks, child, hchild, -⟩ :=
      exists_of_walk_single hleaf.ne_dot hleaf.ne_dotDot hrest
    rw [hlooks.walk_last hchild (fun _ => rfl)] at hrest
    cases hrest
    exact ⟨dir, mode, hfront, hlooks.length_le, rfl, hchild⟩
  · rintro ⟨dir, mode, hfront, hlength, rfl, hentry⟩
    obtain ⟨links', hresume⟩ := walk_resume hfront
    rw [hresume [leaf] (List.cons_ne_nil leaf [])]
    exact (LooksUp.of_isName (walk_occupied hfront) hleaf hlength).walk_last hentry fun _ => rfl

theorem walk_vacant {dir : Position}
    (h : fs.walk follow links pos steps = .ok (.vacant dir name)) :
    fs.LooksUp dir name ∧ fs.at? (dir ++ [name]) = none := by
  generalize hplace : Place.vacant dir name = place at h
  induction walksTo_of_walk h with
  | here _ => cases hplace
  | into _ hwalk ih => exact ih hplace hwalk.walk_eq
  | vacant hturn =>
      cases hplace
      exact turn_eq_missing_iff.1 hturn
  | atLink _ _ => cases hplace
  | link _ _ hwalk ih => exact ih hplace hwalk.walk_eq

/-- A walk that does not follow a last link does what one does that follows it, or ends at a
link. -/
theorem walk_unfollowed (links : Nat) (pos : Position) (steps : List Bytes) :
    fs.walk false links pos steps = fs.walk true links pos steps ∨
      ∃ pos' target, fs.walk false links pos steps = .ok (.occupied pos' (.link target)) := by
  induction links, pos, steps using walk_induction with
  | nil links pos =>
      cases hpos : fs.at? pos with
      | none => exact Or.inl (by rw [walk_nil_of_none hpos, walk_nil_of_none hpos])
      | some entry => exact Or.inl (by rw [walk_nil hpos, walk_nil hpos])
  | cons links pos name rest ihRest ihLinks =>
      cases hturn : fs.turn pos name with
      | refused e => exact Or.inl (by rw [walk_refused hturn, walk_refused hturn])
      | into next =>
          rw [walk_into hturn, walk_into hturn]
          exact ihRest next
      | missing => exact Or.inl (by rw [walk_missing hturn, walk_missing hturn])
      | link target =>
          by_cases hrest : rest = []
          · subst hrest
            exact Or.inr ⟨_, target, walk_atLink hturn⟩
          · rw [walk_link hturn (Or.inl hrest), walk_link hturn (Or.inl hrest)]
            cases links with
            | zero => exact Or.inl rfl
            | succ links => exact ihLinks links rfl _ _

theorem walk_not_isLink (hwf : fs.WellFormed) {entry' : Entry} (hpos : fs.at? pos = some entry)
    (hentry : ¬ entry.isLink) (h : fs.walk true links pos steps = .ok (.occupied pos' entry')) :
    ¬ entry'.isLink := by
  generalize hplace : Place.occupied pos' entry' = place at h
  induction walksTo_of_walk h generalizing entry with
  | here hpos' =>
      cases hplace
      rwa [Option.some.inj (hpos'.symm.trans hpos)]
  | into hturn hwalk ih =>
      rcases turn_eq_into_iff.1 hturn with ⟨⟨mode, hmode⟩, _ | _⟩ | ⟨-, rfl, child, hchild, hlink⟩
      · exact ih hmode (by simp [Entry.isLink]) hplace hwalk.walk_eq
      · obtain ⟨mode', hmode'⟩ := hwf.directory_of_isPrefix hmode (List.dropLast_prefix _)
        exact ih hmode' (by simp [Entry.isLink]) hplace hwalk.walk_eq
      · exact ih hchild hlink hplace hwalk.walk_eq
  | vacant _ => cases hplace
  | atLink hfollow _ => cases hfollow
  | @link links pos name rest target place hturn _ hwalk ih =>
      by_cases habs : target.isAbsolute = true
      · rw [if_pos habs] at ih hwalk
        exact ih (at?_root fs) (by simp [Entry.isLink]) hplace hwalk.walk_eq
      · rw [if_neg habs] at ih hwalk
        obtain ⟨mode, hmode⟩ := directory_of_turn hturn (by simp)
        exact ih hmode (by simp [Entry.isLink]) hplace hwalk.walk_eq

end FileSystem

end Depot
