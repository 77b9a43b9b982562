import Depot.Proofs.Path.Names
/-!
# Absolute paths made absolute again

An absolute path without dots is only tidied up when it is made absolute: doubled and needless
slashes go, and a walk along it reads what it read before.

Any other path becomes absolute, too, and has no dots left.

* `absolute_bytes_sublist` — no byte is added;
* `names_absolute` — the names stay the same, and so does what a walk reads;
* `absolute_named`, `absolute_clean` — what becomes of any path;
* `absolute_ofRootNames` — the path of a position stays as it is.
-/

namespace Depot.Pathname

theorem intercalate_sublist {xs ys : List Bytes} (h : xs.Sublist ys) :
    ([slash].intercalate xs).Sublist ([slash].intercalate ys) := by
  induction h with
  | slnil => exact List.Sublist.refl _
  | cons y h ih =>
      rename_i xs ys
      by_cases hys : ys = []
      · rw [hys] at h
        rw [List.sublist_nil.1 h]
        exact List.nil_sublist _
      · rw [List.intercalate_cons_of_ne_nil hys]
        exact ih.trans (List.sublist_append_right ..)
  | cons_cons x h ih =>
      rename_i xs ys
      by_cases hxs : xs = []
      · subst hxs
        by_cases hys : ys = []
        · rw [hys]
        · rw [List.intercalate_singleton, List.intercalate_cons_of_ne_nil hys, List.append_assoc]
          exact List.sublist_append_left ..
      · have hys : ys ≠ [] := by
          rintro rfl
          exact hxs (List.sublist_nil.1 h)
        rw [List.intercalate_cons_of_ne_nil hxs, List.intercalate_cons_of_ne_nil hys]
        exact ih.append_left _

theorem filterMap_ofPiece?_bytes (pieces : List Bytes) :
    (pieces.filterMap Component.ofPiece?).map Component.bytes =
      (pieces.filter fun piece => piece ≠ []).filter fun piece => piece ≠ dot := by
  induction pieces with
  | nil => rfl
  | cons piece rest ih =>
      by_cases hidle : piece = [] ∨ piece = dot
      · have hnone : Component.ofPiece? piece = none := by simp [Component.ofPiece?, hidle]
        rw [List.filterMap_cons_none hnone, ih]
        rcases hidle with rfl | rfl
        · rw [List.filter_cons_of_neg (by simp)]
        · rw [List.filter_cons_of_pos (by decide), List.filter_cons_of_neg (by simp)]
      · have hsome : ∃ c, Component.ofPiece? piece = some c ∧ c.bytes = piece := by
          rw [Component.ofPiece?, if_neg hidle]
          split
          · rename_i hup
            exact ⟨.parent, rfl, hup.symm⟩
          · exact ⟨.normal piece, rfl, rfl⟩
        obtain ⟨c, hc, hbytes⟩ := hsome
        rw [not_or] at hidle
        rw [List.filterMap_cons_some hc, List.map_cons, hbytes, ih,
          List.filter_cons_of_pos (by simp [hidle.1]), List.filter_cons_of_pos (by simp [hidle.2])]

theorem filterMap_ofPiece?_ne_current {pieces : List Bytes} :
    ∀ c ∈ pieces.filterMap Component.ofPiece?, c ≠ .current := by
  intro c hc
  obtain ⟨piece, -, hpiece⟩ := List.mem_filterMap.1 hc
  rintro rfl
  rw [Component.ofPiece?] at hpiece
  split at hpiece
  · cases hpiece
  · split at hpiece <;> cases hpiece

theorem foldl_join {front : Bytes} (hfront : front.getLast? = some slash) {names : List Bytes}
    (hnames : ∀ name ∈ names, name ≠ [] ∧ slash ∉ name) :
    names.foldl (fun (acc : Pathname) name => acc.join ⟨name⟩) ⟨front⟩ =
      ⟨front ++ [slash].intercalate names⟩ := by
  have hne : front ≠ [] := by
    rintro rfl
    cases hfront
  induction names using List.reverseRecOn with
  | nil => simp
  | append_singleton names name ih =>
      obtain ⟨hname, hslash⟩ := hnames name (by simp)
      have hrelative : (⟨name⟩ : Pathname).isAbsolute = false := by
        obtain ⟨b, bs, rfl⟩ := List.exists_cons_of_ne_nil hname
        have hb : ¬ b = slash := fun heq => hslash (by simp [heq])
        simp [isAbsolute, hb]
      rw [List.foldl_append, ih fun other hother => hnames other (by simp [hother]),
        List.foldl_cons, List.foldl_nil, join, hrelative, if_neg (by simp)]
      rcases List.eq_nil_or_concat' names with rfl | ⟨init, last, rfl⟩
      · rw [if_pos (Or.inr (by simp [endsInSlash, hfront]))]
        simp
      · obtain ⟨hlast, hslash'⟩ := hnames last (by simp)
        obtain ⟨front', rfl⟩ := List.getLast?_eq_some_iff.1 hfront
        have hends := not_endsInSlash_append front' init hlast hslash'
        rw [List.append_assoc, List.singleton_append, if_neg (by simp [hends]),
          @intercalate_append (init ++ [last]) [name] (by simp) (by simp)]
        simp

theorem intercalate_names_sublist (bytes : Bytes) :
    ([slash].intercalate (⟨bytes⟩ : Pathname).names).Sublist bytes := by
  have hpieces : [slash].intercalate (⟨bytes⟩ : Pathname).pieces = bytes :=
    List.intercalate_splitOn ..
  conv => rhs; rw [← hpieces]
  exact intercalate_sublist List.filter_sublist

/-- What follows the last name when a path is made absolute. -/
def tailOf (p : Pathname) : Bytes := if p.endsInSlash ∧ p.names ≠ [] then [slash] else []

theorem components_of_isAbsolute {p : Pathname} (habs : p.isAbsolute) (hdot : dot ∉ p.names) :
    ∃ body, (p.components.filter fun c => c ≠ .current) = .root :: body ∧
      body.map Component.bytes = p.names := by
  have hhead : p.bytes.head? = some slash := by simpa [isAbsolute] using habs
  obtain ⟨bytes, hbytes⟩ := List.head?_eq_some_iff.1 hhead
  have hpieces : p.pieces = [] :: bytes.splitOn slash := by
    rw [pieces, hbytes, List.splitOn_cons_eq_if_modifyHead, if_pos (by simp)]
  have hnames : p.names = (bytes.splitOn slash).filter fun piece => piece ≠ [] := by
    rw [names, hpieces, List.filter_cons_of_neg (by simp)]
  refine ⟨(bytes.splitOn slash).filterMap Component.ofPiece?, ?_, ?_⟩
  · rw [components, hpieces]
    dsimp only
    rw [if_pos rfl, if_neg (List.splitOn_ne_nil _ _), List.filter_cons_of_pos (by simp),
      List.filter_eq_self.2]
    intro c hc
    simpa using filterMap_ofPiece?_ne_current c hc
  · rw [filterMap_ofPiece?_bytes, ← hnames, List.filter_eq_self]
    intro name hname
    simpa using fun heq : name = dot => hdot (heq ▸ hname)

theorem names_ne_nil_and_slash_notMem {p : Pathname} :
    ∀ name ∈ p.names, name ≠ [] ∧ slash ∉ name := by
  intro name hname
  obtain ⟨hmem, hne⟩ := List.mem_filter.1 hname
  exact ⟨by simpa using hne, slash_notMem_of_mem_pieces hmem⟩

/-- One slash or two, the names with slashes between, and a slash where one was at the end. -/
theorem absolute_eq {p : Pathname} (workingDir : Pathname) (habs : p.isAbsolute)
    (hdot : dot ∉ p.names) :
    ∃ front, (front = [slash] ∨ front = [slash, slash]) ∧ front <+: p.bytes ∧
      absolute workingDir p = ⟨front ++ [slash].intercalate p.names ++ p.tailOf⟩ := by
  obtain ⟨body, hcomps, hbody⟩ := components_of_isAbsolute habs hdot
  -- Both kinds of root, one slash or two, are ends to which the names are joined alike.
  have hjoin : ∀ front : Bytes, front.getLast? = some slash →
      body.foldl (fun (acc : Pathname) c => acc.join ⟨c.bytes⟩) ⟨front⟩ =
        ⟨front ++ [slash].intercalate p.names⟩ := by
    intro front hfront
    rw [← foldl_join hfront names_ne_nil_and_slash_notMem, ← hbody, List.foldl_map]
  have htail : ∀ front : Bytes, front.getLast? = some slash →
      (if p.endsInSlash then (⟨front ++ [slash].intercalate p.names⟩ : Pathname).join empty
        else ⟨front ++ [slash].intercalate p.names⟩) =
        ⟨front ++ [slash].intercalate p.names ++ p.tailOf⟩ := by
    intro front hfront
    obtain ⟨front', rfl⟩ := List.getLast?_eq_some_iff.1 hfront
    by_cases hends : p.endsInSlash = true
    · rw [if_pos hends, Pathname.mk.injEq, join_empty_bytes, tailOf]
      rcases List.eq_nil_or_concat' p.names with hnil | ⟨init, last, hnames⟩
      · rw [hnil, if_pos (Or.inr (by simp [endsInSlash])), if_neg (by simp)]
        simp
      · obtain ⟨hlast, hslash⟩ := names_ne_nil_and_slash_notMem last (by rw [hnames]; simp)
        have hnot := not_endsInSlash_append front' init hlast hslash
        rw [hnames, if_pos (c := p.endsInSlash = true ∧ _) ⟨hends, by simp⟩, List.append_assoc,
          List.singleton_append, if_neg (by simp [hnot])]
    · rw [if_neg hends, tailOf, if_neg (fun h => hends h.1), List.append_nil]
  rw [absolute, hcomps, if_pos habs]
  by_cases hdouble : p.bytes.take 2 = [slash, slash] ∧ p.bytes.take 3 ≠ [slash, slash, slash]
  · refine ⟨[slash, slash], Or.inr rfl, ?_, ?_⟩
    · rw [← hdouble.1]
      exact List.take_prefix 2 _
    · rw [if_pos hdouble, ← htail _ rfl, ← hjoin _ rfl]
      rfl
  · refine ⟨[slash], Or.inl rfl, ?_, ?_⟩
    · have hhead : p.bytes.head? = some slash := by simpa [isAbsolute] using habs
      obtain ⟨bytes, hbytes⟩ := List.head?_eq_some_iff.1 hhead
      exact ⟨bytes, by rw [hbytes]; rfl⟩
    · rw [if_neg hdouble, ← htail _ rfl, ← hjoin _ rfl]
      rfl

theorem absolute_bytes_sublist {p : Pathname} (workingDir : Pathname) (habs : p.isAbsolute)
    (hdot : dot ∉ p.names) : (absolute workingDir p).bytes.Sublist p.bytes := by
  obtain ⟨front, hfront, ⟨rest, hrest⟩, heq⟩ := absolute_eq workingDir habs hdot
  -- What is left behind the slashes of the root has all the names, so nothing can be added there.
  have hnames : p.names = (⟨rest⟩ : Pathname).names := by
    rw [show p = ⟨front ++ rest⟩ by rw [hrest]]
    rcases hfront with rfl | rfl
    · exact names_cons_slash rest
    · exact (names_cons_slash (slash :: rest)).trans (names_cons_slash rest)
  rw [heq, ← hrest, List.append_assoc]
  apply List.Sublist.append_left
  rw [hnames, tailOf]
  by_cases htail : p.endsInSlash ∧ p.names ≠ []
  · rw [if_pos htail]
    have hne : rest ≠ [] := by
      rintro rfl
      exact htail.2 (hnames.trans (by decide))
    have hlast : rest.getLast? = some slash := by
      have hp : p.bytes.getLast? = some slash := by simpa [endsInSlash] using htail.1
      rw [← hrest, List.getLast?_append] at hp
      obtain ⟨b, hb⟩ := Option.ne_none_iff_exists'.1 (mt List.getLast?_eq_none_iff.1 hne)
      rw [hb] at hp ⊢
      exact hp
    obtain ⟨rest', rfl⟩ := List.getLast?_eq_some_iff.1 hlast
    rw [names_concat_slash]
    exact (intercalate_names_sublist rest').append_right _
  · rw [if_neg htail, List.append_nil]
    exact intercalate_names_sublist rest

theorem names_absolute {p : Pathname} (workingDir : Pathname) (habs : p.isAbsolute)
    (hdot : dot ∉ p.names) :
    (absolute workingDir p).isAbsolute ∧ (absolute workingDir p).names = p.names ∧
      (absolute workingDir p).steps = p.steps := by
  obtain ⟨front, hfront, -, heq⟩ := absolute_eq workingDir habs hdot
  have hbare : (⟨front ++ [slash].intercalate p.names⟩ : Pathname).names = p.names := by
    have hone : (⟨slash :: [slash].intercalate p.names⟩ : Pathname).names = p.names :=
      (names_cons_slash _).trans (names_intercalate names_ne_nil_and_slash_notMem)
    rcases hfront with rfl | rfl
    · exact hone
    · exact (names_cons_slash _).trans hone
  have hnames : (absolute workingDir p).names = p.names := by
    rw [heq, tailOf]
    split
    · rw [names_concat_slash, hbare]
    · rw [List.append_nil, hbare]
  refine ⟨?_, hnames, ?_⟩
  · rw [heq]
    rcases hfront with rfl | rfl <;> simp [isAbsolute]
  · rw [steps, steps, hnames]
    rcases List.eq_nil_or_concat' p.names with hempty | ⟨init, last, hlast⟩
    · rw [hempty]
      simp
    · have hends : (absolute workingDir p).endsInSlash = p.endsInSlash := by
        obtain ⟨hne, hslash⟩ := names_ne_nil_and_slash_notMem last (by rw [hlast]; simp)
        rw [heq, tailOf]
        by_cases hends : p.endsInSlash = true
        · rw [if_pos ⟨hends, by simp [hlast]⟩, hends]
          simp [endsInSlash]
        · rw [if_neg (fun h => hends h.1), List.append_nil, Bool.eq_false_iff.2 hends, hlast]
          rcases hfront with rfl | rfl
          · exact not_endsInSlash_append [] init hne hslash
          · exact not_endsInSlash_append [slash] init hne hslash
      rw [hends]

/-! ## Any path made absolute -/

/-- A component that is written as one name, and not as a dot. -/
def Component.IsNamed (c : Component) : Prop := c.bytes ≠ [] ∧ slash ∉ c.bytes ∧ c.bytes ≠ dot

theorem body_of_pieces {p : Pathname} {pieces : List Bytes}
    (hpieces : p.names = pieces.filter (fun piece => piece ≠ [])) :
    (∀ c ∈ pieces.filterMap Component.ofPiece?, c.IsNamed) ∧
      (pieces.filterMap Component.ofPiece?).map Component.bytes =
        p.names.filter fun name => name ≠ dot := by
  have hbytes := filterMap_ofPiece?_bytes pieces
  rw [← hpieces] at hbytes
  refine ⟨fun c hc => ?_, hbytes⟩
  have hmem : c.bytes ∈ (pieces.filterMap Component.ofPiece?).map Component.bytes :=
    List.mem_map_of_mem hc
  rw [hbytes, List.mem_filter] at hmem
  obtain ⟨hne, hslash⟩ := names_ne_nil_and_slash_notMem c.bytes hmem.1
  exact ⟨hne, hslash, by simpa using hmem.2⟩

theorem filter_filterMap_ofPiece? (pieces : List Bytes) :
    ((pieces.filterMap Component.ofPiece?).filter fun c => c ≠ .current) =
      pieces.filterMap Component.ofPiece? := by
  rw [List.filter_eq_self]
  intro c hc
  simpa using filterMap_ofPiece?_ne_current c hc

theorem pieces_ne_single_nil {p : Pathname} (habs : p.isAbsolute) : p.pieces ≠ [[]] := by
  intro hpieces
  have hjoin : [slash].intercalate p.pieces = p.bytes := List.intercalate_splitOn ..
  have hnil : p.bytes = [] := by
    rw [← hjoin, hpieces]
    rfl
  rw [isAbsolute, hnil] at habs
  cases habs

theorem not_isAbsolute_of_pieces {p : Pathname} {first : Bytes} {rest : List Bytes}
    (hpieces : p.pieces = first :: rest) (hfirst : first ≠ []) : p.isAbsolute = false := by
  rw [Bool.eq_false_iff]
  intro habs
  obtain ⟨rest', hrest'⟩ := pieces_of_isAbsolute habs
  rw [hpieces] at hrest'
  cases hrest'
  exact hfirst rfl

theorem exists_body (p : Pathname) : ∃ body : List Component, (∀ c ∈ body, c.IsNamed) ∧
    body.map Component.bytes = p.names.filter (fun name => name ≠ dot) ∧
    (p.components.filter fun c => c ≠ .current) = if p.isAbsolute then .root :: body else body := by
  by_cases hempty : p = .empty
  · subst hempty
    exact ⟨[], by simp, by decide, rfl⟩
  cases hpieces : p.pieces with
  | nil => exact absurd hpieces (List.splitOn_ne_nil _ _)
  | cons first rest =>
      by_cases hfirst : first = []
      · -- The empty piece before the first slash is the root, and no name.
        subst hfirst
        have habs := isAbsolute_of_pieces hempty hpieces
        have hrest : rest ≠ [] := fun hnil => pieces_ne_single_nil habs (by rw [hpieces, hnil])
        obtain ⟨hnamed, hnames⟩ := @body_of_pieces p rest (by
          rw [names, hpieces, List.filter_cons_of_neg (by simp)])
        refine ⟨_, hnamed, hnames, ?_⟩
        rw [components, hpieces, if_pos habs]
        dsimp only
        rw [if_pos rfl, if_neg hrest, List.filter_cons_of_pos (by simp), filter_filterMap_ofPiece?]
      · obtain ⟨hnamed, hnames⟩ := @body_of_pieces p (first :: rest) (by rw [names, hpieces])
        refine ⟨_, hnamed, hnames, ?_⟩
        rw [components, hpieces, not_isAbsolute_of_pieces hpieces hfirst]
        dsimp only
        rw [if_neg hfirst]
        split
        · -- A dot in front is a component, which the filter drops.
          rename_i hdot
          have hnone : Component.ofPiece? first = none := by simp [Component.ofPiece?, hdot]
          rw [List.filter_cons_of_neg (by simp), filter_filterMap_ofPiece?,
            List.filterMap_cons_none hnone]
          rfl
        · have hwhole : (Component.ofPiece? first).toList ++ rest.filterMap Component.ofPiece? =
              (first :: rest).filterMap Component.ofPiece? := by
            rw [List.filterMap_cons]
            cases Component.ofPiece? first <;> rfl
          rw [hwhole, filter_filterMap_ofPiece?]
          rfl

theorem bytes_ne_nil_of_isAbsolute {p : Pathname} (h : p.isAbsolute = true) : p.bytes ≠ [] := by
  intro hnil
  rw [isAbsolute, hnil] at h
  cases h

theorem join_named {p : Pathname} (habs : p.isAbsolute = true) {c : Component} (hc : c.IsNamed) :
    (p.join ⟨c.bytes⟩).isAbsolute = true ∧ (p.join ⟨c.bytes⟩).names = p.names ++ [c.bytes] := by
  have hrelative : (⟨c.bytes⟩ : Pathname).isAbsolute = false := by
    obtain ⟨b, bytes, hbytes⟩ := List.exists_cons_of_ne_nil hc.1
    have hb : b ≠ slash := fun heq => hc.2.1 (by rw [hbytes, heq]; exact List.mem_cons_self)
    simp [isAbsolute, hbytes, hb]
  have hbytes : (p.join ⟨c.bytes⟩).bytes = p.stem ++ slash :: c.bytes := by
    rw [Pathname.join, hrelative, if_neg (by simp)]
    by_cases hends : p.endsInSlash
    · rw [if_pos (Or.inr hends), bytes_of_endsInSlash hends]
      simp
    · rw [if_neg (not_or.2 ⟨bytes_ne_nil_of_isAbsolute habs, hends⟩), stem, if_neg hends]
  have hjoin : p.join ⟨c.bytes⟩ = ⟨p.stem ++ slash :: c.bytes⟩ := congrArg Pathname.mk hbytes
  have hname : (⟨c.bytes⟩ : Pathname).names = [c.bytes] := by
    have hone : (⟨[slash].intercalate [c.bytes]⟩ : Pathname).names = [c.bytes] :=
      names_intercalate (by simpa using ⟨hc.1, hc.2.1⟩)
    rwa [List.intercalate_singleton] at hone
  constructor
  · have hhead := habs
    rw [hjoin]
    rw [isAbsolute] at hhead ⊢
    by_cases hends : p.endsInSlash
    · rw [bytes_of_endsInSlash hends] at hhead
      cases hstem : p.stem with
      | nil => rfl
      | cons b bytes => simpa [hstem] using hhead
    · rw [stem, if_neg hends]
      obtain ⟨b, bytes, hb⟩ := List.exists_cons_of_ne_nil (bytes_ne_nil_of_isAbsolute habs)
      rw [hb] at hhead ⊢
      simpa using hhead
  · rw [hjoin, names_append_slash, names_stem, hname]

theorem join_all_named {p : Pathname} (habs : p.isAbsolute = true) {comps : List Component}
    (hcomps : ∀ c ∈ comps, c.IsNamed) :
    (comps.foldl (fun (acc : Pathname) c => acc.join ⟨c.bytes⟩) p).isAbsolute = true ∧
      (comps.foldl (fun (acc : Pathname) c => acc.join ⟨c.bytes⟩) p).names =
        p.names ++ comps.map Component.bytes := by
  induction comps generalizing p with
  | nil => exact ⟨habs, by simp⟩
  | cons c comps ih =>
      obtain ⟨habs', hnames⟩ := join_named habs (hcomps c List.mem_cons_self)
      obtain ⟨habs'', hnames'⟩ := ih habs' fun c' hc' => hcomps c' (List.mem_cons_of_mem _ hc')
      exact ⟨habs'', by rw [List.foldl_cons, hnames', hnames]; simp⟩

theorem join_empty_named {p : Pathname} (habs : p.isAbsolute = true) :
    (p.join empty).isAbsolute = true ∧ (p.join empty).names = p.names := by
  have hbytes := join_empty_bytes p
  split at hbytes
  · have hsame : p.join empty = p := congrArg Pathname.mk hbytes
    rw [hsame]
    exact ⟨habs, rfl⟩
  · have hjoin : p.join empty = ⟨p.bytes ++ [slash]⟩ := congrArg Pathname.mk hbytes
    rw [hjoin]
    constructor
    · obtain ⟨b, bytes, hb⟩ := List.exists_cons_of_ne_nil (bytes_ne_nil_of_isAbsolute habs)
      rw [isAbsolute, hb] at habs
      rw [isAbsolute, hb]
      simpa using habs
    · exact names_concat_slash p.bytes

/-- A path that is made absolute keeps its names but the dots, behind those of the working directory
if it had none of its own to start from. -/
theorem absolute_named {workingDir : Pathname} (habs : workingDir.isAbsolute = true)
    (p : Pathname) :
    (absolute workingDir p).isAbsolute = true ∧ (absolute workingDir p).names =
      (if p.isAbsolute then [] else workingDir.names) ++
        p.names.filter (fun name => name ≠ dot) := by
  obtain ⟨body, hnamed, hbytes, hcomps⟩ := p.exists_body
  have hwhole : ∃ q : Pathname, q.isAbsolute = true ∧
      q.names = (if p.isAbsolute then [] else workingDir.names) ++ body.map Component.bytes ∧
      absolute workingDir p = if p.endsInSlash then q.join empty else q := by
    rw [absolute, hcomps]
    by_cases hp : p.isAbsolute
    · rw [if_pos hp, if_pos hp, if_pos hp]
      -- Some systems tell a leading pair of slashes from one slash; no names are in either.
      have hstart : ∀ q : Pathname, q.isAbsolute = true → q.names = [] → ∃ q' : Pathname,
          q'.isAbsolute = true ∧ q'.names = [] ++ body.map Component.bytes ∧
            q' = body.foldl (fun (acc : Pathname) c => acc.join ⟨c.bytes⟩) q := by
        intro q hq hnil
        obtain ⟨habs', hnames⟩ := join_all_named hq hnamed
        exact ⟨_, habs', by rw [hnames, hnil], rfl⟩
      by_cases hdouble : p.bytes.take 2 = [slash, slash] ∧ p.bytes.take 3 ≠ [slash, slash, slash]
      · obtain ⟨q, hq, hnames, rfl⟩ := hstart ⟨[slash, slash]⟩ rfl (by decide)
        exact ⟨_, hq, hnames, by rw [if_pos hdouble]; rfl⟩
      · obtain ⟨q, hq, hnames, rfl⟩ := hstart ⟨[slash]⟩ rfl (by decide)
        exact ⟨_, hq, hnames, by rw [if_neg hdouble]; rfl⟩
    · rw [if_neg hp, if_neg hp, if_neg hp]
      exact ⟨_, (join_all_named habs hnamed).1, (join_all_named habs hnamed).2, rfl⟩
  obtain ⟨q, hq, hnames, hwhole⟩ := hwhole
  rw [hwhole, ← hbytes, ← hnames]
  split
  · exact join_empty_named hq
  · exact ⟨hq, rfl⟩

/-- An absolute path in which no name is a dot. -/
def IsClean (p : Pathname) : Prop := p.isAbsolute = true ∧ dot ∉ p.names

theorem IsClean.bytes_ne_nil {p : Pathname} (h : p.IsClean) : p.bytes ≠ [] :=
  bytes_ne_nil_of_isAbsolute h.1

theorem absolute_clean {workingDir p : Pathname} (habs : workingDir.isAbsolute = true)
    (hdot : p.isAbsolute = false → dot ∉ workingDir.names) :
    (absolute workingDir p).IsClean := by
  obtain ⟨habs', hnames⟩ := absolute_named habs p
  refine ⟨habs', ?_⟩
  rw [hnames, List.mem_append, List.mem_filter]
  rintro (hfront | hback)
  · split at hfront
    · cases hfront
    · rename_i hrelative
      exact hdot (Bool.eq_false_iff.2 hrelative) hfront
  · simp at hback

theorem absolute_ofRootNames (workingDir : Pathname) {names : List Bytes}
    (h : ∀ name ∈ names, IsName name) :
    absolute workingDir (ofRootNames names) = ofRootNames names := by
  have hdot : dot ∉ (ofRootNames names).names := by
    rw [names_ofRootNames h]
    exact fun hmem => (h dot hmem).ne_dot rfl
  have habs : (ofRootNames names).isAbsolute := rfl
  obtain ⟨front, hfront, hprefix, heq⟩ := absolute_eq workingDir habs hdot
  have hone : front = [slash] := by
    rcases hfront with hone | rfl
    · exact hone
    · -- A second slash would be the first byte of a name.
      obtain ⟨rest, hrest⟩ := hprefix
      have hrelative := not_isAbsolute_ofNames h
      rw [ofRootNames, List.cons_append, List.cons.injEq] at hrest
      rw [isAbsolute, ofNames, ← hrest.2] at hrelative
      cases hrelative
  have htail : (ofRootNames names).tailOf = [] := by
    rw [tailOf, names_ofRootNames h]
    by_cases hne : names = []
    · rw [hne, if_neg (by simp)]
    · rw [not_endsInSlash_ofRootNames h hne, if_neg (by simp)]
  rw [heq, hone, htail, names_ofRootNames h, List.append_nil]
  rfl

end Depot.Pathname
