import Depot.Proofs.Path.Absolute
/-!
# The parent of a path

The parent of a path is written with the beginning of its bytes, and is shorter.  Between the names
of the parent and the end of the path there is one name that is not a single dot, and single dots
around it.  So the paths above a path have no names but its own, and start where it starts.

* `parent?_cases` — the parent by the first piece of a path;
* `bytes_of_parent?`, `bytes_isPrefix_of_mem_ancestors` — the bytes of the paths above;
* `names_of_parent?` — the names that the parent lacks;
* `names_isPrefix_of_parent?`, `names_isPrefix_of_mem_ancestors` — the names of the paths above;
* `bare_of_parent?` — no single dot at the end of a parent;
* `parent?_appended` — adding to the last name leaves the parent as it is.
-/

namespace Depot.Pathname

variable {p q : Pathname}

theorem withoutLast_spec {pieces body : List Bytes} (h : withoutLast pieces = some body) :
    ∃ mid last tail, pieces = body ++ mid ++ last :: tail ∧ (∀ x ∈ mid, isIdle x = true) ∧
      isIdle last = false ∧ (∀ x ∈ tail, isIdle x = true) ∧
        ∀ x, body.getLast? = some x → isIdle x = false := by
  obtain ⟨init, last, hkept, -, rfl⟩ := withoutLast_eq_some h
  obtain ⟨⟨tail, htail, hidle⟩, hlast⟩ := dropEndWhile_spec isIdle pieces
  obtain ⟨⟨mid, hmid, hidle'⟩, hlast'⟩ := dropEndWhile_spec isIdle init
  rw [hkept] at htail hlast
  refine ⟨mid, last, tail, ?_, hidle', hlast last (by simp), hidle, hlast'⟩
  rw [← hmid, htail]
  simp

theorem withoutLast_isPrefix {pieces body : List Bytes} (h : withoutLast pieces = some body) :
    body <+: pieces := by
  obtain ⟨mid, last, tail, rfl, -⟩ := withoutLast_spec h
  rw [List.append_assoc]
  exact List.prefix_append ..

theorem idle_of_withoutLast_eq_none {pieces : List Bytes} (h : withoutLast pieces = none) :
    ∀ x ∈ pieces, isIdle x = true := by
  obtain ⟨⟨tail, htail, hidle⟩, -⟩ := dropEndWhile_spec isIdle pieces
  rw [withoutLast] at h
  split at h
  · rename_i hnil
    rw [hnil, List.nil_append] at htail
    rwa [htail]
  · cases h

theorem parent?_cases (h : p.parent? = some q) :
    (∃ rest body, p.pieces = [] :: rest ∧ withoutLast rest = some body ∧
      q = ⟨slash :: [slash].intercalate body⟩) ∨
    (∃ first rest, p.pieces = first :: rest ∧ first ≠ [] ∧ withoutLast rest = none ∧
      q = .empty) ∨
    ∃ first rest body, p.pieces = first :: rest ∧ first ≠ [] ∧ withoutLast rest = some body ∧
      q = ⟨[slash].intercalate (first :: body)⟩ := by
  cases hpieces : p.pieces with
  | nil => exact absurd hpieces (List.splitOn_ne_nil _ _)
  | cons first rest =>
    rw [parent?, hpieces] at h
    dsimp only at h
    by_cases hfirst : first = []
    · rw [if_pos hfirst, Option.map_eq_some_iff] at h
      obtain ⟨body, hlast, rfl⟩ := h
      exact .inl ⟨rest, body, by rw [hfirst], hlast, rfl⟩
    · rw [if_neg hfirst, ite_self] at h
      cases hlast : withoutLast rest with
      | none =>
        rw [hlast] at h
        exact .inr (.inl ⟨first, rest, rfl, hfirst, hlast, (Option.some.inj h).symm⟩)
      | some body =>
        rw [hlast] at h
        exact .inr (.inr ⟨first, rest, body, rfl, hfirst, hlast, (Option.some.inj h).symm⟩)

theorem intercalate_pieces (p : Pathname) : [slash].intercalate p.pieces = p.bytes :=
  List.intercalate_splitOn ..

theorem length_le_intercalate {piece : Bytes} {pieces : List Bytes} (h : piece ∈ pieces) :
    piece.length ≤ ([slash].intercalate pieces).length := by
  have hsub := (intercalate_sublist (List.singleton_sublist.2 h)).length_le
  rwa [show [slash].intercalate [piece] = piece by simp [List.intercalate]] at hsub

theorem intercalate_front (front rest : List Bytes) {last : Bytes} (hfront : front ≠ [])
    (hlast : last ≠ []) (hmem : last ∈ rest) :
    [slash].intercalate front <+: [slash].intercalate (front ++ rest) ∧
      ([slash].intercalate front).length + 1 < ([slash].intercalate (front ++ rest)).length := by
  have hpos : 0 < last.length := List.length_pos_iff.2 hlast
  have hrest := length_le_intercalate hmem
  rw [intercalate_append hfront (List.ne_nil_of_mem hmem)]
  refine ⟨List.prefix_append .., ?_⟩
  simp only [List.length_append, List.length_cons]
  omega

theorem bytes_of_parent? (h : p.parent? = some q) :
    q.bytes <+: p.bytes ∧ q.bytes.length < p.bytes.length := by
  rw [← intercalate_pieces p]
  rcases parent?_cases h with ⟨rest, body, hpieces, hlast, rfl⟩ | ⟨first, rest, hpieces, hfirst, -,
    rfl⟩ | ⟨first, rest, body, hpieces, hfirst, hlast, rfl⟩
  · obtain ⟨mid, last, tail, rfl, -, hidle, -, -⟩ := withoutLast_spec hlast
    have hne : last ≠ [] := by
      rintro rfl
      cases hidle
    have hslash : [slash].intercalate ([[]] ++ (body ++ mid ++ last :: tail)) =
        slash :: [slash].intercalate (body ++ mid ++ last :: tail) :=
      intercalate_append (by simp) (by simp)
    rw [List.singleton_append] at hslash
    rw [hpieces, hslash, List.append_assoc]
    cases body with
    | nil =>
      have hle : last.length ≤ ([slash].intercalate ([] ++ (mid ++ last :: tail))).length :=
        length_le_intercalate (by simp)
      have hpos : 0 < last.length := List.length_pos_iff.2 hne
      refine ⟨(List.prefix_cons_inj slash).2 List.nil_prefix, ?_⟩
      show 0 + 1 < _
      rw [List.length_cons]
      omega
    | cons piece body =>
      obtain ⟨hpre, hlt⟩ := intercalate_front (piece :: body) (mid ++ last :: tail) (by simp) hne
        (by simp)
      refine ⟨(List.prefix_cons_inj slash).2 hpre, ?_⟩
      show ([slash].intercalate (piece :: body)).length + 1 < _
      rw [List.length_cons]
      omega
  · have hle : first.length ≤ ([slash].intercalate (first :: rest)).length :=
      length_le_intercalate List.mem_cons_self
    have hpos : 0 < first.length := List.length_pos_iff.2 hfirst
    rw [hpieces]
    exact ⟨List.nil_prefix, Nat.lt_of_lt_of_le hpos hle⟩
  · obtain ⟨mid, last, tail, rfl, -, hidle, -, -⟩ := withoutLast_spec hlast
    have hne : last ≠ [] := by
      rintro rfl
      cases hidle
    obtain ⟨hpre, hlt⟩ := intercalate_front (first :: body) (mid ++ last :: tail) (by simp) hne
      (by simp)
    rw [hpieces, List.append_assoc, ← List.cons_append]
    exact ⟨hpre, Nat.lt_of_succ_lt hlt⟩

theorem of_mem_ancestors (r : Pathname → Pathname → Prop) (refl : ∀ p, r p p)
    (trans : ∀ {a b c}, r a b → r b c → r a c) (step : ∀ {p q}, p.parent? = some q → r q p)
    {bound : Nat} (h : q ∈ p.ancestors bound) : r q p := by
  induction bound generalizing p with
  | zero => cases h
  | succ bound ih =>
    rw [ancestors] at h
    rcases List.mem_cons.1 h with rfl | h
    · exact refl q
    · cases hparent : p.parent? with
      | none =>
        rw [hparent] at h
        cases h
      | some parent =>
        rw [hparent] at h
        exact trans (ih h) (step hparent)

theorem bytes_isPrefix_of_mem_ancestors {bound : Nat} (h : q ∈ p.ancestors bound) :
    q.bytes <+: p.bytes :=
  of_mem_ancestors (fun q p => q.bytes <+: p.bytes) (fun _ => List.prefix_rfl)
    (fun hab hbc => hab.trans hbc) (fun hparent => (bytes_of_parent? hparent).1) h

theorem mem_names_of_mem_bytes {b : UInt8} (h : b ∈ p.bytes) :
    b = slash ∨ ∃ name ∈ p.names, b ∈ name := by
  rw [← intercalate_pieces p] at h
  refine (mem_intercalate h).imp_right fun ⟨piece, hmem, hb⟩ => ⟨piece, ?_, hb⟩
  rw [names, List.mem_filter]
  exact ⟨hmem, by simpa using List.ne_nil_of_mem hb⟩

theorem dot_of_isIdle {pieces : List Bytes} (h : ∀ x ∈ pieces, isIdle x = true) :
    ∀ x ∈ pieces.filter fun piece => piece ≠ [], x = dot := by
  intro x hx
  obtain ⟨hmem, hne⟩ := List.mem_filter.1 hx
  have := h x hmem
  simp only [isIdle, decide_eq_true_eq] at this hne
  exact this.resolve_left hne

theorem names_parent (h : p.parent? = some q) :
    (∃ rest body, p.pieces = [] :: rest ∧ withoutLast rest = some body ∧
      q.names = body.filter fun piece => piece ≠ []) ∨
    (∃ first rest, p.pieces = first :: rest ∧ first ≠ [] ∧ withoutLast rest = none ∧
      q = .empty) ∨
    ∃ first rest body, p.pieces = first :: rest ∧ first ≠ [] ∧ withoutLast rest = some body ∧
      q.names = first :: body.filter fun piece => piece ≠ [] := by
  have hslash {first : Bytes} {rest body : List Bytes} (hpieces : p.pieces = first :: rest)
      (hbody : withoutLast rest = some body) : ∀ piece ∈ first :: body, slash ∉ piece := by
    intro piece hpiece
    refine slash_notMem_of_mem_pieces (p := p) (hpieces ▸ ?_)
    exact ((List.prefix_cons_inj first).2 (withoutLast_isPrefix hbody)).subset hpiece
  rcases parent?_cases h with ⟨rest, body, hpieces, hlast, rfl⟩ | hnone | ⟨first, rest, body,
    hpieces, hfirst, hlast, rfl⟩
  · refine .inl ⟨rest, body, hpieces, hlast, ?_⟩
    rw [names_cons_slash, names_intercalate_pieces fun piece hpiece =>
      hslash hpieces hlast piece (List.mem_cons_of_mem [] hpiece)]
  · exact .inr (.inl hnone)
  · refine .inr (.inr ⟨first, rest, body, hpieces, hfirst, hlast, ?_⟩)
    rw [names_intercalate_pieces (hslash hpieces hlast), List.filter_cons_of_pos (by simpa)]

/-- The names that a parent lacks: one that is no single dot, or the first one, and single dots
around it. -/
theorem names_of_parent? (h : p.parent? = some q) :
    ∃ mid last tail, p.names = q.names ++ mid ++ last :: tail ∧ (∀ x ∈ mid, x = dot) ∧
      (∀ x ∈ tail, x = dot) ∧ (last = dot → q = .empty) := by
  have hlast {rest body : List Bytes} (hbody : withoutLast rest = some body) :
      ∃ mid last tail, (rest.filter fun piece => piece ≠ []) =
        (body.filter fun piece => piece ≠ []) ++ mid ++ last :: tail ∧ (∀ x ∈ mid, x = dot) ∧
          (∀ x ∈ tail, x = dot) ∧ (last = dot → q = .empty) := by
    obtain ⟨mid, last, tail, rfl, hmid, hlast, htail, -⟩ := withoutLast_spec hbody
    simp only [isIdle, decide_eq_false_iff_not, not_or] at hlast
    refine ⟨_, last, _, ?_, dot_of_isIdle hmid, dot_of_isIdle htail, fun h => absurd h hlast.2⟩
    rw [List.filter_append, List.filter_append, List.filter_cons_of_pos (by simpa using hlast.1)]
  rcases names_parent h with ⟨rest, body, hpieces, hbody, hnames⟩ | ⟨first, rest, hpieces, hfirst,
    hnone, rfl⟩ | ⟨first, rest, body, hpieces, hfirst, hbody, hnames⟩
  · rw [hnames, names, hpieces, List.filter_cons_of_neg (by simp)]
    exact hlast hbody
  · refine ⟨[], first, rest.filter fun piece => piece ≠ [], ?_, by simp,
      dot_of_isIdle (idle_of_withoutLast_eq_none hnone), fun _ => rfl⟩
    rw [names, hpieces, List.filter_cons_of_pos (by simpa)]
    rfl
  · obtain ⟨mid, last, tail, hrest, hmid, htail, hdot⟩ := hlast hbody
    refine ⟨mid, last, tail, ?_, hmid, htail, hdot⟩
    rw [hnames, names, hpieces, List.filter_cons_of_pos (by simpa), hrest]
    rfl

theorem isAbsolute_of_parent? (h : p.parent? = some q) : q.isAbsolute = p.isAbsolute := by
  by_cases hnil : q.bytes = []
  · obtain rfl : q = .empty := congrArg mk hnil
    -- only the parent of a relative path is empty
    rcases parent?_cases h with ⟨rest, body, -, -, hq⟩ | ⟨first, rest, hpieces, hfirst, -, -⟩ |
      ⟨first, rest, body, hpieces, hfirst, -, -⟩
    · cases hq
    · exact (not_isAbsolute_of_pieces hpieces hfirst).symm
    · exact (not_isAbsolute_of_pieces hpieces hfirst).symm
  · obtain ⟨rest, hrest⟩ := (bytes_of_parent? h).1
    obtain ⟨b, bytes, hbytes⟩ := List.exists_cons_of_ne_nil hnil
    rw [isAbsolute, isAbsolute, ← hrest, hbytes]
    rfl

theorem names_isPrefix_of_parent? (h : p.parent? = some q) :
    q.names <+: p.names ∧ q.isAbsolute = p.isAbsolute := by
  obtain ⟨mid, last, tail, hnames, -⟩ := names_of_parent? h
  rw [hnames, List.append_assoc]
  exact ⟨List.prefix_append .., isAbsolute_of_parent? h⟩

theorem names_isPrefix_of_mem_ancestors {bound : Nat} (h : q ∈ p.ancestors bound) :
    q.names <+: p.names ∧ q.isAbsolute = p.isAbsolute := by
  refine of_mem_ancestors (fun q p => q.names <+: p.names ∧ q.isAbsolute = p.isAbsolute)
    (fun _ => ⟨List.prefix_rfl, rfl⟩) (fun hab hbc => ?_) names_isPrefix_of_parent? h
  exact ⟨hab.1.trans hbc.1, hab.2.trans hbc.2⟩

theorem bare_of_parent? (h : p.parent? = some q) (hlast : q.names.getLast? = some dot) :
    q.names = [dot] := by
  -- the last piece that is left is no single dot
  have hbody {rest body : List Bytes} (hbody : withoutLast rest = some body) (hne : body ≠ []) :
      ∃ x, (body.filter fun piece => piece ≠ []).getLast? = some x ∧ x ≠ dot := by
    obtain ⟨-, -, -, -, -, -, -, hend⟩ := withoutLast_spec hbody
    obtain ⟨init, x, rfl⟩ := List.eq_nil_or_concat' body |>.resolve_left hne
    have hx := hend x (by simp)
    simp only [isIdle, decide_eq_false_iff_not, not_or] at hx
    refine ⟨x, ?_, hx.2⟩
    rw [List.filter_append, List.filter_cons_of_pos (by simpa using hx.1)]
    simp
  rcases names_parent h with ⟨rest, body, -, hcut, hnames⟩ | ⟨first, rest, -, -, -, rfl⟩ |
    ⟨first, rest, body, -, -, hcut, hnames⟩
  · rw [hnames] at hlast
    by_cases hnil : body = []
    · subst hnil
      cases hlast
    · obtain ⟨x, hx, hne⟩ := hbody hcut hnil
      rw [hx] at hlast
      exact absurd (Option.some.inj hlast) hne
  · cases hlast
  · rw [hnames] at hlast ⊢
    by_cases hnil : body = []
    · subst hnil
      obtain rfl : first = dot := by simpa using hlast
      rfl
    · obtain ⟨x, hx, hne⟩ := hbody hcut hnil
      rw [List.getLast?_cons, hx] at hlast
      exact absurd (Option.some.inj hlast) hne

/-! ## What the last part does not decide -/

theorem parent?_eq_of_pieces {body : List Bytes} {leaf leaf' : Bytes}
    (hp : p.pieces = body ++ [leaf]) (hq : q.pieces = body ++ [leaf']) (h : IsName leaf)
    (h' : IsName leaf') : p.parent? = q.parent? := by
  rw [parent?, parent?, hp, hq]
  cases body with
  | nil => simp [h.ne_nil, h.ne_dot, h'.ne_nil, h'.ne_dot, withoutLast, dropEndWhile]
  | cons first body =>
      rw [List.cons_append, List.cons_append]
      dsimp only
      rw [withoutLast_concat h, withoutLast_concat h']

theorem pieces_appended {body : List Bytes} {leaf suffix : Bytes}
    (hp : p.pieces = body ++ [leaf]) (hsuffix : slash ∉ suffix) :
    (p.appended suffix).pieces = body ++ [leaf ++ suffix] := by
  have hslash : ∀ piece ∈ body ++ [leaf], slash ∉ piece := fun piece hpiece =>
    slash_notMem_of_mem_pieces (p := p) (hp ▸ hpiece)
  have hbytes : (p.appended suffix).bytes = [slash].intercalate (body ++ [leaf ++ suffix]) := by
    rw [bytes_appended, ← intercalate_pieces p, hp, intercalate_concat]
  rw [pieces, hbytes, List.splitOn_intercalate slash _ (by simp)]
  intro piece hpiece
  rcases List.mem_append.1 hpiece with hbody | hlast
  · exact hslash piece (List.mem_append_left _ hbody)
  · rw [List.mem_singleton.1 hlast, List.mem_append, not_or]
    exact ⟨hslash leaf (by simp), hsuffix⟩

theorem parent?_appended {body : List Bytes} {leaf suffix : Bytes}
    (hp : p.pieces = body ++ [leaf]) (h : IsName leaf) (h' : IsName (leaf ++ suffix)) :
    (p.appended suffix).parent? = p.parent? := by
  have hsuffix : slash ∉ suffix := fun hmem => h'.slash_notMem (List.mem_append_right _ hmem)
  exact parent?_eq_of_pieces (pieces_appended hp hsuffix) hp h' h

end Depot.Pathname
