import Depot.Store.Basic
import Depot.Proofs.Path.Names
import Depot.Proofs.Text.Utf8
import Mathlib.Data.List.Basic
/-!
# Keys of objects

What is left of the name of an object is a `Key`: directories and a last name, none of them a dot,
and the last one not that of a staging file.  The staging file of the object has a key of the same
form but for its ending, so it is never the file of another object.

* `Key.isName_staging` — the staging file is named as files are;
* `ofObject_eq_ok` — the names that a store accepts are keys, and all their parts are text.
-/

namespace Depot

/-- Where an object is kept below the root of its store. -/
structure Key where
  /-- The directories from the root down. -/
  dirs : List Bytes
  /-- The name of the file. -/
  leaf : Bytes
  isName : ∀ name ∈ dirs ++ [leaf], Pathname.IsName name
  not_isStagingLeaf : ObjectName.isStagingLeaf leaf = false

namespace Key

def names (k : Key) : Position := k.dirs ++ [k.leaf]

def staging (k : Key) : Position := k.dirs ++ [k.leaf ++ stagingSuffix]

theorem names_ne_nil (k : Key) : k.names ≠ [] := by simp [names]

theorem staging_ne_nil (k : Key) : k.staging ≠ [] := by simp [staging]

/-- Different objects have different staging files. -/
theorem names_of_staging_eq {k k' : Key} (h : k.staging = k'.staging) : k.names = k'.names := by
  rw [staging, staging] at h
  obtain ⟨hdirs, hleaf⟩ := List.append_inj' h rfl
  rw [names, names, hdirs, List.append_cancel_right (List.singleton_inj.1 hleaf)]

theorem isName_of_mem_dirs (k : Key) {name : Bytes} (h : name ∈ k.dirs) :
    Pathname.IsName name :=
  k.isName name (by simp [h])

theorem isName_append_suffix {leaf : Bytes} (h : Pathname.IsName leaf) :
    Pathname.IsName (leaf ++ stagingSuffix) where
  ne_nil := by simp [h.ne_nil]
  slash_notMem := by
    have hsuffix : Pathname.slash ∉ stagingSuffix := by decide
    simp [h.slash_notMem, hsuffix]
  ne_dot := by
    intro heq
    have hlength := congrArg List.length heq
    have hsuffix : stagingSuffix.length = 4 := by decide
    rw [List.length_append, hsuffix, Pathname.dot, List.length_singleton] at hlength
    omega
  ne_dotDot := by
    intro heq
    have hlength := congrArg List.length heq
    have hsuffix : stagingSuffix.length = 4 := by decide
    rw [List.length_append, hsuffix, Pathname.dotDot, List.length_cons,
      List.length_singleton] at hlength
    omega

theorem isName_staging (k : Key) : ∀ name ∈ k.staging, Pathname.IsName name := by
  intro name h
  rcases List.mem_append.1 h with h | h
  · exact k.isName_of_mem_dirs h
  · rw [List.mem_singleton.1 h]
    exact isName_append_suffix (k.isName k.leaf (by simp))

theorem isStagingLeaf_append (leaf : Bytes) :
    ObjectName.isStagingLeaf (leaf ++ stagingSuffix) = true :=
  List.isSuffixOf_iff_suffix.2 (List.suffix_append ..)

end Key

/-! ## The names that a store accepts -/

namespace Pathname

theorem mem_pieces_of_normal_mem {p : Pathname} {name : Bytes}
    (h : Component.normal name ∈ p.components) :
    name ∈ p.pieces ∧ name ≠ [] ∧ name ≠ dot ∧ name ≠ dotDot := by
  have hpiece : ∀ piece, Component.ofPiece? piece = some (.normal name) →
      piece = name ∧ name ≠ [] ∧ name ≠ dot ∧ name ≠ dotDot := by
    intro piece hpiece
    rw [Component.ofPiece?] at hpiece
    split at hpiece
    · cases hpiece
    rename_i hidle
    split at hpiece
    · cases hpiece
    rename_i hup
    cases hpiece
    exact ⟨rfl, fun heq => hidle (Or.inl heq), fun heq => hidle (Or.inr heq), hup⟩
  -- Only the first piece can stand for anything else than its own component.
  have hbody : ∀ rest : List Bytes, Component.normal name ∈ rest.filterMap Component.ofPiece? →
      name ∈ rest ∧ name ≠ [] ∧ name ≠ dot ∧ name ≠ dotDot := by
    intro rest hrest
    obtain ⟨piece, hmem, hof⟩ := List.mem_filterMap.1 hrest
    obtain ⟨rfl, hname⟩ := hpiece piece hof
    exact ⟨hmem, hname⟩
  rw [components] at h
  cases hpieces : p.pieces with
  | nil => simp [hpieces] at h
  | cons first rest =>
      simp only [hpieces] at h
      split at h
      · split at h
        · cases h
        · rcases List.mem_cons.1 h with h | h
          · cases h
          · exact ⟨List.mem_cons_of_mem _ (hbody rest h).1, (hbody rest h).2⟩
      split at h
      · rcases List.mem_cons.1 h with h | h
        · cases h
        · exact ⟨List.mem_cons_of_mem _ (hbody rest h).1, (hbody rest h).2⟩
      · rcases List.mem_append.1 h with h | h
        · obtain ⟨rfl, hname⟩ := hpiece first (Option.mem_toList.1 h)
          exact ⟨List.mem_cons_self, hname⟩
        · exact ⟨List.mem_cons_of_mem _ (hbody rest h).1, (hbody rest h).2⟩

end Pathname

namespace ObjectName

theorem mem_of_evaluate {stack out : List Bytes} {comps : List Pathname.Component}
    (h : evaluate stack comps = .ok out) {name : Bytes} (hname : name ∈ out) :
    name ∈ stack ∨ Pathname.Component.normal name ∈ comps := by
  induction comps generalizing stack with
  | nil =>
      rw [evaluate, Except.ok.injEq] at h
      exact Or.inl (h ▸ hname)
  | cons comp comps ih =>
      cases comp with
      | root => simp [evaluate] at h
      | current =>
          rw [evaluate] at h
          exact (ih h).imp_right (List.mem_cons_of_mem _)
      | parent =>
          cases stack with
          | nil => simp [evaluate] at h
          | cons top stack =>
              rw [evaluate] at h
              exact (ih h).imp (List.mem_cons_of_mem _) (List.mem_cons_of_mem _)
      | normal first =>
          rw [evaluate] at h
          rcases ih h with hmem | hmem
          · rcases List.mem_cons.1 hmem with rfl | hmem
            · exact Or.inr List.mem_cons_self
            · exact Or.inl hmem
          · exact Or.inr (List.mem_cons_of_mem _ hmem)

theorem normalize_eq_ok {name : String} {names : List Bytes} (h : normalize name = .ok names) :
    ∀ piece ∈ names, Pathname.IsName piece ∧ ∃ t, Bytes.text? piece = some t := by
  intro piece hpiece
  rw [normalize] at h
  cases hout : evaluate [] (Pathname.ofString name).components with
  | error fault =>
      rw [hout] at h
      cases h
  | ok out =>
      rw [hout] at h
      have hrev : out.reverse = names := Except.ok.inj h
      have hmem : piece ∈ out := by rwa [← hrev, List.mem_reverse] at hpiece
      rcases mem_of_evaluate hout hmem with hnil | hnormal
      · cases hnil
      · obtain ⟨hin, hne, hdot, hup⟩ := Pathname.mem_pieces_of_normal_mem hnormal
        exact ⟨⟨hne, Pathname.slash_notMem_of_mem_pieces hin, hdot, hup⟩,
          Pathname.text?_of_mem_pieces hin⟩

theorem ofObject_eq_ok {name : String} {names : List Bytes} (h : ofObject name = .ok names) :
    ∃ k : Key, k.names = names ∧ ∀ piece ∈ names, ∃ t, Bytes.text? piece = some t := by
  rw [ofObject] at h
  cases hn : normalize name with
  | error fault =>
      rw [hn] at h
      cases h
  | ok normal =>
      rw [hn] at h
      have hall := normalize_eq_ok hn
      rcases List.eq_nil_or_concat' normal with rfl | ⟨dirs, leaf, rfl⟩
      · cases h
      · have hlast : (dirs ++ [leaf]).getLast? = some leaf := by simp
        simp only [bind, Except.bind, hlast] at h
        cases hleaf : isStagingLeaf leaf with
        | true =>
            rw [hleaf] at h
            cases h
        | false =>
            rw [hleaf] at h
            have hnames : dirs ++ [leaf] = names := Except.ok.inj h
            refine ⟨⟨dirs, leaf, fun piece hpiece => (hall piece hpiece).1, hleaf⟩, hnames, ?_⟩
            intro piece hpiece
            exact (hall piece (hnames ▸ hpiece)).2

end ObjectName

theorem Store.resolve_eq_ok {s : Store} {name : String} {path : Pathname}
    (h : s.resolve name = .ok path) :
    ∃ k : Key, ObjectName.ofObject name = .ok k.names ∧ path = s.pathOf k.names ∧
      ∀ piece ∈ k.names, ∃ t, Bytes.text? piece = some t := by
  rw [resolve] at h
  cases hn : ObjectName.ofObject name with
  | error fault =>
      rw [hn] at h
      cases h
  | ok names =>
      rw [hn] at h
      obtain ⟨k, rfl, htext⟩ := ObjectName.ofObject_eq_ok hn
      exact ⟨k, rfl, (Except.ok.inj h).symm, htext⟩

end Depot
