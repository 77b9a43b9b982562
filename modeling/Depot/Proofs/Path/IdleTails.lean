import Depot.Proofs.Path.Absolute
/-!
# Slashes and dots at the end of a path

Slashes and single dots behind a path add no name to it but dots, and yet the path is no longer
bare: it ends in a slash, or its last name is a dot.

* `IsIdleTail.names_appended`, `IsIdleTail.not_bare` — a path with such a tail.
-/

namespace Depot.Pathname

variable {p : Pathname} {tail : Bytes}

/-- What may stand behind a path without naming anything else: any mix of slashes and single
dots. -/
structure IsIdleTail (tail : Bytes) : Prop where
  starts : tail = [] ∨ tail.head? = some slash
  idle : ∀ name ∈ (⟨tail⟩ : Pathname).names, name = dot

theorem isAbsolute_appended (hne : p.bytes ≠ []) : (p.appended tail).isAbsolute = p.isAbsolute := by
  obtain ⟨b, bytes, hbytes⟩ := List.exists_cons_of_ne_nil hne
  rw [isAbsolute, isAbsolute, bytes_appended, hbytes]
  rfl

namespace IsIdleTail

theorem names_appended (h : IsIdleTail tail) (p : Pathname) :
    (p.appended tail).names = p.names ++ (⟨tail⟩ : Pathname).names := by
  rcases h.starts with rfl | hhead
  · rw [appended, List.append_nil, names_nil, List.append_nil]
  · obtain ⟨rest, rfl⟩ := List.head?_eq_some_iff.1 hhead
    rw [appended, names_append_slash, names_cons_slash]

theorem filter_names (h : IsIdleTail tail) :
    ((⟨tail⟩ : Pathname).names.filter fun name => name ≠ dot) = [] := by
  rw [List.filter_eq_nil_iff]
  intro name hname
  simp [h.idle name hname]

end IsIdleTail

theorem endsInSlash_of_names_eq_nil (hne : p.bytes ≠ []) (h : p.names = []) :
    p.endsInSlash = true := by
  have hjoin : [slash].intercalate p.pieces = p.bytes := List.intercalate_splitOn ..
  obtain ⟨init, last, hpieces⟩ :=
    (List.eq_nil_or_concat' p.pieces).resolve_left (List.splitOn_ne_nil _ _)
  have hlast : last = [] := by
    rw [names, List.filter_eq_nil_iff] at h
    simpa using h last (by rw [hpieces]; simp)
  rw [hpieces, hlast] at hjoin
  have hinit : init ≠ [] := by
    rintro rfl
    exact hne (hjoin.symm.trans (by simp))
  rw [intercalate_append hinit (by simp)] at hjoin
  rw [endsInSlash, ← hjoin]
  simp

theorem isAbsolute_of_names_eq_nil (hne : p.bytes ≠ []) (h : p.names = []) :
    p.isAbsolute = true := by
  cases hpieces : p.pieces with
  | nil => exact absurd hpieces (List.splitOn_ne_nil _ _)
  | cons first rest =>
      have hfirst : first = [] := by
        rw [names, List.filter_eq_nil_iff] at h
        simpa using h first (by simp [hpieces])
      rw [hfirst] at hpieces
      exact isAbsolute_of_pieces (fun heq => hne (by rw [heq]; rfl)) hpieces

namespace IsIdleTail

theorem not_bare (h : IsIdleTail tail) (hne : tail ≠ []) (p : Pathname) :
    (p.appended tail).endsInSlash = true ∨ (p.appended tail).names.getLast? = some dot := by
  rcases List.eq_nil_or_concat' (⟨tail⟩ : Pathname).names with hnil | ⟨init, last, hnames⟩
  · left
    have hends := endsInSlash_of_names_eq_nil (p := ⟨tail⟩) hne hnil
    rw [endsInSlash, beq_iff_eq] at hends ⊢
    rw [bytes_appended, List.getLast?_append, hends]
    rfl
  · right
    have hlast : last = dot := h.idle last (by simp [hnames])
    rw [h.names_appended, hnames, hlast]
    simp

end IsIdleTail

end Depot.Pathname
