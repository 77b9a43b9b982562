import Depot.Proofs.Settings.Changes
import Depot.Proofs.Program
import Depot.Proofs.Text.Utf8
/-!
# What settings say

The kind of a store is read from a name or from the only key of a table, and its directory from a
section that is a table, a list or nothing.  Of the changes that lead there the last one decides.

* `Setting.toKind_eq_ok`, `Setting.kind_of_changed` — the kind, and after which change;
* `Setting.SectionSays`, `SectionSays.path_of_member`, `SectionSays.of_no_member` — the section;
* `Setting.section_of_settled` — the section after the change that decides.
-/

namespace Depot

open Setting (isKeyed isBelow)

namespace Setting

/-! ### The kind of store -/

theorem toKind_eq_ok {key : String} {s : Setting} {kind : BackendKind}
    (h : s.toKind key = .ok kind) :
    s = .text kind.name ∨ ∃ origin v, s = .table origin [(kind.name, v)] := by
  have hname {name : String} (hfound : BackendKind.ofName? name = some kind) :
      kind.name = name := by
    simpa using List.find?_some hfound
  simp only [toKind] at h
  split at h
  · rename_i name
    split at h
    · rename_i hfound
      cases h
      exact .inl (by rw [hname hfound])
    · cases h
  · rename_i origin name v
    split at h
    · rename_i hfound
      cases h
      exact .inr ⟨origin, v, by rw [hname hfound]⟩
    · cases h
  · cases h

theorem kind_of_changed {key : String} {early : List SettingChange} {steps : List SettingStep}
    {v : String} {old : Setting} {kind : BackendKind}
    (h : (changed (early ++ [(steps, .text v)]) old).toKind key = .ok kind) :
    (steps = [] ∧ v = kind.name) ∨ ∃ rest, steps = .key kind.name :: rest := by
  rw [changed_append] at h
  generalize changed early old = below at h
  obtain _ | ⟨⟨name⟩ | i, rest⟩ := steps
  · have htext : changed [([], .text v)] below = .text v := rfl
    rw [htext] at h
    obtain h | ⟨_, _, h⟩ := toKind_eq_ok h
    · exact .inl ⟨rfl, by injection h⟩
    · cases h
  · have hmember : (changed [(.key name :: rest, .text v)] below).member? name = some _ :=
      member?_alterKey_self name (putAt rest (.text v)) below
    obtain h | ⟨origin, w, h⟩ := toKind_eq_ok h
    · rw [h] at hmember
      cases hmember
    · rw [h, member?, members] at hmember
      by_cases hname : name = kind.name
      · exact .inr ⟨rest, by rw [hname]⟩
      · have hne : (name == kind.name) = false := by simpa using hname
        simp [List.lookup_cons, hne] at hmember
  · have hlist : ∃ origin es, changed [(.index i :: rest, .text v)] below = .list origin es :=
      ⟨_, _, rfl⟩
    obtain ⟨origin, es, hlist⟩ := hlist
    rw [hlist] at h
    cases h

/-! ### The section of a directory -/

theorem toPath_eq_ok {key : String} {s : Setting} {p : Pathname} (h : s.toPath key = .ok p) :
    ∃ t, s.plainText? = some t ∧ p = .ofString t := by
  rw [toPath] at h
  cases ht : s.plainText? with
  | none => simp [ht] at h
  | some t =>
    rw [ht] at h
    cases h
    exact ⟨t, rfl, rfl⟩

/-- What a setting that is read as a section says about the path. -/
inductive SectionSays : Setting → Option FsConfig → Prop
  | absent (origin : Option String) : SectionSays (.nothing origin) none
  | unnamed {origin : Option String} {ms : List (String × Setting)}
      (h : (table origin ms).member? "path" = none) :
      SectionSays (.table origin ms) (some ⟨.empty⟩)
  | named {origin : Option String} {ms : List (String × Setting)} {s : Setting} {t : String}
      (h : (table origin ms).member? "path" = some s) (ht : s.plainText? = some t) :
      SectionSays (.table origin ms) (some ⟨.ofString t⟩)
  | emptyList (origin : Option String) : SectionSays (.list origin []) (some ⟨.empty⟩)
  | list (origin : Option String) {first : Setting} (rest : List Setting) {t : String}
      (ht : first.plainText? = some t) :
      SectionSays (.list origin (first :: rest)) (some ⟨.ofString t⟩)

theorem sectionSays {key : String} {s : Setting} {files : Option FsConfig}
    (h : s.toSection key = .ok files) : SectionSays s files := by
  -- a path that is read is the text of what stands there
  have hpath {key : String} {s : Setting}
      (h : (do return some ⟨← s.toPath key⟩) = (.ok files : Except Misfit (Option FsConfig))) :
      ∃ t, s.plainText? = some t ∧ files = some ⟨.ofString t⟩ := by
    cases hs : s.toPath key with
    | error e =>
      rw [hs] at h
      cases h
    | ok p =>
      obtain ⟨t, ht, rfl⟩ := toPath_eq_ok hs
      rw [hs] at h
      cases h
      exact ⟨t, ht, rfl⟩
  simp only [toSection] at h
  split at h
  · cases h
    exact .absent _
  · rename_i origin ms
    split at h
    · rename_i s hs
      obtain ⟨t, ht, rfl⟩ := hpath h
      exact .named hs ht
    · rename_i hs
      cases h
      exact .unnamed hs
  · cases h
    exact .emptyList _
  · obtain ⟨t, ht, rfl⟩ := hpath h
    exact .list _ _ ht
  · cases h

theorem SectionSays.path_of_member {s p : Setting} {files : Option FsConfig}
    (h : SectionSays s files) (hp : s.member? "path" = some p) :
    ∃ t, p.plainText? = some t ∧ files = some ⟨.ofString t⟩ := by
  cases h with
  | named hs ht =>
    rw [hs] at hp
    obtain rfl := Option.some.inj hp
    exact ⟨_, ht, rfl⟩
  | unnamed hs =>
    rw [hs] at hp
    cases hp
  | absent | emptyList | list => cases hp

theorem SectionSays.of_no_member {s : Setting} {files : Option FsConfig}
    (h : SectionSays s files) (hp : s.member? "path" = none) :
    ((∃ origin, s = .nothing origin) ∧ files = none) ∨ files = some ⟨.empty⟩ ∨
      ∃ origin first rest t, s = .list origin (first :: rest) ∧
        first.plainText? = some t ∧ files = some ⟨.ofString t⟩ := by
  cases h with
  | absent origin => exact .inl ⟨⟨origin, rfl⟩, rfl⟩
  | unnamed hs => exact .inr (.inl rfl)
  | named hs ht =>
    rw [hs] at hp
    cases hp
  | emptyList origin => exact .inr (.inl rfl)
  | list origin rest ht => exact .inr (.inr ⟨origin, _, rest, _, rfl, ht, rfl⟩)

/-- The change leads to the path of a section, or changes the section as a whole or as a list. -/
def settlesPath (steps : List SettingStep) : Bool :=
  isBelow ["path"] steps || !isKeyed steps

theorem isKeyed_of_unsettled {steps : List SettingStep} (h : settlesPath steps = false) :
    isKeyed steps = true := by
  simp only [settlesPath, Bool.or_eq_false_iff, Bool.not_eq_false'] at h
  exact h.2

theorem path_of_unsettled {changes : List SettingChange}
    (h : ∀ c ∈ changes, settlesPath c.1 = false) (s : Setting) :
    (changed changes s).member? "path" = s.member? "path" := by
  have hkeyed : ∀ c ∈ changes, isKeyed c.1 = true := fun c hc => isKeyed_of_unsettled (h c hc)
  have hbehind : behind "path" changes = [] := by
    rw [behind, List.map_eq_nil_iff, List.filter_eq_nil_iff]
    intro c hc
    have := h c hc
    simp only [settlesPath, Bool.or_eq_false_iff] at this
    simp [this.1]
  rw [member?_changed hkeyed, if_pos hbehind]

theorem plainText?_putAt {steps : List SettingStep} {v t : String} {old : Setting}
    (h : (putAt steps (.text v) old).plainText? = some t) : steps = [] ∧ t = v := by
  obtain _ | ⟨⟨name⟩ | i, rest⟩ := steps
  · exact ⟨rfl, by injection h.symm⟩
  · have htable : ∃ origin ms, putAt (.key name :: rest) (.text v) old = .table origin ms := by
      cases old <;> exact ⟨_, _, rfl⟩
    obtain ⟨origin, ms, htable⟩ := htable
    rw [htable] at h
    cases h
  · have hlist : ∃ origin es, putAt (.index i :: rest) (.text v) old = .list origin es :=
      ⟨_, _, rfl⟩
    obtain ⟨origin, es, hlist⟩ := hlist
    rw [hlist] at h
    cases h

/-- The last change that settles the path gives it.  If it does not lead to the path but replaces
the section, then the path is empty or the first element of a list. -/
theorem section_of_settled {key : String} {early late : List SettingChange}
    {steps : List SettingStep} {v : String} {old : Setting} {files : Option FsConfig}
    (hsteps : settlesPath steps = true) (hlate : ∀ c ∈ late, settlesPath c.1 = false)
    (h : (changed (early ++ (steps, .text v) :: late) old).toSection key = .ok files) :
    (steps = [.key "path"] ∧ files = some ⟨.ofString v⟩) ∨
      isKeyed steps = false ∧ (files = some ⟨.empty⟩ ∨
        ∃ origin first rest t, changed (early ++ (steps, .text v) :: late) old =
          .list origin (first :: rest) ∧ first.plainText? = some t ∧
            files = some ⟨.ofString t⟩) := by
  have hsays := sectionSays h
  have hsplit : changed (early ++ (steps, .text v) :: late) old =
      changed late (putAt steps (.text v) (changed early old)) := by
    rw [changed_append]
    rfl
  rw [hsplit] at hsays ⊢
  generalize changed early old = below at hsays ⊢
  have hpath := path_of_unsettled hlate (putAt steps (.text v) below)
  have hkeyed : ∀ c ∈ late, isKeyed c.1 = true := fun c hc => isKeyed_of_unsettled (hlate c hc)
  have hshape : (∃ origin ms, changed late (putAt steps (.text v) below) = .table origin ms) ∨
      changed late (putAt steps (.text v) below) = putAt steps (.text v) below := by
    by_cases hnil : late = []
    · rw [hnil]
      exact .inr rfl
    · exact .inl (changed_keyed hkeyed hnil _)
  generalize changed late (putAt steps (.text v) below) = last at hsays hpath hshape ⊢
  simp only [settlesPath, Bool.or_eq_true, Bool.not_eq_true'] at hsteps
  -- The value was put at the path or below it, or it took the place of the section.
  rcases hsteps with hbelow | hnot
  · obtain ⟨rest, rfl, -⟩ := isBelow_cons_iff.1 hbelow
    left
    have hmember : (putAt (.key "path" :: rest) (.text v) below).member? "path" =
        some (putAt rest (.text v) ((below.member? "path").getD (.nothing none))) :=
      member?_alterKey_self "path" (putAt rest (.text v)) below
    obtain ⟨t, ht, rfl⟩ := hsays.path_of_member (hpath.trans hmember)
    obtain ⟨rfl, rfl⟩ := plainText?_putAt ht
    exact ⟨rfl, rfl⟩
  · right
    refine ⟨hnot, ?_⟩
    have hnone : (putAt steps (.text v) below).member? "path" = none := by
      obtain _ | ⟨⟨name⟩ | i, rest⟩ := steps
      · rfl
      · cases hnot
      · rfl
    obtain ⟨⟨origin, hnothing⟩, -⟩ | hfiles := hsays.of_no_member (hpath.trans hnone)
    · -- the section is there, as the change gave it a text or an element
      rw [hnothing] at hshape
      obtain ⟨_, _, h⟩ | h := hshape
      · cases h
      · obtain _ | ⟨⟨name⟩ | i, rest⟩ := steps
        · cases h
        · cases hnot
        · cases h
    · exact hfiles

end Setting

end Depot
