import Depot.Proofs.Program
import Depot.Proofs.Settings.Changes
/-!
# A directory that overrides the settings

The layer of a directory on the command line comes last.  Putting a text under a key leaves that
text there whatever was there before, and its two keys are apart, so neither a file nor the
environment nor any order of their entries has a say in what kind of store there is and where.

* `member?_merged_type`, `member?_merged_filesystem` — what the last layer puts under its two keys;
* `StorageConfig.ofSetting_merged` — the configuration that comes of it;
* `StorageConfig.load_root` — loading fails only where the file does.
-/

namespace Depot

namespace Setting

variable {file : SettingLayer} {environment : List (String × String)} {root : String}
  {order : SettingOrder}

theorem merged_root (file : SettingLayer) (environment : List (String × String)) (root : String)
    (order : SettingOrder) :
    ∃ below, merged file environment (some root) order =
      changed (changesOf (order.arrange .commandLine (.ofRoot root))) below :=
  ⟨_, withLayer_eq _ _⟩

theorem member?_merged_root {key : String} {steps : List SettingStep} {value : Setting}
    (h : behind key (changesOf (.ofRoot root)) = [(steps, value)]) :
    ∃ old, (merged file environment (some root) order).member? key =
      some (putAt steps value old) := by
  obtain ⟨below, hmerged⟩ := merged_root file environment root order
  have hbehind : behind key (changesOf (order.arrange .commandLine (.ofRoot root))) =
      [(steps, value)] :=
    List.perm_singleton.1 (h ▸ behind_perm (order.perm .commandLine (.ofRoot root)) key)
  rw [hmerged, member?_changed (isKeyed_changesOf _), hbehind, if_neg (by simp)]
  exact ⟨_, rfl⟩

theorem changesOf_ofRoot (root : String) : changesOf (.ofRoot root) =
    [([.key "type"], .text "filesystem"), ([.key "filesystem", .key "path"], .text root)] := by
  have htype : keyPath "type" = [.key "type"] := by decide
  have hpath : keyPath "filesystem.path" = [.key "filesystem", .key "path"] := by decide
  rw [SettingLayer.ofRoot, changesOf, List.map_cons, List.map_cons, List.map_nil, htype, hpath]

theorem member?_merged_type :
    (merged file environment (some root) order).member? "type" = some (.text "filesystem") := by
  have hbehind : behind "type" (changesOf (.ofRoot root)) = [([], .text "filesystem")] := by
    rw [changesOf_ofRoot]
    simp [behind, isBelow]
  obtain ⟨old, hmember⟩ := @member?_merged_root file environment root order _ _ _ hbehind
  rw [hmember]
  rfl

theorem member?_merged_filesystem :
    ∃ origin ms, (merged file environment (some root) order).member? "filesystem" =
      some (.table origin ms) ∧ (table origin ms).member? "path" = some (.text root) := by
  have hbehind : behind "filesystem" (changesOf (.ofRoot root)) =
      [([.key "path"], .text root)] := by
    rw [changesOf_ofRoot]
    simp [behind, isBelow]
  obtain ⟨old, hmember⟩ := @member?_merged_root file environment root order _ _ _ hbehind
  rw [hmember]
  have hpath : (putAt [.key "path"] (.text root) old).member? "path" = some (.text root) :=
    member?_alterKey_self "path" (put (.text root)) old
  have htable : ∃ origin ms, putAt [.key "path"] (.text root) old = .table origin ms := by
    cases old <;> exact ⟨_, _, rfl⟩
  obtain ⟨origin, ms, htable⟩ := htable
  rw [htable] at hpath ⊢
  exact ⟨origin, ms, rfl, hpath⟩

end Setting

namespace StorageConfig

theorem ofSetting_merged (file : SettingLayer) (environment : List (String × String))
    (root : String) (order : SettingOrder) :
    ofSetting (.merged file environment (some root) order) = .ok (.atPath (.ofString root)) := by
  obtain ⟨origin, ms, hfiles, hpath⟩ :=
    @Setting.member?_merged_filesystem file environment root order
  rw [ofSetting, Setting.member?_merged_type, hfiles]
  dsimp only
  rw [Setting.toSection, hpath]
  rfl

theorem load_root (file : Option Pathname) (environment : List (String × String)) (root : Pathname)
    (fs : FileSystem) (order : SettingOrder) :
    load file environment (some root) fs order =
      (match file with
        | some name => fs.readSettings name
        | none => .ok []) >>= fun _ => .ok (.atPath (.ofString root.display)) := by
  simp only [load, Option.map_some, ofSetting_merged]
  cases file <;> rfl

end StorageConfig

end Depot
