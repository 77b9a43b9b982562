import Depot.Proofs.FileSystem.Growing
import Depot.Store.Config
import Depot.Store.Object
/-!
# The directory a process works in

No operation that a store is opened with or saves with moves the process, so what a relative path
starts from stays the same.

* `Op.Stays` — an operation that leaves the working directory alone, whatever comes of it;
* `StorageConfig.openStore_cases` — opening a store is to open a directory;
* `StorageConfig.openStore_stays`, `Store.saveFrom_stays` — opening and saving.
-/

namespace Depot

open FileSystem

namespace FileSystem

variable {fs fs' : FileSystem} {p : Pathname}

theorem makeDirectory_workingDir (h : fs.makeDirectory p = .ok fs') :
    fs'.workingDir = fs.workingDir := by
  obtain ⟨dir, name, -, -, rfl⟩ := makeDirectory_eq_ok h
  rfl

theorem unlink_workingDir (h : fs.unlink p = .ok fs') : fs'.workingDir = fs.workingDir := by
  obtain ⟨last, -, hunlink⟩ := bind_eq_ok.1 h
  cases last with
  | special => cases hunlink
  | name dir name =>
      dsimp only at hunlink
      split at hunlink
      · cases hunlink
      · cases hunlink
      · split at hunlink
        · cases hunlink
        · cases hunlink
          rfl

theorem create_workingDir {handle : Handle} (h : fs.create p = .ok (fs', handle)) :
    fs'.workingDir = fs.workingDir := by
  unfold create at h
  dsimp only at h
  split at h
  · obtain ⟨last, -, hthrow⟩ := bind_eq_ok.1 h
    cases hthrow
  · obtain ⟨place, -, hplace⟩ := bind_eq_ok.1 h
    split at hplace <;> cases hplace <;> rfl

theorem setHandleMode_workingDir {handle : Handle} {mode : Nat}
    (h : fs.setHandleMode handle mode = .ok fs') : fs'.workingDir = fs.workingDir := by
  unfold setHandleMode at h
  split at h
  · split at h <;> cases h <;> rfl
  · cases h
    rfl

theorem writeAt_workingDir (fs : FileSystem) (handle : Handle) (offset : Nat) (data : Bytes) :
    (fs.writeAt handle offset data).workingDir = fs.workingDir := by
  cases handle with
  | file id =>
      rw [writeAt]
      cases fs.file? id <;> rfl
  | directory => rfl
  | device => rfl

theorem relocate_workingDir (fs : FileSystem) (source target : Position) :
    (fs.relocate source target).workingDir = fs.workingDir := by
  have hfold (moved : List (Position × Entry)) (st : FileSystem) :
      (moved.foldl (fun acc kv => acc.bind (target ++ kv.1.drop source.length) kv.2)
        st).workingDir = st.workingDir := by
    induction moved generalizing st with
    | nil => rfl
    | cons kv moved ih => exact ih _
  exact hfold _ _

theorem rename_cases {new : Pathname} (h : fs.rename p new = .ok fs') :
    fs' = fs ∨ ∃ src dst entry, fs' =
      if entry.isDirectory then fs.relocate src dst else (fs.unbind src).bind dst entry := by
  obtain ⟨source, -, hrename⟩ := bind_eq_ok.1 h
  obtain ⟨target, -, hrename⟩ := bind_eq_ok.1 hrename
  cases source with
  | special => cases hrename
  | name oldDir oldName =>
  cases target with
  | special => cases hrename
  | name newDir newName =>
  dsimp only at hrename
  split at hrename
  · cases hrename
  rename_i entry _
  have hmoved : (fs.checkReplace entry (newDir ++ [newName]) >>= fun _ =>
      if entry.isDirectory then pure (fs.relocate (oldDir ++ [oldName]) (newDir ++ [newName]))
      else pure ((fs.unbind (oldDir ++ [oldName])).bind (newDir ++ [newName]) entry))
        = Except.ok fs' → ∃ src dst entry, fs' =
          if entry.isDirectory then fs.relocate src dst else (fs.unbind src).bind dst entry := by
    intro hmove
    obtain ⟨u, -, hmove⟩ := bind_eq_ok.1 hmove
    refine ⟨oldDir ++ [oldName], newDir ++ [newName], entry, ?_⟩
    split at hmove
    · rename_i hdirectory
      rw [if_pos hdirectory]
      exact (Except.ok.inj hmove).symm
    · rename_i hdirectory
      rw [if_neg hdirectory]
      exact (Except.ok.inj hmove).symm
  rcases ite_eq_iff.1 hrename with ⟨-, hslash⟩ | ⟨-, hrename⟩
  · cases hslash
  rcases ite_eq_iff.1 hrename with ⟨-, hsame⟩ | ⟨-, hrename⟩
  · exact Or.inl (Except.ok.inj hsame).symm
  rcases ite_eq_iff.1 hrename with ⟨-, hbelow⟩ | ⟨-, hrename⟩
  · cases hbelow
  rcases ite_eq_iff.1 hrename with ⟨-, habove⟩ | ⟨-, hrename⟩
  · cases habove
  split at hrename
  · split at hrename
    · exact Or.inl (Except.ok.inj hrename).symm
    · exact Or.inr (hmoved hrename)
  · exact Or.inr (hmoved hrename)

theorem rename_workingDir {new : Pathname} (h : fs.rename p new = .ok fs') :
    fs'.workingDir = fs.workingDir := by
  rcases rename_cases h with rfl | ⟨src, dst, entry, rfl⟩
  · rfl
  · split
    · exact relocate_workingDir fs src dst
    · rfl

end FileSystem

/-! ## Operations -/

namespace Op

variable {ε ε' α β : Type}

/-- An operation that leaves the process in the directory where it is. -/
def Stays (op : Op ε α) : Prop :=
  ∀ dir fs, fs.workingDir = dir → op.Runs fs (fun st => st.workingDir = dir)
    (fun _ st => st.workingDir = dir) (fun _ st => st.workingDir = dir)

namespace Stays

theorem pure (a : α) : (Pure.pure a : Op ε α).Stays := fun _ _ h => Runs.pure h

theorem throw (e : ε) : (throw e : Op ε α).Stays := fun _ _ h => Runs.throw h

theorem bind {op : Op ε α} {next : α → Op ε β} (h : op.Stays) (hnext : ∀ a, (next a).Stays) :
    (op >>= next).Stays :=
  fun dir fs hfs => Runs.bind _ (h dir fs hfs) fun a st hst => hnext a dir st hst

theorem get {next : World → Op ε β} (h : ∀ w, (next w).Stays) :
    (MonadState.get >>= next).Stays := fun dir fs hfs => Runs.get fun w _ => h w dir fs hfs

theorem lift (x : Except ε α) {next : α → Op ε β} (h : ∀ a, (next a).Stays) :
    ((liftM x : Op ε α) >>= next).Stays := by
  intro dir fs hfs
  cases x with
  | error e => exact Runs.lift_error hfs
  | ok a => exact Runs.lift_ok (h a dir fs hfs)

theorem query (f : FileSystem → Except ε α) : (Op.query f).Stays :=
  fun _ _ h => Runs.query (fun _ _ => h) fun _ _ => h

theorem report (e : Event) : (Op.report e : Op ε Unit).Stays := fun _ _ h => Runs.report h

theorem change {f : FileSystem → Except ε (FileSystem × α)}
    (hf : ∀ fs fs' a, f fs = .ok (fs', a) → fs'.workingDir = fs.workingDir) :
    (Op.change f).Stays := by
  intro dir fs h
  refine Runs.change (fun fs' a hok => ?_) fun _ _ => h
  have hdir := (hf fs fs' a hok).trans h
  exact ⟨hdir, hdir⟩

theorem change_ {f : FileSystem → Except ε FileSystem}
    (hf : ∀ fs fs', f fs = .ok fs' → fs'.workingDir = fs.workingDir) : (Op.change_ f).Stays := by
  intro dir fs h
  refine Runs.change_ (fun fs' hok => ?_) fun _ _ => h
  have hdir := (hf fs fs' hok).trans h
  exact ⟨hdir, hdir⟩

theorem mapError {op : Op ε' α} {f : ε' → ε} (h : op.Stays) : (op.mapError f).Stays :=
  fun dir fs hfs => Runs.mapError (h dir fs hfs)

theorem attempt {op : Op ε' α} (h : op.Stays) : (op.attempt : Op ε (Except ε' α)).Stays :=
  fun dir fs hfs => Runs.attempt (h dir fs hfs)

end Stays

end Op

theorem makeDirectories_stays (p : Pathname) : (makeDirectories p).Stays :=
  fun _ _ h => makeDirectories_keeps
    (fun _ _ _ _ hst hmake => (makeDirectory_workingDir hmake).trans hst) h

/-! ## Opening a store -/

theorem resolveRoot_stays (p : Pathname) (create : Bool) : (resolveRoot p create).Stays := by
  rw [resolveRoot]
  split
  · exact .throw _
  refine .get fun w => ?_
  split
  · split
    · split
      · exact .bind (.mapError (makeDirectories_stays p)) fun _ =>
          .bind (.report _) fun _ => .mapError (.query _)
      · exact .throw _
    · exact .throw _
  · refine .bind ?_ fun found => ?_
    · rw [existingRoot]
      split
      · exact .bind (.mapError (.query _)) fun _ => .bind (.mapError (.query _)) fun _ => .pure _
      · exact .bind (.mapError (.query _)) fun _ => .pure _
    · obtain ⟨root, entry⟩ := found
      dsimp only
      split
      · exact .pure _
      · exact .throw _

theorem StorageConfig.openStore_cases (config : StorageConfig) :
    (∃ e, config.openStore = throw e) ∨
      ∃ c, config.section? = .ok c ∧ config.openStore = Store.openAt c.path true := by
  cases hsection : config.section? with
  | error e =>
      refine Or.inl ⟨e, ?_⟩
      rw [StorageConfig.openStore, hsection]
      rfl
  | ok c =>
      have hopen : config.openStore = c.openStore := by
        rw [StorageConfig.openStore, hsection]
        rfl
      rw [hopen, FsConfig.openStore]
      cases c.validate with
      | error e => exact Or.inl ⟨e, rfl⟩
      | ok u => exact Or.inr ⟨c, rfl, rfl⟩

theorem StorageConfig.openStore_stays (config : StorageConfig) : config.openStore.Stays := by
  rcases config.openStore_cases with ⟨e, hopen⟩ | ⟨c, -, hopen⟩
  · rw [hopen]
    exact .throw e
  · rw [hopen, Store.openAt]
    exact .bind (resolveRoot_stays c.path true) fun _ => .bind (.report _) fun _ => .pure _

/-! ## Writing -/

theorem discard_stays (staging : Pathname) : (discard staging).Stays := by
  rw [discard]
  refine .bind (.attempt (.change_ fun _ _ hunlink => unlink_workingDir hunlink)) fun result => ?_
  split
  · exact .report _
  · split
    · exact .pure _
    · exact .report _

theorem discarding_stays {α : Type} {target : Pathname} {op : Op StorageError α} (h : op.Stays) :
    (discarding target op).Stays := by
  rw [discarding]
  refine .bind (.attempt h) fun result => ?_
  split
  · exact .pure _
  · exact .bind (discard_stays _) fun _ => .throw _

theorem beginWriting_stays (target : Pathname) : (beginWriting target).Stays := by
  have hopen : (createStaging target).Stays :=
    .bind (.mapError (.change fun _ _ _ hcreate => create_workingDir hcreate)) fun _ =>
      .bind (.mapError (.change_ fun _ _ hmode => setHandleMode_workingDir hmode)) fun _ => .pure _
  apply discarding_stays
  rw [openStaging]
  dsimp only
  split
  · exact .bind (.mapError (makeDirectories_stays _)) fun _ => hopen
  · exact hopen

namespace Writing

theorem receive_stays (w : Writing) (d : Delivery) : (w.receive d).Stays := by
  have happend (data : Bytes) : (Received.more <$> w.append data).Stays := by
    refine .bind (.bind (.change_ fun fs fs' hwrite => ?_) fun _ => .pure _) fun _ => .pure _
    cases hwrite
    exact writeAt_workingDir fs w.handle w.written data
  cases d with
  | chunk bytes =>
      cases bytes with
      | nil => exact .pure _
      | cons byte bytes => exact happend _
  | fault e =>
      rw [receive]
      split
      · exact .pure _
      · exact .bind (discarding_stays (.throw _)) fun _ => .pure _

theorem receiveAll_stays (w : Writing) (source : List Delivery) : (w.receiveAll source).Stays := by
  induction source generalizing w with
  | nil => exact .pure _
  | cons d rest ih =>
      rw [receiveAll]
      refine .bind (w.receive_stays d) fun received => ?_
      cases received with
      | ended w' => exact .pure _
      | more w' => exact ih w'

theorem publish_stays (w : Writing) : w.publish.Stays := by
  rw [publish]
  refine .bind (discarding_stays (.bind (.mapError (.query _)) fun _ => .mapError ?_)) fun _ =>
    .bind (.report _) fun _ => .pure _
  exact .change_ fun _ _ hrename => rename_workingDir hrename

end Writing

theorem Store.saveFrom_stays (s : Store) (name : String) (source : FileSystem → List Delivery)
    (expected : Nat) : (s.saveFrom name source expected).Stays := by
  rw [saveFrom, beginSave]
  refine .bind (.lift _ fun path => beginWriting_stays path) fun w => .get fun _ =>
    .bind (w.receiveAll_stays _) fun w' => ?_
  rw [endSave]
  refine .bind w'.publish_stays fun written => ?_
  rw [reportSize]
  split
  · exact .report _
  · exact .pure _

end Depot
