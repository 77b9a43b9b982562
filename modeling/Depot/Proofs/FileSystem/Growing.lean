import Depot.Proofs.FileSystem.Located
/-!
# Making directories anywhere

Making directories, wherever a path leads and however links are crossed on the way, adds
directories where nothing was and changes nothing else.

* `Grown` — a file system with more directories;
* `makeDirectories_keeps`, `makeDirectories_grown` — whatever comes of making a directory and those
  above it.
-/

namespace Depot

namespace FileSystem

/-! ## More directories -/

/-- The second file system has all that the first has, and more directories. -/
structure Grown (fs fs' : FileSystem) : Prop where
  wellFormed : fs'.WellFormed
  kept : ∀ {pos entry}, fs.at? pos = some entry → fs'.at? pos = some entry
  new : ∀ {pos entry}, fs.at? pos = none → fs'.at? pos = some entry → entry.isDirectory
  file?_eq : ∀ id, fs'.file? id = fs.file? id

namespace Grown

variable {fs fs' fs'' : FileSystem}

theorem refl (h : fs.WellFormed) : Grown fs fs where
  wellFormed := h
  kept := id
  new := by
    intro pos entry hnone he
    rw [hnone] at he
    cases he
  file?_eq := fun _ => rfl

theorem trans (h : Grown fs fs') (h' : Grown fs' fs'') : Grown fs fs'' where
  wellFormed := h'.wellFormed
  kept := fun he => h'.kept (h.kept he)
  new := by
    intro pos entry hnone he
    cases hmid : fs'.at? pos with
    | none => exact h'.new hmid he
    | some entry' =>
        rw [h'.kept hmid] at he
        cases he
        exact h.new hnone hmid
  file?_eq := fun id => (h'.file?_eq id).trans (h.file?_eq id)

theorem keepsPaths (h : Grown fs fs') : fs.KeepsPaths fs' := fun _ _ he _ => h.kept he

theorem at?_eq_some_iff (h : Grown fs fs') {pos : Position} {entry : Entry}
    (hentry : ¬ entry.isDirectory) : fs'.at? pos = some entry ↔ fs.at? pos = some entry := by
  constructor
  · intro he
    cases hbefore : fs.at? pos with
    | none => exact absurd (h.new hbefore he) hentry
    | some entry' =>
        rw [h.kept hbefore] at he
        exact he
  · exact h.kept

theorem readFrom_eq (h : Grown fs fs') (handle : Handle) (offset : Nat) :
    fs'.readFrom handle offset = fs.readFrom handle offset := by
  cases handle with
  | file id => rw [readFrom, readFrom, h.file?_eq]
  | directory => rfl
  | device => rfl

theorem plainBelow (h : Grown fs fs') {root : Position} (hplain : fs.PlainBelow root) :
    fs'.PlainBelow root := by
  intro names entry hne he
  by_cases hentry : entry.isDirectory
  · exact Or.inl (Entry.isDirectory_iff.1 hentry)
  · rcases hplain names entry hne ((h.at?_eq_some_iff hentry).1 he) with hd | ⟨id, rfl, hone⟩
    · exact Or.inl hd
    · exact Or.inr ⟨id, rfl, fun pos hpos => hone pos ((h.at?_eq_some_iff hentry).1 hpos)⟩

end Grown

theorem makeDirectory_eq_ok {fs fs' : FileSystem} {p : Pathname}
    (h : fs.makeDirectory p = .ok fs') :
    ∃ dir name, fs.locateLast p = .ok (.name dir name) ∧ fs.at? (dir ++ [name]) = none ∧
      fs' = fs.bind (dir ++ [name]) (.directory directoryMode) := by
  rw [makeDirectory, bind_eq_ok] at h
  obtain ⟨last, hlast, hmake⟩ := h
  cases last with
  | special => cases hmake
  | name dir name =>
      dsimp only at hmake
      split at hmake
      · cases hmake
      · exact ⟨dir, name, hlast, ‹_›, (Except.ok.inj hmake).symm⟩

theorem Grown.bind {fs : FileSystem} (h : fs.WellFormed) {dir : Position} {name : Bytes}
    {mode : Nat} (hdir : fs.at? dir = some (.directory mode)) (hname : IsEntryName name)
    (hnone : fs.at? (dir ++ [name]) = none) :
    Grown fs (fs.bind (dir ++ [name]) (.directory directoryMode)) where
  wellFormed := h.bind hdir hname (Or.inl rfl) (by simp)
  kept := by
    intro pos entry he
    rw [at?_bind (by simp), if_neg, he]
    rintro rfl
    rw [hnone] at he
    cases he
  new := by
    intro pos entry hnone' he
    rw [at?_bind (by simp)] at he
    split at he
    · cases he
      rfl
    · rw [hnone'] at he
      cases he
  file?_eq := fun _ => rfl

theorem Grown.of_makeDirectory {fs fs' : FileSystem} (h : fs.WellFormed) {p : Pathname}
    (hmake : fs.makeDirectory p = .ok fs') : Grown fs fs' := by
  obtain ⟨dir, name, hlast, hnone, rfl⟩ := makeDirectory_eq_ok hmake
  obtain ⟨hname, mode, hmode⟩ := isEntryName_of_locateLast hlast
  exact Grown.bind h hmode hname hnone

end FileSystem

open FileSystem

variable {fs₀ fs : FileSystem}

/-! ## What making directories keeps -/

/-- What holds of a file system holds of it when a directory was made. -/
def KeptByMaking (inv : FileSystem → Prop) (p : Pathname) : Prop :=
  ∀ st st', inv st → st.makeDirectory p = .ok st' → inv st'

variable {inv : FileSystem → Prop}

theorem attempt_makeDirectory_keeps {ε : Type} {failed : ε → FileSystem → Prop} {p : Pathname}
    (hkept : KeptByMaking inv p) (h : inv fs) :
    (Op.attempt (Op.change_ (·.makeDirectory p)) : Op ε (Except IoError Unit)).Runs fs inv
      (fun _ => inv) failed := by
  apply Op.Runs.attempt
  apply Op.Runs.change_
  · intro fs' hmake
    have hinv := hkept _ _ h hmake
    exact ⟨hinv, hinv⟩
  · exact fun _ _ => h

theorem makePending_keeps {pending : List Pathname} (hkept : ∀ p ∈ pending, KeptByMaking inv p)
    (h : inv fs) : (makePending pending).Runs fs inv (fun _ => inv) (fun _ => inv) := by
  induction pending generalizing fs with
  | nil => exact Op.Runs.pure h
  | cons p rest ih =>
      have hrest := fun q hq => hkept q (List.mem_cons_of_mem p hq)
      rw [makePending]
      refine Op.Runs.bind _ (attempt_makeDirectory_keeps (hkept p List.mem_cons_self) h) ?_
      intro result fs' h'
      cases result with
      | ok _ => exact ih hrest h'
      | error e =>
          apply Op.Runs.get
          intro world hworld
          split
          · exact ih hrest h'
          · exact Op.Runs.throw h'

theorem makeFrom_keeps {above pending : List Pathname} (habove : ∀ p ∈ above, KeptByMaking inv p)
    (hpending : ∀ p ∈ pending, KeptByMaking inv p) (h : inv fs) :
    (makeFrom pending above).Runs fs inv (fun _ => inv) (fun _ => inv) := by
  induction above generalizing pending fs with
  | nil => exact makePending_keeps hpending h
  | cons p rest ih =>
      have hp := habove p List.mem_cons_self
      rw [makeFrom]
      split
      · exact makePending_keeps hpending h
      · refine Op.Runs.bind _ (attempt_makeDirectory_keeps hp h) ?_
        intro result fs' h'
        cases result with
        | ok _ => exact makePending_keeps hpending h'
        | error e =>
            dsimp only
            split
            · exact ih (fun q hq => habove q (List.mem_cons_of_mem p hq))
                (List.forall_mem_cons.2 ⟨hp, hpending⟩) h'
            · apply Op.Runs.get
              intro world hworld
              split
              · exact makePending_keeps hpending h'
              · exact Op.Runs.throw h'

theorem makeDirectories_keeps {p : Pathname}
    (hkept : ∀ q ∈ p.ancestors (p.bytes.length + 1), KeptByMaking inv q) (h : inv fs) :
    (makeDirectories p).Runs fs inv (fun _ => inv) (fun _ => inv) := by
  rw [makeDirectories]
  exact makeFrom_keeps hkept (by simp) h

theorem makeDirectories_grown (p : Pathname) (h : Grown fs₀ fs) :
    (makeDirectories p).Runs fs (Grown fs₀) (fun _ => Grown fs₀) (fun _ => Grown fs₀) :=
  makeDirectories_keeps
    (fun _ _ _ _ hst hmake => hst.trans (.of_makeDirectory hst.wellFormed hmake)) h

end Depot
