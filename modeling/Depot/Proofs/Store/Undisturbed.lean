import Depot.Proofs.Store.Confinement
import Depot.Proofs.Store.Opening
import Depot.Proofs.Store.RelinkedRequests
/-!
# Stores that a changed link does not disturb

Two worlds differ in one link, and the same requests are sent to a store in both.  The path of its
root is that of the directory itself, so no link is on the way there.  The replies are the same as
long as the names that are asked for lead the same way in both.

* `leadsTo_atPosition` — a directory under its own path is the root of a store;
* `Request.LeadsAlike` — the names that a request asks for lead the same way;
* `Request.perform_undisturbed` — one request;
* `replies_undisturbed` — any requests after each other;
* `undisturbed_of_tidy` — without links below the root, nothing is ever disturbed.
-/

namespace Depot

open FileSystem

namespace FileSystem

variable {fs fs' : FileSystem} {root spot : Position}

theorem PlainBelow.sameWay (h : fs.PlainBelow root) (h' : fs'.PlainBelow root)
    (hbelow : ∀ names, fs'.at? (root ++ names) = fs.at? (root ++ names)) {names : List Bytes}
    (hnames : ∀ name ∈ names, Pathname.IsName name) : SameWay fs fs' root names := by
  intro front hfront follow
  have hfrontNames : ∀ name ∈ front, Pathname.IsName name :=
    fun name hname => hnames name (hfront.subset hname)
  rw [walk_eq_straight h follow linkLimit hfrontNames,
    walk_eq_straight h' follow linkLimit hfrontNames, straight_congr hbelow]

theorem Relinked.plainBelow (h : Relinked spot fs fs') (hplain : fs.PlainBelow root)
    (hspot : ¬ root <+: spot) : fs'.PlainBelow root := by
  intro names entry hne he
  have hbelow : root ++ names ≠ spot := by
    rintro rfl
    exact hspot (List.prefix_append root names)
  rw [h.at?_eq hbelow] at he
  rcases hplain names entry hne he with hmode | ⟨id, hid, hone⟩
  · exact Or.inl hmode
  · exact Or.inr ⟨id, hid, fun pos hpos => hone pos (h.symm.kept hpos (by simp [Entry.isLink]))⟩

theorem PlainBelow.thinned (h : fs.PlainBelow root) (hthinned : Thinned fs fs') :
    fs'.PlainBelow root := by
  intro names entry hne he
  rcases h names entry hne (hthinned he) with hmode | ⟨id, hid, hone⟩
  · exact Or.inl hmode
  · exact Or.inr ⟨id, hid, fun pos hpos => hone pos (hthinned hpos)⟩

theorem walk_clear_above (hwf : fs.WellFormed) {pos : Position} {mode : Nat}
    (hpos : fs.at? pos = some (.directory mode)) {name : Bytes} (hname : Pathname.IsName name)
    (rest : List Bytes) :
    (fs.clear pos).walk true linkLimit [] (pos ++ name :: rest) =
      if maxNameLength < name.length then .error .nameTooLong
      else if rest = [] then .ok (.vacant pos name) else .error .noEntry := by
  have hwalk := walk_directory (hwf.clear pos) ((at?_clear_self fs pos).trans hpos) true
  refine Bypass.walk_into_empty hwalk (fun other => ?_) hname
  rw [at?_clear, if_pos ⟨List.prefix_append pos [other], by simp⟩]

theorem at?_clear_of_not_below {pos : Position} {mode : Nat}
    (hroot : fs.at? root = some (.directory mode)) (hbelow : ¬ (pos <+: root ∧ root ≠ pos)) :
    (fs.clear pos).at? root = some (.directory mode) := by
  rw [at?_clear, if_neg hbelow, hroot]

theorem SameWay.walk_clear {pos : Position} {names : List Bytes}
    (hway : SameWay (fs.clear pos) (fs'.clear pos) root names) (h : Relinked spot fs fs')
    {mode mode' : Nat} (hroot : fs.at? root = some (.directory mode))
    (hpos : fs.at? pos = some (.directory mode')) :
    (fs'.clear pos).walk true linkLimit [] (root ++ names) =
      (fs.clear pos).walk true linkLimit [] (root ++ names) := by
  have hwf := h.left.toWellFormed
  have hwf' := h.right.toWellFormed
  have hroot' : fs'.at? root = some (.directory mode) := h.kept hroot (by simp [Entry.isLink])
  have hpos' : fs'.at? pos = some (.directory mode') := h.kept hpos (by simp [Entry.isLink])
  by_cases hbelow : pos <+: root ∧ root ≠ pos
  · obtain ⟨⟨rest, rfl⟩, hne⟩ := hbelow
    have hrest : rest ≠ [] := by
      rintro rfl
      exact hne (List.append_nil pos)
    obtain ⟨name, rest, rfl⟩ := List.exists_cons_of_ne_nil hrest
    have hname := hwf.isName hroot name (by simp)
    rw [List.append_assoc, List.cons_append, walk_clear_above hwf hpos hname,
      walk_clear_above hwf' hpos' hname]
  · rw [walk_through (hwf.clear pos) (at?_clear_of_not_below hroot hbelow),
      walk_through (hwf'.clear pos) (at?_clear_of_not_below hroot' hbelow)]
    exact hway names List.prefix_rfl true

namespace AtMostRelinked

theorem atTime (h : AtMostRelinked spot fs fs') (time : Int) :
    AtMostRelinked spot { fs with clock := time } { fs' with clock := time } := by
  rcases h with rfl | h
  · exact Or.inl rfl
  · exact Or.inr (h.atTime time)

theorem at?_eq (h : AtMostRelinked spot fs fs') {pos : Position} (hpos : pos ≠ spot) :
    fs'.at? pos = fs.at? pos := by
  rcases h with rfl | h
  · rfl
  · exact h.at?_eq hpos

end AtMostRelinked

end FileSystem

namespace Store

variable {s : Store} {root spot : Position} {fs fs' : FileSystem} {w w' : World}

/-- The store at a directory, under the path of the directory itself. -/
def atPosition (root : Position) : Store := ⟨.ofRootNames root⟩

theorem leadsTo_atPosition (hwf : fs.WellFormed) {mode : Nat}
    (hroot : fs.at? root = some (.directory mode))
    (hcheck : checkPath (.ofRootNames root) = .ok ()) : (atPosition root).LeadsTo fs root := by
  have hclean := hwf.clean_ofRootNames hroot
  refine ⟨hclean.1, hclean.2, mode, ?_⟩
  rw [atPosition, locateEntry_eq_ok, locate_eq_ok, startOf, if_pos hclean.1,
    Pathname.steps_ofRootNames (hwf.isName hroot)]
  exact ⟨hcheck, walk_directory hwf hroot false⟩

namespace Request

theorem isName_of_stages {name : String} {names : List Bytes} (h : Stages name names) :
    ∀ piece ∈ names, Pathname.IsName piece := by
  obtain ⟨k, -, rfl | rfl⟩ := h
  · exact k.isName
  · exact k.isName_staging

theorem isName_of_object {name : String} {names : List Bytes}
    (h : ObjectName.ofObject name = .ok names) : ∀ piece ∈ names, Pathname.IsName piece := by
  obtain ⟨k, rfl, -⟩ := ObjectName.ofObject_eq_ok h
  exact k.isName

theorem Deletes.object {request : Request} {names : List Bytes} (h : request.Deletes names) :
    ∃ name, ObjectName.ofObject name = .ok names := by
  cases request with
  | delete name => exact ⟨name, h⟩
  | write call => exact h.elim
  | read name => exact h.elim
  | stat name => exact h.elim
  | list beginning ending => exact h.elim
  | purge maxAge => exact h.elim

theorem Deletes.isName {request : Request} {names : List Bytes} (h : request.Deletes names) :
    ∀ piece ∈ names, Pathname.IsName piece :=
  isName_of_object h.object.choose_spec

theorem AsksFor.isName {request : Request} {names : List Bytes} (h : request.AsksFor names) :
    ∀ piece ∈ names, Pathname.IsName piece := by
  cases request with
  | write call =>
      cases call with
      | save name source expected => exact isName_of_stages h
      | copy src dst =>
          rcases h with hsrc | hdst
          · exact isName_of_object hsrc
          · exact isName_of_stages hdst
  | delete name => exact isName_of_object h
  | read name => exact isName_of_object h
  | stat name => exact isName_of_object h
  | list beginning ending => exact ObjectName.isName_of_ofBeginning h
  | purge maxAge => exact h.elim

/-- The names that a request asks for lead the same way from a directory in both, and when it has
emptied a directory that it deletes, the names above this still do. -/
structure LeadsAlike (request : Request) (root : Position) (fs fs' : FileSystem) : Prop where
  names : ∀ names, request.AsksFor names → SameWay fs fs' root names
  emptied : ∀ names pos mode, request.Deletes names →
    fs.walk false linkLimit root names = .ok (.occupied pos (.directory mode)) →
      SameWay (fs.clear pos) (fs'.clear pos) root names.dropLast

theorem LeadsAlike.foundAgain {request : Request} (h : request.LeadsAlike root fs fs')
    (hlinks : Relinked spot fs fs') (hcheck : checkPath (.ofRootNames root) = .ok ()) {mode : Nat}
    (hroot : fs.at? root = some (.directory mode)) {names : List Bytes}
    (hdeletes : request.Deletes names) : (atPosition root).FoundAgain fs fs' names := by
  obtain ⟨name, hobject⟩ := hdeletes.object
  obtain ⟨k, rfl, -⟩ := ObjectName.ofObject_eq_ok hobject
  have hwf := hlinks.left.toWellFormed
  have hleads := leadsTo_atPosition hwf hroot hcheck
  have hroots : (atPosition root).root.names = root := hwf.names_ofRootNames hroot
  have habs : ((atPosition root).pathOf k.names).isAbsolute := hleads.isAbsolute_pathOf k.isName
  have hp : EndsInName ((atPosition root).pathOf k.names) (root ++ k.dirs) k.leaf := by
    have hp := (atPosition root).endsInName_pathOf k.isName
    rwa [hroots] at hp
  intro pos mode' hlocate
  obtain ⟨hcheck', hwalk⟩ := locate_eq_ok.1 (locateEntry_eq_ok.1 hlocate)
  rw [startOf, if_pos habs, hp.steps_eq, List.append_assoc, walk_through hwf hroot] at hwalk
  have hway := h.emptied _ pos mode' hdeletes hwalk
  rw [Key.names, List.dropLast_concat] at hway
  have hpos : fs.at? pos = some (.directory mode') := at?_of_locateEntry hlocate
  have hdirs := hway.walk_clear hlinks hroot hpos
  rw [locateLast, locateLast, startOf, startOf, if_pos habs, if_pos habs, hp.names_eq,
    List.dropLast_concat, hdirs]

/-- A request to a directory under its own path does the same in both if the names that it asks for
lead the same way from there. -/
theorem perform_undisturbed (request : Request) (hcheck : checkPath (.ofRootNames root) = .ok ())
    (h : AtMostRelinked spot w.fs w'.fs)
    (hroot : ∃ mode, w.fs.at? root = some (.directory mode))
    (hways : request.LeadsAlike root w.fs w'.fs) :
    ((request.perform (atPosition root)).run w').1 =
        ((request.perform (atPosition root)).run w).1 ∧
      AtMostRelinked spot ((request.perform (atPosition root)).run w).2.fs
        ((request.perform (atPosition root)).run w').2.fs := by
  rcases h with heq | h
  · obtain ⟨hreply, hst⟩ := (perform_blind (atPosition root) request w.fs).eq rfl heq
    exact ⟨hreply, Or.inl hst⟩
  · obtain ⟨mode, hmode⟩ := hroot
    have hleft := leadsTo_atPosition h.left.toWellFormed hmode hcheck
    have hright := leadsTo_atPosition h.right.toWellFormed
      (h.kept hmode (by simp [Entry.isLink])) hcheck
    have hnames : (atPosition root).root.names = root :=
      h.left.toWellFormed.names_ofRootNames hmode
    refine (perform_relinked request h hleft hright (fun names hasks => ?_)
      (fun names hdeletes => hways.foundAgain h hcheck hmode hdeletes) w w' rfl rfl).eq_and
    rw [hnames]
    exact (hways.names names hasks).bypass h hmode hasks.isName

end Request

/-! ## Any requests after each other -/

def replies (s : Store) (w : World) : List (Int × Request) → List (Except StorageError Reply)
  | [] => []
  | (time, request) :: rest =>
      ((request.perform s).run (w.atTime time)).1 ::
        s.replies ((request.perform s).run (w.atTime time)).2 rest

/-- Each request finds the directory in its place, and the names that it asks for lead the same way
from there in both worlds. -/
def Undisturbed (s : Store) (root : Position) (w w' : World) : List (Int × Request) → Prop
  | [] => True
  | (time, request) :: rest =>
      (∃ mode, w.fs.at? root = some (.directory mode)) ∧
        request.LeadsAlike root (w.atTime time).fs (w'.atTime time).fs ∧
        s.Undisturbed root ((request.perform s).run (w.atTime time)).2
          ((request.perform s).run (w'.atTime time)).2 rest

/-- Whatever has become of the link, undisturbed requests have the same replies, and afterwards
nothing but the link differs. -/
theorem replies_undisturbed (hcheck : checkPath (.ofRootNames root) = .ok ())
    (h : AtMostRelinked spot w.fs w'.fs) {requests : List (Int × Request)}
    (hundisturbed : (atPosition root).Undisturbed root w w' requests) :
    (atPosition root).replies w' requests = (atPosition root).replies w requests ∧
      AtMostRelinked spot ((atPosition root).serve w requests).fs
        ((atPosition root).serve w' requests).fs := by
  induction requests generalizing w w' with
  | nil => exact ⟨rfl, h⟩
  | cons first rest ih =>
      obtain ⟨time, request⟩ := first
      obtain ⟨hroot, hways, hrest⟩ := hundisturbed
      have hbefore : AtMostRelinked spot (w.atTime time).fs (w'.atTime time).fs := h.atTime time
      obtain ⟨hreply, hafter⟩ := request.perform_undisturbed hcheck hbefore hroot hways
      obtain ⟨hreplies, hserved⟩ := ih hafter hrest
      exact ⟨by rw [replies, replies, hreply, hreplies], hserved⟩

theorem undisturbed_of_tidy (hcheck : checkPath (.ofRootNames root) = .ok ())
    (h : (atPosition root).Tidy w.fs root) (h' : (atPosition root).Tidy w'.fs root)
    (hlinks : AtMostRelinked spot w.fs w'.fs) (hspot : ¬ root <+: spot)
    (requests : List (Int × Request)) : (atPosition root).Undisturbed root w w' requests := by
  have hundisturbed : ∀ w₁ w₁' : World, (atPosition root).Alike root w.fs w.fs w₁.fs w₁.fs →
      (atPosition root).Alike root w'.fs w'.fs w₁'.fs w₁'.fs →
      AtMostRelinked spot w₁.fs w₁'.fs →
      (atPosition root).Undisturbed root w₁ w₁' requests := by
    induction requests with
    | nil => exact fun _ _ _ _ _ => trivial
    | cons first rest ih =>
        intro w₁ w₁' hself hself' hlinks
        obtain ⟨time, request⟩ := first
        have hbefore : AtMostRelinked spot (w₁.atTime time).fs (w₁'.atTime time).fs :=
          hlinks.atTime time
        have hbelow : ∀ names, (w₁'.atTime time).fs.at? (root ++ names) =
            (w₁.atTime time).fs.at? (root ++ names) := by
          intro names
          refine hbefore.at?_eq ?_
          rintro rfl
          exact hspot (List.prefix_append root names)
        have hplain : (w₁.atTime time).fs.PlainBelow root := (hself.atTime time).left.plain
        have hplain' : (w₁'.atTime time).fs.PlainBelow root := (hself'.atTime time).left.plain
        have hways : request.LeadsAlike root (w₁.atTime time).fs (w₁'.atTime time).fs := by
          refine ⟨fun names hasks => hplain.sameWay hplain' hbelow hasks.isName, ?_⟩
          intro names pos mode hdeletes _
          refine (hplain.thinned (thinned_clear _ pos)).sameWay
            (hplain'.thinned (thinned_clear _ pos)) (fun names => ?_) fun name hname =>
              hdeletes.isName name (List.dropLast_subset names hname)
          rw [at?_clear, at?_clear, hbelow]
        have hroot := hself.left.isDirectory
        exact ⟨hroot, hways, ih _ _ (request.alike (hself.atTime time)).2.2
          (request.alike (hself'.atTime time)).2.2
          (request.perform_undisturbed hcheck hbefore hroot hways).2⟩
  exact hundisturbed w w' ((Agrees.refl h).alike w.fs.clock) ((Agrees.refl h').alike w'.fs.clock)
    hlinks

end Store

end Depot
