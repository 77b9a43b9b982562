import Depot.Proofs.Store.AlikeRequests
/-!
# A store stays below its root

Whatever a store is asked for, and under whatever names, it changes nothing outside of its root, and
what it replies does not depend on what stands there: two file systems with the same items below the
root, and with a common part that leads to it, give the same replies.

* `Request.perform_pairs`, `Request.alike` — one request;
* `Alike.serve` — any requests after each other;
* `confined` — what never changes, and what never shows.
-/

namespace Depot

open FileSystem

namespace Store

variable {s : Store} {root : Position} {g g' fs fs' : FileSystem} {w w' : World}

/-! ## One request -/

namespace Request

theorem write_pairs (h : s.Alike root g g' fs fs') (call : WriteCall) :
    (call.perform s).Pairs (call.perform s) fs fs' (fun _ _ st st' => s.Alike root g g' st st')
      (s.Alike root g g') := by
  cases call with
  | save name source expected => exact save_pairs h name source expected
  | copy src dst => exact copy_pairs h src dst

theorem perform_pairs (h : s.Alike root g g' fs fs') (request : Request)
    (hlist : ∀ beginning ending, request ≠ .list beginning ending) :
    (request.perform s).Pairs (request.perform s) fs fs'
      (fun reply reply' st st' => reply' = reply ∧ s.Alike root g g' st st')
      (s.Alike root g g') := by
  have hreply {α : Type} (f : α → Reply) {a a' : α} {st st' : FileSystem}
      (hdone : a' = a ∧ s.Alike root g g' st st') : f a' = f a ∧ s.Alike root g g' st st' :=
    ⟨congrArg f hdone.1, hdone.2⟩
  cases request with
  | write call =>
      exact ((write_pairs h call).weaken (fun _ _ _ _ hst => ⟨rfl, hst⟩) fun _ _ hst => hst).map
  | delete name =>
      exact ((delete_pairs h name).weaken (fun _ _ _ _ hst => ⟨rfl, hst⟩) fun _ _ hst => hst).map
  | read name =>
      exact ((readWhole_pairs h name).weaken (fun _ _ _ _ => hreply .content)
        fun _ _ hst => hst).map
  | stat name =>
      exact ((stat_pairs h name).weaken (fun _ _ _ _ => hreply .info) fun _ _ hst => hst).map
  | list beginning ending => exact absurd rfl (hlist beginning ending)
  | purge maxAge =>
      exact ((purge_pairs h maxAge).weaken (fun _ _ _ _ => hreply .purged) fun _ _ hst => hst).map

theorem alike (h : s.Alike root g g' w.fs w'.fs) (request : Request) :
    SameReply request ((request.perform s).run w).1 ((request.perform s).run w').1 ∧
      (g'.namesBelow root = g.namesBelow root →
        ((request.perform s).run w').1 = ((request.perform s).run w).1) ∧
      s.Alike root g g' ((request.perform s).run w).2.fs ((request.perform s).run w').2.fs := by
  by_cases hlist : ∃ beginning ending, request = .list beginning ending
  · obtain ⟨beginning, ending, rfl⟩ := hlist
    have hstill := list_still s beginning ending
    rw [perform, Op.run_map, Op.run_map]
    refine ⟨list_same h beginning ending rfl rfl, fun horder => ?_, ?_⟩
    · dsimp only
      rw [list_eq h beginning ending rfl rfl horder]
    · rw [hstill.run_fs, hstill.run_fs]
      exact h
  · have hboth := perform_pairs h request (fun beginning ending heq =>
      hlist ⟨beginning, ending, heq⟩) w w' rfl rfl
    obtain ⟨hreply, hst⟩ := hboth.eq_and
    exact ⟨hreply ▸ .same .., fun _ => hreply, hst⟩

end Request

/-! ## Any requests after each other -/

theorem Alike.serve (h : ∀ time, s.Alike root g g' (w.atTime time).fs (w'.atTime time).fs)
    (requests : List (Int × Request)) (time : Int) :
    s.Alike root g g' ((s.serve w requests).atTime time).fs
      ((s.serve w' requests).atTime time).fs := by
  induction requests generalizing w w' with
  | nil => exact h time
  | cons first rest ih =>
      obtain ⟨time', request⟩ := first
      exact ih fun time => (Request.alike (h time') request).2.2.atTime time

def reply (s : Store) (w : World) (requests : List (Int × Request)) (time : Int)
    (request : Request) : Except StorageError Reply :=
  ((request.perform s).run ((s.serve w requests).atTime time)).1

/-- Whatever requests a store has served, nothing outside of its root has changed, and the root is
still a directory.  Another file system that agrees on what is below the root and on the way to it
has given the same replies, but for the order of a listing; and not even that differs where it keeps
the entries below the root in the same order. -/
theorem confined (h : s.Tidy w.fs root) (requests : List (Int × Request)) :
    (∀ pos, ¬ root <+: pos → (s.serve w requests).fs.item? pos = w.fs.item? pos) ∧
      (∃ mode, (s.serve w requests).fs.at? root = some (.directory mode)) ∧
      ∀ w' : World, s.Agrees root w.fs w'.fs → ∀ time request,
        SameReply request (s.reply w requests time request) (s.reply w' requests time request) ∧
          (w'.fs.namesBelow root = w.fs.namesBelow root →
            s.reply w' requests time request = s.reply w requests time request) := by
  have hself := (Alike.serve (Agrees.refl h).alike requests 0).left
  refine ⟨fun pos hpos => hself.outside hpos, hself.isDirectory, ?_⟩
  intro w' hagrees time request
  obtain ⟨hsame, hequal, -⟩ := Request.alike (Alike.serve hagrees.alike requests time) request
  exact ⟨hsame, hequal⟩

theorem confined_beside_x :
    let beside := (newDirectory [114]).bind [[120]] (.directory directoryMode)
    let requests :=
      [(0, .write (.save "../x" [.chunk [1]] 1)), (0, .write (.save "x" [.chunk [1]] 1))]
    ((atTop [114]).serve (.ofFileSystem beside) requests).fs.item? [[120]] =
        some (.directory directoryMode) ∧
      (atTop [114]).reply (.ofFileSystem (newDirectory [114])) requests 0 (.list "" "") =
        (atTop [114]).reply (.ofFileSystem beside) requests 0 (.list "" "") ∧
      ((atTop [114]).reply (.ofFileSystem beside) requests 0 (.list "" "")).toOption =
        some (.listing [⟨"x", 1⟩]) := by
  intro beside requests
  have hleft := tidy_atTop isEntryName_r
  have hname : IsEntryName [120] := isEntryName_letter (by decide)
  have hgrown : Grown (newDirectory [114]) beside :=
    @Grown.bind _ hleft.wellFormed [] _ _ rfl hname rfl
  have hright : (atTop [114]).Tidy beside [[114]] :=
    (hleft.grounded.of_grown hgrown).tidy (hleft.leadsTo.of_keeps hgrown.keepsPaths)
  have hagrees : (atTop [114]).Agrees [[114]] beside (newDirectory [114]) := by
    refine ⟨hright, hleft, ⟨_, hleft.leadsTo, hgrown.keepsPaths, KeepsPaths.refl _⟩, ?_⟩
    intro names
    rw [item?_bind (by simp), if_neg (by simp)]
  obtain ⟨houtside, -, hreplies⟩ := confined (w := .ofFileSystem beside) hright requests
  refine ⟨houtside [[120]] (by simp), ?_, by decide +kernel⟩
  exact (hreplies (.ofFileSystem (newDirectory [114])) hagrees 0 (.list "" "")).2 rfl

end Store

end Depot
