import Depot.Proofs.Pairs
import Depot.Proofs.Store.ObjectMap
/-!
# Requests look at the file system only

What a store does depends on the file system and its clock, and on nothing else in the world: not on
what was reported before, and not on the states that the file system went through.

* `beginWriting_blind`, `Writing.receiveAll_blind`, `Writing.publish_blind` — the parts of a write;
* `Store.Request.perform_blind` — whole requests.
-/

namespace Depot

theorem makePending_blind (pending : List Pathname) : (makePending pending).IsBlind := by
  induction pending with
  | nil => exact Op.IsBlind.pure ()
  | cons p rest ih =>
      rw [makePending]
      refine Op.IsBlind.bind (Op.IsBlind.attempt (Op.IsBlind.change_ _)) fun result => ?_
      cases result with
      | ok u => exact ih
      | error e =>
          refine Op.IsBlind.get fun w w' hw => ?_
          rw [hw]
          split
          · exact ih _
          · exact Op.IsBlind.throw e _

theorem makeFrom_blind (pending above : List Pathname) : (makeFrom pending above).IsBlind := by
  induction above generalizing pending with
  | nil => exact makePending_blind pending
  | cons p rest ih =>
      rw [makeFrom]
      split
      · exact makePending_blind pending
      refine Op.IsBlind.bind (Op.IsBlind.attempt (Op.IsBlind.change_ _)) fun result => ?_
      cases result with
      | ok u => exact makePending_blind pending
      | error e =>
          dsimp only
          split
          · exact ih (p :: pending)
          refine Op.IsBlind.get fun w w' hw => ?_
          rw [hw]
          split
          · exact makePending_blind pending _
          · exact Op.IsBlind.throw e _

theorem removeTree_blind (p : Pathname) : (removeTree p).IsBlind := by
  rw [removeTree]
  refine Op.IsBlind.bind (Op.IsBlind.change_ _) fun _ => ?_
  refine Op.IsBlind.bind (Op.IsBlind.attempt (Op.IsBlind.change_ _)) fun result => ?_
  cases result with
  | ok u => exact Op.IsBlind.pure ()
  | error e =>
      dsimp only
      split
      · exact Op.IsBlind.pure ()
      · exact Op.IsBlind.throw e

theorem discard_blind (staging : Pathname) : (discard staging).IsBlind := by
  rw [discard]
  refine Op.IsBlind.bind (Op.IsBlind.attempt (Op.IsBlind.change_ _)) fun result => ?_
  cases result with
  | ok u => exact Op.IsBlind.report _
  | error e =>
      dsimp only
      split
      · exact Op.IsBlind.pure ()
      · exact Op.IsBlind.report _

theorem discarding_blind {α : Type} (target : Pathname) {op : Op StorageError α}
    (h : op.IsBlind) : (discarding target op).IsBlind := by
  rw [discarding]
  refine Op.IsBlind.bind (Op.IsBlind.attempt h) fun result => ?_
  cases result with
  | ok a => exact Op.IsBlind.pure a
  | error e => exact Op.IsBlind.bind (discard_blind _) fun _ => Op.IsBlind.throw e

theorem createStaging_blind (target : Pathname) : (createStaging target).IsBlind :=
  Op.IsBlind.bind (Op.IsBlind.mapError _ (Op.IsBlind.change _)) fun _ =>
    Op.IsBlind.bind (Op.IsBlind.mapError _ (Op.IsBlind.change_ _)) fun _ => Op.IsBlind.pure _

theorem openStaging_blind (target : Pathname) : (openStaging target).IsBlind := by
  rw [openStaging]
  cases (stagingPath target).parent? with
  | none => exact createStaging_blind target
  | some parent =>
      exact Op.IsBlind.bind (Op.IsBlind.mapError _ (makeFrom_blind _ _)) fun _ =>
        createStaging_blind target

theorem beginWriting_blind (target : Pathname) : (beginWriting target).IsBlind :=
  discarding_blind target (openStaging_blind target)

namespace Writing

theorem append_blind (w : Writing) (data : Bytes) : (w.append data).IsBlind :=
  Op.IsBlind.bind (Op.IsBlind.change_ _) fun _ => Op.IsBlind.pure _

theorem abort_blind (w : Writing) (e : IoError) : (w.abort e).IsBlind :=
  discarding_blind _ (Op.IsBlind.throw _)

theorem publish_blind (w : Writing) : w.publish.IsBlind := by
  refine Op.IsBlind.bind (discarding_blind _ ?_) fun _ =>
    Op.IsBlind.bind (Op.IsBlind.report _) fun _ => Op.IsBlind.pure _
  exact Op.IsBlind.bind (Op.IsBlind.mapError _ (Op.IsBlind.query _)) fun _ =>
    Op.IsBlind.mapError _ (Op.IsBlind.change_ _)

theorem receive_blind (w : Writing) (d : Delivery) : (w.receive d).IsBlind := by
  cases d with
  | chunk data =>
      cases data with
      | nil => exact Op.IsBlind.pure _
      | cons b data => exact (append_blind w (b :: data)).map
  | fault e =>
      rw [receive]
      split
      · exact Op.IsBlind.pure _
      · exact (abort_blind w e).map

theorem receiveAll_blind (w : Writing) (source : List Delivery) :
    (w.receiveAll source).IsBlind := by
  induction source generalizing w with
  | nil => exact Op.IsBlind.pure w
  | cons d rest ih =>
      rw [receiveAll]
      refine Op.IsBlind.bind (receive_blind w d) fun received => ?_
      cases received with
      | more w => exact ih w
      | ended w => exact Op.IsBlind.pure w

end Writing

namespace Store

theorem reportSize_blind (name : String) (expected written : Nat) :
    (reportSize name expected written).IsBlind := by
  rw [reportSize]
  split
  · exact Op.IsBlind.report _
  · exact Op.IsBlind.pure _

theorem save_blind (s : Store) (name : String) (source : List Delivery) (expected : Nat) :
    (s.save name source expected).IsBlind := by
  rw [save, saveFrom, beginSave]
  refine Op.IsBlind.bind (Op.IsBlind.bind (Op.IsBlind.lift _) beginWriting_blind) fun w => ?_
  refine Op.IsBlind.get fun world world' hfs => ?_
  rw [hfs]
  refine Op.IsBlind.bind (Writing.receiveAll_blind w source) (fun w => ?_) _
  exact Op.IsBlind.bind (Writing.publish_blind w) fun _ => reportSize_blind _ _ _

theorem openObject_blind (path : Pathname) (doing : String) : (openObject path doing).IsBlind :=
  Op.IsBlind.mapError _ (Op.IsBlind.query _)

theorem copy_blind (s : Store) (src dst : String) : (s.copy src dst).IsBlind := by
  rw [copy]
  refine Op.IsBlind.bind (Op.IsBlind.lift _) fun source => ?_
  refine Op.IsBlind.bind (Op.IsBlind.lift _) fun target => ?_
  refine Op.IsBlind.bind (openObject_blind _ _) fun handle => ?_
  refine Op.IsBlind.bind ?_ fun _ => Op.IsBlind.report _
  rw [stageAndPublish]
  refine Op.IsBlind.bind (beginWriting_blind target) fun w => ?_
  refine Op.IsBlind.get fun world world' hfs => ?_
  rw [hfs]
  exact Op.IsBlind.bind (Writing.receiveAll_blind w _) Writing.publish_blind _

theorem readWhole_blind (s : Store) (name : String) : (s.readWhole name).IsBlind := by
  rw [readWhole, openReader]
  refine Op.IsBlind.bind (Op.IsBlind.bind (Op.IsBlind.lift _) fun path =>
    Op.IsBlind.bind (openObject_blind _ _) fun handle => Op.IsBlind.pure _) fun reader => ?_
  exact Op.IsBlind.bind (Op.IsBlind.mapError _ (Op.IsBlind.query _)) fun _ => Op.IsBlind.pure _

theorem stat_blind (s : Store) (name : String) : (s.stat name).IsBlind := by
  rw [Store.stat]
  refine Op.IsBlind.bind (Op.IsBlind.lift _) fun path => ?_
  refine Op.IsBlind.get fun world world' hfs => ?_
  rw [hfs]
  split
  · split
    · exact Op.IsBlind.throw _ _
    · exact Op.IsBlind.throw _ _
  · split
    · exact Op.IsBlind.throw _ _
    · refine Op.IsBlind.get (fun world world' hfs => ?_) _
      rw [hfs]
      split
      · exact Op.IsBlind.throw _ _
      · exact Op.IsBlind.pure _ _

theorem delete_blind (s : Store) (name : String) : (s.delete name).IsBlind := by
  rw [delete]
  refine Op.IsBlind.bind (Op.IsBlind.lift _) fun path => ?_
  refine Op.IsBlind.bind (Op.IsBlind.mapError _ (Op.IsBlind.query _)) fun entry => ?_
  refine Op.IsBlind.bind (Op.IsBlind.mapError _ ?_) fun _ => Op.IsBlind.report _
  split
  · exact removeTree_blind path
  · exact Op.IsBlind.change_ _

theorem collect_blind (base : Pathname) (ending : String) (entries : List (Position × Entry)) :
    (collect base ending entries).IsBlind := by
  induction entries with
  | nil => exact Op.IsBlind.pure _
  | cons found rest ih =>
      rw [collect]
      refine Op.IsBlind.get fun world world' hfs => ?_
      rw [hfs]
      split
      · exact Op.IsBlind.bind ih (fun _ => Op.IsBlind.pure _) _
      · exact ih _
      · exact Op.IsBlind.throw _ _
      · exact Op.IsBlind.bind (Op.IsBlind.report _) (fun _ => ih) _

theorem list_blind (s : Store) (beginning ending : String) : (s.list beginning ending).IsBlind := by
  rw [list]
  refine Op.IsBlind.bind (Op.IsBlind.lift _) fun base => ?_
  refine Op.IsBlind.get fun world world' hfs => ?_
  rw [hfs]
  split
  · exact collect_blind base ending _ _
  · split
    · exact Op.IsBlind.pure _ _
    · exact Op.IsBlind.throw _ _

theorem removeStale_blind (stale : List (Pathname × Position)) : (removeStale stale).IsBlind := by
  induction stale with
  | nil => exact Op.IsBlind.pure _
  | cons first rest ih =>
      rw [removeStale]
      split
      · exact Op.IsBlind.bind (Op.IsBlind.change_ _) fun _ =>
          Op.IsBlind.bind ih fun _ => Op.IsBlind.pure _
      · exact Op.IsBlind.bind (Op.IsBlind.report _) fun _ =>
          Op.IsBlind.bind ih fun _ => Op.IsBlind.pure _

theorem purge_blind (s : Store) (maxAge : Nat) : (s.purge maxAge).IsBlind := by
  rw [Store.purge]
  refine Op.IsBlind.get fun world world' hfs => ?_
  rw [hfs]
  refine Op.IsBlind.bind (removeStale_blind _) (fun report => ?_) _
  split
  · exact Op.IsBlind.bind (Op.IsBlind.report _) fun _ => Op.IsBlind.pure _
  · exact Op.IsBlind.pure _

/-- A request has the same reply, and leaves the same file system, in all worlds that have the same
file system. -/
theorem Request.perform_blind (s : Store) (request : Request) : (request.perform s).IsBlind := by
  cases request with
  | write call =>
      cases call with
      | save name source expected => exact (save_blind s name source expected).map
      | copy src dst => exact (copy_blind s src dst).map
  | delete name => exact (delete_blind s name).map
  | read name => exact (readWhole_blind s name).map
  | stat name => exact (stat_blind s name).map
  | list beginning ending => exact (list_blind s beginning ending).map
  | purge maxAge => exact (purge_blind s maxAge).map

end Store

end Depot
