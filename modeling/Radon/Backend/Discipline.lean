import Radon.Backend.Operation
import Radon.Concurrency.Protocol

/-!
# The discipline of the goroutines

Which goroutine may perform which operation, and when. The rules are those the source follows: a
transaction is used by the goroutine that created it and by those it forks, until that goroutine
calls `Finish`; `Abort` may come from anywhere but works under the transaction's mutex; a decision
is taken once, under the commit lock; a connection is stored by the goroutine that fetched it.

`Wf` is what holds of every reachable world, `Guar` is what an operation leaves alone, and `Keeps` is
what a goroutine can count on while others run.
-/

namespace Radon

open Concurrency

/-- The goroutine works for the owner of the transaction. -/
def Txn.ServedBy (txn : Txn) (g : Goroutine) : Prop := ∃ o, txn.owner = some o ∧ o <:+ g

/-- The goroutine is the owner's, or runs one side of the owner's plan. -/
def Txn.PlannedBy (txn : Txn) (g : Goroutine) : Prop :=
  ∃ o sides, txn.owner = some o ∧ g = sides ++ o ∧ ∀ f ∈ sides, f = .left ∨ f = .right

/-- The connection has a place in the transaction. -/
def Txn.Places (txn : Txn) (c : Conn) : Prop :=
  (∃ h, (c, h) ∈ txn.inHand) ∨ (∃ b, txn.twopcConnections b = some c) ∨
    c ∈ txn.normalConnections ∨ c ∈ txn.replicaConnections

/-- A command was sent to a backend. -/
def Sent (query : Query) (b : Backend) (log : List Event) : Prop :=
  ∃ call rep i acked applied, Event.query call ⟨⟨b, rep⟩, i⟩ query acked applied ∈ log

/-- A command was acknowledged by the server of a pool. -/
def AckedBy (query : Query) (p : PoolRef) (log : List Event) : Prop :=
  ∃ call i applied, Event.query call ⟨p, i⟩ query true applied ∈ log

/-- A command was acknowledged by a backend. -/
def Acked (query : Query) (b : Backend) (log : List Event) : Prop :=
  ∃ call rep i applied, Event.query call ⟨⟨b, rep⟩, i⟩ query true applied ∈ log

/-- Whether an event is a command to a backend, with or without its acknowledgement. -/
def Event.isQuery (q : Query) (b : Backend) : Event → Bool
  | .query _ c q' _ _ => q' = q ∧ c.pool.backend = b
  | _ => false

theorem sent_iff {q : Query} {b : Backend} {log : List Event} : Sent q b log ↔ log.any (Event.isQuery q b) = true := by
  rw [List.any_eq_true]
  constructor
  · grind [Sent, Event.isQuery]
  · rintro ⟨e, hmem, he⟩
    cases e with
    | query call c q' acked applied =>
      obtain ⟨⟨b', rep⟩, i⟩ := c
      grind [Sent, Event.isQuery]
    | _ => cases he

instance {q : Query} {b : Backend} {log : List Event} : Decidable (Sent q b log) :=
  decidable_of_iff _ sent_iff.symm

/-- The owner wrote over the state of an abort. -/
def Overwritten (t : TxnId) (log : List Event) : Prop :=
  ∃ s, s ≠ .aborting ∧ Event.stateSet t .aborting s ∈ log

/-- The connections of the transaction and an abort got in each other's way: an abort came while one
was on its way into the transaction or after another abort, one moved after the abort, one was
stored over another, a kill failed, or a deadline killed one. -/
def Disturbed (t : TxnId) (log : List Event) : Prop :=
  Overwritten t log ∨ (∃ s, s ≠ .finshing ∧ Event.abortSees t s false ∈ log) ∨
    Event.connMove t true ∈ log ∨ (∃ b, Event.overwrite t b ∈ log) ∨ Event.killFailed t ∈ log ∨
    Event.deadline t ∈ log

/-- How often a connection was released. -/
def World.released (w : World) (c : Conn) : ℕ := (w.conn c).released

/-- A well-formed transaction record. -/
structure TxnWf (t : TxnId) (txn : Txn) : Prop where
  owned : txn.added = true → txn.owner ≠ none
  xid_id : ∀ x, txn.xid = some x → x.id = t
  parts_mem : ∀ b ∈ txn.parts, b ∈ txn.backends.names
  mu_finish : ∀ h, txn.mu = some (.finish h) → txn.owner = some h ∧ txn.stage = .ended
  finshing : txn.state = .finshing → txn.stage = .ended
  aborting : txn.state = .aborting → 0 < txn.aborts
  twopc_pool : ∀ b c, txn.twopcConnections b = some c → c.pool = ⟨b, false⟩ ∧ b ∈ txn.backends.names
  normal_pool : ∀ c ∈ txn.normalConnections, c.pool.replica = false
  replica_pool : ∀ c ∈ txn.replicaConnections, c.pool.replica = true
  normal_nodup : txn.normalConnections.Nodup
  replica_nodup : txn.replicaConnections.Nodup
  twopc_normal : ∀ b c, txn.twopcConnections b = some c → c ∉ txn.normalConnections
  hand_free : ∀ c h, (c, h) ∈ txn.inHand →
    (∀ b, txn.twopcConnections b ≠ some c) ∧ c ∉ txn.normalConnections ∧ c ∉ txn.replicaConnections
  hand_nodup : (txn.inHand.map Prod.fst).Nodup
  hand_served : ∀ c h, (c, h) ∈ txn.inHand → txn.ServedBy h

/-- Whoever is past the check of `Finish` or `Abort` has left its mark on the state, unless the owner
wrote over it. -/
def Marked (t : TxnId) (txn : Txn) (log : List Event) : Prop :=
  ∀ h, txn.mu = some (.finish h) ∨ txn.mu = some (.abort h) → txn.progress ≠ .entered →
    Txn.ending txn.state = true ∨ Overwritten t log

/-- The records, the connections, the sessions and the locks agree. -/
structure Consistent (w : World) : Prop where
  txn : ∀ t, TxnWf t (w.txns t)
  marked : ∀ t, Marked t (w.txns t) w.log
  unborn : ∀ t, w.txnid < t → w.txns t = {}
  issued : ∀ p i, (w.servers p).issued ≤ i → (w.servers p).conns i = {}
  placed : ∀ t c, (w.txns t).Places c → (w.conn c).holder = some t
  holder_le : ∀ c t, (w.conn c).holder = some t → t ≤ w.txnid
  unreleased : ∀ t, ¬ Disturbed t w.log → Txn.ending (w.txns t).state = false →
    ∀ c, (w.conn c).holder = some t →
      ((w.txns t).Places c → w.released c = 0) ∧ (¬ (w.txns t).Places c → w.released c = 1)
  slot : ∀ sid t, (w.sessions sid).transaction = some t → (w.txns t).added = true
  retrys : ∀ e ∈ w.retrys, Event.logged e.xaid e.state ∈ w.log
  lock : w.commitLock.writer ≠ none → w.commitLock.readers = []

/-- A well-formed world: it is consistent, and only backends that were asked have prepared. -/
structure Wf (w : World) : Prop extends Consistent w where
  asked : ∀ x b, Sent (.xaPrepare x) b w.log → b ∈ (w.txns x.id).voted

/-- When a goroutine may send `XA PREPARE`: it is the one of the backend, which the owner has asked. -/
structure VoteAllowed (g : Goroutine) (txn : Txn) (c : Conn) (x : Xid) : Prop where
  xid : txn.xid = some x
  stage : txn.stage = .opened
  asked : c.pool.backend ∈ txn.voted
  primary : c.pool.replica = false
  shard : ∃ o, txn.owner = some o ∧ g = .shard c.pool.backend :: o

/-- The commands a transaction may send in the stage it has reached. Only the retry loop sends a
decision without taking it. -/
def QueryAllowed (g : Goroutine) (w : World) (t : TxnId) (c : Conn) : Query → Prop
  | .xaStart x =>
    (w.txns t).xid = some x ∧ (w.txns t).stage = .opened ∧ c.pool.backend ∈ (w.txns t).parts
  | .xaEnd _ => (w.txns t).stage = .opened
  | .xaPrepare x => VoteAllowed g (w.txns t) c x
  | .xaCommit x =>
    ((w.txns t).xid = some x ∧ (w.txns t).stage = .decided .commit ∧ w.commitLock.writer = some t) ∨
      Event.logged x .commit ∈ w.log
  | .xaRollback x =>
    ((w.txns t).xid = some x ∧ (w.txns t).stage = .decided .rollback ∧ w.commitLock.writer = some t) ∨
      Event.logged x .rollback ∈ w.log
  | .xaRecover => True
  | .sql _ => True

/-- The assignments a goroutine may make. -/
def WriteAllowed (g : Goroutine) (t : TxnId) (txn : Txn) : TxnWrite → Prop
  | .xid x parts => txn.owner = some g ∧ txn.stage = .opened ∧ x.id = t ∧
      ∀ b ∈ parts, b ∈ txn.backends.names
  | .req r => txn.PlannedBy g ∧ (r.txnMode = .txnWrite → txn.owner = some g)
  | .twopc _ => txn.ServedBy g ∨ txn.mu = some (.abort g)
  | .isMultiStmtTxn _ => txn.ServedBy g ∨ txn.mu = some (.abort g)
  | .xaState s => txn.ServedBy g ∧ (s = .prepare → txn.owner = some g ∧ txn.stage = .opened)
  | _ => txn.ServedBy g

/-- The state changes a goroutine may make. -/
def StateAllowed (g : Goroutine) (t : TxnId) (txn : Txn) (log : List Event) (s : TxnState) : Prop :=
  (txn.ServedBy g ∧ txn.stage ≠ .ended ∧ Txn.ending s = false) ∨
  (txn.mu = some (.finish g) ∧ txn.progress = .entered ∧ s = .finshing ∧ txn.state ≠ .aborting) ∨
  (txn.mu = some (.abort g) ∧ txn.progress = .entered ∧ s = .aborting ∧ txn.state ≠ .finshing ∧
    0 < txn.aborts ∧ (txn.state = .aborting → Event.abortSees t .aborting false ∈ log))

/-- The owner may leave the branches to themselves: `XA PREPARE` failed on some backend, or a decision is
in the retry log, or every backend that was asked to prepare has accepted a decision. -/
def Resolved (txn : Txn) (log : List Event) : Prop :=
  ∀ x, txn.xid = some x → (∃ b ∈ txn.voted, ¬ Acked (.xaPrepare x) b log) ∨
    (∃ d, Event.logged x d ∈ log) ∨ ∃ d : Decision, ∀ b ∈ txn.voted, AckedBy (d.query x) ⟨b, false⟩ log

/-- When a goroutine may take a transaction's mutex. -/
def LockAllowed (g : Goroutine) (txn : Txn) (log : List Event) : MuHolder → Prop
  | .execute h => h = g ∧ txn.ServedBy g
  | .finish h => h = g ∧ txn.owner = some g ∧ txn.stage ≠ .ended ∧ Resolved txn log
  | .abort h => h = g ∧ txn.added = true

/-- When a goroutine may give a transaction's mutex back. -/
def UnlockAllowed (g : Goroutine) (txn : Txn) : Prop :=
  txn.mu = some (.execute g) ∨
  (txn.mu = some (.finish g) ∧
    (txn.progress = .removed ∨ txn.progress = .entered ∧ txn.state = .aborting)) ∨
  (txn.mu = some (.abort g) ∧
    (txn.progress = .removed ∨ txn.progress = .entered ∧ txn.state = .finshing))

/-- The transaction is over and goroutine `g` releases its connections. -/
def Releasing (g : Goroutine) (txn : Txn) : Prop :=
  (txn.mu = some (.finish g) ∨ txn.mu = some (.abort g) ∧ 0 < txn.aborts) ∧ txn.progress = .claimed

/-- The owner's goroutines move connections until `Finish`. -/
def ConnAllowed (g h : Goroutine) (txn : Txn) : Prop := h = g ∧ txn.ServedBy g ∧ txn.stage ≠ .ended

/-- The operations a goroutine may perform. -/
def Allowed (g : Goroutine) (o : Op) (w : World) : Prop :=
  match o with
  | .newTxn h _ => h = g
  | .mgrAdd t => (w.txns t).owner = some g ∧ (w.txns t).added = false
  | .mgrRemove t => Releasing g (w.txns t) ∧ (w.txns t).added = true ∧
      (Disturbed t w.log ∨ ∀ c, (w.conn c).holder = some t → w.released c = 1)
  | .commitLock t d => (w.txns t).owner = some g ∧ (w.txns t).stage = .opened ∧
      (d = .commit → ∀ x, (w.txns t).xid = some x → ∀ b ∈ (w.txns t).parts, Acked (.xaPrepare x) b w.log)
  | .commitUnlock t => (w.txns t).owner = some g ∧ w.commitLock.writer = some t
  | .commitRLock h => h = g
  | .commitRUnlock call => call.go = g ∧ call ∈ w.commitLock.readers
  | .writeTxn t u => WriteAllowed g t (w.txns t) u
  | .setState t s => StateAllowed g t (w.txns t) w.log s
  | .abortCheck t => (w.txns t).mu = some (.abort g) ∧ (w.txns t).progress = .entered
  | .lockMu t who => LockAllowed g (w.txns t) w.log who
  | .unlockMu t => UnlockAllowed g (w.txns t)
  | .twopcPut t b c h => ConnAllowed g h (w.txns t) ∧ (c, h) ∈ (w.txns t).inHand ∧ c.pool = ⟨b, false⟩ ∧
      b ∈ (w.txns t).backends.names
  | .twopcDrop t _ => ConnAllowed g g (w.txns t)
  | .twopcDelete t b => Releasing g (w.txns t) ∧
      (Disturbed t w.log ∨ ∀ c, (w.txns t).twopcConnections b = some c → w.released c = 1)
  | .appendNormal t c h => ConnAllowed g h (w.txns t) ∧ (c, h) ∈ (w.txns t).inHand ∧
      c.pool.replica = false
  | .appendReplica t c h => ConnAllowed g h (w.txns t) ∧ (c, h) ∈ (w.txns t).inHand ∧
      c.pool.replica = true
  | .poolGet t _ h => ConnAllowed g h (w.txns t)
  | .close c => ∃ t, (w.conn c).holder = some t ∧ Releasing g (w.txns t) ∧
      (Disturbed t w.log ∨ w.released c = 0)
  | .recycle c => ∃ t, (w.conn c).holder = some t ∧ Releasing g (w.txns t) ∧
      (Disturbed t w.log ∨ w.released c = 0)
  | .kill t c => (w.conn c).holder = some t ∧ Releasing g (w.txns t) ∧
      (Disturbed t w.log ∨ w.released c = 0)
  | .query call c q => (∃ t, (w.conn c).holder = some t ∧ (w.txns t).ServedBy g ∧
      (w.txns t).stage ≠ .ended ∧ QueryAllowed g w t c q) ∧
      ∀ r, call = some r → r ∈ w.commitLock.readers ∧ r.go <:+ g
  | .deadline t c => (w.conn c).holder = some t
  | .xcAdd x d => ∃ t, (w.txns t).owner = some g ∧ (w.txns t).xid = some x ∧
      (w.txns t).stage = .decided d
  | .writeSession sid u => g = [.task sid] ∧
      ∀ t, u = .transaction (some t) → (w.txns t).added = true
  | .addSession sid => g = [.task sid]
  | _ => True

/-- What stays in a transaction record for the owner, if it is `near`, and for the goroutines that are `mine`.
`disturbed` stands for the disturbance of its connections. -/
structure TxnFrame (near mine : Goroutine → Prop) (disturbed : Prop) (txn txn' : Txn) : Prop where
  added : txn.added = true → txn'.added = true
  born : ∀ o, txn.owner = some o → txn'.owner = some o ∧ txn'.backends = txn.backends
  registered : ∀ o, txn.owner = some o → near o → txn'.added = txn.added
  owned : ∀ o, txn.owner = some o → near o →
    txn'.stage = txn.stage ∧ txn'.xid = txn.xid ∧ txn'.parts = txn.parts
  voted : ∀ o, txn.owner = some o → near o → txn'.voted = txn.voted
  hand : ∀ c k, mine k → ((c, k) ∈ txn'.inHand ↔ (c, k) ∈ txn.inHand)
  executing : ∀ k, txn.mu = some (.execute k) → mine k → txn'.mu = txn.mu
  holding : ∀ k, txn.mu = some (.finish k) ∨ txn.mu = some (.abort k) → mine k →
    txn'.mu = txn.mu ∧ txn'.progress = txn.progress ∧ txn'.aborts = txn.aborts ∧
      (txn'.state = .finshing ↔ txn.state = .finshing) ∧ (txn'.state = .aborting → txn.state = .aborting)
  finishing : ∀ k, txn.mu = some (.finish k) → mine k → txn'.state = txn.state
  still : ∀ k, txn.mu = some (.finish k) ∨ txn.mu = some (.abort k) ∧ 0 < txn.aborts → mine k →
    disturbed ∨ (txn'.twopcConnections = txn.twopcConnections ∧
      txn'.normalConnections = txn.normalConnections ∧
      txn'.replicaConnections = txn.replicaConnections ∧ txn'.inHand = txn.inHand)

/-- What stays around the transaction records. -/
structure Frame (near mine : Goroutine → Prop) (w w' : World) : Prop where
  log : w.log <:+ w'.log
  holder : ∀ c t, (w.conn c).holder = some t → (w'.conn c).holder = some t
  conns : ∀ t k, (w.txns t).mu = some (.finish k) ∨
      (w.txns t).mu = some (.abort k) ∧ 0 < (w.txns t).aborts → mine k →
    Disturbed t w'.log ∨ ∀ c, (w'.conn c).holder = some t →
      (w.conn c).holder = some t ∧ w'.released c = w.released c
  readers : ∀ r ∈ w.commitLock.readers, near r.go → r ∈ w'.commitLock.readers
  writer : ∀ t o, w.commitLock.writer = some t → (w.txns t).owner = some o → near o →
    w'.commitLock.writer = some t
  slot : ∀ sid, mine [.task sid] → (w'.sessions sid).transaction = (w.sessions sid).transaction ∧
    ((w'.sessions sid).listed = true → (w.sessions sid).listed = true)

/-- What an operation of goroutine `h` leaves alone in a transaction record. -/
structure TxnGuar (h : Goroutine) (disturbed : Prop) (txn txn' : Txn) : Prop
    extends TxnFrame (· ≠ h) (· ≠ h) disturbed txn txn' where
  req : ∀ o, txn.owner = some o → o ≠ h → txn'.req = txn.req ∨
    txn.PlannedBy h ∧ ∀ r, txn'.req = some r → r.txnMode ≠ .txnWrite

/-- What an operation of goroutine `h` leaves alone. -/
structure Guar (h : Goroutine) (w w' : World) : Prop extends Frame (· ≠ h) (· ≠ h) w w' where
  txns : ∀ t, TxnGuar h (Disturbed t w'.log) (w.txns t) (w'.txns t)

/-- One of the goroutines has started the other. -/
def Related (g o : Goroutine) : Prop := o <:+ g ∨ g <:+ o

/-- What goroutine `g` can count on about a transaction record while others run. -/
structure TxnKeeps (g : Goroutine) (disturbed : Prop) (txn txn' : Txn) : Prop
    extends TxnFrame (Related g) (g <:+ ·) disturbed txn txn' where
  req : ∀ o, txn.owner = some o → g <:+ o → txn'.req = txn.req

/-- What goroutine `g` can count on while others run. -/
structure Keeps (g : Goroutine) (w w' : World) : Prop extends Frame (Related g) (g <:+ ·) w w' where
  txns : ∀ t, TxnKeeps g (Disturbed t w'.log) (w.txns t) (w'.txns t)
  prepares : ∀ x b o, (w.txns x.id).owner = some o → Related g (.shard b :: o) →
    ∀ e ∈ w'.log, e.isQuery (.xaPrepare x) b = true → e ∈ w.log

end Radon
