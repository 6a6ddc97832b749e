import Radon.Backend.World

/-!
# The atomic operations of a Radon process

`Op` lists the accesses that the source performs atomically: an atomic word, a block under a
mutex, one command on a connection. `exec` gives their effect on the world. The environment
decides through a `Choice` how a command fails, what a pool returns, what a clock shows and
what a part of the program outside this model answers. A mutex that is held blocks.

The goroutine arguments and the decision of the commit lock are history.
-/

namespace Radon

open Concurrency Function

/-- What the environment decides for one operation. -/
structure Choice where
  fault : Option Fault := none
  pick : ℕ := 0
  now : Stamp := .origin

/-- An assignment to one field of a transaction. `xid` also records the backends the branches of the
new xid will be opened on, and `xaState` the backends that are asked to prepare. -/
inductive TxnWrite
  | xaState (s : TxnXAState)
  | xid (x : Xid) (parts : List Backend)
  | sessionID (sid : SessionId)
  | req (r : RequestContext)
  | twopc (b : Bool)
  | isExecOnRep (b : Bool)
  | isMultiStmtTxn (b : Bool)
  | incErrors

/-- A change of a session under its mutex. -/
inductive SessionWrite
  | transaction (t : Option TxnId)
  | streamingFetch (b : Bool)

/-- The atomic accesses of the source. -/
inductive Op
  | newTxn (g : Goroutine) (backends : Backends)
  | mgrAdd (t : TxnId)
  | mgrRemove (t : TxnId)
  | scatterBackends
  | twopcEnable
  | commitLock (t : TxnId) (d : Decision)
  | commitUnlock (t : TxnId)
  | commitRLock (g : Goroutine)
  | commitRUnlock (call : Call)
  | readTxn (t : TxnId)
  | writeTxn (t : TxnId) (u : TxnWrite)
  | setState (t : TxnId) (s : TxnState)
  | abortCheck (t : TxnId)
  | lockMu (t : TxnId) (who : MuHolder)
  | unlockMu (t : TxnId)
  | twopcGet (t : TxnId) (b : Backend)
  | twopcPut (t : TxnId) (b : Backend) (c : Conn) (g : Goroutine)
  | twopcDrop (t : TxnId) (b : Backend)
  | twopcDelete (t : TxnId) (b : Backend)
  | twopcNext (t : TxnId) (start visited : List Backend)
  | appendNormal (t : TxnId) (c : Conn) (g : Goroutine)
  | appendReplica (t : TxnId) (c : Conn) (g : Goroutine)
  | poolGet (t : TxnId) (p : PoolRef) (g : Goroutine)
  | close (c : Conn)
  | recycle (c : Conn)
  | kill (t : TxnId) (c : Conn)
  | query (call : Option Call) (c : Conn) (q : Query)
  | deadline (t : TxnId) (c : Conn)
  | xcLock
  | xcUnlock
  | xcRetrys
  | xcAdd (x : Xid) (state : Decision)
  | xcDelete (x : Xid)
  | xcDecTimes (x : Xid)
  | xcTimedOut (x : Xid)
  | sessionListed (sid : SessionId)
  | readSession (sid : SessionId)
  | writeSession (sid : SessionId) (u : SessionWrite)
  | addSession (sid : SessionId)
  | removeSession (sid : SessionId)
  | now
  | choose
  | panic

/-- The reply of each access. -/
abbrev Op.Res : Op → Type
  | .newTxn _ _ => TxnId
  | .scatterBackends => Backends
  | .twopcEnable => Bool
  | .commitRLock _ => Call
  | .readTxn _ => Txn
  | .abortCheck _ => TxnState
  | .twopcGet _ _ => Option Conn
  | .twopcNext _ _ _ => Option (Backend × Conn)
  | .poolGet _ _ _ => Except Err Conn
  | .query _ _ _ => Except Err Result
  | .xcRetrys => List XaCommitErr
  | .xcAdd _ _ => Option Err
  | .sessionListed _ => Bool
  | .readSession _ => Session
  | .removeSession _ => Bool
  | .now => Stamp
  | .choose => ℕ
  | .panic => Empty
  | _ => Unit

/-- The effect of an assignment. -/
def TxnWrite.apply : TxnWrite → Txn → Txn
  | .xaState s, txn =>
    { txn with
      xaState := s
      voted := if s = .prepare then txn.voted ++ xaTargets txn.req txn.backends else txn.voted }
  | .xid x parts, txn => { txn with xid := some x, parts := txn.parts ++ parts }
  | .sessionID sid, txn => { txn with sessionID := sid }
  | .req r, txn => { txn with req := some r }
  | .twopc b, txn => { txn with twopc := b }
  | .isExecOnRep b, txn => { txn with isExecOnRep := b }
  | .isMultiStmtTxn b, txn => { txn with isMultiStmtTxn := b }
  | .incErrors, txn => { txn with errors := txn.errors + 1 }

/-- The effect of a session change. -/
def SessionWrite.apply : SessionWrite → Session → Session
  | .transaction t, s => { s with transaction := t }
  | .streamingFetch b, s => { s with streamingFetch := b }

namespace Txn

/-- The transaction's mutex is taken. `Finish` ends the owner's use of the transaction. -/
def lock (txn : Txn) (who : MuHolder) : Txn :=
  match who with
  | .execute _ => { txn with mu := some who }
  | .finish _ => { txn with mu := some who, progress := .entered, stage := .ended }
  | .abort _ => { txn with mu := some who, progress := .entered }

/-- The transaction's mutex is released. -/
def unlock (txn : Txn) : Txn :=
  match txn.mu with
  | some (.finish _) => { txn with mu := none, finished := true }
  | some (.abort _) => { txn with mu := none, aborted := true }
  | _ => { txn with mu := none }

/-- Whether a state ends the transaction. -/
def ending (s : TxnState) : Bool := s = .finshing ∨ s = .aborting

theorem ending_iff {s : TxnState} : ending s = true ↔ s = .finshing ∨ s = .aborting := by
  simp [ending]

/-- `state.Set`. -/
def setState (txn : Txn) (s : TxnState) : Txn :=
  { txn with state := s, progress := if ending s then .claimed else txn.progress }

/-- `Abort` finds no connection on its way into the transaction and no earlier abort. -/
def clean (txn : Txn) : Bool := txn.inHand.isEmpty && txn.aborts == 0

/-- `Abort` looks at the state. -/
def abortCheck (txn : Txn) : Txn :=
  { txn with aborts := if txn.state = .finshing then txn.aborts else txn.aborts + 1 }

/-- The manager is told that the transaction is over. -/
def remove (txn : Txn) : Txn := { txn with removed := txn.removed + 1, progress := .removed }

/-- A connection fetched by `g` enters the two-phase map. -/
def putTwopc (txn : Txn) (b : Backend) (c : Conn) (g : Goroutine) : Txn :=
  { txn with
    twopcConnections := Function.update txn.twopcConnections b (some c)
    inHand := txn.inHand.erase (c, g) }

@[simp] theorem putTwopc_self (txn : Txn) (b : Backend) (c : Conn) (g : Goroutine) :
    (txn.putTwopc b c g).twopcConnections b = some c := update_self _ _ _

@[simp] theorem putTwopc_of_ne (txn : Txn) {b b' : Backend} (h : b' ≠ b) (c : Conn) (g : Goroutine) :
    (txn.putTwopc b c g).twopcConnections b' = txn.twopcConnections b' := update_of_ne h _ _

/-- An entry leaves the two-phase map. -/
def deleteTwopc (txn : Txn) (b : Backend) : Txn :=
  { txn with twopcConnections := Function.update txn.twopcConnections b none }

@[simp] theorem deleteTwopc_self (txn : Txn) (b : Backend) :
    (txn.deleteTwopc b).twopcConnections b = none := update_self _ _ _

@[simp] theorem deleteTwopc_of_ne (txn : Txn) {b b' : Backend} (h : b' ≠ b) :
    (txn.deleteTwopc b).twopcConnections b' = txn.twopcConnections b' := update_of_ne h _ _

/-- A connection fetched by `g` enters the normal list. -/
def appendNormal (txn : Txn) (c : Conn) (g : Goroutine) : Txn :=
  { txn with
    normalConnections := txn.normalConnections ++ [c]
    inHand := txn.inHand.erase (c, g) }

/-- A connection fetched by `g` enters the replica list. -/
def appendReplica (txn : Txn) (c : Conn) (g : Goroutine) : Txn :=
  { txn with
    replicaConnections := txn.replicaConnections ++ [c]
    inHand := txn.inHand.erase (c, g) }

/-- A connection is fetched by `g`. -/
def take (txn : Txn) (c : Conn) (g : Goroutine) : Txn :=
  { txn with inHand := (c, g) :: txn.inHand }

end Txn

namespace World

/-- Whether the server accepts the command on this connection. -/
def accepts (w : World) (c : Conn) (q : Query) : Bool :=
  match ((w.servers c.pool).run c.index q).1 with
  | .ok _ => true
  | .error _ => false

/-- One command on a connection. A fault needs an environment that is not healthy. -/
def runQuery (w : World) (call : Option Call) (c : Conn) (q : Query) (choice : Choice) :
    Option (Except Err Result × World) :=
  if (w.conn c).live then
    match choice.fault with
    | none =>
      some (((w.servers c.pool).run c.index q).1.mapError Err.sql,
        (w.updServer c.pool fun s => (s.run c.index q).2).emit
          (.query call c q (w.accepts c q) (w.accepts c q)))
    | some f =>
      if w.healthy then none
      else
        some (.error (.sql f.num), (w.updServer c.pool fun s => s.runFault c.index q f).emit
          (.query call c q false (f.applied && w.accepts c q)))
  else
    some (.error (.text "Server maybe lost, please try again"), w.emit (.query call c q false false))

/-- The next entry of an iteration over the two-phase connections: any entry not visited yet, or
the end once every entry present from the start has been visited. -/
def nextTwopc (w : World) (t : TxnId) (start visited : List Backend) (choice : Choice) :
    Option (Option (Backend × Conn) × World) :=
  let names := (w.txns t).backends.names.filter fun b =>
    b ∉ visited ∧ ((w.txns t).twopcConnections b).isSome
  match names[choice.pick]? with
  | some b => some (((w.txns t).twopcConnections b).map fun c => (b, c), w)
  | none => if names.any (· ∈ start) then none else some (none, w)

/-- A connection moves between its pool and the transaction, possibly after an abort has begun. -/
def connMoved (w : World) (t : TxnId) : World := w.emit (.connMove t (0 < (w.txns t).aborts))

@[simp] theorem connMoved_txns (w : World) (t : TxnId) : (w.connMoved t).txns = w.txns := rfl

end World

/-- The effect of each access. -/
def exec : Machine Op Op.Res World Choice
  | .newTxn g backends, _, w =>
    some (w.txnid + 1, { w.updTxn (w.txnid + 1) fun _ => { backends := backends, owner := some g } with
      txnid := w.txnid + 1 })
  | .mgrAdd t, _, w =>
    some ((), { w.updTxn t fun txn => { txn with added := true } with txnNums := w.txnNums + 1 })
  | .mgrRemove t, _, w => some ((), { w.updTxn t Txn.remove with txnNums := w.txnNums - 1 })
  | .scatterBackends, _, w => some (w.scatter, w)
  | .twopcEnable, _, w => some (w.twopcEnable, w)
  | .commitLock t d, _, w =>
    if w.commitLock.writer = none ∧ w.commitLock.readers = [] then
      some ((), { w.updTxn t fun txn => { txn with stage := .decided d } with
        commitLock := ⟨some t, []⟩ })
    else none
  | .commitUnlock _, _, w => some ((), { w with commitLock := { w.commitLock with writer := none } })
  | .commitRLock g, _, w =>
    if w.commitLock.writer = none then
      some (⟨g, w.calls⟩, { w with
        calls := w.calls + 1
        commitLock := { w.commitLock with readers := ⟨g, w.calls⟩ :: w.commitLock.readers } })
    else none
  | .commitRUnlock call, _, w =>
    some ((), { w with
      commitLock := { w.commitLock with readers := w.commitLock.readers.erase call } })
  | .readTxn t, _, w => some (w.txns t, w)
  | .writeTxn t u, _, w => some ((), w.updTxn t u.apply)
  | .setState t s, _, w =>
    some ((), (w.updTxn t fun txn => txn.setState s).emit (.stateSet t (w.txns t).state s))
  | .abortCheck t, _, w =>
    some ((w.txns t).state, (w.updTxn t Txn.abortCheck).emit
      (.abortSees t (w.txns t).state (w.txns t).clean))
  | .lockMu t who, _, w =>
    if (w.txns t).mu = none then some ((), w.updTxn t fun txn => txn.lock who) else none
  | .unlockMu t, _, w => some ((), w.updTxn t Txn.unlock)
  | .twopcGet t b, _, w => some ((w.txns t).twopcConnections b, w)
  | .twopcPut t b c g, _, w =>
    let w' := if ((w.txns t).twopcConnections b).isSome then w.emit (.overwrite t b) else w
    some ((), (w'.updTxn t fun txn => txn.putTwopc b c g).connMoved t)
  | .twopcDrop t b, _, w =>
    match (w.txns t).twopcConnections b with
    | some c => some ((), ((w.closeConn c).updTxn t fun txn => txn.deleteTwopc b).connMoved t)
    | none => some ((), w)
  | .twopcDelete t b, _, w => some ((), w.updTxn t fun txn => txn.deleteTwopc b)
  | .twopcNext t start visited, choice, w => w.nextTwopc t start visited choice
  | .appendNormal t c g, _, w => some ((), (w.updTxn t fun txn => txn.appendNormal c g).connMoved t)
  | .appendReplica t c g, _, w => some ((), (w.updTxn t fun txn => txn.appendReplica c g).connMoved t)
  | .poolGet t p g, choice, w =>
    match choice.fault with
    | none =>
      let c : Conn := ⟨p, (w.servers p).issued⟩
      some (.ok c, ((w.updServer p fun s => s.issue t).updTxn t fun txn => txn.take c g).connMoved t)
    | some _ =>
      if w.healthy then none else some (.error (.text "Server maybe lost, please try again"), w)
  | .close c, _, w => some ((), w.closeConn c)
  | .recycle c, _, w => some ((), w.recycleConn c)
  | .kill t c, choice, w =>
    match choice.fault with
    | none => some ((), w.killConn c)
    | some _ => if w.healthy then none else some ((), w.emit (.killFailed t))
  | .query call c q, choice, w => w.runQuery call c q choice
  | .deadline t c, choice, w =>
    match choice.fault with
    | none => some ((), w)
    | some _ => if w.healthy then none else some ((), (w.killConn c).emit (.deadline t))
  | .xcLock, _, w => if w.xcMu then none else some ((), { w with xcMu := true })
  | .xcUnlock, _, w => some ((), { w with xcMu := false })
  | .xcRetrys, _, w => some (w.retrys, w)
  | .xcAdd x state, _, w =>
    if w.retrys.any (·.xaid = x) then
      some (some (.text ("xacheck.addXACommitErrLog.xaid[" ++ x.text ++ "].duplicate")), w)
    else
      some (none, { w with retrys := ⟨x, state, w.xaCheckRetrys⟩ :: w.retrys }.emit (.logged x state))
  | .xcDelete x, _, w => some ((), { w with retrys := w.retrys.filter (·.xaid ≠ x) })
  | .xcDecTimes x, _, w =>
    some ((), { w with
      retrys := w.retrys.map fun e => if e.xaid = x then { e with times := e.times - 1 } else e })
  | .xcTimedOut x, _, w =>
    some ((), { w with timedOut := w.timedOut ++ w.retrys.filter (·.xaid = x) })
  | .sessionListed sid, _, w => some ((w.sessions sid).listed, w)
  | .readSession sid, _, w => some (w.sessions sid, w)
  | .writeSession sid u, _, w => some ((), w.updSession sid u.apply)
  | .addSession sid, _, w => some ((), w.updSession sid fun _ => { listed := true })
  | .removeSession sid, _, w =>
    some ((w.sessions sid).listed, w.updSession sid fun s => { s with listed := false })
  | .now, choice, w => some (choice.now, w)
  | .choose, choice, w => some (choice.pick, w)
  | .panic, _, _ => none

/-- A command changes its connection's server and the log, and is acknowledged when it is answered. -/
theorem World.runQuery_spec {w w' : World} {call : Option Call} {c : Conn} {q : Query} {choice : Choice}
    {r : Except Err Result} (h : w.runQuery call c q choice = some (r, w')) :
    ∃ s' acked applied, (w.servers c.pool).Touches 0 c.index s' ∧ w' = { w with
        servers := update w.servers c.pool s'
        log := .query call c q acked applied :: w.log } ∧ (acked = true ↔ ∃ qr, r = .ok qr) := by
  have hrun := Server.touches_run c.index (w.servers c.pool) q
  unfold World.runQuery at h
  split at h
  · split at h
    · obtain ⟨rfl, rfl⟩ := Prod.mk.inj (Option.some.inj h)
      refine ⟨_, w.accepts c q, w.accepts c q, hrun, rfl, ?_⟩
      unfold World.accepts
      cases ((w.servers c.pool).run c.index q).1 <;> simp [Except.mapError]
    · grind [Server.touches_runFault, emit, updServer]
  · obtain ⟨rfl, rfl⟩ := Prod.mk.inj (Option.some.inj h)
    refine ⟨_, false, false, .refl _ _, ?_, by simp⟩
    rw [update_eq_self]
    rfl

/-- What an access can do to the world. -/
inductive Outcome (w : World) : (o : Op) → o.Res → World → Prop
  | same {o : Op} (r : o.Res) : Outcome w o r w
  | newTxn (g : Goroutine) (backends : Backends) : Outcome w (.newTxn g backends) (w.txnid + 1)
      { w.updTxn (w.txnid + 1) fun _ => { backends := backends, owner := some g } with txnid := w.txnid + 1 }
  | mgrAdd (t : TxnId) : Outcome w (.mgrAdd t) ()
      { w.updTxn t fun txn => { txn with added := true } with txnNums := w.txnNums + 1 }
  | mgrRemove (t : TxnId) : Outcome w (.mgrRemove t) () { w.updTxn t Txn.remove with txnNums := w.txnNums - 1 }
  | commitLock (t : TxnId) (d : Decision) (hfree : w.commitLock.writer = none ∧ w.commitLock.readers = []) :
      Outcome w (.commitLock t d) () { w.updTxn t fun txn => { txn with stage := .decided d } with
        commitLock := ⟨some t, []⟩ }
  | commitUnlock (t : TxnId) :
      Outcome w (.commitUnlock t) () { w with commitLock := { w.commitLock with writer := none } }
  | commitRLock (g : Goroutine) (hfree : w.commitLock.writer = none) :
      Outcome w (.commitRLock g) ⟨g, w.calls⟩ { w with
        calls := w.calls + 1
        commitLock := { w.commitLock with readers := ⟨g, w.calls⟩ :: w.commitLock.readers } }
  | commitRUnlock (call : Call) : Outcome w (.commitRUnlock call) ()
      { w with commitLock := { w.commitLock with readers := w.commitLock.readers.erase call } }
  | writeTxn (t : TxnId) (u : TxnWrite) : Outcome w (.writeTxn t u) () (w.updTxn t u.apply)
  | setState (t : TxnId) (s : TxnState) : Outcome w (.setState t s) ()
      ((w.updTxn t fun txn => txn.setState s).emit (.stateSet t (w.txns t).state s))
  | abortCheck (t : TxnId) : Outcome w (.abortCheck t) (w.txns t).state
      ((w.updTxn t Txn.abortCheck).emit (.abortSees t (w.txns t).state (w.txns t).clean))
  | lockMu (t : TxnId) (who : MuHolder) (hfree : (w.txns t).mu = none) :
      Outcome w (.lockMu t who) () (w.updTxn t fun txn => txn.lock who)
  | unlockMu (t : TxnId) : Outcome w (.unlockMu t) () (w.updTxn t Txn.unlock)
  | twopcPut (t : TxnId) (b : Backend) (c : Conn) (g : Goroutine) : Outcome w (.twopcPut t b c g) ()
      (((if ((w.txns t).twopcConnections b).isSome then w.emit (.overwrite t b) else w).updTxn t
        fun txn => txn.putTwopc b c g).connMoved t)
  | twopcDrop (t : TxnId) (b : Backend) {c : Conn} (hb : (w.txns t).twopcConnections b = some c) :
      Outcome w (.twopcDrop t b) () (((w.closeConn c).updTxn t fun txn => txn.deleteTwopc b).connMoved t)
  | twopcDelete (t : TxnId) (b : Backend) :
      Outcome w (.twopcDelete t b) () (w.updTxn t fun txn => txn.deleteTwopc b)
  | appendNormal (t : TxnId) (c : Conn) (g : Goroutine) :
      Outcome w (.appendNormal t c g) () ((w.updTxn t fun txn => txn.appendNormal c g).connMoved t)
  | appendReplica (t : TxnId) (c : Conn) (g : Goroutine) :
      Outcome w (.appendReplica t c g) () ((w.updTxn t fun txn => txn.appendReplica c g).connMoved t)
  | poolGet (t : TxnId) (p : PoolRef) (g : Goroutine) :
      Outcome w (.poolGet t p g) (.ok ⟨p, (w.servers p).issued⟩)
        (((w.updServer p fun s => s.issue t).updTxn t fun txn => txn.take ⟨p, (w.servers p).issued⟩ g).connMoved t)
  | close (c : Conn) : Outcome w (.close c) () (w.closeConn c)
  | recycle (c : Conn) : Outcome w (.recycle c) () (w.recycleConn c)
  | kill (t : TxnId) (c : Conn) : Outcome w (.kill t c) () (w.killConn c)
  | killFailed (t : TxnId) (c : Conn) : Outcome w (.kill t c) () (w.emit (.killFailed t))
  | query (call : Option Call) (c : Conn) (q : Query) {choice : Choice} {r : Except Err Result} {w' : World}
      (h : w.runQuery call c q choice = some (r, w')) : Outcome w (.query call c q) r w'
  | deadline (t : TxnId) (c : Conn) : Outcome w (.deadline t c) () ((w.killConn c).emit (.deadline t))
  | xcLock : Outcome w .xcLock () { w with xcMu := true }
  | xcUnlock : Outcome w .xcUnlock () { w with xcMu := false }
  | xcAdd (x : Xid) (state : Decision) : Outcome w (.xcAdd x state) none
      ({ w with retrys := ⟨x, state, w.xaCheckRetrys⟩ :: w.retrys }.emit (.logged x state))
  | xcDelete (x : Xid) : Outcome w (.xcDelete x) () { w with retrys := w.retrys.filter (·.xaid ≠ x) }
  | xcDecTimes (x : Xid) : Outcome w (.xcDecTimes x) () { w with
      retrys := w.retrys.map fun e => if e.xaid = x then { e with times := e.times - 1 } else e }
  | xcTimedOut (x : Xid) : Outcome w (.xcTimedOut x) ()
      { w with timedOut := w.timedOut ++ w.retrys.filter (·.xaid = x) }
  | writeSession (sid : SessionId) (u : SessionWrite) : Outcome w (.writeSession sid u) () (w.updSession sid u.apply)
  | addSession (sid : SessionId) : Outcome w (.addSession sid) () (w.updSession sid fun _ => { listed := true })
  | removeSession (sid : SessionId) : Outcome w (.removeSession sid) (w.sessions sid).listed
      (w.updSession sid fun s => { s with listed := false })

/-- The world after an access, case by case. -/
theorem exec_outcome {o : Op} {choice : Choice} {w w' : World} {r : o.Res}
    (hrun : exec o choice w = some (r, w')) : Outcome w o r w' := by
  cases o with
  | commitLock t d =>
    simp only [exec] at hrun
    split at hrun <;> cases hrun
    exact .commitLock t d ‹_›
  | commitRLock g =>
    simp only [exec] at hrun
    split at hrun <;> cases hrun
    exact .commitRLock g ‹_›
  | lockMu t who =>
    simp only [exec] at hrun
    split at hrun <;> cases hrun
    exact .lockMu t who ‹_›
  | twopcDrop t b =>
    simp only [exec] at hrun
    split at hrun <;> cases hrun
    · exact .twopcDrop t b ‹_›
    · exact .same _
  | twopcNext t start visited =>
    simp only [exec, World.nextTwopc] at hrun
    split at hrun
    · cases hrun; exact .same _
    · split at hrun <;> cases hrun
      exact .same _
  | poolGet t p g =>
    simp only [exec] at hrun
    split at hrun
    · cases hrun; exact .poolGet t p g
    · split at hrun <;> cases hrun
      exact .same _
  | kill t c =>
    simp only [exec] at hrun
    split at hrun
    · cases hrun; exact .kill t c
    · split at hrun <;> cases hrun
      exact .killFailed t c
  | query call c q => exact .query call c q hrun
  | deadline t c =>
    simp only [exec] at hrun
    split at hrun
    · cases hrun; exact .same _
    · split at hrun <;> cases hrun
      exact .deadline t c
  | xcLock =>
    simp only [exec] at hrun
    split at hrun <;> cases hrun
    exact .xcLock
  | xcAdd x state =>
    simp only [exec] at hrun
    split at hrun <;> cases hrun
    · exact .same _
    · exact .xcAdd x state
  | panic => cases r
  | scatterBackends | twopcEnable | readTxn | twopcGet | xcRetrys | sessionListed | readSession | now | choose =>
    cases hrun; exact .same _
  | _ => cases hrun; constructor

/-- A program of the process. -/
abbrev Go := Prog Op Op.Res

/-- Perform one access. -/
def act (o : Op) : Go o.Res := Prog.perform o

end Radon
