import Radon.Backend.Operation

/-!
# Connections and XA commands of a transaction

The connection getters of `Txn` and the five XA commands. A command is sent to every backend of
the transaction in its own goroutine; `XA COMMIT` and `XA ROLLBACK` are sent under the commit
lock and retried on fresh connections, and a decision that does not reach every backend is
written to the retry log.
-/

namespace Radon

open Concurrency

/-- A Go panic. -/
def panic {α : Type} : Go α := act .panic >>= Empty.elim

/-- `TxnManager.CreateTxn` over `Scatter.PoolzClone`, by goroutine `g`. -/
def createTransaction (g : Goroutine) : Go (Except Err TxnId) := do
  let backends ← act .scatterBackends
  if backends.entries = [] then
    return .error (.text "backends.is.NULL")
  else
    let t ← act (.newTxn g backends)
    act (.mgrAdd t)
    return .ok t

/-- `Txn.incErrors`. -/
def incErrors (t : TxnId) : Go Unit := act (.writeTxn t .incErrors)

/-- The error count goes up when a command has failed. -/
def countErr (t : TxnId) : Option Err → Go Unit
  | none => return ()
  | some _ => incErrors t

/-- The backends that have a pool of primaries or of replicas. -/
def Backends.pooled (backends : Backends) : Bool → List Backend
  | false => backends.names
  | true => backends.replicaNames

/-- The part that the getters share: a connection from a pool of the backend, which `put` stores. -/
def newConnection (g : Goroutine) (t : TxnId) (back : Backend) (replica : Bool) (kind : String)
    (put : Conn → Op) : Go (Except Err Conn) := do
  let txn ← act (.readTxn t)
  if back ∈ txn.backends.pooled replica then
    match ← act (.poolGet t ⟨back, replica⟩ g) with
    | .error e => return .error e
    | .ok c =>
      let _ ← act (put c)
      return .ok c
  else
    return .error (.text ("txn.can.not.get." ++ kind ++ ".connection.by.backend[" ++ back ++ "].from.pool"))

/-- `Txn.twopcConnection`. -/
def twopcConnection (g : Goroutine) (t : TxnId) (back : Backend) : Go (Except Err Conn) := do
  match ← act (.twopcGet t back) with
  | some c => return .ok c
  | none => newConnection g t back false "twopc" fun c => .twopcPut t back c g

/-- `Txn.reFetchTwopcConnection`. -/
def reFetchTwopcConnection (g : Goroutine) (t : TxnId) (back : Backend) : Go (Except Err Conn) := do
  act (.twopcDrop t back)
  twopcConnection g t back

/-- `Txn.normalConnection`. -/
def normalConnection (g : Goroutine) (t : TxnId) (back : Backend) : Go (Except Err Conn) :=
  newConnection g t back false "normal" fun c => .appendNormal t c g

/-- `Txn.replicaConnection`. -/
def replicaConnection (g : Goroutine) (t : TxnId) (back : Backend) : Go (Except Err Conn) :=
  newConnection g t back true "replica" fun c => .appendReplica t c g

/-- The end of `Txn.fetchOneConnection`, when no replica connection is used. -/
def fetchPrimaryConnection (g : Goroutine) (t : TxnId) (back : Backend) : Go (Except Err Conn) := do
  let txn ← act (.readTxn t)
  if txn.twopc then twopcConnection g t back else normalConnection g t back

/-- `Txn.fetchOneConnection`. -/
def fetchOneConnection (g : Goroutine) (t : TxnId) (back : Backend) : Go (Except Err Conn) := do
  let txn ← act (.readTxn t)
  if txn.isExecOnRep then
    match ← replicaConnection g t back with
    | .ok c => return .ok c
    | .error _ => fetchPrimaryConnection g t back
  else
    fetchPrimaryConnection g t back

/-- `xaMaxRetryNum`. -/
def xaMaxRetryNum : ℕ := 10

/-- The error of an answer. -/
def errOf {α : Type} : Except Err α → Option Err
  | .ok _ => none
  | .error e => some e

/-- `errgroup.Wait`: an error of the group, if there is one. -/
def firstErr (out : List (Option Err)) : Option Err := out.findSome? id

/-- `oneShard` of `executeXA` for `XA START`, `XA END` and `XA PREPARE`. -/
def xaOneShard (g : Goroutine) (t : TxnId) (back : Backend) (query : Query) : Go (Option Err) := do
  match ← twopcConnection g t back with
  | .error e => return some e
  | .ok c =>
    let r ← act (.query none c query)
    return errOf r

/-- The connection of a try: the first try uses the one the transaction has. -/
def xaTryConnection (g : Goroutine) (t : TxnId) (back : Backend) (tries : ℕ) : Go (Except Err Conn) :=
  if tries = xaMaxRetryNum then twopcConnection g t back else reFetchTwopcConnection g t back

/-- `oneShard` of `executeXA` for `XA COMMIT` and `XA ROLLBACK`, with the tries that are left and the
last error. -/
def xaRetryShard (g : Goroutine) (t : TxnId) (back : Backend) (query : Query) :
    ℕ → Option Err → Go (Option Err)
  | 0, x => return x
  | tries + 1, _ => do
    match ← xaTryConnection g t back (tries + 1) with
    | .error e => xaRetryShard g t back query tries (some e)
    | .ok c =>
      match ← act (.query none c query) with
      | .ok _ => return none
      | .error e =>
        if e = .sql erXaerNota then return some e
        else xaRetryShard g t back query tries (some e)

/-- The decision that an XA state carries out. -/
def TxnXAState.decision : TxnXAState → Option Decision
  | .commit => some .commit
  | .rollback => some .rollback
  | _ => Option.none

/-- The goroutines of `executeXA`, one per backend, under the commit lock for a decision. -/
def xaFanOut (g : Goroutine) (t : TxnId) (query : Query) (state : TxnXAState)
    (backends : List Backend) : Go (Option Err) := do
  match state.decision with
  | some d =>
    act (.commitLock t d)
    let out ← Prog.forkAll
      (fun b => xaRetryShard (.shard b :: g) t b query xaMaxRetryNum none) backends
    act (.commitUnlock t)
    return firstErr out
  | none =>
    let out ← Prog.forkAll (fun b => xaOneShard (.shard b :: g) t b query) backends
    return firstErr out

/-- `Txn.executeXA`. -/
def executeXA (g : Goroutine) (t : TxnId) (req : RequestContext) (state : TxnXAState) :
    Go (Option Err) := do
  act (.setState t .executingTwoPC)
  match req.mode with
  | .reqNormal =>
    -- Only do XA when the queries reach more than one backend.
    if 1 < req.backends.length then xaFanOut g t req.rawQuery state req.backends else return none
  | .reqScatter =>
    let txn ← act (.readTxn t)
    xaFanOut g t req.rawQuery state txn.backends.names
  | .reqSingle => return none

/-- `Txn.executeXACommand`. -/
def executeXACommand (g : Goroutine) (t : TxnId) (query : Query) (state : TxnXAState) :
    Go (Option Err) := do
  let txn ← act (.readTxn t)
  match txn.req with
  | none => panic
  | some req => executeXA g t { rawQuery := query, mode := req.mode, querys := req.querys } state

/-- The backends of the transaction that take part in its branches. -/
def xaParts (req : Option RequestContext) (backends : Backends) : List Backend :=
  (xaTargets req backends).filter (· ∈ backends.names)

/-- `Txn.xaStart`. -/
def xaStart (g : Goroutine) (t : TxnId) : Go (Option Err) := do
  act (.writeTxn t (.xaState .start))
  let txn ← act (.readTxn t)
  let now ← act .now
  let x : Xid := ⟨txn.isMultiStmtTxn, now, t⟩
  act (.writeTxn t (.xid x (xaParts txn.req txn.backends)))
  let err ← executeXACommand g t (.xaStart x) .start
  countErr t err
  act (.writeTxn t (.xaState .startFinished))
  return err

/-- `Txn.xaEnd` and `Txn.xaPrepare`: one XA command and its two XA states. The xid has been set by
`xaStart`. -/
def xaPhase (g : Goroutine) (t : TxnId) (query : Xid → Query) (state finished : TxnXAState) :
    Go (Option Err) := do
  act (.writeTxn t (.xaState state))
  let txn ← act (.readTxn t)
  match txn.xid with
  | none => panic
  | some x =>
    let err ← executeXACommand g t (query x) state
    countErr t err
    act (.writeTxn t (.xaState finished))
    return err

/-- `Txn.xaEnd`. -/
def xaEnd (g : Goroutine) (t : TxnId) : Go (Option Err) := xaPhase g t .xaEnd .end .endFinished

/-- `Txn.xaPrepare`. -/
def xaPrepare (g : Goroutine) (t : TxnId) : Go (Option Err) :=
  xaPhase g t .xaPrepare .prepare .prepareFinished

/-- `XaCheck.WriteXaCommitErrLog`. -/
def writeXaCommitErrLog (t : TxnId) (state : Decision) : Go (Option Err) := do
  let txn ← act (.readTxn t)
  match txn.xid with
  | none => panic
  | some x =>
    act .xcLock
    let err ← act (.xcAdd x state)
    act .xcUnlock
    return err

/-- A decision that failed on some backend is counted and entered in the retry log. -/
def logFailed (t : TxnId) (d : Decision) : Option Err → Go Unit
  | none => return ()
  | some _ => do
    incErrors t
    let _ ← writeXaCommitErrLog t d
    return ()

/-- `Txn.xaCommit` and `Txn.xaRollback`: a decision and its XA states. -/
def xaDecide (g : Goroutine) (t : TxnId) (d : Decision) (state finished : TxnXAState) : Go Unit := do
  act (.writeTxn t (.xaState state))
  let txn ← act (.readTxn t)
  match txn.xid with
  | none => panic
  | some x =>
    let err ← executeXACommand g t (d.query x) state
    logFailed t d err
    act (.writeTxn t (.xaState finished))

/-- `Txn.xaCommit`. -/
def xaCommit (g : Goroutine) (t : TxnId) : Go Unit := xaDecide g t .commit .commit .commitFinished

/-- `Txn.xaRollback`. -/
def xaRollback (g : Goroutine) (t : TxnId) : Go Unit :=
  xaDecide g t .rollback .rollback .rollbackFinished

end Radon
