import Mathlib.Data.Int.Notation
import Mathlib.Data.List.Dedup
import Radon.Backend.Server
import Radon.Concurrency.Program

/-!
# The shared state of a Radon process

One `World` holds what the goroutines of a process share: the transaction manager, every
transaction record, the client sessions, the XA retry log and the backend servers.

Besides the data of the source the state carries history variables. They record what a run has
done and who did it, and no program reads them: the `log`, the holders of the locks, and the
last block of fields of `Txn`. Goroutines are named by the forks that lead to them.
-/

namespace Radon

open Function

/-- A backend name, the key of the scatter's pool map. -/
abbrev Backend := String

/-- The identity of a transaction object. -/
abbrev TxnId := ℕ

/-- The identity of a client session. -/
abbrev SessionId := ℕ

/-- One of the two pools of a backend. -/
structure PoolRef where
  backend : Backend
  replica : Bool
  deriving DecidableEq

/-- A pooled connection, from the moment a pool hands it out. -/
structure Conn where
  pool : PoolRef
  index : ℕ
  deriving DecidableEq

/-- An error value: a MySQL error with its number, or a plain text. -/
inductive Err
  | sql (num : ℕ)
  | text (message : String)
  deriving DecidableEq

/-- A fork of a goroutine: a task of the process, one side of a plan, or one backend. -/
inductive Fork
  | task (k : ℕ)
  | left
  | right
  | shard (b : Backend)
  deriving DecidableEq

/-- A goroutine, named by the forks that lead to it, the last one first. -/
abbrev Goroutine := List Fork

/-- `txnState`. -/
inductive TxnState
  | live
  | beginning
  | executingTwoPC
  | executingNormal
  | rollbacking
  | committing
  | finshing
  | aborting
  | recovering
  deriving DecidableEq

/-- `txnXAState`. -/
inductive TxnXAState
  | none
  | start
  | startFinished
  | end
  | endFinished
  | prepare
  | prepareFinished
  | commit
  | commitFinished
  | rollback
  | rollbackFinished
  | recover
  | recoverFinished
  deriving DecidableEq

/-- `xcontext.RequestMode`. -/
inductive RequestMode
  | reqNormal
  | reqScatter
  | reqSingle
  deriving DecidableEq

/-- `xcontext.TxnMode`. -/
inductive TxnMode
  | txnNone
  | txnRead
  | txnWrite
  deriving DecidableEq

/-- `xcontext.QueryTuple`: a query and the backend it goes to. -/
structure QueryTuple where
  query : Query
  backend : Backend
  deriving DecidableEq

/-- `xcontext.RequestContext`. -/
structure RequestContext where
  rawQuery : Query := .sql ""
  mode : RequestMode := .reqNormal
  txnMode : TxnMode := .txnNone
  querys : List QueryTuple := []
  deriving DecidableEq

/-- The distinct backends the queries go to. -/
def RequestContext.backends (req : RequestContext) : List Backend :=
  (req.querys.map QueryTuple.backend).dedup

/-- The queries for one backend, in order. -/
def RequestContext.querysOn (req : RequestContext) (b : Backend) : List Query :=
  (req.querys.filter fun q => q.backend = b).map QueryTuple.query

/-- The role of a backend in its configuration. -/
inductive Role
  | normalBackend
  | attachBackend
  deriving DecidableEq

/-- What a transaction reads of a backend's pools. -/
structure Poolz where
  name : Backend
  role : Role := .normalBackend
  replica : Bool := false
  deriving DecidableEq

/-- A map of pools, keyed by backend name. -/
structure Backends where
  entries : List Poolz
  nodup : (entries.map Poolz.name).Nodup

/-- The keys of the map. -/
def Backends.names (bs : Backends) : List Backend := bs.entries.map Poolz.name

/-- The keys whose backend has the normal role. -/
def Backends.normalNames (bs : Backends) : List Backend :=
  (bs.entries.filter fun p => p.role = .normalBackend).map Poolz.name

/-- The keys whose backend has a replica pool. -/
def Backends.replicaNames (bs : Backends) : List Backend :=
  (bs.entries.filter Poolz.replica).map Poolz.name

/-- The outcome a transaction decides on, as the retry log stores it. -/
inductive Decision
  | commit
  | rollback
  deriving DecidableEq

/-- The command that carries a decision out. -/
def Decision.query : Decision → Xid → Query
  | .commit, x => .xaCommit x
  | .rollback, x => .xaRollback x

/-- Which code holds a transaction's mutex, and in which goroutine. -/
inductive MuHolder
  | execute (g : Goroutine)
  | finish (g : Goroutine)
  | abort (g : Goroutine)
  deriving DecidableEq

/-- How far `Finish` or `Abort` has come under the mutex. -/
inductive Section
  | entered
  | claimed
  | removed
  deriving DecidableEq

/-- What the owner of a transaction has done with it. -/
inductive Stage
  | opened
  | decided (d : Decision)
  | ended
  deriving DecidableEq

/-- `Txn`. The fields from `owner` on are history: who created the transaction, what the owner has
done with it, the backends it opened branches on and those it asked to prepare, the connections
fetched and not stored yet, and its dealings with the manager. -/
structure Txn where
  xid : Option Xid := none
  sessionID : SessionId := 0
  mu : Option MuHolder := none
  req : Option RequestContext := none
  twopc : Bool := false
  isExecOnRep : Bool := false
  isMultiStmtTxn : Bool := false
  state : TxnState := .live
  xaState : TxnXAState := .none
  backends : Backends := ⟨[], List.nodup_nil⟩
  errors : ℕ := 0
  twopcConnections : Backend → Option Conn := fun _ => none
  normalConnections : List Conn := []
  replicaConnections : List Conn := []
  owner : Option Goroutine := none
  stage : Stage := .opened
  parts : List Backend := []
  voted : List Backend := []
  inHand : List (Conn × Goroutine) := []
  progress : Section := .entered
  aborts : ℕ := 0
  added : Bool := false
  removed : ℕ := 0
  finished : Bool := false
  aborted : Bool := false

/-- `XaCommitErr`, without the time of the entry. -/
structure XaCommitErr where
  xaid : Xid
  state : Decision
  times : ℤ
  deriving DecidableEq

/-- `session`: whether the session map still lists it, the bound transaction and the streaming
capability. -/
structure Session where
  listed : Bool := false
  transaction : Option TxnId := none
  streamingFetch : Bool := false
  deriving DecidableEq

/-- A read call that holds the commit lock. -/
structure Call where
  go : Goroutine
  seq : ℕ
  deriving DecidableEq

/-- The commit lock with its holders: the transaction that writes, or the calls that read. -/
structure RWMutex where
  writer : Option TxnId := none
  readers : List Call := []

/-- What a run has done. A query is `acked` when the reply is no error, and `applied` when the server
carried it out, whatever the reply. -/
inductive Event
  | query (call : Option Call) (conn : Conn) (query : Query) (acked applied : Bool)
  | logged (x : Xid) (state : Decision)
  | stateSet (t : TxnId) (old new : TxnState)
  | abortSees (t : TxnId) (seen : TxnState) (clean : Bool)
  | connMove (t : TxnId) (afterAbort : Bool)
  | overwrite (t : TxnId) (b : Backend)
  | killFailed (t : TxnId)
  | deadline (t : TxnId)
  deriving DecidableEq

/-- Everything the goroutines of one process share; the newest event of the log comes first. -/
structure World where
  healthy : Bool := false
  twopcEnable : Bool := true
  xaCheckRetrys : ℤ := 0
  scatter : Backends := ⟨[], List.nodup_nil⟩
  txnid : ℕ := 0
  txnNums : ℤ := 0
  commitLock : RWMutex := {}
  txns : TxnId → Txn := fun _ => {}
  servers : PoolRef → Server := fun _ => {}
  xcMu : Bool := false
  retrys : List XaCommitErr := []
  timedOut : List XaCommitErr := []
  sessions : SessionId → Session := fun _ => {}
  calls : ℕ := 0
  log : List Event := []

/-- The backends `executeXA` sends a command to. -/
def xaTargets (req : Option RequestContext) (backends : Backends) : List Backend :=
  match req with
  | none => []
  | some r =>
    match r.mode with
    | .reqNormal => if 1 < r.backends.length then r.backends else []
    | .reqScatter => backends.names
    | .reqSingle => []

namespace World

/-- Change one transaction. -/
def updTxn (w : World) (t : TxnId) (f : Txn → Txn) : World :=
  { w with txns := Function.update w.txns t (f (w.txns t)) }

@[simp] theorem updTxn_self (w : World) (t : TxnId) (f : Txn → Txn) :
    (w.updTxn t f).txns t = f (w.txns t) := update_self _ _ _

@[simp] theorem updTxn_of_ne (w : World) {t t' : TxnId} (h : t' ≠ t) (f : Txn → Txn) :
    (w.updTxn t f).txns t' = w.txns t' := update_of_ne h _ _

/-- Change one server. -/
def updServer (w : World) (p : PoolRef) (f : Server → Server) : World :=
  { w with servers := Function.update w.servers p (f (w.servers p)) }

/-- Change one session. -/
def updSession (w : World) (sid : SessionId) (f : Session → Session) : World :=
  { w with sessions := Function.update w.sessions sid (f (w.sessions sid)) }

@[simp] theorem updSession_self (w : World) (sid : SessionId) (f : Session → Session) :
    (w.updSession sid f).sessions sid = f (w.sessions sid) := update_self _ _ _

@[simp] theorem updSession_of_ne (w : World) {sid sid' : SessionId} (h : sid' ≠ sid)
    (f : Session → Session) : (w.updSession sid f).sessions sid' = w.sessions sid' :=
  update_of_ne h _ _

/-- Record an event. -/
def emit (w : World) (e : Event) : World := { w with log := e :: w.log }

/-- The state of a connection. -/
def conn (w : World) (c : Conn) : ConnState := (w.servers c.pool).conns c.index

/-- `Connection.Close`. -/
def closeConn (w : World) (c : Conn) : World :=
  w.updServer c.pool fun s =>
    (s.disconnect c.index).setConn c.index fun k => { k with closed := k.closed + 1 }

/-- `Connection.Kill`, once the kill command has reached the server. -/
def killConn (w : World) (c : Conn) : World :=
  w.updServer c.pool fun s =>
    (s.disconnect c.index).setConn c.index fun k => { k with killed := k.killed + 1 }

/-- `Connection.Recycle`. -/
def recycleConn (w : World) (c : Conn) : World :=
  w.updServer c.pool fun s => s.setConn c.index fun k => { k with recycled := k.recycled + 1 }

end World

end Radon
