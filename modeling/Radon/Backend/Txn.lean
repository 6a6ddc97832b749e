import Radon.Backend.Xa

/-!
# The calls of a transaction

`Begin`, `Execute`, `Commit` and the other calls that the owner of a transaction makes, and
`Abort`, which any goroutine may call. `Finish` and `Abort` both release the transaction's
connections and take it out of the manager; they coordinate through the transaction's state.
-/

namespace Radon

open Concurrency

/-- `Txn.Begin`. -/
def begin (t : TxnId) : Go Unit := act (.writeTxn t (.twopc true))

/-- The XA commands of a phase, up to the first that fails. -/
def sequence (first second : Go (Option Err)) : Go (Option Err) := do
  match ← first with
  | some e => return some e
  | none => second

/-- `xaEnd`, `xaPrepare`, then the decision. -/
def endPrepare (g : Goroutine) (t : TxnId) (decide : Goroutine → TxnId → Go Unit) :
    Go (Option Err) :=
  sequence (xaEnd g t) <| sequence (xaPrepare g t) do
    decide g t
    return none

/-- `Txn.Commit`, which only handles write transactions. -/
def commit (g : Goroutine) (t : TxnId) : Go (Option Err) := do
  act (.setState t .committing)
  let txn ← act (.readTxn t)
  match txn.req with
  | none => panic
  | some req => if req.txnMode = .txnWrite then endPrepare g t xaCommit else return none

/-- `Txn.Rollback`. -/
def rollback (g : Goroutine) (t : TxnId) : Go (Option Err) := do
  act (.setState t .rollbacking)
  let txn ← act (.readTxn t)
  match txn.req with
  | none => panic
  | some req => if req.txnMode = .txnWrite then endPrepare g t xaRollback else return none

/-- `Txn.RollbackPhaseOne`, which does not prepare. -/
def rollbackPhaseOne (g : Goroutine) (t : TxnId) : Go (Option Err) := do
  act (.setState t .rollbacking)
  let txn ← act (.readTxn t)
  match txn.req with
  | none => panic
  | some req =>
    if req.txnMode = .txnWrite then
      sequence (xaEnd g t) do
        xaRollback g t
        return none
    else return none

/-- `Txn.BeginScatter`. -/
def beginScatter (g : Goroutine) (t : TxnId) : Go (Option Err) := do
  act (.writeTxn t (.twopc true))
  act (.writeTxn t (.req { mode := .reqScatter }))
  xaStart g t

/-- `Txn.CommitScatter`. -/
def commitScatter (g : Goroutine) (t : TxnId) : Go (Option Err) := do
  act (.setState t .committing)
  act (.writeTxn t (.twopc true))
  act (.writeTxn t (.req { mode := .reqScatter }))
  endPrepare g t xaCommit

/-- `Txn.RollbackScatter`. -/
def rollbackScatter (g : Goroutine) (t : TxnId) : Go (Option Err) := do
  act (.setState t .rollbacking)
  act (.writeTxn t (.twopc true))
  act (.writeTxn t (.req { mode := .reqScatter }))
  endPrepare g t xaRollback

/-- The queries of one backend, in order, up to the first that fails. `ExecuteWithLimits` waits for the goroutine
of `setDeadline`, which kills the connection if the time is up, whether the query has been answered or not. -/
def runQuerys (t : TxnId) (call : Option Call) (c : Conn) : List Query → Result → Go (Except Err Result)
  | [], qr => return .ok qr
  | query :: querys, qr => do
    let reply ← act (.query call c query)
    act (.deadline t c)
    match reply with
    | .error e => return .error e
    | .ok innerqr => runQuerys t call c querys (qr.append innerqr)

/-- `oneShard` of `execute`. -/
def oneShard (g : Goroutine) (t : TxnId) (call : Option Call) (back : Backend) (querys : List Query) :
    Go (Except Err Result) := do
  match ← fetchOneConnection g t back with
  | .error e => return .error e
  | .ok c => runQuerys t call c querys {}

/-- The answer of a group: an error if there is one, or all the rows. -/
def joinResults (out : List (Except Err Result)) : Except Err Result :=
  match firstErr (out.map errOf) with
  | some e => .error e
  | none => .ok (out.foldr (fun r acc => (r.toOption.getD {}).append acc) {})

/-- One goroutine per backend if there are several, a plain call otherwise. -/
def shards (g : Goroutine) (several : Bool) (backends : List Backend)
    (shard : Goroutine → Backend → Go (Except Err Result)) : Go (Except Err Result) := do
  if several then
    let out ← Prog.forkAll (fun b => shard (.shard b :: g) b) backends
    return joinResults out
  else
    match backends with
    | [] => return .ok {}
    | b :: _ => shard g b

/-- `Txn.execute`. -/
def execute (g : Goroutine) (t : TxnId) (call : Option Call) (req : RequestContext) :
    Go (Except Err Result) := do
  let txn ← act (.readTxn t)
  act (.setState t (if txn.twopc then .executingTwoPC else .executingNormal))
  match req.mode with
  | .reqSingle =>
    let pick ← act .choose
    match txn.backends.normalNames[pick % txn.backends.normalNames.length]? with
    | none => return .ok {}
    | some back => oneShard g t call back [req.rawQuery]
  | .reqScatter =>
    shards g (1 < txn.backends.names.length) txn.backends.normalNames
      fun g back => oneShard g t call back [req.rawQuery]
  | .reqNormal =>
    shards g (1 < req.backends.length) req.backends
      fun g back => oneShard g t call back (req.querysOn back)

/-- The end of `Txn.Execute`, which counts errors. -/
def executeCounted (g : Goroutine) (t : TxnId) (call : Option Call) (req : RequestContext) :
    Go (Except Err Result) := do
  let r ← execute g t call req
  countErr t (errOf r)
  return r

/-- `Txn.Execute`. A read in two-phase mode holds the read side of the commit lock. -/
def txnExecute (g : Goroutine) (t : TxnId) (req : RequestContext) : Go (Except Err Result) := do
  let txn ← act (.readTxn t)
  if txn.twopc then
    act (.lockMu t (.execute g))
    act (.writeTxn t (.req req))
    act (.unlockMu t)
    match req.txnMode with
    | .txnRead =>
      let call ← act (.commitRLock g)
      let r ← executeCounted g t (some call) req
      act (.commitRUnlock call)
      return r
    | .txnWrite =>
      let txn ← act (.readTxn t)
      if txn.isMultiStmtTxn then executeCounted g t none req
      else
        match ← xaStart g t with
        | some e => return .error e
        | none => executeCounted g t none req
    | .txnNone => executeCounted g t none req
  else executeCounted g t none req

/-- `Txn.ExecuteScatter`. -/
def txnExecuteScatter (g : Goroutine) (t : TxnId) (query : Query) : Go (Except Err Result) :=
  txnExecute g t { rawQuery := query, mode := .reqScatter }

/-- `Txn.ExecuteSingle`. -/
def txnExecuteSingle (g : Goroutine) (t : TxnId) (query : Query) : Go (Except Err Result) :=
  txnExecute g t { rawQuery := query, mode := .reqSingle }

/-- `Txn.ExecuteOnThisBackend`. -/
def txnExecuteOnThisBackend (g : Goroutine) (t : TxnId) (back : Backend) (query : Query) :
    Go (Except Err Result) :=
  txnExecute g t { querys := [⟨query, back⟩] }

/-- The first half of `Txn.ExecuteStreamFetch`: a connection and a goroutine per query. -/
def streamCursors (g : Goroutine) (t : TxnId) : List QueryTuple → Go (Option Err)
  | [] => return none
  | qt :: querys => do
    match ← fetchOneConnection g t qt.backend with
    | .error e => return some e
    | .ok c =>
      Prog.par (act (.query none c qt.query)) (streamCursors (.right :: g) t querys) fun r err =>
        return firstErr [errOf r, err]

/-- `Txn.ExecuteStreamFetch`. The rows and the client's callback are outside the model. -/
def txnExecuteStreamFetch (g : Goroutine) (t : TxnId) (req : RequestContext) : Go (Option Err) := do
  match ← streamCursors g t req.querys with
  | some e => return some e
  | none =>
    let failed ← act .choose
    return if failed = 0 then none else some (.text "stream")

/-- Range over the two-phase connections: release each and delete its entry. -/
def rangeTwopc (t : TxnId) (release : Conn → Go Unit) (start : List Backend) :
    ℕ → List Backend → Go Unit
  | 0, _ => return ()
  | n + 1, visited => do
    match ← act (.twopcNext t start visited) with
    | none => return ()
    | some (b, c) =>
      release c
      act (.twopcDelete t b)
      rangeTwopc t release start n (b :: visited)

/-- Release every connection of a list. -/
def rangeConns (release : Conn → Go Unit) : List Conn → Go Unit
  | [] => return ()
  | c :: conns => do
    release c
    rangeConns release conns

/-- Release the connections of a transaction: the two-phase ones, the normal ones, the replica ones. -/
def releaseAll (t : TxnId) (release : Conn → Go Unit) : Go Unit := do
  let txn ← act (.readTxn t)
  let names := txn.backends.names
  rangeTwopc t release (names.filter fun b => (txn.twopcConnections b).isSome) names.length []
  let txn ← act (.readTxn t)
  rangeConns release txn.normalConnections
  let txn ← act (.readTxn t)
  rangeConns release txn.replicaConnections

/-- The deferred calls of `Txn.Finish` and `Txn.Abort`. -/
def leave (t : TxnId) : Go Unit := do
  act (.writeTxn t (.twopc false))
  act (.writeTxn t (.isMultiStmtTxn false))
  act (.unlockMu t)

/-- `Txn.Finish` closes a connection after an error and recycles it otherwise. -/
def finishConn (t : TxnId) (c : Conn) : Go Unit := do
  let txn ← act (.readTxn t)
  if 0 < txn.errors then act (.close c) else act (.recycle c)

/-- `Txn.Finish`. -/
def finish (g : Goroutine) (t : TxnId) : Go Unit := do
  act (.lockMu t (.finish g))
  let txn ← act (.readTxn t)
  if txn.state = .aborting then leave t
  else
    act (.writeTxn t (.xaState .none))
    act (.setState t .finshing)
    releaseAll t (finishConn t)
    act (.mgrRemove t)
    leave t

/-- `Txn.Abort`. -/
def abort (g : Goroutine) (t : TxnId) : Go Unit := do
  act (.lockMu t (.abort g))
  let seen ← act (.abortCheck t)
  if seen = .finshing then leave t
  else
    act (.setState t .aborting)
    releaseAll t fun c => act (.kill t c)
    act (.mgrRemove t)
    leave t

end Radon
