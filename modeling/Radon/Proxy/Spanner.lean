import Radon.Backend.XaCheck
import Radon.Proxy.Plan

/-!
# The spanner: client commands and the process

Every client command is handled in the goroutine of its connection. Most handlers create a
transaction of their own; `BEGIN` binds one to the session for the statements that follow. A
session that is closed or killed aborts the transaction it has bound at that time.

A process is a number of tasks that run side by side: client connections, the XA retry loop, and
a shutdown that closes sessions. The answers of the planner are part of the commands.
-/

namespace Radon

open Concurrency

/-- `Sessions.TxnBinding`. -/
def txnBinding (sid : SessionId) (t : TxnId) : Go Unit := do
  if ← act (.sessionListed sid) then
    act (.writeTxn t (.sessionID sid))
    act (.writeSession sid (.transaction (some t)))
  else return ()

/-- `Sessions.TxnUnBinding`. -/
def txnUnBinding (sid : SessionId) : Go Unit := do
  if ← act (.sessionListed sid) then act (.writeSession sid (.transaction none)) else return ()

/-- `Sessions.MultiStmtTxnBinding`, which keeps the bound transaction unless it is given one. -/
def multiStmtTxnBinding (sid : SessionId) (txn : Option TxnId) : Go Unit :=
  match txn with
  | none => return ()
  | some t => txnBinding sid t

/-- `Sessions.MultiStmtTxnUnBinding`. -/
def multiStmtTxnUnBinding (sid : SessionId) (isEnd : Bool) : Go Unit :=
  if isEnd then txnUnBinding sid else return ()

/-- The bound transaction of what `Sessions.getTxnSession` has returned: a nil pointer, if the session
was not listed. -/
def boundTxn (sid : SessionId) (listed : Bool) : Go (Option TxnId) :=
  if listed then do
    let s ← act (.readSession sid)
    return s.transaction
  else panic

/-- `Sessions.getTxnSession`, and the transaction bound to the session at that time. -/
def sessionTransaction (sid : SessionId) : Go (Option TxnId) := do
  let listed ← act (.sessionListed sid)
  boundTxn sid listed

/-- `session.close`. -/
def sessionClose (g : Goroutine) (sid : SessionId) : Go Unit := do
  let s ← act (.readSession sid)
  match s.transaction with
  | none => return ()
  | some t => abort g t

/-- `Sessions.Kill` and `Sessions.Remove`. -/
def sessionsKill (g : Goroutine) (sid : SessionId) : Go Unit := do
  if ← act (.removeSession sid) then sessionClose g sid else return ()

/-- The phase of a statement that an error comes from. -/
inductive Phase
  | create
  | plan
  | execute
  | commit
  deriving DecidableEq

/-- The part of `ExecuteSingleStmtTxnTwoPC` between the binding and the deferred calls. -/
def singleStmtBody (g : Goroutine) (t : TxnId) (plan : Except Err Plan) :
    Go (Option (Phase × Err)) := do
  begin t
  match plan with
  | .error e => return some (.plan, e)
  | .ok p =>
    match ← executeTree g t p with
    | some e =>
      let _ ← rollbackPhaseOne g t
      return some (.execute, e)
    | none =>
      match ← commit g t with
      | some e => return some (.commit, e)
      | none => return none

/-- `Spanner.ExecuteSingleStmtTxnTwoPC`. -/
def executeSingleStmtTxnTwoPC (g : Goroutine) (sid : SessionId) (onRep : Bool)
    (plan : Except Err Plan) : Go (Option (Phase × Err)) := do
  match ← createTransaction g with
  | .error e => return some (.create, e)
  | .ok t =>
    act (.writeTxn t (.isExecOnRep onRep))
    txnBinding sid t
    let r ← singleStmtBody g t plan
    txnUnBinding sid
    finish g t
    return r

/-- `Spanner.ExecuteMultiStmtsInTxn`; after an error the user has to roll back. -/
def executeMultiStmtsInTxn (g : Goroutine) (sid : SessionId) (plan : Except Err Plan) :
    Go (Option Err) := do
  let listed ← act (.sessionListed sid)
  multiStmtTxnBinding sid none
  match plan with
  | .error e => return some e
  | .ok p =>
    match ← boundTxn sid listed with
    | none => panic
    | some t =>
      match ← executeTree g t p with
      | some e => return some e
      | none =>
        multiStmtTxnUnBinding sid false
        return none

/-- The body of a statement without two-phase commit. -/
def planBody (g : Goroutine) (t : TxnId) : Except Err Plan → Go (Option Err)
  | .error e => return some e
  | .ok p => executeTree g t p

/-- A transaction of one statement that is bound to the session while `body` runs. -/
def boundTransaction (g : Goroutine) (sid : SessionId) (onRep : Bool) (body : TxnId → Go (Option Err)) :
    Go (Option Err) := do
  match ← createTransaction g with
  | .error e => return some e
  | .ok t =>
    act (.writeTxn t (.isExecOnRep onRep))
    txnBinding sid t
    let r ← body t
    txnUnBinding sid
    finish g t
    return r

/-- `Spanner.executeWithTimeout`. -/
def executeWithTimeout (g : Goroutine) (sid : SessionId) (onRep : Bool) (plan : Except Err Plan) :
    Go (Option Err) :=
  boundTransaction g sid onRep fun t => planBody g t plan

/-- The queries of a streaming select, once the planner has found them. -/
def streamBody (g : Goroutine) (t : TxnId) : Except Err (List PlanQuery) → Go (Option Err)
  | .error e => return some e
  | .ok querys => txnExecuteStreamFetch g t { querys := querys.map PlanQuery.tuple }

/-- `Spanner.ExecuteStreamFetch`. -/
def executeStreamFetch (g : Goroutine) (sid : SessionId) (onRep : Bool)
    (plan : Except Err (List PlanQuery)) : Go (Option Err) :=
  boundTransaction g sid onRep fun t => streamBody g t plan

/-- `Spanner.ExecuteDDL`, refused inside a multi-statement transaction. -/
def executeDDL (g : Goroutine) (sid : SessionId) (query : String) (plan : Except Err Plan) :
    Go (Option Err) := do
  if ← act .twopcEnable then
    match ← sessionTransaction sid with
    | some _ => return some (.text ("in.multiStmtTrans.unsupported.DDL:" ++ query ++ "."))
    | none => executeWithTimeout g sid false plan
  else executeWithTimeout g sid false plan

/-- `Spanner.ExecuteDML`, for the statements that `IsDML` accepts. -/
def executeDML (g : Goroutine) (sid : SessionId) (onRep : Bool) (plan : Except Err Plan) :
    Go (Option Err) := do
  if ← act .twopcEnable then
    match ← sessionTransaction sid with
    | none =>
      let r ← executeSingleStmtTxnTwoPC g sid onRep plan
      return r.map Prod.snd
    | some _ => executeMultiStmtsInTxn g sid plan
  else executeWithTimeout g sid onRep plan

/-- A transaction that no session sees. -/
def freeTransaction (g : Goroutine) (body : TxnId → Go (Except Err Result)) : Go (Option Err) := do
  match ← createTransaction g with
  | .error e => return some e
  | .ok t =>
    let r ← body t
    finish g t
    return errOf r

/-- `Spanner.ExecuteSingle`. -/
def executeSingle (g : Goroutine) (query : String) : Go (Option Err) :=
  freeTransaction g fun t => txnExecuteSingle g t (.sql query)

/-- `Spanner.ExecuteScatter`. -/
def executeScatter (g : Goroutine) (query : String) : Go (Option Err) :=
  freeTransaction g fun t => txnExecuteScatter g t (.sql query)

/-- `Spanner.ExecuteOnThisBackend`. -/
def executeOnThisBackend (g : Goroutine) (back : Backend) (query : String) : Go (Option Err) :=
  freeTransaction g fun t => txnExecuteOnThisBackend g t back (.sql query)

/-- The part of `ExecuteBegin` after the checks. -/
def beginMultiStmt (g : Goroutine) (sid : SessionId) : Go (Option Err) := do
  match ← createTransaction g with
  | .error e => return some e
  | .ok t =>
    act (.writeTxn t (.isMultiStmtTxn true))
    act (.writeTxn t (.isExecOnRep false))
    multiStmtTxnBinding sid (some t)
    match ← beginScatter g t with
    | some e =>
      finish g t
      multiStmtTxnUnBinding sid true
      return some e
    | none => return none

/-- `Spanner.ExecuteBegin`. -/
def executeBegin (g : Goroutine) (sid : SessionId) : Go (Option Err) := do
  if ← act .twopcEnable then
    match ← sessionTransaction sid with
    | some _ => return some (.text "ExecuteMultiStatBegin.nestedTxn.unsupported")
    | none => beginMultiStmt g sid
  else return some (.text "spanner.query.execute.multistmt.txn.error[twopc-disable]")

/-- `Spanner.ExecuteCommit` and `Spanner.ExecuteRollback`: the call that ends the transaction, and
the texts of the two refusals. -/
def executeEnd (g : Goroutine) (sid : SessionId) (call : Goroutine → TxnId → Go (Option Err))
    (disabled missing : String) : Go (Option Err) := do
  if ← act .twopcEnable then
    match ← sessionTransaction sid with
    | none => return some (.text missing)
    | some t =>
      multiStmtTxnBinding sid none
      match ← call g t with
      | some e => return some e
      | none =>
        multiStmtTxnUnBinding sid true
        finish g t
        return none
  else return some (.text disabled)

/-- `Spanner.ExecuteCommit`. -/
def executeCommit (g : Goroutine) (sid : SessionId) : Go (Option Err) :=
  executeEnd g sid commitScatter "spanner.execute.multistmt.txn.commit.error:[twopc-disable]"
    "unsupported: commit.without.txn.begin"

/-- `Spanner.ExecuteRollback`. -/
def executeRollback (g : Goroutine) (sid : SessionId) : Go (Option Err) :=
  executeEnd g sid rollbackScatter "spanner.execute.multistmt.txn.rollback.error[twopc-disable]"
    "unsupported: rollback.without.txn.begin"

/-- `handleSelect` and `handleSelectStream`: the session variable or the hint asks for streaming. -/
def handleSelect (g : Goroutine) (sid : SessionId) (hint onRep : Bool) (plan : Except Err Plan)
    (stream : Except Err (List PlanQuery)) : Go (Option Err) := do
  if ← act (.sessionListed sid) then
    let s ← act (.readSession sid)
    if s.streamingFetch || hint then executeStreamFetch g sid onRep stream
    else executeDML g sid onRep plan
  else panic

/-- `handleOptimizeTable` and `handleCheckTable`: one statement per table. -/
def handleTables (g : Goroutine) (sid : SessionId) : List (Except Err Plan) → Go (Option Err)
  | [] => return none
  | plan :: tables => do
    match ← executeWithTimeout g sid false plan with
    | some e => return some e
    | none => handleTables g sid tables

/-- `handleChecksumTable`: a table that does not exist is skipped. -/
def handleChecksumTable (g : Goroutine) (sid : SessionId) (quick : Bool) :
    List (Except Err Plan) → Go (Option Err)
  | [] => return none
  | plan :: tables => do
    if quick then handleChecksumTable g sid quick tables
    else
      match ← executeWithTimeout g sid false plan with
      | none => handleChecksumTable g sid quick tables
      | some e =>
        let missing ← act .choose
        if missing = 0 then return some e else handleChecksumTable g sid quick tables

/-- `handleKill`, after the privilege check. -/
def handleKill (g : Goroutine) (id : SessionId) : Go (Option Err) := do
  let denied ← act .choose
  if denied = 0 then
    sessionsKill g id
    return none
  else return some (.sql 1095)

/-- `handleSet` of `autocommit` to false, which begins a transaction if the proxy is configured so. -/
def handleAutocommitOff (g : Goroutine) (sid : SessionId) (isTxn : Bool) : Go (Option Err) :=
  if isTxn then executeBegin g sid else return none

/-- `handleSet` of `radon_streaming_fetch`. -/
def handleStreamingFetch (sid : SessionId) (b : Bool) : Go (Option Err) := do
  if ← act (.sessionListed sid) then
    act (.writeSession sid (.streamingFetch b))
    return none
  else panic

/-- A client command. `single`, `scatter` and `onBackend` stand for the statements that run without
the planner: `USE`, `SHOW`, `HELP`, `DO` and the like. -/
inductive Command
  | begin
  | commit
  | rollback
  | dml (onRep : Bool) (plan : Except Err Plan)
  | select (hint onRep : Bool) (plan : Except Err Plan) (stream : Except Err (List PlanQuery))
  | ddl (query : String) (plan : Except Err Plan)
  | checksum (quick : Bool) (tables : List (Except Err Plan))
  | tables (tables : List (Except Err Plan))
  | single (query : String)
  | scatter (query : String)
  | onBackend (back : Backend) (query : String)
  | setStreaming (b : Bool)
  | autocommitOff (isTxn : Bool)
  | kill (id : SessionId)
  | quit

/-- `Spanner.ComQuery`, after the parser, in the goroutine of the session; `quit` is
`SessionClosed`. -/
def comQuery (g : Goroutine) (sid : SessionId) : Command → Go (Option Err)
  | .begin => executeBegin g sid
  | .commit => executeCommit g sid
  | .rollback => executeRollback g sid
  | .dml onRep plan => executeDML g sid onRep plan
  | .select hint onRep plan stream => handleSelect g sid hint onRep plan stream
  | .ddl query plan => executeDDL g sid query plan
  | .checksum quick tables => handleChecksumTable g sid quick tables
  | .tables tables => handleTables g sid tables
  | .single query => executeSingle g query
  | .scatter query => executeScatter g query
  | .onBackend back query => executeOnThisBackend g back query
  | .setStreaming b => handleStreamingFetch sid b
  | .autocommitOff isTxn => handleAutocommitOff g sid isTxn
  | .kill id => handleKill g id
  | .quit => do
    sessionsKill g sid
    return none

/-- The commands of a connection, one after the other, with their answers. -/
def runCommands (g : Goroutine) (sid : SessionId) : List Command → Go (List (Option Err))
  | [] => return []
  | cmd :: cmds => do
    let r ← comQuery g sid cmd
    let rest ← runCommands g sid cmds
    return r :: rest

/-- `Sessions.Close`, over the sessions it meets. -/
def sessionsClose (g : Goroutine) : List SessionId → Go Unit
  | [] => return ()
  | sid :: sids => do
    if ← act (.sessionListed sid) then
      sessionClose g sid
      sessionsClose g sids
    else sessionsClose g sids

/-- What runs side by side in a process. -/
inductive Task
  | client (cmds : List Command)
  | xaCheck (ticks : ℕ)
  | shutdown (sids : List SessionId)

/-- A task with its number, which is also the session id of a client connection. -/
def runTask (k : ℕ) : Task → Go Unit
  | .client cmds => do
    act (.addSession k)
    let _ ← runCommands [.task k] k cmds
    return ()
  | .xaCheck ticks => xaCommitCheck [.task k] ticks
  | .shutdown sids => sessionsClose [.task k] sids

/-- A process with `n` tasks. -/
def process (tasks : ℕ → Task) (n : ℕ) : Go (List Unit) :=
  Prog.forkAll (fun k => runTask k (tasks k)) (List.range n)

end Radon
