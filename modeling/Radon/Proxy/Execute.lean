import Radon.Proxy.Handler

/-!
# Executing queries

The ways in which the proxy sends queries to the backends: along a plan, in a two-phase transaction of
one statement, in the session's transaction, as a stream, or as they are. `ExecuteDML` is the only one
that checks privileges.
-/

namespace Radon.Proxy

/-- The configuration of the proxy, and the parser's functions on statements. `columnsOf` is the
comparison of the columns `TABLE_SCHEMA` and `TABLE_NAME` with literals in a condition, and
`renameColumns` replaces the literal of `TABLE_NAME`. -/
structure Env where
  highWater : Bool
  readOnly : Bool
  twoPC : Bool
  autocommitFalseIsTxn : Bool
  lowerCaseTableNames : Bool
  parse : String → Except String Statement
  generate : Statement → List (String × String) → Except String String
  lowerCase : Statement → Statement
  format : Statement → String
  columnsOf : SQLNode → Option (String × String)
  renameColumns : Select → String → Select

/-- What a command reads of its session; `inTxn` says whether a transaction is bound to it. -/
structure Session where
  schema : String
  user : String
  streamingFetch : Bool
  inTxn : Bool

variable (env : Env) (ses : Session)

/-- A query in a transaction of its own: `ExecuteSingle`, `ExecuteScatter` and
`ExecuteOnThisBackend`. -/
def execute (target : Target) (query : String) : Handler (List (List String)) := do
  raise (← createTransaction)
  ofExcept (← sendQuery target query)

def executeSingle (query : String) : Handler Unit := do
  let _ ← execute .single query

def executeScatter (query : String) : Handler Unit := do
  let _ ← execute .scatter query

def executeOnThisBackend (backend query : String) : Handler (List (List String)) :=
  execute (.backend backend) query

/-- The queries of a plan. The backends work at the same time, so that an error keeps no query from
being sent. -/
def sendAll : List String → Handler Unit
  | [] => return ()
  | query :: queries => do
    let r ← sendQuery .planned query
    sendAll queries
    let _ ← ofExcept r

/-- `Spanner.executeWithTimeout`. -/
def executeWithTimeout (database query : String) (node : Statement) : Handler Unit := do
  raise (← createTransaction)
  sendAll (← ofExcept (← buildPlanTree database query node))

/-- `Spanner.ExecuteNormal`. -/
def executeNormal (database query : String) (node : Statement) : Handler Unit :=
  executeWithTimeout database query node

/-- `Spanner.ExecuteDDL`. -/
def executeDDL (database query : String) (node : Statement) : Handler Unit :=
  if env.twoPC && ses.inTxn then throw ("in.multiStmtTrans.unsupported.DDL:" ++ query ++ ".")
  else executeWithTimeout database query node

/-- `Spanner.ExecuteMultiStmtsInTxn`. -/
def executeMultiStmtsInTxn (database query : String) (node : Statement) : Handler Unit := do
  sendAll (← ofExcept (← buildPlanTree database query node))

/-- `Spanner.ExecuteSingleStmtTxnTwoPC`. -/
def executeSingleStmtTxnTwoPC (database query : String) (node : Statement) : Handler Unit := do
  raise (← createTransaction)
  let queries ← ofExcept (← buildPlanTree database query node)
  match ← observe (sendAll queries) with
  | .error e =>
    let _ ← rollbackStatement
    throw e
  | .ok () => raise (← commitStatement node)

/-- `Spanner.ExecuteStreamFetch`. -/
def executeStreamFetch (database query : String) (node : Select) : Handler Unit := do
  raise (← createTransaction)
  sendAll (← ofExcept (← buildStreamPlan database query node))

/-- `Spanner.IsDML`. -/
def isDML : Statement → Bool
  | .select _ | .union _ | .insert _ | .delete _ | .update _ => true
  | _ => false

/-- `Spanner.ExecuteDML`. -/
def executeDML (database query : String) (node : Statement) : Handler Unit := do
  raise (← check ses.schema node)
  if env.twoPC && isDML node then
    if ses.inTxn then executeMultiStmtsInTxn database query node
    else executeSingleStmtTxnTwoPC database query node
  else executeNormal database query node

/-- `Spanner.ExecuteBegin`. -/
def executeBegin : Handler Unit :=
  if !env.twoPC then throw "spanner.query.execute.multistmt.txn.error[twopc-disable]"
  else if ses.inTxn then throw "ExecuteMultiStatBegin.nestedTxn.unsupported"
  else do
    raise (← createTransaction)
    raise (← beginScatter)

/-- `Spanner.ExecuteRollback`. -/
def executeRollback : Handler Unit :=
  if !env.twoPC then throw "spanner.execute.multistmt.txn.rollback.error[twopc-disable]"
  else if !ses.inTxn then throw "unsupported: rollback.without.txn.begin"
  else do raise (← rollbackScatter)

/-- `Spanner.ExecuteCommit`. -/
def executeCommit : Handler Unit :=
  if !env.twoPC then throw "spanner.execute.multistmt.txn.commit.error:[twopc-disable]"
  else if !ses.inTxn then throw "unsupported: commit.without.txn.begin"
  else do raise (← commitScatter)

/-- `Spanner.handleMultiStmtTxn`. -/
def handleMultiStmtTxn : TransactionAction → Handler Unit
  | .start | .begin => executeBegin env ses
  | .rollback => executeRollback env ses
  | .commit => executeCommit env ses

end Radon.Proxy
