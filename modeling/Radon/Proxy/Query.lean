import Mathlib.Data.List.DropRight
import Radon.Proxy.Ddl

/-!
# The dispatch of queries

`ComQuery` sends texts of a connector to a backend as they are, prepares every other text (parsing, bind
variables, lower-case table names), refuses writes in read-only mode, and hands the statement to its
handler.
-/

namespace Radon.Proxy

variable (env : Env) (ses : Session)

/-! ## Reading statements -/

/-- `Spanner.handleUseDB`. -/
def handleUseDB (query db : String) : Handler Unit := do
  raise (databaseACL db)
  executeSingle query
  setSchema db

/-- `Spanner.handleSelect`, `handleDelete` and `handleUpdate`. -/
def handleSelect (query : String) (node : Statement) : Handler Unit :=
  executeDML env ses ses.schema query node

/-- The first segment that a lookup without a key returns. -/
def firstSegment (db table : String) : Handler Segment := do
  match ← ofExcept (← lookup db table) with
  | [] => throw "runtime error: index out of range"
  | seg :: _ => return seg

/-- `Spanner.handleSelectInformationschema`. -/
def handleSelectInformationschema (query table : String) (s : Select) : Handler Unit :=
  match if table.toUpper = "COLUMNS" then env.columnsOf s.where_ else none with
  | none => executeSingle query
  | some (schema, name) => do
    let seg ← firstSegment schema name
    let _ ← executeOnThisBackend seg.backend (env.format (.select (env.renameColumns s seg.table)))

/-- `Spanner.handleSelectSystem`. -/
def handleSelectSystem (query : String) (t : TableName) (s : Select) : Handler Unit :=
  if t.qualifier.toUpper = "INFORMATION_SCHEMA" then handleSelectInformationschema env query t.name s
  else executeSingle query

/-- A text without its spaces. -/
def removeSpaces (s : String) : String := String.ofList (s.toList.filter (· ≠ ' '))

/-- The first comment of a `SELECT` asks for a stream. -/
def Select.streamingHint (s : Select) : Bool :=
  match s.comments with
  | [] => false
  | c :: _ => removeSpaces c = "/*+streaming*/"

/-- `SELECT` in `ComQuery`. -/
def comSelect (query : String) (s : Select) : Handler Unit :=
  if ses.streamingFetch || s.streamingHint then executeStreamFetch ses.schema query s
  else
    match s.from_ with
    | [] => throw "runtime error: index out of range"
    | .table t _ :: _ =>
      if t.name = "dual" then executeSingle query
      else if isSystemDB t.qualifier then handleSelectSystem env query t s
      else handleSelect env ses query (.select s)
    | _ => handleSelect env ses query (.select s)

/-- `Spanner.handleExplain`. -/
def handleExplain (query : String) (node : Statement) : Handler Unit := do
  raise (← check ses.schema node)
  match node with
  | .insert i =>
    let columns ← ofExcept (← autoIncrement ses.schema i)
    let _ ← ofExcept (← buildPlanTree ses.schema query (.insert { i with columns := some columns }))
  | .union _ | .select _ | .delete _ | .update _ =>
    let _ ← ofExcept (← buildPlanTree ses.schema query node)
  | _ => throw "explain only supports SELECT/DELETE/INSERT/UNION"

/-! ## Inserts -/

/-- The columns of a statement without a column list, asked of the first partition. -/
def describeColumns (database table : String) : Handler (List String) := do
  match (← ofExcept (← tableConfig database table)).partitions with
  | [] => throw "runtime error: index out of range"
  | part :: _ =>
    let rows ← executeOnThisBackend part.backend ("desc " ++ database ++ "." ++ part.table)
    return rows.filterMap List.head?

/-- The part of `handleInsert` for partitioned tables. -/
def prepareInsert (database : String) (i : Insert) : Handler Insert := do
  let columns ← match i.columns with
    | some columns => pure columns
    | none => describeColumns database i.table.name
  let i := { i with columns := some columns }
  let columns ← ofExcept (← autoIncrement database i)
  return { i with columns := some columns }

/-- `Spanner.handleInsert`. -/
def handleInsert (query : String) (i : Insert) : Handler Unit := do
  let database := i.table.database ses.schema
  let i ← match ← ofExcept (← partitionType database i.table.name) with
    | .hash | .list => prepareInsert database i
    | .global | .single => pure i
  executeDML env ses database query (.insert i)

/-! ## SHOW -/

/-- The error for a command that needs a current database. -/
def noDatabase : String := "No database selected"

/-- The commands that need the super privilege. -/
def requireSuper : Handler Unit := do
  if !(← isSuperPriv) then throw "Access denied; lacking super privilege for the operation"

/-- The query of `SHOW STATUS` on every backend. -/
def statusQuery : String :=
  "select count(0), round((sum(data_length) + sum(index_length)) / 1024/ 1024, 0)  " ++
    "from information_schema.TABLES  " ++
    "where table_schema not in ('sys', 'information_schema', 'mysql', 'performance_schema')"

/-- `Spanner.handleShowStatus`: the backends that fail are skipped. -/
def handleShowStatus : Handler Unit := do
  requireSuper
  forEach (fun backend => do
    let _ ← observe (executeOnThisBackend backend statusQuery)) (← allBackends)

/-- The database of a `SHOW` command, which must be given and must not be a system database. -/
def showDatabase (db : String) : Handler String :=
  if db = "" then throw noDatabase
  else do
    raise (databaseACL db)
    return db

/-- `Spanner.handleShowTables` and `handleShowTableStatus`. -/
def handleShowScatter (command : String) (s : Show) : Handler Unit := do
  let database ← showDatabase (if s.database ≠ "" then s.database else ses.schema)
  executeScatter (command ++ database)

/-- `Spanner.handleShowCreateTable`. -/
def handleShowCreateTable (s : Show) : Handler Unit := do
  let database ← showDatabase (s.table.database ses.schema)
  let config ← ofExcept (← tableConfig database s.table.name)
  let seg ← firstSegment database s.table.name
  let table := if config.shardKey = "" then s.table.name else seg.table
  let _ ← executeOnThisBackend seg.backend ("SHOW CREATE TABLE " ++ database ++ "." ++ table)

/-- `Spanner.handleShowColumns` and `handleShowIndex`. -/
def handleShowPart (s : Show) : Handler Unit := do
  let database ← showDatabase (s.table.database ses.schema)
  let seg ← firstSegment database s.table.name
  let _ ← executeOnThisBackend seg.backend
    (env.format (.show { s with table := ⟨database, seg.table⟩ }))

/-- `SHOW` in `ComQuery`. -/
def comShow (query : String) (s : Show) : Handler Unit :=
  match s.type with
  | .status => handleShowStatus
  | .versions => return ()
  | .tables => handleShowScatter ses "SHOW TABLES FROM " s
  | .tableStatus => handleShowScatter ses "SHOW TABLE STATUS from " s
  | .createTable => handleShowCreateTable ses s
  | .columns | .index => handleShowPart env ses s
  | .processlist => do
    let _ ← isSuperPriv
  | .queryz | .txnz => requireSuper
  | .databases | .engines | .createDatabase | .warnings | .variables | .collation | .charset =>
    executeSingle query
  | .other => throw ("unsupported.query:" ++ query)

/-! ## Commands on the session and the cluster -/

/-- `Spanner.handleKill`. -/
def handleKill (queryID : ℕ) : Handler Unit := do
  let id := queryID % 2 ^ 32
  if !(← isSuperPriv) then
    match ← sessionUser id with
    | none => throw "runtime error: invalid memory address or nil pointer dereference"
    | some user =>
      if user ≠ ses.user then throw ("You are not owner of thread " ++ toString id)
  killSession id

/-- The name of an administrative command. -/
def RadonAction.text : RadonAction → String
  | .attach => "attach"
  | .detach => "detach"
  | .attachList => "attachlist"
  | .reshard => "reshard"
  | .cleanup => "cleanup"
  | .rebalance => "rebalance"
  | .xaRecover => "xa recover"
  | .xaCommit => "xa commit"
  | .xaRollback => "xa rollback"

/-- The row of a command has the number of values that `ATTACH` or `DETACH` takes. -/
def RadonCommand.rowOk (r : RadonCommand) : Bool :=
  r.row.all fun row => row.length = 1 ∨ row.length = 3

/-- `Spanner.handleRadon`. -/
def handleRadon (r : RadonCommand) : Handler Unit := do
  if !r.rowOk then throw ("spanner.query.execute.radon." ++ r.action.text ++ ".error,")
  raise (← runAdmin r)

/-- The value of `autocommit` that a `SET` asks for. -/
def SetVal.autocommit : SetVal → Bool
  | .int s => s.toList.head? ≠ some '0'
  | .str s => s.toLower ≠ "off"
  | .bool b => b
  | .other => true

/-- `SET radon_streaming_fetch`. -/
def setStreamingFetch : SetVal → Handler Unit
  | .str s =>
    if s.toLower = "on" then setStreamingFetchVar true
    else if s.toLower = "off" then setStreamingFetchVar false
    else return ()
  | .int s => throw ("Invalid value type: " ++ s)
  | .bool b => setStreamingFetchVar b
  | .other => return ()

/-- The variable of a `SET` without the scope. -/
def variableName (name : String) : String :=
  if "@@session.".toList.isPrefixOf name.toList then String.ofList (name.toList.drop 10) else name

/-- `Spanner.handleSet`. A transaction that `autocommit` opens ends the loop. -/
def handleSet : List (String × SetVal) → Handler Unit
  | [] => return ()
  | (name, val) :: exprs =>
    if variableName name = "radon_streaming_fetch" then do
      setStreamingFetch val
      handleSet exprs
    else if variableName name = "autocommit" ∧ !val.autocommit ∧ env.autocommitFalseIsTxn then
      handleMultiStmtTxn env ses .begin
    else handleSet exprs

/-! ## Maintenance of tables -/

/-- `strings.Contains`. -/
def contains (s part : String) : Bool := s.toList.tails.any fun t => part.toList.isPrefixOf t

/-- One table in `handleChecksumTable`: a table that does not exist is no error. -/
def checksumTable (quick : Bool) (t : TableName) : Handler Unit :=
  if quick then return ()
  else do
    match ← observe (executeNormal ses.schema (env.format (.checksum [t] quick)) (.checksum [t] quick)) with
    | .ok () => return ()
    | .error e => if contains e "doesn't exist" then return () else throw e

/-- `Spanner.handleChecksumTable`. -/
def handleChecksumTable (tables : List TableName) (quick : Bool) : Handler Unit :=
  forEach (checksumTable env ses quick) tables

/-- `Spanner.handleOptimizeTable` and `handleCheckTable`. -/
def handleTables (statement : List TableName → Statement) (tables : List TableName) : Handler Unit :=
  forEach (fun t => executeNormal ses.schema (env.format (statement [t])) (statement [t])) tables

/-! ## ComQuery -/

/-- `strings.TrimSpace`. -/
def trimSpace (s : String) : String :=
  String.ofList ((s.toList.dropWhile Char.isWhitespace).rdropWhile Char.isWhitespace)

/-- `strings.TrimSuffix` with a semicolon. -/
def trimSemicolon (s : String) : String :=
  if s.toList.getLast? = some ';' then String.ofList s.toList.dropLast else s

/-- The error for a text that is not parsed. -/
def syntaxError (e : String) : String :=
  "You have an error in your SQL syntax; check the manual that corresponds to your MySQL server " ++
    "version for the right syntax to use, " ++ e

/-- The preparation of a text in `ComQuery`: the query that the handlers work with, and its
statement. -/
def prepare (query : String) (binds : Option (List (String × String))) :
    Except String (String × Statement) := do
  let query := trimSemicolon (trimSpace query)
  let node ← (env.parse query).mapError syntaxError
  let (query, node) ← match binds with
    | none => pure (query, node)
    | some vars => do
      let query ← (env.generate node vars).mapError syntaxError
      let node ← (env.parse query).mapError syntaxError
      pure (query, node)
  if env.lowerCaseTableNames then return (env.format (env.lowerCase node), env.lowerCase node)
  else return (query, node)

/-- `Spanner.IsDMLWrite`. -/
def isDMLWrite : Statement → Bool
  | .insert _ | .delete _ | .update _ => true
  | _ => false

/-- `Spanner.IsDDL`. -/
def isDDL : Statement → Bool
  | .ddl _ => true
  | _ => false

/-- The administrative commands that are refused in read-only mode. -/
def RadonAction.changes : RadonAction → Bool
  | .attach | .detach | .reshard | .cleanup | .xaCommit | .xaRollback | .rebalance => true
  | .attachList | .xaRecover => false

/-- `Spanner.IsAdminCmd`. -/
def isAdminCmd : Statement → Bool
  | .radon r => r.action.changes
  | _ => false

/-- The statements that are refused in read-only mode. -/
def Statement.isWrite (s : Statement) : Bool := isDMLWrite s || isDDL s || isAdminCmd s

/-- The error of a refused statement. -/
def readOnlyError : String :=
  "The MySQL server is running with the --read-only option so it cannot execute this statement"

/-- `Spanner.isConnectorFilter`. -/
def isConnectorFilter (query : String) : Bool :=
  "/*".toList.isPrefixOf query.toList || "SET NAMES".toList.isPrefixOf query.toList

/-- The switch of `ComQuery` over the statements. -/
def dispatch (query : String) : Statement → Handler Unit
  | .use db => handleUseDB query db
  | .ddl d => handleDDL env ses query d
  | .show s => comShow env ses query s
  | .insert i => handleInsert env ses query i
  | .delete d => handleSelect env ses query (.delete d)
  | .update u => handleSelect env ses query (.update u)
  | .select s => comSelect env ses query s
  | .union u => handleSelect env ses query (.union u)
  | .kill queryID => handleKill ses queryID
  | .explain node => handleExplain ses query node
  | .help _ => executeSingle query
  | .transaction action => handleMultiStmtTxn env ses action
  | .radon r => handleRadon r
  | .set exprs => handleSet env ses exprs
  | .checksum tables quick => handleChecksumTable env ses tables quick
  | .optimize tables => handleTables env ses .optimize tables
  | .check tables => handleTables env ses .check tables
  | .do _ => executeSingle query
  | .parenSelect _ | .other => throw ("unsupported.query:" ++ query)

/-- `Spanner.ComQuery`. -/
def comQuery (query : String) (binds : Option (List (String × String))) : Handler Unit :=
  if env.highWater then throw "no space left on device"
  else if isConnectorFilter query then executeSingle query
  else do
    let (query, node) ← ofExcept (prepare env query binds)
    if env.readOnly && node.isWrite then throw readOnlyError
    dispatch env ses query node

end Radon.Proxy
