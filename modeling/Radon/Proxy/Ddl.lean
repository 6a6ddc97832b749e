import Radon.Proxy.Execute

/-!
# Data definition statements

`handleDDL` checks the privileges on every database it has collected, and then changes the router and
the backends in the order of the action.
-/

namespace Radon.Proxy

/-- The names of the system databases. -/
def systemDatabases : List String := ["SYS", "MYSQL", "INFORMATION_SCHEMA", "PERFORMANCE_SCHEMA"]

/-- `Router.IsSystemDB`. -/
def isSystemDB (db : String) : Bool := systemDatabases.contains db.toUpper

/-- `Router.DatabaseACL`. -/
def databaseACL (db : String) : Option String :=
  if isSystemDB db then some ("Access denied; lacking privileges for database " ++ db) else none

/-- The error for a table that is not in the router. -/
def noSuchTable (table : String) : String := "Table '" ++ table ++ "' doesn't exist"

/-- `checkEngine`, with the statement it leaves. -/
def checkEngine (d : DDL) : Except String DDL :=
  let engine := d.tableSpec.engine
  if engine = "" then .ok { d with tableSpec := { d.tableSpec with engine := "InnoDB" } }
  else if engine.toLower = "innodb" || engine.toLower = "tokudb" then .ok d
  else .error ("Unknown storage engine '" ++ engine ++
    "', currently we only support InnoDB and TokuDB")

/-- The column carries a unique or primary constraint. -/
def ColumnDefinition.constrained (c : ColumnDefinition) : Bool := c.primaryKey || c.uniqueKey

/-- The index carries a unique or primary constraint. -/
def IndexDefinition.constrained (i : IndexDefinition) : Bool := i.unique || i.primary

/-- The error for a constraint that leaves out the sharding key. -/
def constraintError (shardKey : String) : String :=
  "The unique/primary constraint should be only defined on the sharding key column[" ++ shardKey ++ "]"

/-- `checkShardKey`. -/
def checkShardKey (d : DDL) (shardKey : String) : Except String Unit :=
  let isKey (name : String) : Bool := name.toLower = shardKey.toLower
  let columns := d.tableSpec.columns
  if !columns.any fun c => isKey c.name then
    .error ("Sharding Key column '" ++ shardKey ++ "' doesn't exist in table")
  else if columns.any fun c => !isKey c.name && c.constrained then .error (constraintError shardKey)
  else if d.tableSpec.indexes.any fun i => i.constrained && !i.columns.any isKey then
    .error (constraintError shardKey)
  else .ok ()

/-- The sharding key of a table that names none: the first column with a constraint, or else the first
column of the first index with one. -/
def constrainedColumn (spec : TableSpec) : Except String String :=
  match spec.columns.find? ColumnDefinition.constrained with
  | some c => .ok c.name.toLower
  | none =>
    match spec.indexes.find? IndexDefinition.constrained with
    | some ⟨_, _, column :: _⟩ => .ok column.toLower
    | some ⟨_, _, []⟩ => .error "runtime error: index out of range"
    | none => .error ("The unique/primary constraint shoule be defined or add " ++
        "'PARTITION BY HASH' to mandatory indication")

/-- `tryGetShardKey`. -/
def tryGetShardKey (d : DDL) : Except String String := do
  if d.table.name = "dual" then
    throw ("spanner.ddl.check.create.table[" ++ d.table.name ++ "].error:not support")
  let checked (shardKey : String) : Except String String := do
    checkShardKey d shardKey
    return shardKey
  match d.partitionOption with
  | .hash name _ => checked name.toLower
  | .list name _ => checked name.toLower
  | .normal => checked (← constrainedColumn d.tableSpec)
  | .global | .single _ => return ""

/-- `autoincrement.GetAutoIncrement` for a table to be created. -/
def getAutoIncrement (d : DDL) : Except String (Option String) :=
  match d.tableSpec.columns.find? ColumnDefinition.autoincrement with
  | none => .ok none
  | some c =>
    if c.type.toLower = "bigint" then .ok (some c.name)
    else .error ("autoincrement.column.type[" ++ c.type ++ "].must.be[bigint]")

/-- What `handleDDL` works out of a statement that creates a table. -/
structure NewTable where
  ddl : DDL
  shardKey : String
  autoIncrement : Option String

/-- The checks of a statement that creates a table. -/
def newTable (d : DDL) : Except String NewTable := do
  let d ← checkEngine d
  return ⟨d, ← tryGetShardKey d, ← getAutoIncrement d⟩

variable (env : Env) (ses : Session)

/-- The database that a statement works on. -/
def ddlDatabase (d : DDL) : String :=
  if d.action ≠ .dropTable ∧ d.table.qualifier ≠ "" then d.table.qualifier
  else if d.database ≠ "" then d.database
  else ses.schema

/-- The databases that `handleDDL` checks. For every qualified table of a `DROP TABLE` it adds the
qualifier of the statement's single table, which such a statement does not have. -/
def ddlDatabases (d : DDL) : List String :=
  (if d.action = .dropTable then
    (d.tables.filter fun t => t.qualifier ≠ "").map fun _ => d.table.qualifier
  else []) ++ [ddlDatabase ses d]

/-- The backends that a new table is distributed over. -/
def newTableBackends (backends : List String) : PartitionOption → Handler (List String)
  | .single backendName =>
    if backendName = "" then return backends
    else do
      if ← checkBackend backendName then return [backendName]
      else throw ("create table distributed by backend '" ++ backendName ++ "' doesn't exist")
  | _ => return backends

/-- A new table in the router and then on the backends; a failure takes it out of the router again. -/
def installTable (database : String) (d : DDL) (new : NewTable) (backends : List String) :
    Handler Unit := do
  raise (← changeRouter (.createTable database d.table.name new.shardKey d.partitionOption backends
    new.autoIncrement))
  match ← observe (executeDDL env ses database (env.format (.ddl new.ddl)) (.ddl new.ddl)) with
  | .ok () => return ()
  | .error e =>
    let _ ← changeRouter (.dropTable database d.table.name)
    throw e

/-- `CREATE TABLE` in `handleDDL`. -/
def createTable (database : String) (d : DDL) : Handler Unit := do
  let all ← backends
  raise (← checkDatabase database)
  if d.ifNotExists && (← tableExists database d.table.name) then return ()
  let new ← ofExcept (newTable d)
  installTable env ses database d new (← newTableBackends all d.partitionOption)

/-- The query for one table of a `DROP TABLE`. -/
def dropTableQuery (t : TableName) : String :=
  if t.qualifier = "" then "drop table " ++ t.name else "drop table " ++ t.qualifier ++ "." ++ t.name

/-- `DROP TABLE` in `handleDDL`: the loop over the tables of the statement. The first table that is
missing ends an `IF EXISTS` statement. -/
def dropTables (database : String) (d : DDL) : List TableName → Handler Unit
  | [] => return ()
  | t :: ts => do
    let db := t.database database
    raise (← checkDatabase db)
    if d.ifExists && !(← tableExists db t.name) then return ()
    let r ← observe (executeDDL env ses db (dropTableQuery t) (.ddl { d with table := t }))
    let _ ← changeRouter (.dropTable db t.name)
    ofExcept r
    dropTables database d ts

/-- The statements on one table in `handleDDL`. -/
def alterTable (database query : String) (d : DDL) : Handler Unit := do
  raise (← checkDatabase database)
  if ← tableExists database d.table.name then executeDDL env ses database query (.ddl d)
  else throw (noSuchTable d.table.name)

/-- `RENAME TABLE` in `handleDDL`. -/
def renameTable (database query : String) (d : DDL) : Handler Unit := do
  raise (← checkDatabase database)
  if !(← tableExists database d.table.name) then throw (noSuchTable d.table.name)
  else if ← tableExists database d.newName.name then
    throw ("Table '" ++ d.newName.name ++ "' already exists")
  else
    executeDDL env ses database query (.ddl d)
    raise (← changeRouter (.renameTable database d.table.name d.newName.name))

/-- `ALTER DATABASE` in `handleDDL`. -/
def alterDatabase (database query : String) (d : DDL) : Handler Unit := do
  if d.database ≠ "" then
    raise (← checkDatabase d.database)
    executeScatter query
  else
    raise (← checkDatabase database)
    executeScatter (env.format (.ddl { d with database := database }))

/-- `CREATE DATABASE` in `handleDDL`. -/
def createDatabase (database query : String) (d : DDL) : Handler Unit := do
  if (← checkDatabase database).isNone && d.ifNotExists then return ()
  raise (← changeRouter (.createDatabase database))
  executeScatter query

/-- `DROP DATABASE` in `handleDDL`. -/
def dropDatabase (database query : String) (d : DDL) : Handler Unit := do
  if (← checkDatabase database).isSome && d.ifExists then return ()
  executeScatter query
  raise (← changeRouter (.dropDatabase database))

/-- `Spanner.handleDDL` after the checks. -/
def ddlAction (query : String) (d : DDL) : Handler Unit :=
  let database := ddlDatabase ses d
  match d.action with
  | .createDB => createDatabase database query d
  | .dropDB => dropDatabase database query d
  | .createTable => createTable env ses database d
  | .dropTable => dropTables env ses database d d.tables
  | .createIndex | .dropIndex | .alterEngine | .alterCharset | .alterAddColumn | .alterDropColumn
  | .alterModifyColumn | .truncateTable => alterTable env ses database query d
  | .alterDatabase => alterDatabase env database query d
  | .rename => renameTable env ses database query d
  | .other => throw ("unsupported.query:" ++ query)

/-- The checks of `handleDDL` for one database. -/
def checkDdl (d : DDL) (db : String) : Handler Unit := do
  raise (databaseACL db)
  raise (← check db (.ddl d))

/-- `Spanner.handleDDL`. -/
def handleDDL (query : String) (d : DDL) : Handler Unit := do
  forEach (checkDdl d) (ddlDatabases ses d)
  ddlAction env ses query d

end Radon.Proxy
