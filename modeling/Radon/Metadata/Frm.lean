import Radon.Concurrency.Monitor
import Radon.FileSystem.Path
import Radon.Router.Router

/-!
# The files of the router

The router writes every database as a directory of its metadata directory and every table as a file
in it, and puts a new version beside them after each change. An operation is a program over calls of
the operating system; any call may fail. A panic is an error like any other. The field `files` of the
router is not used here, since the files are reached by their paths.
-/

namespace Radon.Metadata

open Concurrency FileSystem

/-- `config.BackendConfig`. -/
structure BackendConfig where
  name : String
  address : String
  replica : String
  user : String
  password : String
  dbName : String
  charset : String
  maxConnections : ℤ
  role : ℤ
deriving DecidableEq

/-- What the files of the metadata directory hold, as it is before it is written in JSON. -/
inductive Content
  | table (conf : TableConfig)
  | version (ts : ℤ)
  | backends (confs : List BackendConfig)
  | peers (addresses : List String)

/-- The calls of the operating system. -/
inductive OsCall
  | now
  | stat (path : List Char)
  | mkdirAll (path : List Char)
  | writeFile (path : List Char) (content : Content)
  | remove (path : List Char)
  | removeAll (path : List Char)

/-- What a call returns; `os.Stat` says whether there is something at the path. -/
def OsCall.Res : OsCall → Type
  | .now => ℤ
  | .stat _ => Bool
  | .mkdirAll _ | .writeFile _ _ | .remove _ | .removeAll _ => Option String

/-- A sequence of calls. -/
abbrev Frm := Prog OsCall OsCall.Res

/-- `time.Now().UnixNano()`. -/
def now : Frm ℤ := Prog.perform OsCall.now

/-- `os.Stat`. -/
def stat (path : List Char) : Frm Bool := Prog.perform (OsCall.stat path)

/-- `os.MkdirAll`. -/
def mkdirAll (path : List Char) : Frm (Option String) := Prog.perform (OsCall.mkdirAll path)

/-- `xbase.WriteFile`. -/
def writeFile (path : List Char) (content : Content) : Frm (Option String) :=
  Prog.perform (OsCall.writeFile path content)

/-- `os.Remove`. -/
def remove (path : List Char) : Frm (Option String) := Prog.perform (OsCall.remove path)

/-- `os.RemoveAll`. -/
def removeAll (path : List Char) : Frm (Option String) := Prog.perform (OsCall.removeAll path)

/-! ## Versions, tables and databases on disk -/

/-- `versionJSONFile`. -/
def versionJSONFile : List Char := "version.json".toList

/-- `config.UpdateVersion`. -/
def updateVersion (metadir : List Char) : Frm (Option String) := do
  let ts ← now
  writeFile (join metadir versionJSONFile) (.version ts)

/-- The name of a table's file. -/
def jsonFile (table : String) : List Char := table.toList ++ ".json".toList

/-- `Router.writeTableFrmData`. -/
def writeTableFrmData (metadir : List Char) (db table : String) (tconf : TableConfig) :
    Frm (Option String) :=
  writeFile (join (join metadir db.toList) (jsonFile table)) (.table tconf)

/-- `Router.removeTableFrmData`. -/
def removeTableFrmData (metadir : List Char) (db table : String) : Frm (Option String) :=
  remove (join (join metadir db.toList) (jsonFile table))

/-- `Router.writeDatabaseFrmData`. -/
def writeDatabaseFrmData (metadir : List Char) (db : String) : Frm (Option String) := do
  let exists_ ← stat (join metadir db.toList)
  if exists_ then return none else mkdirAll (join metadir db.toList)

/-- The end of an operation: after an error of its last call the router is as it is left then, otherwise
the version is written. -/
def finish (metadir : List Char) (err : Option String) (failed done : Router) :
    Frm (Option String × Router) :=
  match err with
  | some e => return (some e, failed)
  | none => do
    let err ← updateVersion metadir
    return (err, done)

/-! ## Databases -/

/-- `checkNameInvalid`. -/
def checkNameInvalid (name : String) : Bool := name.toList.any fun c => c = ' ' || c = '/'

/-- The error of a name that is too long. -/
def tooLongIdent (name : String) : String := "Identifier name '" ++ name ++ "' is too long"

/-- `Router.addDatabase`. -/
def addDatabase (r : Router) (db : String) : Except String Router :=
  if db = "" then .error "router.database.should.not.be.empty"
  else if r.databases db then .error "router.database.exists"
  else .ok { r with databases := Function.update r.databases db true }

/-- The router without a database and its tables. -/
def deleteDatabase (r : Router) (db : String) : Router :=
  { r with
    databases := Function.update r.databases db false
    tables := Function.update r.tables db fun _ => none }

/-- `Router.CreateDatabase`. -/
def createDatabase (metadir : List Char) (db : String) (r : Router) : Frm (Option String × Router) :=
  if 64 < db.utf8ByteSize then return (some (tooLongIdent db), r)
  else if checkNameInvalid db then
    return (some ("invalid.database.name.currently.not.support.dbname[" ++ db ++
      "].contains.with.char:'/' or space ' '"), r)
  else
    match addDatabase r db with
    | .error e => return (some e, r)
    | .ok r => do
      let err ← writeDatabaseFrmData metadir db
      finish metadir err (deleteDatabase r db) r

/-- `Router.DropDatabase`. -/
def dropDatabase (metadir : List Char) (db : String) (r : Router) : Frm (Option String × Router) :=
  if r.databases db then do
    let err ← removeAll (join metadir db.toList)
    finish metadir err (deleteDatabase r db) (deleteDatabase r db)
  else return (some ("router.can.not.find.db[" ++ db ++ "]"), r)

/-! ## Tables -/

/-- `Router.createTable`. -/
def createTable (metadir : List Char) (db table : String) (conf : TableConfig) (r : Router) :
    Frm (Option String × Router) :=
  if 64 < table.utf8ByteSize + 5 then return (some (tooLongIdent table), r)
  else if checkNameInvalid table then
    return (some ("invalid.table.name.currently.not.support.tablename[" ++ table ++
      "].contains.with.char:'/' or space ' '"), r)
  else
    match r.addTable db conf with
    | (some e, r) => return (some e, r)
    | (none, r) => do
      let err ← writeTableFrmData metadir db table conf
      finish metadir err (r.removeTable db table) r

/-- Create a table from the configuration that one of the `Uniform` functions computes. -/
def createFrom (metadir : List Char) (db table : String) (conf : Except String TableConfig)
    (r : Router) : Frm (Option String × Router) :=
  match conf with
  | .error e => return (some e, r)
  | .ok conf => createTable metadir db table conf r

/-- `Router.DropTable`. -/
def dropTable (metadir : List Char) (db table : String) (r : Router) : Frm (Option String × Router) :=
  if r.databases db then
    match r.tables db table with
    | none => return (some ("router.can.not.find.table[" ++ table ++ "]"), r)
    | some _ => do
      let err ← removeTableFrmData metadir db table
      finish metadir err (r.removeTable db table) (r.removeTable db table)
  else return (some ("router.can.not.find.db[" ++ db ++ "]"), r)

/-- `Router.getRenameTableConfig`: the new configuration, which is already that of the old table. -/
def getRenameTableConfig (r : Router) (db fromTable toTable : String) :
    Except String (TableConfig × Router) :=
  if r.databases db then
    match r.tables db fromTable with
    | none => .error ("router.can.not.find.table[" ++ fromTable ++ "]")
    | some table =>
      match r.tables db toTable with
      | some _ => .error ("router.find.table[" ++ toTable ++ "].exists")
      | none =>
        let conf := table.tableConfig.rename fromTable toTable
        .ok (conf, r.putTable db fromTable (some { table with tableConfig := conf }))
  else .error ("router.can.not.find.db[" ++ db ++ "]")

/-- `Router.RenameTable`. -/
def renameTable (metadir : List Char) (db fromTable toTable : String) (r : Router) :
    Frm (Option String × Router) :=
  match getRenameTableConfig r db fromTable toTable with
  | .error e => return (some e, r)
  | .ok (conf, r) => do
    let out ← createTable metadir db toTable conf r
    match out with
    | (some e, r) => return (some e, r)
    | (none, r) => dropTable metadir db fromTable r

/-! ## Operations -/

/-- An operation on the databases and tables of the router. -/
inductive FrmOp
  | createDatabase (db : String)
  | dropDatabase (db : String)
  | createHashTable (db table shardKey : String) (backends : List String) (partitionNum : Option SQLVal)
  | createListTable (order : ListOrder) (db table shardKey : String) (defs : List PartitionDefinition)
  | createGlobalTable (db table : String) (backends : List String)
  | createSingleTable (db table : String) (backends : List String)
  | dropTable (db table : String)
  | renameTable (db fromTable toTable : String)

/-- The database of an operation. -/
def FrmOp.database : FrmOp → String
  | .createDatabase db | .dropDatabase db | .createHashTable db _ _ _ _ | .createListTable _ db _ _ _
  | .createGlobalTable db _ _ | .createSingleTable db _ _ | .dropTable db _ | .renameTable db _ _ => db

/-- The calls of an operation, with its error and the router it leaves. -/
def FrmOp.frm (metadir : List Char) (r : Router) : FrmOp → Frm (Option String × Router)
  | .createDatabase db => Metadata.createDatabase metadir db r
  | .dropDatabase db => Metadata.dropDatabase metadir db r
  | .createHashTable db table shardKey backends partitionNum =>
    createFrom metadir db table (r.hashUniform table shardKey backends partitionNum) r
  | .createListTable order db table shardKey defs =>
    createFrom metadir db table (listUniform order table shardKey defs) r
  | .createGlobalTable db table backends =>
    createFrom metadir db table (globalUniform table backends) r
  | .createSingleTable db table backends =>
    createFrom metadir db table (singleUniform table backends) r
  | .dropTable db table => Metadata.dropTable metadir db table r
  | .renameTable db fromTable toTable => Metadata.renameTable metadir db fromTable toTable r

end Radon.Metadata
