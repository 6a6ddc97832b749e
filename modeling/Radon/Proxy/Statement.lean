import Radon.Router.Router

/-!
# Statements

The statements that the parser builds, with the fields that the proxy reads. Below a statement the
tree is kept as the rewriter walks it: a node and its children in the order of the rewriter's cases.
The visitors of the proxy tell apart stars, column names, table names and all other nodes.
-/

namespace Radon.Proxy

/-- `sqlparser.TableName`; an empty qualifier or name stands for a missing one. -/
structure TableName where
  qualifier : String
  name : String
deriving DecidableEq

/-- `sqlparser.SQLNode`: table names, column names and stars, with the table name that qualifies
them, and all other nodes with the children that the rewriter applies itself to. -/
inductive SQLNode
  | table (t : TableName)
  | column (t : TableName)
  | star (t : TableName)
  | node (children : List SQLNode)

namespace SQLNode

/-- A missing or childless part of a statement. -/
def leaf : SQLNode := .node []

variable {σ : Type}

mutual

/-- `sqlparser.Walk` with a visitor that never returns an error: the visitor changes the state and
says whether the children are visited. -/
def walk (visit : SQLNode → σ → Bool × σ) : SQLNode → σ → σ
  | .table t, s => (visit (.table t) s).2
  | .column t, s =>
    let (kontinue, s) := visit (.column t) s
    if kontinue then (visit (.table t) s).2 else s
  | .star t, s =>
    let (kontinue, s) := visit (.star t) s
    if kontinue then (visit (.table t) s).2 else s
  | .node children, s =>
    let (kontinue, s) := visit (.node children) s
    if kontinue then walkList visit children s else s

/-- `Walk` over the children of a node. -/
def walkList (visit : SQLNode → σ → Bool × σ) : List SQLNode → σ → σ
  | [], s => s
  | n :: ns, s => walkList visit ns (walk visit n s)

end

mutual

/-- The table names of a tree that are not part of a star or a column name, in the order of the
walk. -/
def tableNames : SQLNode → List TableName
  | .table t => [t]
  | .column _ => []
  | .star _ => []
  | .node children => tableNamesList children

/-- The table names below a list of nodes. -/
def tableNamesList : List SQLNode → List TableName
  | [] => []
  | n :: ns => tableNames n ++ tableNamesList ns

end

end SQLNode

/-- `sqlparser.TableExpr`: an aliased table, an aliased subquery, or a join or a list in
parentheses. -/
inductive TableExpr
  | table (t : TableName) (hints : SQLNode)
  | subquery (query hints : SQLNode)
  | compound (e : SQLNode)

def TableExpr.tree : TableExpr → SQLNode
  | .table t hints => .node [.leaf, .table t, hints]
  | .subquery query hints => .node [.leaf, query, hints]
  | .compound e => e

/-- `sqlparser.Select`. -/
structure Select where
  comments : List String := []
  selectExprs : SQLNode := .leaf
  from_ : List TableExpr
  where_ : SQLNode := .leaf
  groupBy : SQLNode := .leaf
  having : SQLNode := .leaf
  orderBy : SQLNode := .leaf
  limit : SQLNode := .leaf

def Select.tree (s : Select) : SQLNode :=
  .node [.leaf, .node (s.from_.map TableExpr.tree), s.groupBy, s.having, s.limit, s.orderBy,
    s.selectExprs, s.where_]

/-- `sqlparser.Union`. -/
structure Union where
  left : SQLNode
  right : SQLNode
  orderBy : SQLNode := .leaf
  limit : SQLNode := .leaf

/-- `sqlparser.Insert`; `columns` is `none` for a statement without a column list. -/
structure Insert where
  table : TableName
  columns : Option (List String)
  partitions : SQLNode := .leaf
  rows : SQLNode
  onDup : SQLNode := .leaf

/-- `sqlparser.Update`. -/
structure Update where
  table : TableName
  exprs : SQLNode
  where_ : SQLNode := .leaf
  orderBy : SQLNode := .leaf
  limit : SQLNode := .leaf

/-- `sqlparser.Delete`. -/
structure Delete where
  tableRefs : List TableExpr
  tableList : List TableName := []
  partitions : SQLNode := .leaf
  where_ : SQLNode := .leaf
  orderBy : SQLNode := .leaf
  limit : SQLNode := .leaf

/-- `sqlparser.ColumnDefinition`, with its key and auto-increment options. -/
structure ColumnDefinition where
  name : String
  type : String
  autoincrement : Bool := false
  primaryKey : Bool := false
  uniqueKey : Bool := false

/-- `sqlparser.IndexDefinition`. -/
structure IndexDefinition where
  unique : Bool
  primary : Bool
  columns : List String

/-- `sqlparser.TableSpec`. -/
structure TableSpec where
  columns : List ColumnDefinition := []
  indexes : List IndexDefinition := []
  engine : String := ""

/-- `sqlparser.PartitionOption`. -/
inductive PartitionOption
  | hash (name : String) (partitionNum : Option SQLVal)
  | list (name : String) (partDefs : List PartitionDefinition)
  | normal
  | global
  | single (backendName : String)

/-- The actions of `sqlparser.DDL`. -/
inductive DDLAction
  | createDB | dropDB | createTable | dropTable | createIndex | dropIndex
  | alterEngine | alterCharset | alterAddColumn | alterDropColumn | alterModifyColumn
  | truncateTable | alterDatabase | rename | other
deriving DecidableEq

/-- `sqlparser.DDL`. -/
structure DDL where
  action : DDLAction
  ifExists : Bool := false
  ifNotExists : Bool := false
  table : TableName := ⟨"", ""⟩
  newName : TableName := ⟨"", ""⟩
  database : String := ""
  tables : List TableName := []
  tableSpec : TableSpec := {}
  partitionOption : PartitionOption := .normal

/-- The types of `sqlparser.Show`. -/
inductive ShowType
  | databases | status | versions | engines | tables | createTable | columns | index | processlist
  | queryz | txnz | createDatabase | tableStatus | warnings | variables | collation | charset | other
deriving DecidableEq

/-- `sqlparser.Show`. -/
structure Show where
  type : ShowType
  table : TableName := ⟨"", ""⟩
  database : String := ""
  limit : SQLNode := .leaf
  filter : SQLNode := .leaf

/-- The actions of `sqlparser.Radon`. -/
inductive RadonAction
  | attach | detach | attachList | reshard | cleanup | rebalance | xaRecover | xaCommit | xaRollback
deriving DecidableEq

/-- `sqlparser.Radon`. -/
structure RadonCommand where
  action : RadonAction
  row : Option (List String) := none
  table : TableName := ⟨"", ""⟩
  newName : TableName := ⟨"", ""⟩

/-- The actions of `sqlparser.Transaction`. -/
inductive TransactionAction
  | start | begin | rollback | commit
deriving DecidableEq

/-- The value that a variable is set to. -/
inductive SetVal
  | str (s : String)
  | int (s : String)
  | bool (b : Bool)
  | other

/-- `sqlparser.Statement`. -/
inductive Statement
  | use (dbName : String)
  | ddl (d : DDL)
  | show (s : Show)
  | insert (i : Insert)
  | delete (d : Delete)
  | update (u : Update)
  | select (s : Select)
  | union (u : Union)
  | parenSelect (query : SQLNode)
  | kill (queryID : ℕ)
  | explain (s : Statement)
  | help (info : String)
  | transaction (action : TransactionAction)
  | radon (r : RadonCommand)
  | set (exprs : List (String × SetVal))
  | checksum (tables : List TableName) (quick : Bool)
  | optimize (tables : List TableName)
  | check (tables : List TableName)
  | do (exprs : SQLNode)
  | other

/-- `sqlparser.TableNames` in the tree. -/
def namesTree (tables : List TableName) : SQLNode := .node (tables.map SQLNode.table)

/-- A statement as the rewriter walks it. -/
def Statement.tree : Statement → SQLNode
  | .ddl d => .node [.leaf, .leaf, .leaf, .leaf, .table d.newName, .table d.table, .leaf,
      namesTree d.tables, .leaf]
  | .show s => .node [.leaf, s.filter, s.limit, .table s.table]
  | .insert i => .node [.leaf, .leaf, i.onDup, i.partitions, i.rows, .table i.table]
  | .delete d => .node [.leaf, d.limit, d.orderBy, d.partitions, namesTree d.tableList,
      .node (d.tableRefs.map TableExpr.tree), d.where_]
  | .update u => .node [.leaf, u.exprs, u.limit, u.orderBy, .table u.table, u.where_]
  | .select s => s.tree
  | .union u => .node [u.left, u.limit, u.orderBy, u.right]
  | .parenSelect query => .node [query]
  | .explain s => .node [s.tree]
  | .radon r => .node [.table r.newName, .leaf, .table r.table]
  | .checksum tables _ => .node [namesTree tables]
  | .optimize tables => .node [namesTree tables]
  | .check tables => .node [namesTree tables]
  | .do exprs => .node [exprs]
  | .use _ | .kill _ | .help _ | .transaction _ | .set _ | .other => .leaf

/-- The table names that a walk over a statement meets outside stars and column names. -/
def Statement.tableNames (s : Statement) : List TableName := s.tree.tableNames

/-- The tables that a statement refers to. -/
def Statement.tableRefs (s : Statement) : List TableName := s.tableNames.filter fun t => t.name ≠ ""

/-- The database of a table in a session with a current database. -/
def TableName.database (t : TableName) (schema : String) : String :=
  if t.qualifier = "" then schema else t.qualifier

end Radon.Proxy
