import Radon.Planner.Expr
import Radon.Router.Router

/-!
# The FROM clause

What the planner keeps for every table, the test by which it decides that the partitions of two tables lie
side by side, and the rows that table expressions stand for. A row of a join is an environment: it gives a row
to every table of the join, and nothing to the tables that an outer join leaves out.
-/

namespace Radon.Planner

/-- `builder.tableInfo`, without the plan node that holds the table: `refer` is the name by which the
query refers to it, the alias if it has one. `segments` is its route. -/
structure TableInfo where
  database : String
  tableName : String
  refer : String
  shardKey : String
  shardType : MethodType
  tableConfig : TableConfig
  segments : List Segment := []

/-- What `scanAliasedTableExpr` reads from the router. -/
def tableInfo (database name asName : String) (t : Table) : TableInfo where
  database := database
  tableName := name
  refer := if asName = "" then name else asName
  shardKey := t.tableConfig.shardKey
  shardType := t.tableConfig.shardType
  tableConfig := t.tableConfig

/-- `ColIdent.EqualString`. -/
def equalString (name str : String) : Bool := name.toLower = str.toLower

/-- The loop of `isSameShard` over the partitions: as many on both sides, with the same segments on
the same backends. -/
def samePartitions : List PartitionConfig → List PartitionConfig → Bool
  | [], [] => true
  | l :: ltp, r :: rtp => l.segment = r.segment && l.backend = r.backend && samePartitions ltp rtp
  | _, _ => false

/-- `isSameShard` for the tables of the two columns. -/
def isSameShard (lt rt : TableInfo) (lcn rcn : ColName) : Bool :=
  lt.shardKey ≠ "" && equalString lcn.name lt.shardKey && rt.shardKey ≠ "" &&
    equalString rcn.name rt.shardKey && samePartitions lt.tableConfig.partitions rt.tableConfig.partitions

theorem samePartitions_iff (ltp rtp : List PartitionConfig) : samePartitions ltp rtp = true ↔
      ltp.map PartitionConfig.place = rtp.map PartitionConfig.place := by
  induction ltp generalizing rtp with
  | nil => cases rtp <;> simp [samePartitions]
  | cons l ltp ih =>
    cases rtp with
    | nil => simp [samePartitions]
    | cons r rtp => simp [samePartitions, ih, PartitionConfig.place]

/-- The joins of `sqlparser.JoinTableExpr`; a straight join is an inner join. -/
inductive JoinKind
  | inner
  | left
  | right
  deriving DecidableEq

/-- `sqlparser.TableExpr`, without parentheses, which the tree makes superfluous. `comma` stands for
the rest of a list. -/
inductive TableExpr (V : Type)
  | table (database name asName : String)
  | comma (left right : TableExpr V)
  | join (kind : JoinKind) (left right : TableExpr V) (on : Option (Expr V))

variable {V : Type}

/-- The values of a row by the names of the columns, in lower case. -/
abbrev Row (V : Type) := String → WithBot V

/-- A row of a join. -/
abbrev Env (V : Type) := String → Option (Row V)

/-- A row of one table. -/
def Env.single (refer : String) (row : Row V) : Env V := fun table =>
  if table = refer then some row else none

/-- The table of a column: without a qualifier it is the only table of the statement, or the one that
the schema of the tables gives. -/
def colTable (sem : Sem V) (scope : List String) (c : ColName) : String :=
  if c.table = "" then
    match scope with
    | [table] => table
    | _ => sem.resolve c.name.toLower
  else c.table

/-- The values of the columns in a row of a join, in a statement over the tables of `scope`. -/
def Env.val (sem : Sem V) (scope : List String) (env : Env V) : Valuation V := fun c =>
  match env (colTable sem scope c) with
  | some row => row c.name.toLower
  | none => ⊥

end Radon.Planner
