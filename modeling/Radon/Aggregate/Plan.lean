import Radon.Aggregate.LimitPlan
import Radon.Aggregate.Values
import Radon.Planner.MergeNode

/-!
# Planning groups, aggregates, order and limit

What `processSelect` does with the clauses of a statement whose tables all go to the backends as one
query for every segment: the query that is sent, and the steps that the proxy takes on the rows that come
back. The planner looks the names of `GROUP BY` and `ORDER BY` up in the select list; the backends have
their own rules for them, which a `Scope` stands for.

The rows of the `FROM` and `WHERE` clauses are of an arbitrary type `R`. No column has the name `*`.
-/

namespace Radon.Aggregate

open Planner (ColName TableInfo findTable equalString)

variable {R V K : Type}

/-- An expression: its value for a row, and the order and the numbers that the backends see in its
values, which depend on its type and its collation. -/
structure Scalar (R V K : Type) where
  eval : R → Option V
  rank : V → K
  number : V → ℚ

/-- An aggregate function. The proxy knows some of them. -/
inductive AggrFunc
  | known (typ : AggrType)
  | other (name : String)
  deriving DecidableEq

/-- What a column of a query is: an expression, or an aggregate over one; `count(*)` counts a constant. -/
inductive Output (R V K : Type)
  | plain (e : Scalar R V K)
  | aggr (func : AggrFunc) (distinct : Bool) (e : Scalar R V K)

/-- A column of a query with the name and the table that the backends report for it. -/
structure OutCol (R V K : Type) where
  name : String
  table : String
  output : Output R V K

/-- A column of a table. -/
structure TableCol (R V K : Type) where
  name : String
  table : String
  expr : Scalar R V K

/-- The column in a query. -/
def TableCol.outCol (c : TableCol R V K) : OutCol R V K := ⟨c.name, c.table, .plain c.expr⟩

/-- `builder.selectTuple`: `table` is the table of a column, of the column that an aggregate is over, or of a
`*`, and `aggrField` is what an aggregate is over. A column is no aggregate. `star` says that the tuple is a
`*`, and has the columns it stands for, which only the backends know; there is at least one. -/
structure SelectTuple (R V K : Type) where
  field : String
  asName : String := ""
  table : String := ""
  aggr : Option AggrFunc := none
  aggrField : String := ""
  distinct : Bool := false
  isCol : Bool := false
  expr : Scalar R V K
  star : Option (List (TableCol R V K)) := none
  aggr_of_isCol : isCol = true → aggr = none := by simp
  of_star : star ≠ none → aggr = none ∧ isCol = false ∧ asName = "" := by simp
  star_ne_nil : star ≠ some [] := by simp

/-- A column with the name it is given. -/
def SelectTuple.column (field asName table : String) (expr : Scalar R V K) : SelectTuple R V K where
  field := field
  asName := asName
  table := table
  isCol := true
  expr := expr

/-- The name of the column in the result. -/
def SelectTuple.name (t : SelectTuple R V K) : String := if t.asName = "" then t.field else t.asName

/-- What the select expression asks for. -/
def SelectTuple.output (t : SelectTuple R V K) : Output R V K :=
  match t.aggr with
  | none => .plain t.expr
  | some func => .aggr func t.distinct t.expr

/-- The select expression as a column. -/
def SelectTuple.outCol (t : SelectTuple R V K) : OutCol R V K :=
  ⟨t.name, if t.aggr = none then t.table else "", t.output⟩

/-- The columns of the query for the select expression. -/
def SelectTuple.outCols (t : SelectTuple R V K) : List (OutCol R V K) :=
  match t.star with
  | none => [t.outCol]
  | some cols => cols.map TableCol.outCol

/-- An element of `ORDER BY`. -/
structure Order where
  col : ColName
  desc : Bool

/-- The clauses of a `SELECT`. -/
structure Statement (R V K : Type) where
  items : List (SelectTuple R V K)
  groupBy : List ColName := []
  distinct : Bool := false
  orderBy : List Order := []
  limit : Option LimitClause := none

/-- A table with the key `id`. -/
def keyedTable (name : String) : TableInfo where
  database := "db"
  tableName := name
  refer := name
  shardKey := "id"
  shardType := .hash
  tableConfig := ⟨name, 4096, 128, .hash, "id", []⟩

/-- The tables of a statement, and what the backends take a name for: in the select list, in `GROUP BY`
and in `ORDER BY`. -/
structure Scope (R V K : Type) where
  tables : List TableInfo
  column : ColName → Scalar R V K
  groupCol : ColName → Scalar R V K
  orderCol : ColName → Scalar R V K

/-! ## Aggregates -/

/-- `builder.aggrType`. -/
inductive AggrKind
  | nullAgg
  | canPush
  | notPush
  deriving DecidableEq

/-- `setAggregatorType`. -/
def setAggregatorType (hasAggr hasDist isMergeNode : Bool) : AggrKind :=
  if hasAggr then if hasDist || !isMergeNode then .notPush else .canPush
  else .nullAgg

/-- The kind of the aggregates that `parseSelectExprs` reports for a merge node. -/
def aggrKind (items : List (SelectTuple R V K)) : AggrKind :=
  setAggregatorType (items.any fun t => t.aggr.isSome) (items.any fun t => t.aggr.isSome && t.distinct) true

/-- `decomposeAvg`. -/
def decomposeAvg (t : SelectTuple R V K) : List (OutCol R V K) :=
  [⟨t.name, "", .aggr (.known .sum) false t.expr⟩, ⟨"count(" ++ t.aggrField ++ ")", "", .aggr (.known .count) false t.expr⟩]

/-- `decomposeAgg`. -/
def decomposeAgg (t : SelectTuple R V K) : OutCol R V K := ⟨t.name, t.table, .plain t.expr⟩

/-- What the loop of `analyze` collects: the columns without an aggregate, the functions of the proxy and
the select list of the query. -/
structure Analyzed (R V K : Type) where
  nullAggrs : List (String × ℕ) := []
  normalAggrs : List Aggregation := []
  rewritten : List (OutCol R V K) := []

/-- The loop of `analyze` over the select list, from column `k` on. -/
def analyzeFrom (isPushDown : Bool) : ℕ → List (SelectTuple R V K) → Except String (Analyzed R V K)
  | _, [] => .ok {}
  | k, t :: tuples =>
    match t.aggr with
    | none =>
      if t.star ≠ none then .error "unsupported: exists.aggregate.and.'*'.select.exprs"
      else do
      let a ← analyzeFrom isPushDown (k + 1) tuples
      return ⟨(t.field, k) :: a.nullAggrs, a.normalAggrs, t.outCol :: a.rewritten⟩
    | some (.other name) => .error ("unsupported: function:" ++ name)
    | some (.known typ) =>
      if isPushDown then
        if typ = .avg then do
          let a ← analyzeFrom isPushDown (k + 2) tuples
          return ⟨a.nullAggrs,
            ⟨k, .avg, t.distinct, true⟩ :: ⟨k, .sum, false, true⟩ :: ⟨k + 1, .count, false, true⟩ ::
              a.normalAggrs,
            decomposeAvg t ++ a.rewritten⟩
        else do
          let a ← analyzeFrom isPushDown (k + 1) tuples
          return ⟨a.nullAggrs, ⟨k, typ, t.distinct, true⟩ :: a.normalAggrs, t.outCol :: a.rewritten⟩
      else do
        let a ← analyzeFrom isPushDown (k + 1) tuples
        return ⟨a.nullAggrs, ⟨k, typ, t.distinct, false⟩ :: a.normalAggrs, decomposeAgg t :: a.rewritten⟩

/-- The loop of `analyze` over the groups: a group is looked up by its name among the columns without an
aggregate. -/
def groupIndexes (nullAggrs : List (String × ℕ)) : List (SelectTuple R V K) → Except String (List ℕ)
  | [] => .ok []
  | group :: groups =>
    match nullAggrs.find? fun null => equalString null.1 group.field with
    | none => .error
        ("unsupported: group.by.field[" ++ group.field ++ "].should.be.in.noaggregate.select.list")
    | some null => do return null.2 :: (← groupIndexes nullAggrs groups)

/-- `builder.AggregatePlan`. -/
structure AggregatePlan where
  normalAggrs : List Aggregation
  groupAggrs : List ℕ

/-! ## Names -/

/-- The name refers to the select expression, by its alias or as a column. -/
def SelectTuple.named (t : SelectTuple R V K) (col : ColName) : Bool :=
  (col.table = "" && equalString col.name t.asName) ||
    (t.isCol && equalString col.name t.field && (col.table = "" || col.table = t.table))

/-- The first select expression that a name of `GROUP BY` refers to. -/
def findGroup (col : ColName) (tuples : List (SelectTuple R V K)) : Option (SelectTuple R V K) :=
  tuples.find? fun t => t.named col

/-- The name may be a column of the `*`. -/
def SelectTuple.mayHave (t : SelectTuple R V K) (col : ColName) : Bool :=
  t.star.isSome && (col.table = "" || t.table = "" || t.table = col.table)

/-- `checkInTuple`. -/
def checkInTuple (col : ColName) (tuples : List (SelectTuple R V K)) : Option (SelectTuple R V K) :=
  tuples.find? fun t => t.mayHave col || t.named col

/-- `checkShard`. -/
def checkShard (table col : String) (tbInfos : List TableInfo) : Except String Bool :=
  match findTable tbInfos table with
  | none => .error ("unsupported: unknown.column.'" ++ table ++ "." ++ col ++ "'.in.field.list")
  | some tbInfo => .ok (tbInfo.shardKey ≠ "" && equalString tbInfo.shardKey col)

/-- Whether the key of a table is among the groups up to this one; only a merge node looks for it. -/
def checkShardGroup (canOpt : Bool) (tbInfos : List TableInfo) (group : SelectTuple R V K) (hasShard : Bool) :
    Except String Bool :=
  if canOpt && group.isCol && !hasShard then checkShard group.table group.field tbInfos else .ok hasShard

/-- The loop of `checkGroupBy`: the select expressions that are the groups, and whether the key of a
table is among them. -/
def findGroups (canOpt : Bool) (tbInfos : List TableInfo) (fields : List (SelectTuple R V K)) :
    List ColName → Bool → Except String (List (SelectTuple R V K) × Bool)
  | [], hasShard => .ok ([], hasShard)
  | col :: exprs, hasShard =>
    if col.table ≠ "" ∧ findTable tbInfos col.table = none then
      .error ("unsupported: unknow.table.in.group.by.field[" ++ col.table ++ "." ++ col.name ++ "]")
    else
      match findGroup col fields with
      | none => .error ("unsupported: group.by.field[" ++
          (if col.table ≠ "" then col.table ++ "." ++ col.name else col.name) ++
          "].should.be.in.select.list")
      | some group => do
        let hasShard ← checkShardGroup canOpt tbInfos group hasShard
        let (groups, hasShard) ← findGroups canOpt tbInfos fields exprs hasShard
        return (group :: groups, hasShard)

/-- `checkGroupBy`: no groups are left to the proxy if a key is among them. -/
def checkGroupBy (exprs : List ColName) (fields : List (SelectTuple R V K)) (tbInfos : List TableInfo)
    (canOpt : Bool) : Except String (List (SelectTuple R V K)) := do
  let (groups, hasShard) ← findGroups canOpt tbInfos fields exprs false
  return if hasShard then [] else groups

/-- The first loop of `checkDistinct`. -/
def findShard (tbInfos : List TableInfo) : List (SelectTuple R V K) → Except String Bool
  | [] => .ok false
  | t :: fields =>
    if t.isCol then do
      if ← checkShard t.table t.field tbInfos then return true
      else findShard tbInfos fields
    else findShard tbInfos fields

/-- The column by which `checkDistinct` groups a select expression. -/
def SelectTuple.distinctCol (t : SelectTuple R V K) : Except String ColName :=
  if t.star ≠ none then .error "unsupported: distinct"
  else if t.asName = "" then
    if t.isCol then .ok { table := t.table, name := t.field } else .error "unsupported: distinct"
  else .ok { name := t.asName }

/-- `checkDistinct`: the new `GROUP BY` clause and the groups of the proxy. -/
def checkDistinct (node : Statement R V K) (groups : List (SelectTuple R V K))
    (tbInfos : List TableInfo) (canOpt : Bool) :
    Except String (List ColName × List (SelectTuple R V K)) :=
  if node.distinct = false ∨ node.groupBy ≠ [] then .ok (node.groupBy, groups)
  else do
    let hasShard ← findShard tbInfos (if canOpt then node.items else [])
    let groupBy ← node.items.mapM SelectTuple.distinctCol
    return (groupBy, if hasShard then [] else node.items)

/-! ## The node -/

/-- `builder.OrderBy`. -/
structure OrderBy where
  field : String
  table : String
  desc : Bool

/-- `builder.OrderByPlan`. -/
structure OrderByPlan where
  removedIdxs : List ℕ := []
  orderBys : List OrderBy := []

/-- `builder.ChildPlan`: a step of the proxy on the rows of the backends. -/
inductive ChildPlan
  | aggregate (plan : AggregatePlan)
  | orderBy (plan : OrderByPlan)
  | limit (plan : LimitPlan)

/-- The clauses of the query of a `MergeNode`, the select list as the planner knows it, and the steps of
the proxy. -/
structure Node (R V K : Type) where
  fields : List (SelectTuple R V K) := []
  selectExprs : List (OutCol R V K) := []
  groupBy : List ColName := []
  orderBy : List Order := []
  limit : Option ℤ := none
  children : List ChildPlan := []

/-- `MergeNode.pushSelectExpr`, with the index of the new column. -/
def Node.pushSelectExpr (m : Node R V K) (field : SelectTuple R V K) : ℕ × Node R V K :=
  (m.fields.length,
    { m with fields := m.fields ++ [field], selectExprs := m.selectExprs ++ [field.outCol] })

/-- The name by which the proxy sorts, for a name of `ORDER BY` and the select expression it refers to. -/
def SelectTuple.orderName (t : SelectTuple R V K) (col : ColName) : String :=
  if t.star = none then t.name else col.name

/-- The table of a name in `ORDER BY` that is not in the select list. -/
def orderTable (tbInfos : List TableInfo) (col : ColName) : Except String String :=
  if col.table ≠ "" then .ok col.table
  else
    match tbInfos with
    | [tbInfo] => .ok tbInfo.refer
    | _ => .error ("unsupported: column.'" ++ col.name ++ "'.in.order.clause.is.ambiguous")

/-- The column that `ORDER BY` adds to the select list. -/
def orderTuple (scope : Scope R V K) (table : String) (col : ColName) : SelectTuple R V K :=
  .column col.name "" table (scope.column col)

/-- `OrderByPlan.analyze`: a column that is not in the select list is added to it, and removed again. -/
def analyzeOrderBy (scope : Scope R V K) :
    List Order → Node R V K → OrderByPlan → Except String (Node R V K × OrderByPlan)
  | [], m, p => .ok (m, p)
  | o :: node, m, p =>
    if o.col.table ≠ "" ∧ findTable scope.tables o.col.table = none then
      .error ("unsupported: unknow.table.in.order.by.field[" ++ o.col.table ++ "." ++ o.col.name ++ "]")
    else
      match checkInTuple o.col m.fields with
      | some t =>
        analyzeOrderBy scope node m
          { p with orderBys := p.orderBys ++ [⟨t.orderName o.col, o.col.table, o.desc⟩] }
      | none => do
        let table ← orderTable scope.tables o.col
        let t := orderTuple scope table o.col
        let (index, m) := m.pushSelectExpr t
        analyzeOrderBy scope node m
          ⟨p.removedIdxs ++ [index], p.orderBys ++ [⟨t.name, o.col.table, o.desc⟩]⟩

/-- The order that the proxy puts the rows into. -/
def Node.addOrderByPlan (scope : Scope R V K) (m : Node R V K) (orderBy : List Order) :
    Except String (Node R V K) := do
  let (m, plan) ← analyzeOrderBy scope orderBy m {}
  return { m with children := m.children ++ [.orderBy plan] }

/-- The aggregates and the groups that the proxy evaluates. -/
def Node.addAggregatePlan (m : Node R V K) (groups : List (SelectTuple R V K)) (isPushDown : Bool) :
    Except String (Node R V K) := do
  let a ← analyzeFrom isPushDown 0 m.fields
  let groupAggrs ← groupIndexes a.nullAggrs groups
  return { m with selectExprs := a.rewritten
                  children := m.children ++ [.aggregate ⟨a.normalAggrs, groupAggrs⟩] }

/-- `MergeNode.pushSelectExprs`. -/
def pushSelectExprs (scope : Scope R V K) (sel : Statement R V K) (groupBy : List ColName)
    (groups : List (SelectTuple R V K)) (aggTyp : AggrKind) : Except String (Node R V K) :=
  let m : Node R V K :=
    { fields := sel.items, selectExprs := sel.items.flatMap SelectTuple.outCols, groupBy := groupBy }
  -- group by implicitly contains order by
  let m := if sel.orderBy = [] then { m with orderBy := groupBy.map fun by_ => ⟨by_, false⟩ } else m
  if groupBy ≠ [] ∧ groups = [] then
    if m.orderBy ≠ [] then m.addOrderByPlan scope m.orderBy else .ok m
  else if aggTyp ≠ .nullAgg ∨ groups ≠ [] then m.addAggregatePlan groups (aggTyp = .canPush)
  else .ok m

/-- `MergeNode.pushOrderBy`. -/
def Node.pushOrderBy (scope : Scope R V K) (m : Node R V K) (orderBy : List Order) :
    Except String (Node R V K) :=
  { m with orderBy := orderBy }.addOrderByPlan scope orderBy

/-- `MergeNode.pushLimit`: the limit of the query covers the offset, and there is none if the query has
groups. -/
def Node.pushLimit (m : Node R V K) (limit : LimitClause) : Except String (Node R V K) := do
  let plan ← limit.build
  return { m with children := m.children ++ [.limit plan]
                  limit := if m.groupBy = [] then some plan.rewritten else m.limit }

/-- The groups of the statement: the `GROUP BY` clause of the query and the groups of the proxy. -/
def checkGroups (scope : Scope R V K) (node : Statement R V K) :
    Except String (List ColName × List (SelectTuple R V K)) := do
  let groups ← checkGroupBy node.groupBy node.items scope.tables true
  checkDistinct node groups scope.tables true

/-- The clauses before the limit on the node of the statement. -/
def pushClauses (scope : Scope R V K) (node : Statement R V K) : Except String (Node R V K) := do
  let (groupBy, groups) ← checkGroups scope node
  let m ← pushSelectExprs scope node groupBy groups (aggrKind node.items)
  if node.orderBy ≠ [] then m.pushOrderBy scope node.orderBy else return m

/-- The end of `processSelect`, for a statement that goes to several segments. -/
def processSelect (scope : Scope R V K) (node : Statement R V K) : Except String (Node R V K) := do
  let m ← pushClauses scope node
  match node.limit with
  | some limit => m.pushLimit limit
  | none => return m

/-! ## Join nodes -/

/-- The tuple that `JoinNode.pushSelectExpr` keeps: an expression over tables of both sides gets its text for
a name. -/
def SelectTuple.stored (spans : SelectTuple R V K → Bool) (t : SelectTuple R V K) : SelectTuple R V K :=
  if h : t.star = none ∧ spans t = true ∧ t.asName = "" then
    { t with asName := t.field, of_star := fun hstar => absurd h.1 hstar }
  else t

/-- The first step of a join node, if it has aggregates or groups. -/
def Node.evaluateGroups (m : Node R V K) (groups : List (SelectTuple R V K)) (aggTyp : AggrKind) :
    Except String (Node R V K) :=
  if groups ≠ [] ∨ aggTyp ≠ .nullAgg then m.addAggregatePlan groups false else .ok m

/-- `JoinNode.pushSelectExprs`, up to the conditions of the join: the proxy has the rows of the join, with
one column for every expression, and evaluates all aggregates and groups. -/
def joinSelectExprs (spans : SelectTuple R V K → Bool) (sel : Statement R V K)
    (groups : List (SelectTuple R V K)) (aggTyp : AggrKind) : Except String (Node R V K) := do
  let m : Node R V K := { fields := sel.items, selectExprs := sel.items.map SelectTuple.outCol }
  let m ← m.evaluateGroups groups aggTyp
  return { m with fields := m.fields.map (SelectTuple.stored spans) }

/-- The clauses before the limit on a join node. -/
def joinClauses (spans : SelectTuple R V K → Bool) (scope : Scope R V K) (node : Statement R V K) :
    Except String (Node R V K) :=
  if node.items.any fun t => t.star.isSome then .error "unsupported: '*'.expression.in.cross-shard.query"
  else do
    let groups ← checkGroupBy node.groupBy node.items scope.tables false
    let (_, groups) ← checkDistinct node groups scope.tables false
    let aggTyp := setAggregatorType (node.items.any fun t => t.aggr.isSome)
      (node.items.any fun t => t.aggr.isSome && t.distinct) false
    let m ← joinSelectExprs spans node groups aggTyp
    if node.orderBy ≠ [] then m.addOrderByPlan scope node.orderBy else return m

/-- The end of `processSelect` for a join node. The steps of the proxy are on the rows of the join, so that no
limit goes to the queries. -/
def joinSelect (spans : SelectTuple R V K → Bool) (scope : Scope R V K) (node : Statement R V K) :
    Except String (Node R V K) := do
  let m ← joinClauses spans scope node
  match node.limit with
  | some limit =>
    let plan ← limit.build
    return { m with children := m.children ++ [.limit plan] }
  | none => return m

end Radon.Aggregate
