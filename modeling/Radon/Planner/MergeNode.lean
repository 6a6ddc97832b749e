import Radon.Planner.Where

/-!
# Nodes that are pushed down

A `MergeNode` is a part of the statement that goes to the backends as one query for every segment. Its
conditions collect the indexes of its route.
-/

namespace Radon.Planner

variable {V : Type}

/-- An expression in the select list: a value, or a condition whose truth value becomes a column. -/
inductive Field (V : Type)
  | scalar (s : Scalar V)
  | cond (e : Expr V)

/-- The columns of a select expression. -/
def Field.cols : Field V → List ColName
  | .scalar s => s.cols
  | .cond e => e.cols

/-- `builder.MergeNode`. `ast` is the part of the statement that the node came from; `from_`, `wheres` and
`havings` are the clauses of its query. -/
structure MergeNode (V : Type) where
  from_ : TableExpr V
  ast : TableExpr V
  wheres : List (Expr V) := []
  referTables : List TableInfo
  nonGlobalCnt : ℕ
  indexes : List ℕ := []
  backend : String := ""
  routeLen : ℕ := 0
  fields : List (Field V) := []
  havings : List (Expr V) := []

/-- The tables of the node by the names of the statement. -/
def MergeNode.tables (m : MergeNode V) : List String := m.referTables.map TableInfo.refer

/-- The entry of a table in `referTables`. -/
def findTable (tbInfos : List TableInfo) (table : String) : Option TableInfo :=
  tbInfos.find? fun tbInfo => tbInfo.refer = table

/-- `MergeNode.addWhere`. -/
def MergeNode.addWhere (m : MergeNode V) (expr : Expr V) : MergeNode V :=
  { m with wheres := m.wheres ++ [expr] }

/-- `fetchIndex` for several literals. -/
def MergeNode.fetchIndexes (r : Router) (H : Hasher) (tbInfo : TableInfo) :
    List SQLVal → MergeNode V → Except String (MergeNode V)
  | [], m => .ok m
  | val :: vals, m => do
    match ← r.getIndex H tbInfo.database tbInfo.tableName val with
    | some idx => MergeNode.fetchIndexes r H tbInfo vals { m with indexes := m.indexes ++ [idx] }
    | none => .error "runtime error: index out of range"

/-- `MergeNode.pushFilter`. -/
def MergeNode.pushFilter (r : Router) (H : Hasher) (m : MergeNode V) (filter : ExprInfo V) :
    Except String (MergeNode V) :=
  let m := m.addWhere filter.expr
  match filter.referTables, filter.cols with
  | [table], col :: _ =>
    match findTable m.referTables table with
    | some tbInfo =>
      if tbInfo.shardKey ≠ "" ∧ filter.vals ≠ [] ∧ col.nameMatch table tbInfo.shardKey = true then
        m.fetchIndexes r H tbInfo filter.vals
      else .ok m
    | none => .error "runtime error: nil pointer dereference"
  | _, _ => .ok m

/-- `MergeNode.pushKeyFilter`. -/
def MergeNode.pushKeyFilter (r : Router) (H : Hasher) (m : MergeNode V) (filter : ExprInfo V)
    (table field : String) : Except String (MergeNode V) :=
  let m := m.addWhere filter.expr
  match findTable m.referTables table with
  | some tbInfo =>
    if equalString tbInfo.shardKey field = true ∧ filter.vals ≠ [] then
      m.fetchIndexes r H tbInfo filter.vals
    else .ok m
  | none => .error "runtime error: nil pointer dereference"

/-- The loop of `MergeNode.calcRoute` over the tables of a node that has a partitioned or single table:
the tables with their segments, the backend and the length of the route. -/
def calcTables (r : Router) (indexes : List ℕ) :
    List TableInfo → String → ℕ → Except String (List TableInfo × String × ℕ)
  | [], backend, routeLen => .ok ([], backend, routeLen)
  | tbInfo :: tbInfos, backend, routeLen =>
    if tbInfo.shardType = .global then do
      let (rest, backend, routeLen) ← calcTables r indexes tbInfos backend routeLen
      return (tbInfo :: rest, backend, routeLen)
    else do
      let segments ← r.getSegments tbInfo.database tbInfo.tableName indexes
      let backend := match segments with
        | [seg] => if backend = "" then seg.backend else backend
        | _ => backend
      let routeLen := if routeLen = 0 then segments.length else routeLen
      let (rest, backend, routeLen) ← calcTables r indexes tbInfos backend routeLen
      return ({ tbInfo with segments := segments } :: rest, backend, routeLen)

/-- `MergeNode.calcRoute`. A node with global tables only goes to one backend of one of them: `pick` is
the table that the loop meets first and the random index. -/
def MergeNode.calcRoute (r : Router) (pick : MergeNode V → ℕ × ℕ) (m : MergeNode V) :
    Except String (MergeNode V) :=
  if m.nonGlobalCnt = 0 then
    match m.referTables[(pick m).1 % m.referTables.length]? with
    | none => .ok m
    | some tbInfo => do
      let segments ← r.lookupAll tbInfo.database tbInfo.tableName
      let idx := (pick m).2 % segments.length
      match segments[idx]? with
      | none => .error "invalid argument to Intn"
      | some seg => return { m with backend := seg.backend, indexes := m.indexes ++ [idx], routeLen := 1 }
  else do
    let (referTables, backend, routeLen) ← calcTables r m.indexes m.referTables m.backend m.routeLen
    return { m with referTables := referTables, backend := backend, routeLen := routeLen }

/-- The query of a node for one position of its route: the backend, and the physical name of every
table. -/
structure SegmentQuery where
  backend : String
  names : List (String × String)
  deriving DecidableEq

/-- The loop of `buildQuery` over the tables of a node at position `i`. -/
def segmentNames (i : ℕ) : List TableInfo → String → Except String SegmentQuery
  | [], backend => .ok ⟨backend, []⟩
  | tbInfo :: tbInfos, backend =>
    if tbInfo.shardKey = "" then do
      let q ← segmentNames i tbInfos backend
      return { q with names := (tbInfo.refer, tbInfo.tableName) :: q.names }
    else
      match tbInfo.segments[i]? with
      | none => .error "runtime error: index out of range"
      | some seg =>
        if seg.range = .nil then .error "runtime error: nil pointer dereference"
        else do
          let q ← segmentNames i tbInfos (if backend = "" then seg.backend else backend)
          return { q with names := (tbInfo.refer, seg.table) :: q.names }

/-- `MergeNode.buildQuery`: one query for every position of the route. -/
def MergeNode.queries (m : MergeNode V) : Except String (List SegmentQuery) :=
  (List.range m.routeLen).mapM fun i => segmentNames i m.referTables m.backend

/-- `scanAliasedTableExpr`. -/
def scanAliasedTableExpr (r : Router) (database dbName name asName : String) :
    Except String (MergeNode V) := do
  let db := if dbName = "" then database else dbName
  let t ← r.getTable db name
  let partitioned := t.tableConfig.shardType = .hash ∨ t.tableConfig.shardType = .list
  -- a partitioned table without an alias gets its name as the alias
  let asName := if partitioned ∧ asName = "" then name else asName
  return {
    from_ := .table db name asName
    ast := .table db name asName
    referTables := [tableInfo db name asName t]
    nonGlobalCnt := if t.tableConfig.shardType = .global then 0 else 1
    indexes := if t.tableConfig.shardType = .single then [0] else [] }

end Radon.Planner
