import Radon.Planner.Select

/-!
# The plan of a UNION

The parts of a `UNION` are planned one by one. Two parts that each go to one backend become one query, if
the backend is the same or if one of them has global tables only. A part without tables goes to any backend
that is not attached.

Only a `SELECT` on its own is refused for a subquery. A part of a `UNION` can have one in every clause that
the planner passes on as it is.
-/

namespace Radon.Planner

variable {V : Type}

/-- A table by its database and name. -/
abbrev TableRef := String × String

/-- The tables that a table expression mentions. -/
def TableExpr.mentions : TableExpr V → List TableRef
  | .table database name _ => [(database, name)]
  | .comma l r => l.mentions ++ r.mentions
  | .join _ l r _ => l.mentions ++ r.mentions

/-- The clauses of a `SELECT` that do not change its route, `GROUP BY`, `HAVING`, `ORDER BY`, `LIMIT` and the
subqueries in the select list: whether the planner accepts them on its plan, what `parseSelectExpr` says of the
functions and the subqueries of the select list, and which tables the subqueries mention in the query of a
node. -/
structure Clauses (V : Type) where
  check : PlanNode V → Except String Unit
  selectList : Except String Unit
  hasSubquery : Bool
  mentions : MergeNode V → List TableRef
  mentions_eq : hasSubquery = false → ∀ m, mentions m = []

/-- A statement without such clauses. -/
def Clauses.none : Clauses V := ⟨fun _ => .ok (), .ok (), false, fun _ => [], fun _ _ => rfl⟩

/-- `sqlparser.SelectStatement` without parentheses. Of a part from `dual` only the select list is looked at:
`fields` is its length, if it can be parsed without tables, and `mentions` are the tables of the subqueries;
`order` stands for the `ORDER BY` and `LIMIT` of a union. -/
inductive SelectStatement (V : Type)
  | select (node : Select V) (clauses : Clauses V)
  | dual (fields : Except String ℕ) (mentions : List TableRef)
  | union (left right : SelectStatement V) (mentions : List TableRef) (order : Except String Unit)

/-- A merge node with one query: of a `SELECT`, of a part from `dual`, or of a `UNION` of such. `fields` is the
number of fields that `getFields` finds, and `single` is the mode `ReqSingle`. -/
structure UnionMerge where
  fields : Except String ℕ
  backend : String
  nonGlobalCnt : ℕ
  single : Bool
  referTables : List TableInfo
  mentions : List TableRef

/-- The plan of a statement. -/
inductive UnionPlan (V : Type)
  | select (root : PlanNode V) (mentions : MergeNode V → List TableRef)
  | merged (m : UnionMerge)
  | union (left right : UnionPlan V)

/-- The number of fields of `getFields`. -/
def UnionPlan.fieldCount : UnionPlan V → Except String ℕ
  | .select root _ => .ok root.fields.length
  | .merged m => m.fields
  | .union left _ => left.fieldCount

/-- `MergeNode.getFields` of a node that takes the statement as it is: the select list is parsed when a `UNION`
asks for its length, and an error becomes a panic. -/
def MergeNode.getFields (clauses : Clauses V) (m : MergeNode V) : Except String ℕ := do
  let _ ← m.fields.mapM fun field => Planner.referTables m.referTables field.cols []
  clauses.selectList
  return m.fields.length

/-- The plan of a `SELECT`, once its clauses are accepted. -/
def UnionPlan.ofSelect (clauses : Clauses V) (root : PlanNode V) : UnionPlan V :=
  match root with
  | .merge m =>
    if m.routeLen = 1 then
      .merged ⟨m.getFields clauses, m.backend, m.nonGlobalCnt, false, m.referTables,
        m.from_.mentions ++ clauses.mentions m⟩
    else .select root clauses.mentions
  | .join _ _ _ => .select root clauses.mentions

/-- The merge node of `union`: a left node with global tables only goes where the right one goes. The tables
of the right node replace those of the same name. -/
def UnionMerge.merge (lm rm : UnionMerge) (mentions : List TableRef) : UnionMerge :=
  let follow := lm.nonGlobalCnt = 0 ∧ rm.single = false
  { fields := lm.fields
    backend := if follow then rm.backend else lm.backend
    nonGlobalCnt := lm.nonGlobalCnt
    single := if follow then rm.single else lm.single
    referTables := lm.referTables.filter (fun info => info.refer ∉ rm.referTables.map TableInfo.refer) ++
      rm.referTables
    mentions := lm.mentions ++ rm.mentions ++ mentions }

/-- `union`. -/
def union (left right : UnionPlan V) (mentions : List TableRef) (order : Except String Unit) :
    Except String (UnionPlan V) := do
  let leftCount ← left.fieldCount
  let rightCount ← right.fieldCount
  if leftCount ≠ rightCount then
    .error "unsupported: the.used.'select'.statements.have.a.different.number.of.columns"
  else
    match left, right with
    | .merged lm, .merged rm =>
      if lm.backend = rm.backend ∨ lm.nonGlobalCnt = 0 ∨ rm.nonGlobalCnt = 0 then
        return .merged (lm.merge rm mentions)
      else
        order
        return .union left right
    | left, right =>
      order
      return .union left right

/-- `processSelect` with all clauses. -/
def processClauses (r : Router) (H : Hasher) (order : InOrder V) (pick : MergeNode V → ℕ × ℕ)
    (database : String) (node : Select V) (clauses : Clauses V) : Except String (UnionPlan V) := do
  let root ← processSelect r H order pick database node
  clauses.check root
  return .ofSelect clauses root

/-- `processPart` and `processUnion`. Every part has its own random choices. -/
def processPart (r : Router) (H : Hasher) (order : InOrder V) (database : String) :
    (List Bool → MergeNode V → ℕ × ℕ) → SelectStatement V → Except String (UnionPlan V)
  | pick, .select node clauses => processClauses r H order (pick []) database node clauses
  | _, .dual fields mentions => .ok (.merged ⟨fields, "", 0, true, [], mentions⟩)
  | pick, .union left right mentions orderBy => do
    let left ← processPart r H order database (fun path => pick (false :: path)) left
    let right ← processPart r H order database (fun path => pick (true :: path)) right
    union left right mentions orderBy

/-- `SelectPlan.Build` and `UnionPlan.Build` with `BuildNode`; the router has no table `dual`. -/
def buildNode (r : Router) (H : Hasher) (order : InOrder V) (pick : List Bool → MergeNode V → ℕ × ℕ)
    (database : String) : SelectStatement V → Except String (UnionPlan V)
  | .select node clauses =>
    if clauses.hasSubquery then .error "unsupported: subqueries.in.select"
    else processPart r H order database pick (.select node clauses)
  | .dual _ _ => .error "Table 'dual' doesn't exist"
  | .union left right mentions orderBy =>
    processPart r H order database pick (.union left right mentions orderBy)

/-- Where a query goes. -/
inductive Target
  | backend (name : String)
  | anyNormal

/-- A query text with the tables that it mentions. -/
structure SentQuery where
  target : Target
  mentions : List TableRef

/-- The queries of a node. -/
def MergeNode.sent (mentions : MergeNode V → List TableRef) (m : MergeNode V) :
    Except String (List SentQuery) := do
  let queries ← m.queries
  return queries.map fun q => ⟨.backend q.backend, m.from_.mentions ++ mentions m⟩

/-- The query of a merged node. -/
def UnionMerge.sent (m : UnionMerge) : Except String SentQuery :=
  if m.single then .ok ⟨.anyNormal, m.mentions⟩
  else do
    let q ← segmentNames 0 m.referTables m.backend
    return ⟨.backend q.backend, m.mentions⟩

/-- The queries of a plan. -/
def UnionPlan.sent : UnionPlan V → Except String (List SentQuery)
  | .select root mentions => do
    let queries ← root.leaves.mapM (MergeNode.sent mentions)
    return queries.flatten
  | .merged m => do return [← m.sent]
  | .union left right => do return (← left.sent) ++ (← right.sent)

end Radon.Planner
