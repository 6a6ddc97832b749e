import Radon.Planner.PlanNode

/-!
# The plan of a SELECT

The select list is pushed into the tree. Every node returns the columns that its parent asks for: the
select list, the keys of the joins, the two sides of the comparisons between nodes, and the conditions
that a left join checks by itself.
-/

namespace Radon.Planner

variable {V : Type}

/-- The tables of a list of columns. -/
def tablesIn (cols : List ColName) : List String := (cols.map ColName.table).dedup

/-- The tables of a select expression. -/
def Field.tables (f : Field V) : List String := tablesIn f.cols

/-- The select expression is a function call. -/
def Field.isFunc : Field V → Bool
  | .scalar (.func _ _) => true
  | _ => false

/-- The select expression is the column. -/
def Field.isCol (c : ColName) : Field V → Bool
  | .scalar (.col d) => d.table = c.table && equalString d.name c.name
  | _ => false

/-- `getFields`. -/
def PlanNode.fields : PlanNode V → List (Field V)
  | .merge m => m.fields
  | .join j _ _ => j.fields

/-- `JoinNode.setNestLoop`. -/
def PlanNode.setNestLoop : PlanNode V → PlanNode V
  | .merge m => .merge m
  | .join j left right => .join { j with strategy := .nestLoop } left.setNestLoop right.setNestLoop

/-- `pushSelectExpr` of both kinds of nodes, with the index of the new column. -/
def PlanNode.pushSelectExpr (field : Field V) : PlanNode V → Except String (ℕ × PlanNode V)
  | .merge m => .ok (m.fields.length, .merge { m with fields := m.fields ++ [field] })
  | .join j left right =>
    if checkTbInNode field.tables left.tables then do
      let (index, left) ← left.pushSelectExpr field
      return (j.fields.length,
        .join { j with cols := j.cols ++ [.left index], fields := j.fields ++ [field] } left right)
    else if j.isLeftJoin && field.isFunc then .error "unsupported: expr.in.cross-shard.left.join"
    else do
      let (index, right') ← right.pushSelectExpr field
      let node := PlanNode.join
        { j with cols := j.cols ++ [.right index], fields := j.fields ++ [field] } left right'
      return (j.fields.length,
        if checkTbInNode field.tables right.tables then node else node.setNestLoop)

/-- `pushOtherFilter`, which `buildOrderBy` repeats: a column that the node returns already is not
pushed again. -/
def PlanNode.fieldIndex (field : Field V) (node : PlanNode V) : Except String (ℕ × PlanNode V) :=
  match field with
  | .scalar (.col c) =>
    match node.fields.findIdx? (Field.isCol c) with
    | some index => .ok (index, node)
    | none => node.pushSelectExpr field
  | _ => node.pushSelectExpr field

/-- `addNoTableFilter` of both kinds of nodes. -/
def PlanNode.addNoTableFilter (exprs : List (Expr V)) : PlanNode V → PlanNode V
  | .merge m => .merge { m with wheres := m.wheres ++ exprs }
  | .join j left right => .join { j with noTableFilter := j.noTableFilter ++ exprs } left right

/-- A join node with its children, while they change. -/
structure JoinTree (V : Type) where
  node : JoinNode V
  left : PlanNode V
  right : PlanNode V

/-- `pushNullExprs`. -/
def JoinTree.pushNullExprs : List (Scalar V) → JoinTree V → Except String (JoinTree V)
  | [], t => .ok t
  | s :: rightNull, t => do
    let (index, right) ← t.right.fieldIndex (.scalar s)
    JoinTree.pushNullExprs rightNull
      { t with node := { t.node with rightTmpCols := t.node.rightTmpCols ++ [index] }, right := right }

/-- The conditions of the left node that a left join checks by itself become columns. -/
def JoinTree.pushLeftConds : List (Expr V) → JoinTree V → Except String (JoinTree V)
  | [], t => .ok t
  | e :: left, t => do
    let (index, l) ← t.left.pushSelectExpr (.cond e)
    JoinTree.pushLeftConds left
      { t with node := { t.node with leftTmpCols := t.node.leftTmpCols ++ [index] }, left := l }

/-- The tables stand in one leaf of the tree: `findParent` yields no join node. -/
def PlanNode.inOneMerge (tables : List String) : PlanNode V → Bool
  | .merge _ => true
  | .join _ left right =>
    if checkTbInNode tables left.tables then left.inOneMerge tables
    else if checkTbInNode tables right.tables then right.inOneMerge tables
    else false

/-- The operator and the two sides of a `ComparisonExpr`; a tuple is a value if it has one element. -/
def Expr.sides : Expr V → Option (CmpOp × Scalar V × List (Scalar V))
  | .cmp op l r => some (op, l, [r])
  | .inTuple false l tuple => some (.in_, l, tuple)
  | .inTuple true l tuple => some (.notIn, l, tuple)
  | _ => none

/-- The proxy cannot compare the sides of the filter after both children have returned their rows. -/
def needsNestLoop (node : PlanNode V) (filter : ExprInfo V) : Bool :=
  match filter.expr.sides with
  | some (_, l, tuple) =>
    !node.inOneMerge (tablesIn l.cols) || !node.inOneMerge (tablesIn (tuple.flatMap Scalar.cols))
  | none => true

/-- `judgeStrategy`. -/
def JoinTree.judgeStrategy (filters : List (ExprInfo V)) (t : JoinTree V) : JoinTree V :=
  if filters.any (needsNestLoop (.join t.node t.left t.right)) then
    { node := { t.node with strategy := .nestLoop }
      left := t.left.setNestLoop, right := t.right.setNestLoop }
  else t

/-- Add a condition to the last leaf that has one of the tables, in the order of `reOrder`. -/
def PlanNode.addWhereLast (tables : List String) (e : Expr V) : PlanNode V → PlanNode V
  | .merge m => .merge (m.addWhere e)
  | .join j left right =>
    if tables.any fun tb => tb ∈ right.tables then .join j left (right.addWhereLast tables e)
    else .join j (left.addWhereLast tables e) right

/-- Add a condition to a leaf of a join node. -/
def JoinTree.addWhereLast (tables : List String) (e : Expr V) (t : JoinTree V) : JoinTree V :=
  if tables.any fun tb => tb ∈ t.right.tables then { t with right := t.right.addWhereLast tables e }
  else { t with left := t.left.addWhereLast tables e }

/-- `buildOrderBy`: it drops the error of `pushSelectExpr`, and the key gets the position −1. -/
def PlanNode.buildOrderBy (field : Field V) (node : PlanNode V) : JoinKey V × PlanNode V :=
  match node.fieldIndex field with
  | .ok (index, node) => (⟨field, some index⟩, node)
  | .error _ => (⟨field, none⟩, node)

theorem PlanNode.buildOrderBy_cases (field : Field V) (node : PlanNode V) :
    (∃ index node', node.fieldIndex field = .ok (index, node') ∧
      node.buildOrderBy field = (⟨field, some index⟩, node')) ∨
    (∃ e, node.fieldIndex field = .error e) ∧ node.buildOrderBy field = (⟨field, none⟩, node) := by
  grind [buildOrderBy]

/-- Make two expressions a key of the join. -/
def JoinTree.addKey (l r : Field V) (t : JoinTree V) : JoinTree V :=
  { node := { t.node with leftKeys := t.node.leftKeys ++ [(t.left.buildOrderBy l).1]
                          rightKeys := t.node.rightKeys ++ [(t.right.buildOrderBy r).1] }
    left := (t.left.buildOrderBy l).2
    right := (t.right.buildOrderBy r).2 }

/-- Make a comparison of two expressions a filter of the join. -/
def JoinTree.addCmp (op : CmpOp) (exchange : Bool) (l r : Field V) (t : JoinTree V) :
    Except String (JoinTree V) := do
  let (lidx, left) ← t.left.fieldIndex l
  let (ridx, right) ← t.right.fieldIndex r
  return { node := { t.node with cmpFilter := t.node.cmpFilter ++ [⟨lidx, ridx, op, exchange⟩] }
           left := left, right := right }

/-- One filter of `pushOtherFilters`. -/
def JoinTree.pushOtherFilter (isOtherJoin : Bool) (filter : ExprInfo V) (t : JoinTree V) :
    Except String (JoinTree V) :=
  if t.node.strategy = .nestLoop then .ok (t.addWhereLast filter.referTables filter.expr)
  else
    match filter.expr.sides with
    | some (op, l, [r]) =>
      let isLeft := checkTbInNode (tablesIn l.cols) t.left.tables
      if op = .equal ∧ (isOtherJoin ∨ t.node.isLeftJoin = false) ∧
          (tablesIn l.cols).length = 1 ∧ (tablesIn r.cols).length = 1 then
        if isLeft then .ok (t.addKey (.scalar l) (.scalar r)) else .ok (t.addKey (.scalar r) (.scalar l))
      else if isLeft then t.addCmp op false (.scalar l) (.scalar r)
      else t.addCmp op true (.scalar r) (.scalar l)
    | some _ => .error "Operand should contain 1 column(s)"
    | none => .error "runtime error: nil pointer dereference"

/-- `pushOtherFilters`. -/
def JoinTree.pushOtherFilters (isOtherJoin : Bool) :
    List (ExprInfo V) → JoinTree V → Except String (JoinTree V)
  | [], t => .ok t
  | filter :: filters, t => do
    let t ← t.pushOtherFilter isOtherJoin filter
    JoinTree.pushOtherFilters isOtherJoin filters t

/-- `pushOthers`. -/
def JoinTree.pushOthers (t : JoinTree V) : Except String (JoinTree V) := do
  let other := t.node.otherLeftJoin
  let t := { t with right := t.right.addNoTableFilter other.noTables }
  let t ← t.pushLeftConds other.left
  let t := { t with right := other.right.foldl (fun right filter => right.addFilter filter) t.right }
  let t ← (t.judgeStrategy other.others).pushOtherFilters true other.others
  (t.judgeStrategy t.node.otherFilter).pushOtherFilters false t.node.otherFilter

/-- `handleOthers`, with as many levels as the tree has. -/
def PlanNode.handleOthers : ℕ → PlanNode V → Except String (PlanNode V)
  | 0, node => .ok node
  | _ + 1, .merge m => .ok (.merge m)
  | levels + 1, .join j left right => do
    let t ← JoinTree.pushNullExprs j.rightNull ⟨j, left, right⟩
    let t ← t.pushOthers
    return .join t.node (← t.left.handleOthers levels) (← t.right.handleOthers levels)

/-- The equalities of `handleJoinOn` at one node. -/
def JoinTree.addKeys : List (JoinCond V) → JoinTree V → JoinTree V
  | [], t => t
  | cond :: joinOn, t =>
    JoinTree.addKeys joinOn (if t.node.strategy = .nestLoop then
        t.addWhereLast [cond.lc.table, cond.rc.table] cond.expr
      else t.addKey (.scalar (.col cond.lc)) (.scalar (.col cond.rc)))

/-- `handleJoinOn`. -/
def PlanNode.handleJoinOn : PlanNode V → PlanNode V
  | .merge m => .merge m
  | .join j left right =>
    let t := JoinTree.addKeys j.joinOn ⟨j, left.handleJoinOn, right.handleJoinOn⟩
    .join t.node t.left t.right

/-- The number of levels of the tree. -/
def PlanNode.height : PlanNode V → ℕ
  | .merge _ => 1
  | .join _ left right => max left.height right.height + 1

/-- Push several select expressions into a node. -/
def PlanNode.pushFields : List (Field V) → PlanNode V → Except String (PlanNode V)
  | [], node => .ok node
  | field :: fields, node => do
    let (_, node) ← node.pushSelectExpr field
    PlanNode.pushFields fields node

/-- `pushSelectExprs` of both kinds of nodes, for a statement without groups and aggregates. -/
def PlanNode.pushSelectExprs (fields : List (Field V)) : PlanNode V → Except String (PlanNode V)
  | .merge m => .ok (.merge { m with fields := fields })
  | .join j left right => do
    let node ← PlanNode.pushFields fields (.join j left right)
    let node ← node.handleOthers node.height
    return node.handleJoinOn

/-- `buildQuery` on the tree: a join without keys and comparisons is a product, and the conditions
without tables go to all leaves. -/
def PlanNode.buildQuery : List (Expr V) → PlanNode V → PlanNode V
  | noTables, .merge m => .merge { m with wheres := m.wheres ++ noTables }
  | noTables, .join j left right =>
    let exprs := j.noTableFilter ++ noTables
    let strategy := if j.strategy = .sortMerge ∧ j.leftKeys = [] ∧ j.cmpFilter = [] ∧
      j.isLeftJoin = false then .cartesian else j.strategy
    .join { j with strategy := strategy, noTableFilter := exprs } (left.buildQuery exprs)
      (right.buildQuery exprs)

/-- `sqlparser.Select` without groups, order and limit. -/
structure Select (V : Type) where
  exprs : List (Scalar V)
  from_ : TableExpr V
  where_ : Option (Expr V)

/-- `checkTbName` on the columns of the select list. -/
def checkTbName (tbInfos : List TableInfo) : List ColName → Except String Unit
  | [] => .ok ()
  | c :: cols =>
    if c.table ≠ "" ∧ findTable tbInfos c.table = none then
      .error ("unsupported: unknown.column.'" ++ c.table ++ "." ++ c.name ++ "'.in.exprs")
    else checkTbName tbInfos cols

/-- The tables of the select list, as `parseSelectExprs` looks them up. -/
def parseSelectExprs (tbInfos : List TableInfo) (exprs : List (Scalar V)) :
    Except String (List (Field V)) :=
  exprs.mapM fun expr => do
    let _ ← referTables tbInfos expr.cols []
    return .scalar expr

/-- The `WHERE` clause of the statement on the tree. -/
def pushWhere (r : Router) (H : Hasher) (order : InOrder V) (root : PlanNode V) :
    Option (Expr V) → Except String (PlanNode V)
  | none => .ok root
  | some e => pushFilters r H order root e

/-- The end of `processSelect`, with `buildQuery`: the select list on the tree. A node that goes to one
backend takes the statement as it is. -/
def pushSelect (tbInfos : List TableInfo) (exprs : List (Scalar V)) (root : PlanNode V) :
    Except String (PlanNode V) :=
  match root with
  | .merge m =>
    if m.routeLen = 1 then do
      checkTbName tbInfos (exprs.flatMap Scalar.cols)
      return .merge { m with fields := exprs.map .scalar }
    else do
      let fields ← parseSelectExprs m.referTables exprs
      let root ← (PlanNode.merge m).pushSelectExprs fields
      return root.buildQuery []
  | .join j left right => do
    let fields ← parseSelectExprs (left.referTables ++ right.referTables) exprs
    let root ← (PlanNode.join j left right).pushSelectExprs fields
    return root.buildQuery []

/-- `processSelect` and `buildQuery`. -/
def processSelect (r : Router) (H : Hasher) (order : InOrder V) (pick : MergeNode V → ℕ × ℕ)
    (database : String) (node : Select V) : Except String (PlanNode V) := do
  let root ← scanTableExpr r H order database node.from_
  let pushed ← pushWhere r H order root node.where_
  let routed ← pushed.calcRoute r pick
  pushSelect root.referTables node.exprs routed

end Radon.Planner
