import Radon.Planner.MergeNode

/-!
# The plan tree

`scanTableExprs` turns the `FROM` clause into a tree of nodes: the leaves are pushed down, the inner
nodes join the rows of two nodes in the proxy. `pushFilters` distributes the `WHERE` clause over the
tree and `calcRoute` merges what goes to one place.

The source finds a node by the pointer that a table keeps to it. The tree is searched by the tables of
its nodes instead.
-/

namespace Radon.Planner

variable {V : Type}

/-- `builder.JoinStrategy`. -/
inductive JoinStrategy
  | cartesian
  | sortMerge
  | nestLoop
  deriving DecidableEq

/-- Where two table expressions stand side by side in the statement: in a list, or in a join with its
current condition. -/
inductive JoinShape (V : Type)
  | comma
  | join (kind : JoinKind) (on : Option (Expr V))

/-- The table expression of two parts. -/
def JoinShape.build (l r : TableExpr V) : JoinShape V → TableExpr V
  | .comma => .comma l r
  | .join kind on => .join kind l r on

/-- The join is a left join. -/
def JoinShape.isLeft : JoinShape V → Bool
  | .join .left _ => true
  | _ => false

/-- `builder.otherJoin`: the conditions of a left join that are no equalities of columns. -/
structure OtherJoin (V : Type) where
  noTables : List (Expr V) := []
  left : List (Expr V) := []
  right : List (ExprInfo V) := []
  others : List (ExprInfo V) := []

/-- `builder.JoinKey`: an expression and its position in the fields of a node; `none` is the position −1. -/
structure JoinKey (V : Type) where
  expr : Field V
  index : Option ℕ

/-- `builder.Comparison`. -/
structure Comparison where
  left : ℕ
  right : ℕ
  operator : CmpOp
  exchange : Bool
  deriving DecidableEq

/-- `JoinNode.Cols`: where a column of the result comes from. -/
inductive ColRef
  | left (index : ℕ)
  | right (index : ℕ)
  deriving DecidableEq

/-- `builder.JoinNode` without its children. `hasJoinExpr` says that `joinExpr` is not nil; `shape` is the
part of the statement it points to. -/
structure JoinNode (V : Type) where
  shape : JoinShape V
  hasJoinExpr : Bool
  isLeftJoin : Bool
  joinOn : List (JoinCond V)
  strategy : JoinStrategy := .sortMerge
  otherFilter : List (ExprInfo V) := []
  noTableFilter : List (Expr V) := []
  otherLeftJoin : OtherJoin V := {}
  rightNull : List (Scalar V) := []
  hasRightFilter : Bool := false
  cols : List ColRef := []
  fields : List (Field V) := []
  leftKeys : List (JoinKey V) := []
  rightKeys : List (JoinKey V) := []
  cmpFilter : List Comparison := []
  leftTmpCols : List ℕ := []
  rightTmpCols : List ℕ := []
  vars : List (String × ℕ) := []

/-- The positions of `LeftKeys`. -/
def JoinNode.leftIndexes (j : JoinNode V) : List ℕ := j.leftKeys.filterMap JoinKey.index

/-- The positions of `RightKeys`. -/
def JoinNode.rightIndexes (j : JoinNode V) : List ℕ := j.rightKeys.filterMap JoinKey.index

/-- No key has the position −1. -/
def JoinNode.keysPlaced (j : JoinNode V) : Bool := (j.leftKeys ++ j.rightKeys).all fun key => key.index.isSome

/-- `builder.PlanNode`. -/
inductive PlanNode (V : Type)
  | merge (m : MergeNode V)
  | join (j : JoinNode V) (left right : PlanNode V)

/-- `getReferTables`. -/
def PlanNode.referTables : PlanNode V → List TableInfo
  | .merge m => m.referTables
  | .join _ l r => l.referTables ++ r.referTables

/-- The leaves of the tree from left to right. -/
def PlanNode.leaves : PlanNode V → List (MergeNode V)
  | .merge m => [m]
  | .join _ left right => left.leaves ++ right.leaves

/-- The tables of the node by the names of the statement. -/
def PlanNode.tables (node : PlanNode V) : List String := node.referTables.map TableInfo.refer

/-- `checkTbInNode`. -/
def checkTbInNode (referTables tables : List String) : Bool := referTables.all fun tb => tb ∈ tables

/-! ## Joining two nodes -/

/-- `checkJoinOn`: the first column is made the one of the left node. -/
def checkJoinOn (ltables rtables : List String) (join : JoinCond V) : Except String (JoinCond V) :=
  if join.lc.table ∈ ltables then
    if join.rc.table ∈ rtables then .ok join
    else .error "unsupported: join.on.condition.should.cross.left-right.tables"
  else if join.rc.table ∈ ltables then .ok { join with lc := join.rc, rc := join.lc }
  else .error "unsupported: join.on.condition.should.cross.left-right.tables"

/-- `isSameShard` on the tables of two nodes. -/
def sameShard (ltb rtb : List TableInfo) (join : JoinCond V) : Bool :=
  match findTable ltb join.lc.table, findTable rtb join.rc.table with
  | some lt, some rt => isSameShard lt rt join.lc join.rc
  | _, _ => false

/-- Push several filters into a node. -/
def MergeNode.pushFilters (r : Router) (H : Hasher) :
    List (ExprInfo V) → MergeNode V → Except String (MergeNode V)
  | [], m => .ok m
  | filter :: filters, m => do
    let m ← m.pushFilter r H filter
    MergeNode.pushFilters r H filters m

/-- `mergeRoutes` before it pushes the conditions of the join: the right node becomes a part of the left
one. With a join expression the query takes the part of the statement, else the two parts as a list. -/
def mergeNodes (lmn rmn : MergeNode V) (shape : JoinShape V) (hasJoinExpr : Bool) : MergeNode V :=
  let ast := shape.build lmn.ast rmn.ast
  { lmn with
    from_ := if hasJoinExpr then ast else .comma lmn.from_ rmn.from_
    ast := ast
    wheres := lmn.wheres ++ rmn.wheres
    referTables := lmn.referTables ++ rmn.referTables
    nonGlobalCnt := lmn.nonGlobalCnt + rmn.nonGlobalCnt }

/-- `mergeRoutes`. -/
def mergeRoutes (r : Router) (H : Hasher) (lmn rmn : MergeNode V) (shape : JoinShape V)
    (hasJoinExpr : Bool) (otherJoinOn : List (ExprInfo V)) : Except String (MergeNode V) :=
  let m := mergeNodes lmn rmn shape hasJoinExpr
  if hasJoinExpr && shape.isLeft then .ok m
  else m.pushFilters r H otherJoinOn

/-- `JoinNode.setOtherJoin`. -/
def setOtherJoin (ltables rtables : List String) : List (ExprInfo V) → OtherJoin V → OtherJoin V
  | [], o => o
  | filter :: filters, o =>
    setOtherJoin ltables rtables filters
      (if filter.referTables = [] then { o with noTables := o.noTables ++ [filter.expr] }
      else if checkTbInNode filter.referTables ltables then { o with left := o.left ++ [filter.expr] }
      else if checkTbInNode filter.referTables rtables then { o with right := o.right ++ [filter] }
      else { o with others := o.others ++ [filter] })

/-! ## Pushing filters -/

/-- A value in which every column is another one. -/
def Scalar.withCol (c : ColName) : Scalar V → Scalar V
  | .col _ => .col c
  | .val v => .val v
  | .null => .null
  | .func cols f => .func (cols.map fun _ => c) f
  | .other cols f => .other (cols.map fun _ => c) f

/-- A condition in which every column is another one. -/
def Expr.withCol (c : ColName) : Expr V → Expr V
  | .and l r => .and (l.withCol c) (r.withCol c)
  | .or l r => .or (l.withCol c) (r.withCol c)
  | .paren e => .paren (e.withCol c)
  | .cmp op l r => .cmp op (l.withCol c) (r.withCol c)
  | .inTuple neg l tuple => .inTuple neg (l.withCol c) (tuple.map (Scalar.withCol c))
  | .isNull s => .isNull (s.withCol c)
  | .other cols f => .other (cols.map fun _ => c) f

/-- The filter on the other column of a join key, as `pushKeyFilter` writes it into the filter for a
while. -/
def ExprInfo.onKey (filter : ExprInfo V) (c : ColName) : ExprInfo V :=
  { filter with expr := filter.expr.withCol ⟨"", c.table, c.name⟩, cols := [⟨"", c.table, c.name⟩] }

/-- `pushKeyFilter` of both kinds of nodes. -/
def PlanNode.pushKeyFilter (r : Router) (H : Hasher) (filter : ExprInfo V) (table field : String) :
    PlanNode V → Except String (PlanNode V)
  | .merge m => do return .merge (← m.pushKeyFilter r H filter table field)
  | .join j left right =>
    if table ∈ left.tables then do
      let left ← left.pushKeyFilter r H filter table field
      match j.joinOn.find? fun cond => cond.lc.table = table ∧ cond.lc.name = field with
      | none => return .join j left right
      | some cond =>
        return .join j left
          (← right.pushKeyFilter r H (filter.onKey cond.rc) cond.rc.table cond.rc.name)
    else do
      let right ← right.pushKeyFilter r H filter table field
      match j.joinOn.find? fun cond => cond.rc.table = table ∧ cond.rc.name = field with
      | none => return .join j left right
      | some cond =>
        return .join j
          (← left.pushKeyFilter r H (filter.onKey cond.lc) cond.lc.table cond.lc.name) right

/-- `addFilter` on the lowest node that has the tables, which `findParent` finds. -/
def PlanNode.addFilter (filter : ExprInfo V) : PlanNode V → PlanNode V
  | .merge m => .merge (m.addWhere filter.expr)
  | .join j left right =>
    if checkTbInNode filter.referTables left.tables then .join j (left.addFilter filter) right
    else if checkTbInNode filter.referTables right.tables then .join j left (right.addFilter filter)
    else .join { j with otherFilter := j.otherFilter ++ [filter] } left right

/-- `checkIsWithNull`: the value that the filter wants to be `NULL`. -/
def checkIsWithNull (filter : ExprInfo V) (tables : List String) : Option (Scalar V) :=
  if checkTbInNode filter.referTables tables then
    match filter.expr with
    | .isNull s => some s
    | .cmp .nullSafeEqual .null s => some s
    | .cmp .nullSafeEqual s .null => some s
    | _ => none
  else none

/-- `JoinNode.pushFilter` after it has looked at the outer join. -/
def PlanNode.placeFilter (r : Router) (H : Hasher) (filter : ExprInfo V) (node : PlanNode V) :
    Except String (PlanNode V) :=
  match filter.referTables, filter.cols with
  | [_], [col] => node.pushKeyFilter r H filter col.table col.name
  | _, _ => .ok (node.addFilter filter)

/-- `pushFilter` of both kinds of nodes. -/
def PlanNode.pushFilter (r : Router) (H : Hasher) (filter : ExprInfo V) :
    PlanNode V → Except String (PlanNode V)
  | .merge m => do return .merge (← m.pushFilter r H filter)
  | .join j left right =>
    if filter.referTables = [] then
      .ok (.join { j with noTableFilter := j.noTableFilter ++ [filter.expr] } left right)
    else if j.isLeftJoin then
      match checkIsWithNull filter right.tables with
      | some s => .ok (.join { j with rightNull := j.rightNull ++ [s] } left right)
      | none =>
        let hasRightFilter := j.hasRightFilter || filter.referTables.any fun tb => tb ∈ right.tables
        PlanNode.placeFilter r H filter (.join { j with hasRightFilter := hasRightFilter } left right)
    else PlanNode.placeFilter r H filter (.join j left right)

/-- Push several filters into a node. -/
def PlanNode.pushFilterList (r : Router) (H : Hasher) :
    List (ExprInfo V) → PlanNode V → Except String (PlanNode V)
  | [], node => .ok node
  | filter :: filters, node => do
    let node ← node.pushFilter r H filter
    PlanNode.pushFilterList r H filters node

/-- The children of a join node as one node, with the filters that waited on the join. -/
def JoinNode.mergeChildren (j : JoinNode V) (lmn rmn : MergeNode V) : MergeNode V :=
  let m := mergeNodes lmn rmn j.shape j.hasJoinExpr
  { m with wheres := m.wheres ++ j.otherFilter.map ExprInfo.expr ++ j.noTableFilter ++
      (if j.hasJoinExpr then [] else j.joinOn.map JoinCond.expr) }

/-- Add an equality to the join: a left join keeps it as a filter. -/
def JoinNode.addJoinOn (j : JoinNode V) (join : JoinCond V) : JoinNode V :=
  if j.isLeftJoin then
    { j with otherFilter := j.otherFilter ++ [⟨join.expr, join.referTables, [join.lc, join.rc], []⟩] }
  else
    { j with
      joinOn := j.joinOn ++ [join]
      shape := match j.hasJoinExpr, j.shape with
        | true, .join kind (some on) => .join kind (some (.and on join.expr))
        | _, shape => shape }

/-- One equality of `pushEqualCmprs`, at the lowest node that has both tables. -/
def PlanNode.pushEqualCmpr (joinCond : JoinCond V) : PlanNode V → PlanNode V
  | .merge m => .merge (m.addWhere joinCond.expr)
  | .join j left right =>
    if checkTbInNode joinCond.referTables left.tables then .join j (left.pushEqualCmpr joinCond) right
    else if checkTbInNode joinCond.referTables right.tables then
      .join j left (right.pushEqualCmpr joinCond)
    else
      let join := (checkJoinOn left.tables right.tables joinCond).toOption.getD joinCond
      match left, right with
      | .merge lmn, .merge rmn =>
        if sameShard lmn.referTables rmn.referTables join then
          .merge ((j.mergeChildren lmn rmn).addWhere join.expr)
        else .join (j.addJoinOn join) left right
      | _, _ => .join (j.addJoinOn join) left right

/-- `pushFilters`. The second table of an equality whose columns have the same table panics. -/
def pushFilters (r : Router) (H : Hasher) (order : InOrder V) (s : PlanNode V) (expr : Expr V) :
    Except String (PlanNode V) := do
  let parsed ← parseWhereOrJoinExprs order expr s.referTables
  let s ← s.pushFilterList r H parsed.wheres
  match s with
  | .merge m => return .merge { m with wheres := m.wheres ++ parsed.joins.map JoinCond.expr }
  | .join j left right =>
    if parsed.joins.any fun join => join.referTables.length < 2 then
      .error "runtime error: index out of range"
    else return parsed.joins.foldl (fun s join => s.pushEqualCmpr join) (.join j left right)

/-! ## Building the tree -/

/-- Conditions with `AND` between them. -/
def andAll : List (Expr V) → Option (Expr V)
  | [] => none
  | e :: es => some (es.foldl Expr.and e)

/-- The join expression that `join` goes on with: its place in the statement with its new condition, and
whether it is still there. The other conditions of an inner join move to the `WHERE` clause. -/
def reshape (shape : JoinShape V) (parsed : Parsed V) : JoinShape V × Bool :=
  match shape with
  | .join kind (some on) =>
    if kind ≠ .left ∧ parsed.wheres ≠ [] then
      match andAll (parsed.joins.map JoinCond.expr) with
      | none => (shape, false)
      | some on => (.join kind (some on), true)
    else (.join kind (some on), true)
  | shape => (shape, false)

/-- The parsed condition of a join. -/
def parseOn (order : InOrder V) (shape : JoinShape V) (tbInfos : List TableInfo) :
    Except String (Parsed V) :=
  match shape with
  | .join _ (some on) => parseWhereOrJoinExprs order on tbInfos
  | _ => .ok ⟨[], []⟩

/-- The nodes can be merged: one has global tables only, or they are joined on their shard keys. -/
def canMerge (lmn rmn : MergeNode V) (joinOn : List (JoinCond V)) : Bool :=
  lmn.nonGlobalCnt = 0 || rmn.nonGlobalCnt = 0 ||
    joinOn.any fun jt => sameShard lmn.referTables rmn.referTables jt

/-- `join` without its merging branch. -/
def newJoinNode (r : Router) (H : Hasher) (lpn rpn : PlanNode V) (shape : JoinShape V)
    (hasJoinExpr : Bool) (joinOn : List (JoinCond V)) (otherJoinOn : List (ExprInfo V)) :
    Except String (PlanNode V) :=
  let isLeftJoin := hasJoinExpr && shape.isLeft
  if isLeftJoin then
    .ok (.join { shape := shape, hasJoinExpr := hasJoinExpr, isLeftJoin := isLeftJoin, joinOn := joinOn
                 otherLeftJoin := setOtherJoin lpn.tables rpn.tables otherJoinOn {} } lpn rpn)
  else
    PlanNode.pushFilterList r H otherJoinOn
      (.join { shape := shape, hasJoinExpr := hasJoinExpr, isLeftJoin := isLeftJoin, joinOn := joinOn }
        lpn rpn)

/-- `join`. -/
def joinPlans (r : Router) (H : Hasher) (order : InOrder V) (lpn rpn : PlanNode V)
    (shape : JoinShape V) : Except String (PlanNode V) := do
  if rpn.tables.any fun k => k ∈ lpn.tables then
    .error "unsupported: not.unique.table.or.alias"
  else
    let parsed ← parseOn order shape (lpn.referTables ++ rpn.referTables)
    let joinOn ← parsed.joins.mapM (checkJoinOn lpn.tables rpn.tables)
    let (shape, hasJoinExpr) := reshape shape { parsed with joins := joinOn }
    match lpn, rpn with
    | .merge lmn, .merge rmn =>
      if canMerge lmn rmn joinOn then
        return .merge (← mergeRoutes r H lmn rmn shape hasJoinExpr parsed.wheres)
      else newJoinNode r H lpn rpn shape hasJoinExpr joinOn parsed.wheres
    | _, _ => newJoinNode r H lpn rpn shape hasJoinExpr joinOn parsed.wheres

/-- `scanTableExprs`, `scanTableExpr` and `scanJoinTableExpr`; a right join is turned round. -/
def scanTableExpr (r : Router) (H : Hasher) (order : InOrder V) (database : String) :
    TableExpr V → Except String (PlanNode V)
  | .table dbName name asName => do
    return .merge (← scanAliasedTableExpr r database dbName name asName)
  | .comma left right => do
    let lpn ← scanTableExpr r H order database left
    let rpn ← scanTableExpr r H order database right
    joinPlans r H order lpn rpn .comma
  | .join .right left right on => do
    let lpn ← scanTableExpr r H order database right
    let rpn ← scanTableExpr r H order database left
    joinPlans r H order lpn rpn (.join .left on)
  | .join kind left right on => do
    let lpn ← scanTableExpr r H order database left
    let rpn ← scanTableExpr r H order database right
    joinPlans r H order lpn rpn (.join kind on)

/-! ## Routes -/

/-- `calcRoute` of both kinds of nodes: children that go to one backend, or of which one has global
tables only, become one node. -/
def PlanNode.calcRoute (r : Router) (pick : MergeNode V → ℕ × ℕ) :
    PlanNode V → Except String (PlanNode V)
  | .merge m => do return .merge (← m.calcRoute r pick)
  | .join j left right => do
    let left ← left.calcRoute r pick
    let right ← right.calcRoute r pick
    match left, right with
    | .merge lmn, .merge rmn =>
      if (lmn.backend ≠ "" ∧ lmn.backend = rmn.backend) ∨ rmn.nonGlobalCnt = 0 ∨ lmn.nonGlobalCnt = 0 then
        let lmn := if lmn.nonGlobalCnt = 0 then
          { lmn with backend := rmn.backend, routeLen := rmn.routeLen, indexes := rmn.indexes } else lmn
        return .merge (j.mergeChildren lmn rmn)
      else return .join j left right
    | _, _ => return .join j left right

end Radon.Planner
