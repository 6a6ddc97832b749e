import Radon.Planner.From

/-!
# Conditions and routes

How the planner reads the conditions of a `WHERE` or an `ON` clause, and how `UPDATE` and `DELETE` find
the segments of a condition.
-/

namespace Radon.Planner

variable {V : Type}

/-- `builder.exprInfo`: a filter with the tables and columns it mentions and the literals that its
first column is compared with. -/
structure ExprInfo (V : Type) where
  expr : Expr V
  referTables : List String
  cols : List ColName
  vals : List SQLVal

/-- The table of a column. A column without a qualifier belongs to the only table. -/
def referTable (tbInfos : List TableInfo) (c : ColName) : Except String String :=
  if c.table = "" then
    match tbInfos with
    | [tbInfo] => .ok tbInfo.refer
    | _ => .error ("unsupported: unknown.column.'" ++ c.name ++ "'.in.clause")
  else if tbInfos.any fun tbInfo => tbInfo.refer = c.table then .ok c.table
  else .error ("unsupported: unknown.column.'" ++ c.table ++ "." ++ c.name ++ "'.in.clause")

/-- The tables of the columns, each once. -/
def referTables (tbInfos : List TableInfo) : List ColName → List String → Except String (List String)
  | [], tables => .ok tables
  | c :: cols, tables => do
    let table ← referTable tbInfos c
    referTables tbInfos cols (if table ∈ tables then tables else tables ++ [table])

/-- The columns of an equality between columns with different qualifiers. -/
def joinCols : Expr V → Option (ColName × ColName)
  | .cmp .equal (.col lc) (.col rc) =>
    if (lc.database, lc.table) ≠ (rc.database, rc.table) then some (lc, rc) else none
  | _ => none

/-- The literals of a tuple, if it has nothing else. -/
def tupleVals : List (Scalar V) → Option (List SQLVal)
  | [] => some []
  | .val v :: tuple => (tupleVals tuple).map (v :: ·)
  | _ :: _ => none

/-- The literals that a column is compared with; a literal on the left is moved to the right. -/
def filterVals : Expr V → Expr V × List SQLVal
  | .cmp .equal (.col c) (.val v) => (.cmp .equal (.col c) (.val v), [v])
  | .cmp .equal (.val v) (.col c) => (.cmp .equal (.col c) (.val v), [v])
  | .inTuple false (.col c) tuple => (.inTuple false (.col c) tuple, (tupleVals tuple).getD [])
  | e => (e, [])

/-- An `exprInfo` with the two columns of an equality between tables. -/
structure JoinCond (V : Type) where
  expr : Expr V
  referTables : List String
  lc : ColName
  rc : ColName

/-- The joins and the other filters among the conditions. -/
structure Parsed (V : Type) where
  joins : List (JoinCond V)
  wheres : List (ExprInfo V)

/-- The loop of `parseWhereOrJoinExprs`. -/
def parseFilters (tbInfos : List TableInfo) : List (Expr V) → Except String (Parsed V)
  | [] => .ok ⟨[], []⟩
  | filter :: filters => do
    let tables ← referTables tbInfos filter.cols []
    let rest ← parseFilters tbInfos filters
    match joinCols filter with
    | some (lc, rc) => return { rest with joins := ⟨filter, tables, lc, rc⟩ :: rest.joins }
    | none =>
      let (expr, vals) := filterVals filter
      return { rest with wheres := ⟨expr, tables, filter.cols, vals⟩ :: rest.wheres }

/-- `parseWhereOrJoinExprs`. -/
def parseWhereOrJoinExprs (order : InOrder V) (exprs : Expr V) (tbInfos : List TableInfo) :
    Except String (Parsed V) :=
  parseFilters tbInfos (filtersOf order exprs)

/-- `nameMatch` on a column. -/
def ColName.nameMatch (c : ColName) (table shardkey : String) : Bool :=
  (c.table = "" || c.table = table) && equalString c.name shardkey

/-- `nameMatch`. -/
def nameMatch (node : Scalar V) (table shardkey : String) : Bool :=
  match node with
  | .col c => c.nameMatch table shardkey
  | _ => false

/-- The indexes of the literals of a tuple, or nothing when it has something else. -/
def tupleIndexes (r : Router) (H : Hasher) (database table : String) :
    List (Scalar V) → List ℕ → Except String (Option (List ℕ))
  | [], idxs => .ok (some idxs)
  | .val v :: tuple, idxs => do
    match ← r.getIndex H database table v with
    | some idx => tupleIndexes r H database table tuple (idxs ++ [idx])
    | none => .error "runtime error: index out of range"
  | _ :: _, _ => .ok none

/-- The loop of `LookupFromWhere`: the first filter on the shard key decides. -/
def lookupFilters (r : Router) (H : Hasher) (database table shardkey : String) :
    List (Expr V) → Except String (List Segment)
  | [] => r.lookupAll database table
  | .cmp .equal left (.val v) :: filters =>
    if nameMatch left table shardkey then r.lookup H database table v
    else lookupFilters r H database table shardkey filters
  | .inTuple false left tuple :: filters =>
    if nameMatch left table shardkey then do
      match ← tupleIndexes r H database table tuple [] with
      | some idxs => r.getSegments database table idxs
      | none => r.lookupAll database table
    else lookupFilters r H database table shardkey filters
  | _ :: filters => lookupFilters r H database table shardkey filters

/-- `LookupFromWhere`. -/
def lookupFromWhere (r : Router) (H : Hasher) (order : InOrder V) (database table shardkey : String)
    (where_ : Expr V) : Except String (List Segment) :=
  if shardkey ≠ "" then lookupFilters r H database table shardkey (filtersOf order where_)
  else r.lookupAll database table

end Radon.Planner
