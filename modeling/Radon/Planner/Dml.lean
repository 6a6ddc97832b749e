import Radon.Planner.Where

/-!
# Plans of statements that write

`INSERT` and `REPLACE` sort their rows by the physical tables of their shard keys. `UPDATE` and `DELETE`
go to the segments of their condition. No plan changes the shard key of a row.
-/

namespace Radon.Planner

variable {V : Type}

/-- `xcontext.QueryTuple`: where a query goes. Its text is the statement on that physical table. -/
structure QueryTuple where
  backend : String
  table : String
  range : KeyRange
  deriving DecidableEq

/-- The query for a segment; the text of a missing range panics. -/
def segmentTuple (seg : Segment) : Except String QueryTuple :=
  if seg.range = .nil then .error "runtime error: nil pointer dereference"
  else .ok ⟨seg.backend, seg.table, seg.range⟩

/-- `isUpdateShardKey` on the names of the assigned columns. -/
def isUpdateShardKey (assigned : List String) (shardkey : String) : Bool :=
  shardkey ≠ "" && assigned.any fun name => equalString name shardkey

/-- The rows of an `INSERT` for one physical table. -/
structure RowsTuple (V : Type) where
  tuple : QueryTuple
  rows : List (List (Scalar V))

/-- Add a row to the rows of its physical table. The table is known by its name only. -/
def addRow (tuple : QueryTuple) (row : List (Scalar V)) : List (RowsTuple V) → List (RowsTuple V)
  | [] => [⟨tuple, [row]⟩]
  | rTuple :: rTuples =>
    if rTuple.tuple.table = tuple.table then { rTuple with rows := rTuple.rows ++ [row] } :: rTuples
    else rTuple :: addRow tuple row rTuples

/-- The loop of `InsertPlan.Build` over the rows. -/
def insertRows (r : Router) (H : Hasher) (database table shardKey : String) (idx : ℕ) :
    List (List (Scalar V)) → List (RowsTuple V) → Except String (List (RowsTuple V))
  | [], rTuples => .ok rTuples
  | row :: rows, rTuples =>
    match row[idx]? with
    | none => .error ("unsupported: shardkey[" ++ shardKey ++ "].out.of.index:[" ++ toString idx ++ "]")
    | some (.val shardVal) => do
      match ← r.lookup H database table shardVal with
      | [] => .error "runtime error: index out of range"
      | segment :: _ =>
        let tuple ← segmentTuple segment
        insertRows r H database table shardKey idx rows (addRow tuple row rTuples)
    | some _ => .error ("unsupported: shardkey[" ++ shardKey ++ "].type.canot.be")

/-- `InsertPlan.Build` for a hash or list table, with the columns that `ON DUPLICATE KEY UPDATE`
assigns. -/
def InsertPlan.build (r : Router) (H : Hasher) (database table : String) (columns onDup : List String)
    (rows : List (List (Scalar V))) : Except String (List (RowsTuple V)) := do
  let t ← r.getTable database table
  if isUpdateShardKey onDup t.shardKey then .error "unsupported: cannot.update.shard.key"
  else
    match columns.findIdx? fun column => equalString column t.shardKey with
    | none => .error ("unsupported: shardkey.column[" ++ t.shardKey ++ "].missing")
    | some idx =>
      let rTuples ← insertRows r H database table t.shardKey idx rows []
      return rTuples.insertionSort fun a b => a.tuple.table ≤ b.tuple.table

/-- `UpdatePlan.Build`, with the columns that the statement assigns. -/
def UpdatePlan.build (r : Router) (H : Hasher) (order : InOrder V) (database table : String)
    (assigned : List String) (where_ : Option (Expr V)) : Except String (List QueryTuple) :=
  match where_ with
  | none => .error "unsupported: missing.where.clause.in.DML"
  | some where_ => do
    let t ← r.getTable database table
    if isUpdateShardKey assigned t.shardKey then .error "unsupported: cannot.update.shard.key"
    else
      let segments ← lookupFromWhere r H order database table t.shardKey where_
      segments.mapM segmentTuple

/-- `checkFieldImpl`: the qualifiers of the columns name the table of the statement. -/
def checkField (database table suffix : String) : List ColName → Except String Unit
  | [] => .ok ()
  | c :: cols =>
    if c.table ≠ "" ∧ (c.table ≠ table ∨ (c.database ≠ "" ∧ c.database ≠ database)) then
      .error ("Unknown column '" ++ c.table ++ "." ++ c.name ++ "' in '" ++ suffix ++ "'")
    else checkField database table suffix cols

/-- `DeletePlan.Build` for one table, with the columns of its `ORDER BY`. -/
def DeletePlan.build (r : Router) (H : Hasher) (order : InOrder V) (database table : String)
    (where_ : Option (Expr V)) (orderBy : List ColName) : Except String (List QueryTuple) := do
  checkField database table "where clause" ((where_.map Expr.cols).getD [])
  checkField database table "order clause" orderBy
  match where_ with
  | none =>
    let segments ← r.lookupAll database table
    segments.mapM segmentTuple
  | some where_ =>
    let t ← r.getTable database table
    let segments ← lookupFromWhere r H order database table t.shardKey where_
    segments.mapM segmentTuple

end Radon.Planner
