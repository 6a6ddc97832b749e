import Mathlib.Data.List.Sort
import Radon.Aggregate.Plan
import Radon.Relational.MergeJoin

/-!
# The steps of the proxy on the rows of the backends

`AggregateOperator`, `OrderByOperator` and `LimitOperator`, which `ExecSubPlan` runs one after another on
the rows of all segments. `sort.Slice` is given a comparison that holds for rows with equal keys. It is not
stable, so that rows with equal keys come in an order of its own.
-/

namespace Radon.Aggregate

open Relational (chunks)

variable {R V K : Type} [LinearOrder K]

/-- `sqltypes.Result`: the names and the tables of the columns, and the rows. -/
structure Result (V : Type) where
  fields : List (String × String)
  rows : List (Row V)

/-- The comparison of two rows that both operators hand to `sort.Slice`: by the columns in turn, in the
direction of each. -/
def rowLess (vals : Values V K) : List (ℕ × Bool) → Row V → Row V → Bool
  | [], _, _ => true
  | (index, desc) :: keys, row1, row2 =>
    match vals.nullsafeCompare (cellAt row1 index) (cellAt row2 index) with
    | .eq => rowLess vals keys row1 row2
    | .lt => !desc
    | .gt => desc

/-- `sort.Slice` for some kind of elements: the order it leaves them in, and the comparisons it makes. -/
structure SliceSort (α : Type) where
  sort : (α → α → Bool) → List α → List α
  compared : (α → α → Bool) → List α → List (α × α)
  perm : ∀ less xs, (sort less xs).Perm xs
  pairwise : ∀ less xs, (∀ a b, less a b = true ∨ less b a = true) →
    (∀ a b c, less a b = true → less b c = true → less a c = true) →
    (sort less xs).Pairwise fun a b => less a b = true
  compared_eq_nil : ∀ less xs, xs.length < 2 → compared less xs = []

/-- A sort that is stable and compares all pairs. -/
def SliceSort.insertion (α : Type) : SliceSort α where
  sort less := List.insertionSort fun a b => less a b = true
  compared _ xs := if xs.length < 2 then [] else xs.product xs
  perm _ xs := List.perm_insertionSort _ xs
  pairwise less xs htotal htrans :=
    have : Std.Total fun a b => less a b = true := ⟨htotal⟩
    have : IsTrans α fun a b => less a b = true := ⟨htrans⟩
    List.pairwise_insertionSort _ xs
  compared_eq_nil _ _ h := if_pos h

/-- `keysEqual`. -/
def keysEqual (vals : Values V K) (groups : List ℕ) (row1 row2 : Row V) : Bool :=
  groups.all fun index => vals.nullsafeCompare (cellAt row1 index) (cellAt row2 index) = .eq

section

variable [DecidableEq V]

/-- The row of a group: its first row with the values of the functions. -/
def groupRow (vals : Values V K) (aggrs : List Aggregation) (first : Row V) (group : List (Row V)) :
    Row V :=
  removeColumns (deIdxs aggrs)
    (getResults vals (aggrs.map fun aggr => (aggr, aggr.evaluate vals group)) first)

/-- The rows that `aggregate` makes of the rows of all segments, which have `width` columns. A group ends
where a row differs from its first row. -/
def aggregateRows (slice : SliceSort (Row V)) (vals : Values V K) (plan : AggregatePlan) (width : ℕ)
    (rows : List (Row V)) : List (Row V) :=
  let sorted := slice.sort (rowLess vals (plan.groupAggrs.map fun index => (index, false))) rows
  let groups := chunks (keysEqual vals plan.groupAggrs) (if plan.groupAggrs = [] then rows else sorted)
  if groups = [] ∧ plan.normalAggrs ≠ [] then
    [groupRow vals plan.normalAggrs (List.replicate width none) []]
  else groups.map fun group => groupRow vals plan.normalAggrs (group.headD []) group

/-- `AggregateOperator.Execute`. -/
def aggregate (slice : SliceSort (Row V)) (vals : Values V K) (plan : AggregatePlan) (res : Result V) :
    Result V :=
  if plan.normalAggrs = [] ∧ plan.groupAggrs = [] then res
  else ⟨removeColumns (deIdxs plan.normalAggrs) res.fields,
    aggregateRows slice vals plan res.fields.length res.rows⟩

end

/-- The column of `OrderByOperator` for an element of the clause. -/
def orderIndex (fields : List (String × String)) (o : OrderBy) : Except String (ℕ × Bool) :=
  match fields.findIdx? fun f => f.1 = o.field && (o.table = "" || o.table = f.2) with
  | some index => .ok (index, o.desc)
  | none => .error ("can.not.find.the.orderby.field[" ++ o.field ++ "].direction.asc")

/-- The comparison of `OrderByOperator.Execute`, which looks up the column of every element; an error is the
external `err`, with which it returns `true`. -/
def orderByLess (compare : Option V → Option V → Ordering) (fields : List (String × String)) :
    List OrderBy → Row V → Row V → Except String Bool
  | [], _, _ => .ok true
  | o :: orderBys, row1, row2 => do
    let key ← orderIndex fields o
    match compare (cellAt row1 key.1) (cellAt row2 key.1) with
    | .eq => orderByLess compare fields orderBys row1 row2
    | .lt => .ok !key.2
    | .gt => .ok key.2

/-- `OrderByOperator.Execute`: a missing field is an error if a comparison comes to it. -/
def orderBy (slice : SliceSort (Row V)) (vals : Values V K) (plan : OrderByPlan) (res : Result V) :
    Except String (Result V) := do
  let less := orderByLess vals.nullsafeCompare res.fields plan.orderBys
  let holds row1 row2 := (less row1 row2).toOption.getD true
  let _ ← (slice.compared holds res.rows).mapM fun pair => less pair.1 pair.2
  return ⟨removeColumns plan.removedIdxs res.fields,
    (slice.sort holds res.rows).map (removeColumns plan.removedIdxs)⟩

variable [DecidableEq V]

/-- `ExecSubPlan`. -/
def execSubPlan (slice : SliceSort (Row V)) (vals : Values V K) :
    List ChildPlan → Result V → Except String (Result V)
  | [], res => .ok res
  | .aggregate plan :: children, res => execSubPlan slice vals children (aggregate slice vals plan res)
  | .orderBy plan :: children, res => do execSubPlan slice vals children (← orderBy slice vals plan res)
  | .limit plan :: children, res => do
    execSubPlan slice vals children { res with rows := ← limitRows plan res.rows }

/-- `MergeEngine.Execute` on the rows of all segments in the order of their arrival. -/
def Node.execute (slice : SliceSort (Row V)) (vals : Values V K) (m : Node R V K) (arrived : List (Row V)) :
    Except String (Result V) :=
  execSubPlan slice vals m.children ⟨m.selectExprs.map fun c => (c.name, c.table), arrived⟩

end Radon.Aggregate
