import Radon.Backend.Txn

/-!
# Plans and their execution

A plan is what the planner hands to the executor: the queries of a write, of a DDL or of a table
maintenance statement, or the tree of a select. The sides of a union and of a merge join run in
two goroutines; a nested-loop join runs its right side once per row of the left one.

The planner and the rows are outside the model. How many rows come back and whether an operator
on them fails is left to the environment.
-/

namespace Radon

open Concurrency

/-- A partition query of a plan. -/
structure PlanQuery where
  query : String
  backend : Backend
  deriving DecidableEq

/-- The query as a request carries it. -/
def PlanQuery.tuple (q : PlanQuery) : QueryTuple := ⟨.sql q.query, q.backend⟩

/-- `engine.PlanEngine`. A join is a nested loop or runs both sides at once. -/
inductive PlanEngine
  | merge (mode : RequestMode) (rawQuery : String) (querys : List PlanQuery)
  | union (left right : PlanEngine)
  | join (nestLoop : Bool) (left right : PlanEngine)

/-- `planner.Plan`, by the executor that runs it; `write` is an insert, an update or a delete. -/
inductive Plan
  | write (rawQuery : String) (querys : List PlanQuery)
  | ddl (rawQuery : String) (querys : List PlanQuery)
  | others (rawQuery : String) (querys : List PlanQuery)
  | select (root : PlanEngine)

/-- Whether a computation on the rows fails. -/
def rowsFail (message : String) : Go (Option Err) := do
  let failed ← act .choose
  return if failed = 0 then none else some (.text message)

/-- `operator.ExecSubPlan`. -/
def execSubPlan : Go (Option Err) := rowsFail "unsupported: plan.operator"

/-- A request whose rows are handed on. -/
def executeRequest (g : Goroutine) (t : TxnId) (req : RequestContext) : Go (Option Err) := do
  let r ← txnExecute g t req
  return errOf r

/-- A request, and the operators on its rows. -/
def executeThenSubPlan (g : Goroutine) (t : TxnId) (req : RequestContext) : Go (Option Err) := do
  match ← executeRequest g t req with
  | some e => return some e
  | none => execSubPlan

/-- The request of `MergeEngine.Execute`. -/
def mergeRequest (mode : RequestMode) (rawQuery : String) (querys : List PlanQuery) : RequestContext :=
  match mode with
  | .reqNormal => { mode := mode, txnMode := .txnRead, querys := querys.map PlanQuery.tuple }
  | _ => { mode := mode, txnMode := .txnRead, rawQuery := .sql rawQuery }

/-- The request of `MergeEngine.execBindVars` and of `MergeEngine.getFields`. -/
def bindRequest (querys : List PlanQuery) : RequestContext :=
  { txnMode := .txnRead, querys := querys.map PlanQuery.tuple }

/-- `PlanEngine.getFields`. -/
def getFields (g : Goroutine) (t : TxnId) : PlanEngine → Go (Option Err)
  | .merge _ _ querys => executeRequest g t (bindRequest querys.getLast?.toList)
  | .union _ _ => return some (.text "UnionEngine.getFields: unreachable")
  | .join _ left right => do
    match ← getFields g t left with
    | some e => return some e
    | none => getFields g t right

/-- The loop of `JoinEngine.execBindVars` over the rows of the left side; the fields are wanted from
the first round only. -/
def bindLoop (round : Bool → Go (Option Err)) : ℕ → Bool → Go (Option Err)
  | 0, _ => return none
  | n + 1, wantfields => do
    match ← round wantfields with
    | some e => return some e
    | none => bindLoop round n false

/-- `PlanEngine.execBindVars`. -/
def execBindVars (g : Goroutine) (t : TxnId) : PlanEngine → Bool → Go (Option Err)
  | .merge _ _ querys, _ => executeThenSubPlan g t (bindRequest querys)
  | .union _ _, _ => return some (.text "UnionEngine.execBindVars: unreachable")
  | .join _ left right, wantfields => do
    match ← execBindVars g t left wantfields with
    | some e => return some e
    | none =>
      let rows ← act .choose
      match ← bindLoop (execBindVars g t right) rows wantfields with
      | some e => return some e
      | none =>
        if rows = 0 ∧ wantfields then getFields g t right
        else rowsFail "unsupported: join.row.count.exceeded.allowed.limit"

/-- Two sides of a plan in two goroutines, then a computation on the rows of both. -/
def bothSides (left right : Go (Option Err)) : Go (Option Err) :=
  Prog.par left right fun l r =>
    match firstErr [l, r] with
    | some e => return some e
    | none => execSubPlan

/-- `PlanEngine.Execute`. -/
def planEngineExecute (g : Goroutine) (t : TxnId) : PlanEngine → Go (Option Err)
  | .merge mode rawQuery querys => executeThenSubPlan g t (mergeRequest mode rawQuery querys)
  | .union left right =>
    bothSides (planEngineExecute (.left :: g) t left) (planEngineExecute (.right :: g) t right)
  | .join false left right =>
    bothSides (planEngineExecute (.left :: g) t left) (planEngineExecute (.right :: g) t right)
  | .join true left right => do
    match ← execBindVars g t (.join true left right) true with
    | some e => return some e
    | none => execSubPlan

/-- The request of the executors that send the plan's queries as they are. -/
def planRequest (mode : TxnMode) (rawQuery : String) (querys : List PlanQuery) : RequestContext :=
  { rawQuery := .sql rawQuery, txnMode := mode, querys := querys.map PlanQuery.tuple }

/-- `Tree.Execute` for the one plan of a statement. -/
def executeTree (g : Goroutine) (t : TxnId) : Plan → Go (Option Err)
  | .write rawQuery querys => executeRequest g t (planRequest .txnWrite rawQuery querys)
  | .ddl rawQuery querys => executeRequest g t (planRequest .txnNone rawQuery querys)
  | .others rawQuery querys => executeRequest g t (planRequest .txnRead rawQuery querys)
  | .select root => planEngineExecute g t root

end Radon
