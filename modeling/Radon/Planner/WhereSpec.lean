import Radon.Planner.Where
import Radon.Router.PartitionSpec

/-!
# What the parsed conditions say

The joins and the filters of a clause together say what the clause says. A filter that comes with literals
compares its first column with them.
-/

namespace Radon.Planner

open List

variable {V : Type}

variable [LinearOrder V] {sem : Sem V}

/-- The literals of a filter: where it holds, its only or first column has the value of one of them. -/
def ValsOk (sem : Sem V) (expr : Expr V) (cols : List ColName) (vals : List SQLVal) : Prop :=
  vals ≠ [] → ∃ c rest, cols = c :: rest ∧
    ∀ ν : Valuation V, expr.IsTrue sem ν → ∃ v ∈ vals, ν c = sem.lit v

/-- What a filter is, read from a clause. -/
structure ExprInfo.Ok (sem : Sem V) (tbInfos : List TableInfo) (w : ExprInfo V) : Prop where
  cols : w.cols = w.expr.cols
  tables : Planner.referTables tbInfos w.cols [] = .ok w.referTables
  vals : ValsOk sem w.expr w.cols w.vals

/-- What a join is, read from a clause. -/
structure JoinCond.Ok (tbInfos : List TableInfo) (j : JoinCond V) : Prop where
  expr : j.expr = .cmp .equal (.col j.lc) (.col j.rc)
  tables : Planner.referTables tbInfos [j.lc, j.rc] [] = .ok j.referTables

variable {tbInfos : List TableInfo}

end Radon.Planner
