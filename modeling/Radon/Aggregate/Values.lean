import Mathlib.Algebra.Field.Rat
import Mathlib.Data.List.Basic
import Mathlib.Order.Compare
import Mathlib.Order.WithBot

/-!
# Values and aggregate functions of the proxy

The part of `sqltypes` that the proxy computes with: the comparison and the arithmetic of the values
that the backends return, and the evaluation of one aggregate function over the rows of a group.

Arithmetic is exact. The conversions to `float64` and to the declared number of decimals, and the error
of a sum out of range, are left out.
-/

namespace Radon.Aggregate

variable {V K : Type}

/-- The values other than `NULL`. `key` is what `NullsafeCompare` compares, a number or the bytes;
`number` is what `newNumeric` reads, and `ofNumber` is `castFromNumeric`. Two elements are equal if their
bytes are. -/
structure Values (V K : Type) where
  key : V → K
  number : V → ℚ
  ofNumber : ℚ → V
  number_ofNumber : ∀ q, number (ofNumber q) = q

attribute [simp] Values.number_ofNumber

/-- A row of a result; `none` is `NULL`. -/
abbrev Row (V : Type) := List (Option V)

/-- The value of a column. -/
def cellAt (row : Row V) (index : ℕ) : Option V := row[index]?.getD none

/-- A table of numbers. -/
def numbers : Values ℚ ℚ := ⟨id, id, id, fun _ => rfl⟩

namespace Values

variable (vals : Values V K)

/-- `NullsafeAdd`. -/
def nullsafeAdd : Option V → Option V → Option V
  | none, v2 => v2
  | v1, none => v1
  | some v1, some v2 => some (vals.ofNumber (vals.number v1 + vals.number v2))

/-- `NullsafeSum`, which differs from `NullsafeAdd` in the types of its numbers. -/
def nullsafeSum (sum v : Option V) : Option V := vals.nullsafeAdd sum v

/-- `NullsafeDiv`. -/
def nullsafeDiv : Option V → Option V → Option V
  | some v1, some v2 =>
    if vals.number v2 = 0 then none else some (vals.ofNumber (vals.number v1 / vals.number v2))
  | _, _ => none

/-- `Cast` to the type of a sum. -/
def cast (v : Option V) : Option V := v.map fun w => vals.ofNumber (vals.number w)

variable [LinearOrder K]

/-- `NullsafeCompare`. -/
def nullsafeCompare : Option V → Option V → Ordering
  | none, none => .eq
  | none, some _ => .lt
  | some _, none => .gt
  | some v1, some v2 => cmp (vals.key v1) (vals.key v2)

/-- `minmax`. -/
def minmax (min : Bool) : Option V → Option V → Option V
  | none, v2 => v2
  | v1, none => v1
  | some v1, some v2 =>
    let v1isSmaller := decide (vals.nullsafeCompare (some v1) (some v2) = .lt)
    if min = v1isSmaller then some v1 else some v2

/-- What `NullsafeCompare` compares, with `NULL` below all values. -/
def cellKey : Option V → WithBot K
  | none => ⊥
  | some v => (vals.key v : WithBot K)

theorem nullsafeCompare_eq_cmp (v w : Option V) : vals.nullsafeCompare v w = cmp (vals.cellKey v) (vals.cellKey w) := by
  rcases v with _ | v <;> rcases w with _ | w
  · exact (cmp_self_eq_eq _).symm
  · exact (cmp_eq_lt_iff _ _).2 (WithBot.bot_lt_coe _) |>.symm
  · exact (cmp_eq_gt_iff _ _).2 (WithBot.bot_lt_coe _) |>.symm
  · simp only [nullsafeCompare, cellKey, cmp, cmpUsing, WithBot.coe_lt_coe]

end Values

/-- The functions of `sqltypes.AggrType`. -/
inductive AggrType
  | count
  | sum
  | min
  | max
  | avg
  deriving DecidableEq

/-- `sqltypes.Aggregation`. -/
structure Aggregation where
  index : ℕ
  aggrTyp : AggrType
  distinct : Bool
  isPushDown : Bool
  deriving DecidableEq

/-- `sqltypes.AggEvaluateContext`; `buffer` has the values that were met. -/
structure EvalContext (V : Type) where
  count : ℕ
  val : Option V
  buffer : List V

namespace Aggregation

variable (vals : Values V K) (aggr : Aggregation)

/-- `InitEvalCtx`, for the value of its column in the first row of a group. -/
def initEvalCtx (v : Option V) : EvalContext V :=
  match v with
  | none => ⟨0, none, []⟩
  | some w =>
    if aggr.isPushDown then ⟨0, some w, []⟩
    else ⟨1, some w, if aggr.distinct then [w] else []⟩

/-- `GetResult`. -/
def getResult (ctx : EvalContext V) : Option V :=
  match aggr.aggrTyp with
  | .avg =>
    if aggr.isPushDown then none
    else vals.nullsafeDiv ctx.val (some (vals.ofNumber ctx.count))
  | .max | .min => ctx.val
  | .sum => vals.cast ctx.val
  | .count => if aggr.isPushDown then ctx.val else some (vals.ofNumber ctx.count)

variable [LinearOrder K] [DecidableEq V]

/-- The switch of `Update`. -/
def updateVal (ctx : EvalContext V) (w : V) : EvalContext V :=
  match aggr.aggrTyp with
  | .min => { ctx with val := vals.minmax true ctx.val (some w) }
  | .max => { ctx with val := vals.minmax false ctx.val (some w) }
  | .sum => { ctx with count := ctx.count + 1, val := vals.nullsafeSum ctx.val (some w) }
  | .count =>
    if aggr.isPushDown then { ctx with val := vals.nullsafeAdd ctx.val (some w) }
    else { ctx with count := ctx.count + 1 }
  | .avg =>
    if aggr.isPushDown then ctx
    else { ctx with count := ctx.count + 1, val := vals.nullsafeSum ctx.val (some w) }

/-- `Update`, for the value of its column in another row of the group. -/
def update (ctx : EvalContext V) (v : Option V) : EvalContext V :=
  match v with
  | none => ctx
  | some w =>
    if !aggr.isPushDown && aggr.distinct then
      if w ∈ ctx.buffer then ctx
      else aggr.updateVal vals { ctx with buffer := ctx.buffer ++ [w] } w
    else aggr.updateVal vals ctx w

/-- The context of the function after all rows of a group; `[]` stands for the group that `aggregate`
makes up if there is no row. -/
def evaluate : List (Row V) → EvalContext V
  | [] => aggr.initEvalCtx none
  | row :: rows =>
    (rows.map (cellAt · aggr.index)).foldl (aggr.update vals) (aggr.initEvalCtx (cellAt row aggr.index))

end Aggregation

/-- The loop of `GetResults` over the functions: the values of a group in its first row. An average that
the backends computed as a sum and a count is divided out, and the two functions after it are skipped. -/
def getResults (vals : Values V K) : List (Aggregation × EvalContext V) → Row V → Row V
  | [], x => x
  | (aggr, ctx) :: rest, x =>
    if aggr.isPushDown = true ∧ aggr.aggrTyp = .avg then
      match rest with
      | (_, sum) :: (_, count) :: rest =>
        getResults vals rest (x.set aggr.index (vals.nullsafeDiv sum.val count.val))
      | _ => x
    else getResults vals rest (x.set aggr.index (aggr.getResult vals ctx))

/-- The columns that `GetResults` wants to be removed: the counts of the averages. -/
def deIdxs : List Aggregation → List ℕ
  | [] => []
  | aggr :: rest =>
    if aggr.isPushDown = true ∧ aggr.aggrTyp = .avg then
      match rest with
      | _ :: _ :: rest => (aggr.index + 1) :: deIdxs rest
      | _ => []
    else deIdxs rest

theorem deIdxs_avg {aggr aggr₁ aggr₂ : Aggregation} (rest : List Aggregation)
    (h : aggr.isPushDown = true ∧ aggr.aggrTyp = .avg) :
    deIdxs (aggr :: aggr₁ :: aggr₂ :: rest) = (aggr.index + 1) :: deIdxs rest := by
  conv_lhs => unfold deIdxs
  exact if_pos h

theorem deIdxs_cons {aggr : Aggregation} (rest : List Aggregation)
    (h : ¬ (aggr.isPushDown = true ∧ aggr.aggrTyp = .avg)) : deIdxs (aggr :: rest) = deIdxs rest := by
  conv_lhs => unfold deIdxs
  exact if_neg h

/-- `Result.RemoveColumns`, on the fields and on a row. -/
def removeColumns {α : Type} (idxs : List ℕ) (xs : List α) : List α :=
  (xs.zipIdx.filter fun x => x.2 ∉ idxs).map Prod.fst

end Radon.Aggregate
