import Mathlib.Order.WithBot
import Radon.Router.Literal

/-!
# Expressions of a statement

The expressions that the planner takes apart, with their meaning. A value is `NULL`, the bottom
element, or an element of a linear order `V`; a condition is `TRUE`, `FALSE` or `NULL`. An expression
whose shape the planner does not look at keeps the columns it mentions and its meaning as a function
of their values.

`splitAndExpression`, `skipParenthesis` and `convertOrToIn` are the rewritings of the planner.
-/

namespace Radon.Planner

open List

/-- `sqlparser.ColName`: the name with the table and the database in front of it. -/
structure ColName where
  database : String := ""
  table : String := ""
  name : String
  deriving DecidableEq

/-- `ColName.Equal`: names do not depend on the case, qualifiers do. -/
def ColName.equal (c d : ColName) : Bool :=
  c.name.toLower = d.name.toLower ∧ c.table = d.table ∧ c.database = d.database

/-- The operators of `sqlparser.ComparisonExpr` between two values. -/
inductive CmpOp
  | equal
  | lessThan
  | greaterThan
  | lessEqual
  | greaterEqual
  | notEqual
  | nullSafeEqual
  | like
  | notLike
  | regexp
  | notRegexp
  | in_
  | notIn
  deriving DecidableEq

/-- The operators that the order of the values decides. -/
def CmpOp.ordered : CmpOp → Bool
  | .equal | .lessThan | .greaterThan | .lessEqual | .greaterEqual | .notEqual | .nullSafeEqual => true
  | _ => false

/-- An expression that stands for a value. A function call is set apart from the other expressions that
the planner does not look into. -/
inductive Scalar (V : Type)
  | col (c : ColName)
  | val (v : SQLVal)
  | null
  | func (cols : List ColName) (f : List (WithBot V) → WithBot V)
  | other (cols : List ColName) (f : List (WithBot V) → WithBot V)

/-- A condition. `inTuple` is `IN`, or `NOT IN`, with a tuple on the right. -/
inductive Expr (V : Type)
  | and (left right : Expr V)
  | or (left right : Expr V)
  | paren (e : Expr V)
  | cmp (op : CmpOp) (left right : Scalar V)
  | inTuple (neg : Bool) (left : Scalar V) (tuple : List (Scalar V))
  | isNull (s : Scalar V)
  | other (cols : List ColName) (f : List (WithBot V) → Option Bool)

variable {V : Type}

/-- The columns of a value in the order of `sqlparser.Walk`. -/
def Scalar.cols : Scalar V → List ColName
  | .col c => [c]
  | .val _ => []
  | .null => []
  | .func cols _ => cols
  | .other cols _ => cols

/-- The columns of a condition in the order of `sqlparser.Walk`. -/
def Expr.cols : Expr V → List ColName
  | .and l r => l.cols ++ r.cols
  | .or l r => l.cols ++ r.cols
  | .paren e => e.cols
  | .cmp _ l r => l.cols ++ r.cols
  | .inTuple _ l vs => l.cols ++ vs.flatMap Scalar.cols
  | .isNull s => s.cols
  | .other cols _ => cols

/-! ## Meaning -/

/-- What MySQL computes: the table of a column without a qualifier, the value of a literal, the pattern
operators, and the value that stands for a condition in a column, which `CastToBool` reads back. -/
structure Sem (V : Type) where
  resolve : String → String
  lit : SQLVal → WithBot V
  like : V → V → Bool
  regexp : V → V → Bool
  ofTruth : Option Bool → WithBot V
  castToBool : WithBot V → Bool
  castToBool_ofTruth : ∀ t, castToBool (ofTruth t) = (t == some true)

/-- Values of the columns. -/
abbrev Valuation (V : Type) := ColName → WithBot V

/-- Conjunction of three truth values. -/
def and3 : Option Bool → Option Bool → Option Bool
  | some false, _ => some false
  | _, some false => some false
  | some true, b => b
  | a, some true => a
  | none, none => none

/-- Disjunction of three truth values. -/
def or3 : Option Bool → Option Bool → Option Bool
  | some true, _ => some true
  | _, some true => some true
  | some false, b => b
  | a, some false => a
  | none, none => none

/-- Negation of three truth values. -/
def not3 : Option Bool → Option Bool := Option.map Bool.not

@[simp] theorem and3_eq_true {a b : Option Bool} : and3 a b = some true ↔ a = some true ∧ b = some true := by
  rcases a with _ | _ | _ <;> rcases b with _ | _ | _ <;> simp [and3]

theorem and3_assoc (a b c : Option Bool) : and3 (and3 a b) c = and3 a (and3 b c) := by
  rcases a with _ | _ | _ <;> rcases b with _ | _ | _ <;> rcases c with _ | _ | _ <;> rfl

theorem and3_true (a : Option Bool) : and3 a (some true) = a := by
  rcases a with _ | _ | _ <;> rfl

theorem true_and3 (a : Option Bool) : and3 (some true) a = a := by
  rcases a with _ | _ | _ <;> rfl

theorem or3_assoc (a b c : Option Bool) : or3 (or3 a b) c = or3 a (or3 b c) := by
  rcases a with _ | _ | _ <;> rcases b with _ | _ | _ <;> rcases c with _ | _ | _ <;> rfl

theorem or3_comm (a b : Option Bool) : or3 a b = or3 b a := by
  rcases a with _ | _ | _ <;> rcases b with _ | _ | _ <;> rfl

variable [LinearOrder V]

/-- A comparison of two values that are not `NULL`. -/
def CmpOp.holds (sem : Sem V) : CmpOp → V → V → Bool
  | .equal, a, b => a = b
  | .lessThan, a, b => a < b
  | .greaterThan, a, b => b < a
  | .lessEqual, a, b => a ≤ b
  | .greaterEqual, a, b => b ≤ a
  | .notEqual, a, b => a ≠ b
  | .nullSafeEqual, a, b => a = b
  | .like, a, b => sem.like a b
  | .notLike, a, b => !sem.like a b
  | .regexp, a, b => sem.regexp a b
  | .notRegexp, a, b => !sem.regexp a b
  | .in_, a, b => a = b
  | .notIn, a, b => a ≠ b

/-- A comparison in SQL: `NULL` as soon as one side is, except for `<=>`. -/
def CmpOp.eval (sem : Sem V) (op : CmpOp) (x y : WithBot V) : Option Bool :=
  if op = .nullSafeEqual then some (x = y)
  else match x, y with
    | some a, some b => some (op.holds sem a b)
    | _, _ => none

/-- The value of an expression. -/
def Scalar.eval (sem : Sem V) (ν : Valuation V) : Scalar V → WithBot V
  | .col c => ν c
  | .val v => sem.lit v
  | .null => ⊥
  | .func cols f => f (cols.map ν)
  | .other cols f => f (cols.map ν)

/-- `x IN (y₁, …, yₙ)`. -/
def evalIn (sem : Sem V) (x : WithBot V) : List (WithBot V) → Option Bool
  | [] => some false
  | y :: ys => or3 (CmpOp.equal.eval sem x y) (evalIn sem x ys)

/-- The truth value of a condition. -/
def Expr.eval (sem : Sem V) (ν : Valuation V) : Expr V → Option Bool
  | .and l r => and3 (l.eval sem ν) (r.eval sem ν)
  | .or l r => or3 (l.eval sem ν) (r.eval sem ν)
  | .paren e => e.eval sem ν
  | .cmp op l r => op.eval sem (l.eval sem ν) (r.eval sem ν)
  | .inTuple false l vs => evalIn sem (l.eval sem ν) (vs.map (Scalar.eval sem ν))
  | .inTuple true l vs => not3 (evalIn sem (l.eval sem ν) (vs.map (Scalar.eval sem ν)))
  | .isNull s => some (s.eval sem ν = ⊥)
  | .other cols f => f (cols.map ν)

/-- The condition is `TRUE`. -/
def Expr.IsTrue (sem : Sem V) (ν : Valuation V) (e : Expr V) : Prop := e.eval sem ν = some true

instance (sem : Sem V) (ν : Valuation V) (e : Expr V) : Decidable (e.IsTrue sem ν) :=
  inferInstanceAs (Decidable (_ = _))

/-! ## Taking a condition apart -/

/-- `splitAndExpression`. -/
def splitAndExpression : Expr V → List (Expr V)
  | .and l r => splitAndExpression l ++ splitAndExpression r
  | .paren (.and l r) => splitAndExpression l ++ splitAndExpression r
  | e => [e]

/-- `skipParenthesis`. -/
def skipParenthesis : Expr V → Expr V
  | .paren e => skipParenthesis e
  | e => e

/-- The columns that are compared with literals in an `OR`, each with its literals. -/
abbrev InMap (V : Type) := List (ColName × List (Scalar V))

/-- Add a literal to the entry of its column, `checkColInMap` included. -/
def addToInMap (c : ColName) (v : Scalar V) : InMap V → InMap V
  | [] => [(c, [v])]
  | (k, vs) :: m => if c.equal k then (k, vs ++ [v]) :: m else (k, vs) :: addToInMap c v m

/-- `splitOrExpression`: the disjuncts that are no equalities with a literal, and the map of those
that are. -/
def splitOrExpression : Expr V → InMap V → List (Expr V) × InMap V
  | .or l r, m =>
    let left := splitOrExpression l m
    let right := splitOrExpression r left.2
    (left.1 ++ right.1, right.2)
  | .cmp .equal (.col c) (.val v), m => ([], addToInMap c (.val v) m)
  | .cmp .equal (.val v) (.col c), m => ([], addToInMap c (.val v) m)
  | .paren e, m => splitOrExpression e m
  | e, m => ([e], m)

/-- `rebuildOr` over the disjuncts. -/
def rebuildOr : Option (Expr V) → List (Expr V) → Option (Expr V)
  | node, [] => node
  | none, e :: es => rebuildOr (some e) es
  | some node, e :: es => rebuildOr (some (.or node e)) es

/-- The order in which the loop of `convertOrToIn` meets the columns. -/
structure InOrder (V : Type) where
  arrange : InMap V → InMap V
  perm : ∀ m, (arrange m).Perm m

instance : Inhabited (InOrder V) := ⟨⟨id, .refl⟩⟩

/-- The `IN` conditions of the collected columns. -/
def InMap.exprs (m : InMap V) : List (Expr V) := m.map fun e => Expr.inTuple false (.col e.1) e.2

/-- `convertOrToIn`. -/
def convertOrToIn (order : InOrder V) : Expr V → Expr V
  | .or l r =>
    let split := splitOrExpression (.or l r) []
    (rebuildOr none (split.1 ++ InMap.exprs (order.arrange split.2))).getD (.or l r)
  | e => e

/-- The filters of a condition as the planner reads them: split at `AND`, without parentheses, with
equalities under `OR` collected into `IN`. -/
def filtersOf (order : InOrder V) (e : Expr V) : List (Expr V) :=
  (splitAndExpression e).map fun f => convertOrToIn order (skipParenthesis f)

/-! ## The rewritings keep the meaning -/

variable {sem : Sem V} {ν : Valuation V}

/-- The conjunction of a list of conditions. -/
def evalAll (sem : Sem V) (ν : Valuation V) : List (Expr V) → Option Bool
  | [] => some true
  | e :: es => and3 (e.eval sem ν) (evalAll sem ν es)

theorem evalAll_append (es fs : List (Expr V)) :
    evalAll sem ν (es ++ fs) = and3 (evalAll sem ν es) (evalAll sem ν fs) := by
  induction es with
  | nil => simp [evalAll, true_and3]
  | cons e es ih => simp [evalAll, ih, and3_assoc]

theorem splitAndExpression_eval (e : Expr V) : evalAll sem ν (splitAndExpression e) = e.eval sem ν := by
  induction e using splitAndExpression.induct with
  | case1 l r ihl ihr => rw [splitAndExpression, evalAll_append, ihl, ihr, Expr.eval]
  | case2 l r ihl ihr => rw [splitAndExpression, evalAll_append, ihl, ihr, Expr.eval, Expr.eval]
  | case3 e h₁ h₂ => simp [splitAndExpression, evalAll, and3_true]

theorem skipParenthesis_eval (e : Expr V) : (skipParenthesis e).eval sem ν = e.eval sem ν := by
  induction e using skipParenthesis.induct with
  | case1 e ih => simpa [skipParenthesis, Expr.eval] using ih
  | case2 e h => simp [skipParenthesis]

/-- The disjunction of a list of conditions. -/
def orAll (sem : Sem V) (ν : Valuation V) : List (Expr V) → Option Bool
  | [] => some false
  | e :: es => or3 (e.eval sem ν) (orAll sem ν es)

theorem or3_false (a : Option Bool) : or3 a (some false) = a := by
  rcases a with _ | _ | _ <;> rfl

theorem false_or3 (a : Option Bool) : or3 (some false) a = a := by
  rcases a with _ | _ | _ <;> rfl

theorem orAll_append (es fs : List (Expr V)) : orAll sem ν (es ++ fs) = or3 (orAll sem ν es) (orAll sem ν fs) := by
  induction es with
  | nil => simp [orAll, false_or3]
  | cons e es ih => simp [orAll, ih, or3_assoc]

theorem orAll_perm {es fs : List (Expr V)} (h : es.Perm fs) : orAll sem ν es = orAll sem ν fs := by
  induction h with
  | nil => rfl
  | cons e _ ih => simp [orAll, ih]
  | swap e f l => simp only [orAll, ← or3_assoc, or3_comm (e.eval sem ν)]
  | trans _ _ ih₁ ih₂ => exact ih₁.trans ih₂

theorem rebuildOr_some (node : Expr V) (es : List (Expr V)) :
    ∃ e, rebuildOr (some node) es = some e ∧ e.eval sem ν = or3 (node.eval sem ν) (orAll sem ν es) := by
  induction es generalizing node with
  | nil => exact ⟨node, rfl, by simp [orAll, or3_false]⟩
  | cons f es ih =>
    obtain ⟨e, he, heval⟩ := ih (.or node f)
    exact ⟨e, he, by rw [heval, Expr.eval, orAll, or3_assoc]⟩

theorem rebuildOr_none {es : List (Expr V)} (hne : es ≠ []) :
    ∃ e, rebuildOr none es = some e ∧ e.eval sem ν = orAll sem ν es := by
  match es, hne with
  | e :: es, _ => exact rebuildOr_some e es

/-- Columns that `ColName.Equal` identifies have one value. -/
def Respects (ν : Valuation V) : Prop := ∀ c d : ColName, c.equal d = true → ν c = ν d

theorem evalIn_append (x : WithBot V) (ys zs : List (WithBot V)) :
    evalIn sem x (ys ++ zs) = or3 (evalIn sem x ys) (evalIn sem x zs) := by
  induction ys with
  | nil => simp [evalIn, false_or3]
  | cons y ys ih => simp [evalIn, ih, or3_assoc]

theorem addToInMap_orAll (hν : Respects ν) (c : ColName) (v : Scalar V) (m : InMap V) :
    orAll sem ν (addToInMap c v m).exprs = or3 (orAll sem ν m.exprs) (CmpOp.equal.eval sem (ν c) (v.eval sem ν)) := by
  induction m with
  | nil => simp [addToInMap, InMap.exprs, orAll, Expr.eval, Scalar.eval, evalIn, or3_false, false_or3]
  | cons kv m ih =>
    obtain ⟨k, vs⟩ := kv
    rw [addToInMap]
    split
    case isTrue h =>
      have hk : ν c = ν k := hν c k h
      simp only [InMap.exprs, map_cons, orAll, Expr.eval, Scalar.eval, map_append, map_nil,
        evalIn_append, evalIn, or3_false, hk]
      rw [or3_assoc, or3_assoc, or3_comm (CmpOp.equal.eval _ _ _)]
    case isFalse =>
      simp only [InMap.exprs, map_cons, orAll] at ih ⊢
      rw [ih, or3_assoc]

theorem eval_equal_comm (x y : WithBot V) : CmpOp.equal.eval sem x y = CmpOp.equal.eval sem y x := by
  cases x <;> cases y <;> simp [CmpOp.eval, CmpOp.holds, eq_comm]

theorem splitOrExpression_orAll (hν : Respects ν) (e : Expr V) (m : InMap V) :
    or3 (orAll sem ν (splitOrExpression e m).1) (orAll sem ν (splitOrExpression e m).2.exprs) =
      or3 (e.eval sem ν) (orAll sem ν m.exprs) := by
  induction e, m using splitOrExpression.induct with
  | case1 l r m left ihl ihr => grind [orAll_append, or3_assoc, or3_comm, splitOrExpression, Expr.eval]
  | case2 m c v =>
    simp only [splitOrExpression, orAll, false_or3, addToInMap_orAll hν, Expr.eval]
    rw [or3_comm]
    rfl
  | case3 m v c =>
    simp only [splitOrExpression, orAll, false_or3, addToInMap_orAll hν, Expr.eval]
    rw [or3_comm, eval_equal_comm]
    rfl
  | case4 m e ih => simpa [splitOrExpression, Expr.eval] using ih
  | case5 m e h₁ h₂ h₃ h₄ => simp [splitOrExpression, orAll, or3_false]

theorem convertOrToIn_eval (order : InOrder V) (hν : Respects ν) (e : Expr V) :
    (convertOrToIn order e).eval sem ν = e.eval sem ν := by
  unfold convertOrToIn
  split
  case h_1 l r =>
    have hsplit := @splitOrExpression_orAll _ _ sem _ hν (.or l r) []
    have hperm : orAll sem ν (InMap.exprs (order.arrange (splitOrExpression (.or l r) []).2)) =
        orAll sem ν (InMap.exprs (splitOrExpression (.or l r) []).2) :=
      orAll_perm ((order.perm _).map _)
    have hnil : orAll sem ν (InMap.exprs ([] : InMap V)) = some false := rfl
    rw [hnil, or3_false] at hsplit
    by_cases hne : (splitOrExpression (.or l r) []).1 ++
        InMap.exprs (order.arrange (splitOrExpression (.or l r) []).2) = []
    · simp [hne, rebuildOr]
    · obtain ⟨f, hf, heval⟩ := @rebuildOr_none _ _ sem ν _ hne
      simp only [hf, Option.getD_some]
      rw [heval, orAll_append, hperm, hsplit]
  · rfl

theorem evalAll_map {g : Expr V → Expr V} (hg : ∀ e, (g e).eval sem ν = e.eval sem ν) (es : List (Expr V)) :
    evalAll sem ν (es.map g) = evalAll sem ν es := by
  induction es with
  | nil => rfl
  | cons e es ih => rw [map_cons, evalAll, evalAll, hg, ih]

/-- The conjunction of the filters has the truth value of the condition. -/
theorem evalAll_filtersOf (order : InOrder V) (hν : Respects ν) (e : Expr V) :
    evalAll sem ν (filtersOf order e) = e.eval sem ν := by
  rw [filtersOf, evalAll_map, splitAndExpression_eval]
  intro f
  rw [convertOrToIn_eval order hν, skipParenthesis_eval]

/-- The values of a row, by database, table and name; names do not depend on the case. -/
def rowValues (row : String → String → String → WithBot V) : Valuation V := fun c =>
  row c.database c.table c.name.toLower

/-- On every row the conjunction of the filters is `TRUE`, `FALSE` or `NULL` as the condition is. -/
theorem filtersOf_eval (order : InOrder V) (row : String → String → String → WithBot V) (e : Expr V) :
    evalAll sem (rowValues row) (filtersOf order e) = e.eval sem (rowValues row) := by
  refine evalAll_filtersOf order (fun c d h => ?_) e
  simp only [ColName.equal, Bool.decide_and, Bool.and_eq_true, decide_eq_true_eq] at h
  simp only [rowValues, h.1, h.2.1, h.2.2]

end Radon.Planner
