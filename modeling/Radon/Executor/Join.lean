import Mathlib.Data.List.Lex
import Radon.Planner.PlanNode
import Radon.Relational.MergeJoin

/-!
# Joins of results

The executor joins the results of two children in memory: it sorts both by their keys and merges them, or
takes the product. A row of a result is a list of values. `NullsafeCompare` is the order of `WithBot V`.
-/

namespace Radon.Executor

open Planner Relational List

variable {V : Type}

/-- A row of `sqltypes.Result`. -/
abbrev ResultRow (V : Type) := List (WithBot V)

/-- The value of a column. -/
def cell (row : ResultRow V) (index : ℕ) : WithBot V := row[index]?.getD ⊥

/-- A column of two joined rows; the right one can be nil on left joins. -/
def joinCell (lrow : ResultRow V) (rrow : Option (ResultRow V)) : ColRef → WithBot V
  | .left index => cell lrow index
  | .right index => rrow.elim ⊥ fun row => cell row index

/-- `joinRows`. -/
def joinRows (lrow : ResultRow V) (rrow : Option (ResultRow V)) (cols : List ColRef) : ResultRow V :=
  cols.map (joinCell lrow rrow)

variable [LinearOrder V]

/-- The switch of `concatLeftAndRight`: an operator it does not list matches. -/
def accepts : CmpOp → WithBot V → WithBot V → Bool
  | .equal, v1, v2 => v1 = v2
  | .lessThan, v1, v2 => v1 < v2
  | .greaterThan, v1, v2 => v2 < v1
  | .lessEqual, v1, v2 => v1 ≤ v2
  | .greaterEqual, v1, v2 => v2 ≤ v1
  | .notEqual, v1, v2 => v1 ≠ v2
  | .nullSafeEqual, v1, v2 => v1 = v2
  | _, _, _ => true

/-- One filter of `CmpFilter` on the values of its two columns; only `<=>` can match a null value. -/
def acceptsValues (op : CmpOp) (exchange : Bool) (left right : WithBot V) : Bool :=
  (if exchange then accepts op right left else accepts op left right) &&
    (op = .nullSafeEqual || (left ≠ ⊥ && right ≠ ⊥))

/-- One filter of `CmpFilter`. -/
def acceptsRows (lrow rrow : ResultRow V) (filter : Comparison) : Bool :=
  acceptsValues filter.operator filter.exchange (cell lrow filter.left) (cell rrow filter.right)

/-- How a join reads the rows of its children: their values up to `NullsafeCompare`, and `CastToBool` of a
column. -/
structure RowView (ρ V : Type) where
  cells : ρ → ResultRow V
  castToBool : ρ → ℕ → Bool

/-- Rows whose values are equal if they compare equal. -/
def valueRows (sem : Sem V) : RowView (ResultRow V) V := ⟨id, fun row idx => sem.castToBool (cell row idx)⟩

section RowView

variable {ρ W γ : Type} (view : RowView ρ V) (node : JoinNode W) (join : ρ → Option ρ → γ)

/-- `mathOps`: the rows that a left row appends to the result, where `join` is `joinRows`. -/
def RowView.mathOps (rrows : List ρ) (lrow : ρ) : List γ :=
  let leftMatch := node.leftTmpCols.all fun idx => view.castToBool lrow idx
  emit (if node.isLeftJoin && !node.hasRightFilter then [join lrow none] else [])
    (fun rrow => node.rightTmpCols.all fun idx => cell (view.cells rrow) idx = ⊥)
    (fun rrow => join lrow (some rrow))
    (if leftMatch then
      rrows.filter fun rrow => node.cmpFilter.all (acceptsRows (view.cells lrow) (view.cells rrow)) else [])

/-- `concatLeftAndNil`. -/
def leftAndNil (lrows : List ρ) : List γ :=
  if node.isLeftJoin && !node.hasRightFilter then lrows.map fun lrow => join lrow none else []

end RowView

/-- The values of the keys of a row. -/
def keyOf (keys : List ℕ) (row : ResultRow V) : List (WithBot V) := keys.map (cell row)

/-- `keysEqual`. -/
def keysEqual (keys : List ℕ) (row1 row2 : ResultRow V) : Bool :=
  keys.all fun key => cell row1 key = cell row2 key

/-- The loop of `mergeJoin` over the keys of two rows. -/
def compareKeys : List (ℕ × ℕ) → ResultRow V → ResultRow V → KeyOrder
  | [], _, _ => .same
  | (lkey, rkey) :: keys, lrow, rrow =>
    if cell lrow lkey < cell rrow rkey then .less
    else if cell rrow rkey < cell lrow lkey then .greater
    else if cell lrow lkey = ⊥ then .null
    else compareKeys keys lrow rrow

/-- The error of a join with too many rows. -/
def tooManyRows (maxrow : ℕ) : String :=
  "unsupported: join.row.count.exceeded.allowed.limit.of.'" ++ toString maxrow ++ "'"

/-! ## The merge finds what a loop over the left rows finds -/

theorem leftAndNil_eq {ρ W γ : Type} (view : RowView ρ V) (node : JoinNode W) (join : ρ → Option ρ → γ)
    (lrows : List ρ) : leftAndNil node join lrows = lrows.flatMap fun lrow => view.mathOps node join [] lrow := by
  simp only [leftAndNil, RowView.mathOps, filter_nil, ite_self, emit]
  split
  · exact map_eq_flatMap
  · simp

theorem keysEqual_iff (keys : List ℕ) (row1 row2 : ResultRow V) :
    keysEqual keys row1 row2 = true ↔ keyOf keys row1 = keyOf keys row2 := by
  simp [keysEqual, keyOf]

/-- The key of a row that can match has no null value. -/
def Valid (key : List (WithBot V)) : Prop := ⊥ ∉ key

instance (key : List (WithBot V)) : Decidable (Valid key) := inferInstanceAs (Decidable (_ ∉ _))

omit [LinearOrder V] in
/-- Equal keys without null values, position by position. -/
theorem keys_iff {lkeys rkeys : List ℕ} (hlen : lkeys.length = rkeys.length) (lrow rrow : ResultRow V) :
    (∀ key ∈ lkeys.zip rkeys, cell lrow key.1 = cell rrow key.2 ∧ cell lrow key.1 ≠ ⊥) ↔
      keyOf lkeys lrow = keyOf rkeys rrow ∧ Valid (keyOf lkeys lrow) := by
  induction lkeys generalizing rkeys with
  | nil => grind [keyOf, Valid]
  | cons lkey lkeys ih =>
    cases rkeys with
    | nil => cases hlen
    | cons rkey rkeys =>
      rw [zip_cons_cons, forall_mem_cons, ih (Nat.succ.inj hlen)]
      grind [keyOf, Valid]

theorem compareKeys_cons (lkey rkey : ℕ) (keys : List (ℕ × ℕ)) (lrow rrow : ResultRow V) :
    compareKeys ((lkey, rkey) :: keys) lrow rrow = .less ∧ cell lrow lkey < cell rrow rkey ∨
      compareKeys ((lkey, rkey) :: keys) lrow rrow = .greater ∧ cell rrow rkey < cell lrow lkey ∨
      compareKeys ((lkey, rkey) :: keys) lrow rrow = .null ∧ cell lrow lkey = ⊥ ∧ cell rrow rkey = ⊥ ∨
      compareKeys ((lkey, rkey) :: keys) lrow rrow = compareKeys keys lrow rrow ∧
        cell lrow lkey = cell rrow rkey ∧ cell lrow lkey ≠ ⊥ := by grind [compareKeys]

theorem compareKeys_spec {lkeys rkeys : List ℕ} (hlen : lkeys.length = rkeys.length) :
    ComparesKeys (compareKeys (lkeys.zip rkeys)) (keyOf (V := V) lkeys) (keyOf rkeys) Valid := by
  induction lkeys generalizing rkeys with
  | nil =>
    obtain rfl := length_eq_zero_iff.1 hlen.symm
    constructor <;> intro a b h <;> simp [compareKeys, keyOf, Valid] at h ⊢
  | cons lkey lkeys ih =>
    cases rkeys with
    | nil => cases hlen
    | cons rkey rkeys =>
      have ih := ih (Nat.succ.inj hlen)
      have hcases := compareKeys_cons (V := V) lkey rkey (lkeys.zip rkeys)
      refine ⟨fun a b h => ?_, fun a b h => ?_, fun a b h => ?_, fun a b h => ?_⟩ <;>
        rw [zip_cons_cons] at h <;>
        obtain ⟨h', hlt⟩ | ⟨h', hgt⟩ | ⟨h', hl, hr⟩ | ⟨h', heq, hne⟩ := hcases a b <;>
        rw [h'] at h <;> try cases h
      · exact cons_lt_cons_iff.2 (.inl hlt)
      · exact cons_lt_cons_iff.2 (.inr ⟨heq, ih.less a b h⟩)
      · exact cons_lt_cons_iff.2 (.inl hgt)
      · exact cons_lt_cons_iff.2 (.inr ⟨heq.symm, ih.greater a b h⟩)
      · obtain ⟨hkeys, hvalid⟩ := ih.same a b h
        grind [keyOf, Valid]
      · grind [Valid, keyOf]
      · obtain ⟨hl, hr⟩ := ih.null a b h
        grind [Valid, keyOf]

end Radon.Executor
