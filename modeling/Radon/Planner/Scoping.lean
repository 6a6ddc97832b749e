import Mathlib.Data.List.MinMax
import Radon.Planner.BindVars

/-!
# Ancestors and the order of the leaves

In a nested loop a condition goes to the leaf with the largest number of `reOrder` among those of its tables,
and `buildQuery` asks the lowest join over that leaf and the leaf of a column for the column. That join has
the column on its left and the condition on its right.

A pointer of the source is the way to its node from the node at hand.
-/

namespace Radon.Planner

variable {V : Type}

/-- A child of a join node. -/
inductive Side
  | left
  | right
  deriving DecidableEq

/-- A pointer as the child of the node at hand sees it; `none` leads to a node that is not below. -/
def Side.below (s : Side) : Option (List Side) → Option (List Side)
  | some (t :: p) => if t = s then some p else none
  | _ => none

/-- `findLCA`. -/
def PlanNode.findLCA : PlanNode V → Option (List Side) → Option (List Side) → Option (PlanNode V)
  | .merge m, p1, p2 => if p1 = some [] ∨ p2 = some [] then some (.merge m) else none
  | .join j left right, p1, p2 =>
    if p1 = some [] ∨ p2 = some [] then some (.join j left right)
    else
      match left.findLCA (Side.left.below p1) (Side.left.below p2),
        right.findLCA (Side.right.below p1) (Side.right.below p2) with
      | some _, some _ => some (.join j left right)
      | none, pr => pr
      | pl, none => pl

/-- `tableInfo.parent` for a table of the node: the pointer to its leaf. -/
def PlanNode.parent (tb : String) : PlanNode V → List Side
  | .merge _ => []
  | .join _ left right =>
    if tb ∈ left.tables then .left :: left.parent tb else .right :: right.parent tb

/-- `Order` of the node after `reOrder`. -/
def PlanNode.reOrder : PlanNode V → ℕ → ℕ
  | .merge _, order => order + 1
  | .join _ left right, order => right.reOrder (left.reOrder order) + 1

/-- `Order` of the leaf of a table after `reOrder` of the node. -/
def PlanNode.orderOf (tb : String) : PlanNode V → ℕ → ℕ
  | .merge m, order => (PlanNode.merge m).reOrder order
  | .join _ left right, order =>
    if tb ∈ left.tables then left.orderOf tb order else right.orderOf tb (left.reOrder order)

/-- The loops of `pushOtherFilters`, `handleJoinOn` and `pushHaving` over the tables of a condition: the first
table whose leaf has the largest number. -/
def PlanNode.lastTable (root : PlanNode V) (referTables : List String) : Option String :=
  referTables.argmax fun tb => root.orderOf tb 0

variable {n : PlanNode V} {tb tb' : String}

theorem PlanNode.lt_reOrder (n : PlanNode V) (o : ℕ) : o < n.reOrder o := by
  induction n generalizing o with
  | merge m => exact o.lt_succ_self
  | join j left right ihl ihr => exact ((ihl o).trans (ihr _)).trans (Nat.lt_succ_self _)

/-- The numbers of the leaves lie between the number before the node and its own. -/
theorem PlanNode.orderOf_bounds (n : PlanNode V) (tb : String) (o : ℕ) :
    o < n.orderOf tb o ∧ n.orderOf tb o ≤ n.reOrder o := by
  induction n generalizing o with
  | merge m => exact ⟨o.lt_succ_self, le_rfl⟩
  | join j left right ihl ihr =>
    have hl := left.lt_reOrder o
    have hr := right.lt_reOrder (left.reOrder o)
    have hleft := ihl o
    have hright := ihr (left.reOrder o)
    rw [orderOf, reOrder]
    split_ifs <;> omega

theorem PlanNode.findLCA_none (n : PlanNode V) : n.findLCA none none = none := by
  induction n with
  | merge m => rfl
  | join j left right ihl ihr => simp [findLCA, Side.below, ihl, ihr]

/-- A leaf that is looked for alone is found. -/
theorem PlanNode.findLCA_single (n : PlanNode V) (tb : String) :
    (∃ m, n.findLCA (some (n.parent tb)) none = some m) ∧ ∃ m, n.findLCA none (some (n.parent tb)) = some m := by
  induction n with
  | merge m => simp [findLCA, parent]
  | join j left right ihl ihr =>
    obtain ⟨⟨l, hl⟩, l', hl'⟩ := ihl
    obtain ⟨⟨r, hr⟩, r', hr'⟩ := ihr
    rw [parent]
    split_ifs <;> simp [findLCA, Side.below, findLCA_none, *]

/-- Two leaves part at a join, and the one with the smaller number is on its left. -/
theorem PlanNode.findLCA_of_le (htb : tb' ∈ n.tables) (hne : n.parent tb ≠ n.parent tb') {o : ℕ}
    (hle : n.orderOf tb o ≤ n.orderOf tb' o) : ∃ j left right,
      n.findLCA (some (n.parent tb)) (some (n.parent tb')) = some (.join j left right) ∧
        tb ∈ left.tables ∧ tb' ∈ right.tables := by
  induction n generalizing o with
  | merge m => exact absurd rfl hne
  | join j left right ihl ihr =>
    rw [orderOf, orderOf] at hle
    rw [parent, parent] at hne ⊢
    split_ifs at hle hne ⊢ with h h' h'
    · obtain ⟨j', l, r, hlca, hmem⟩ := ihl h' (by simpa using hne) hle
      exact ⟨j', l, r, by simp [findLCA, Side.below, findLCA_none, hlca], hmem⟩
    · obtain ⟨⟨l, hl⟩, -⟩ := left.findLCA_single tb
      obtain ⟨-, r, hr⟩ := right.findLCA_single tb'
      exact ⟨j, left, right, by simp [findLCA, Side.below, hl, hr], h, by grind [tables, referTables]⟩
    · exact absurd ((left.orderOf_bounds tb' o).2.trans_lt (right.orderOf_bounds tb _).1) hle.not_gt
    · obtain ⟨j', l, r, hlca, hmem⟩ := ihr (by grind [tables, referTables]) (by simpa using hne) hle
      exact ⟨j', l, r, by simp [findLCA, Side.below, findLCA_none, hlca], hmem⟩

/-- In a nested loop `findLCA` finds for every table of a condition that has another leaf than the condition a
join with the table on its left and the condition on its right. -/
theorem PlanNode.nestLoop_scoping (root : PlanNode V) {referTables : List String} {last : String}
    (hsub : referTables ⊆ root.tables) (hlast : root.lastTable referTables = some last) :
    ∀ tb ∈ referTables, root.parent tb ≠ root.parent last → ∃ j left right,
      root.findLCA (some (root.parent tb)) (some (root.parent last)) = some (.join j left right) ∧
        tb ∈ left.tables ∧ last ∈ right.tables :=
  fun _ htb hne => findLCA_of_le (hsub (List.argmax_mem hlast)) hne (List.le_of_mem_argmax htb hlast)

/-- The condition of `aliasPlan` goes to `C`, and the join at the root is asked for the column of `t_a`. -/
theorem aliasPlan_scoping : aliasPlan.lastTable ["C", "t_a", "t"] = some "C" ∧ ∃ j left right,
    aliasPlan.findLCA (some [.left, .left]) (some [.right]) = some (.join j left right) ∧
      "t_a" ∈ left.tables ∧ "C" ∈ right.tables := by
  have hlast : aliasPlan.lastTable ["C", "t_a", "t"] = some "C" := by decide +kernel
  exact ⟨hlast, aliasPlan.nestLoop_scoping (by decide +kernel) hlast "t_a" (by decide) (by decide +kernel)⟩

/-! ## The condition and its columns -/

/-- Add a condition to the leaf at the end of a way. -/
def PlanNode.addAt (e : Expr V) : List Side → PlanNode V → PlanNode V
  | _, .merge m => .merge (m.addWhere e)
  | .left :: p, .join j left right => .join j (left.addAt e p) right
  | .right :: p, .join j left right => .join j left (right.addAt e p)
  | [], node => node

theorem PlanNode.tables_join (j : JoinNode V) (left right : PlanNode V) :
    (PlanNode.join j left right).tables = left.tables ++ right.tables := List.map_append

/-- `addWhereLast` adds a condition to the leaf of the table that the loops over the tables find. -/
theorem PlanNode.addWhereLast_eq_addAt (e : Expr V) {tables : List String} {last : String} (hnodup : n.tables.Nodup)
    (hlast : last ∈ tables) (hmem : last ∈ n.tables) {o : ℕ}
    (hle : ∀ tb ∈ tables, tb ∈ n.tables → n.orderOf tb o ≤ n.orderOf last o) :
    n.addWhereLast tables e = n.addAt e (n.parent last) := by
  induction n generalizing o with
  | merge m => rfl
  | join j left right ihl ihr =>
    rw [tables_join] at hnodup hmem
    obtain ⟨hl, hr, hdisj⟩ := List.nodup_append'.1 hnodup
    simp only [tables_join, List.mem_append, orderOf] at hle
    rw [addWhereLast, parent]
    by_cases hin : last ∈ left.tables
    · have hnone : (tables.any fun tb => tb ∈ right.tables) = false := by
        simp only [List.any_eq_false, decide_eq_true_eq]
        intro tb htb hright
        have hlt := hle tb htb (.inr hright)
        rw [if_pos hin, if_neg fun h => hdisj h hright] at hlt
        exact absurd ((left.orderOf_bounds last o).2.trans_lt (right.orderOf_bounds tb _).1) hlt.not_gt
      rw [hnone, if_neg Bool.false_ne_true, if_pos hin, addAt]
      refine congrArg (PlanNode.join j · right) (ihl hl hin (o := o) fun tb htb hleft => ?_)
      have := hle tb htb (.inl hleft)
      rwa [if_pos hleft, if_pos hin] at this
    · have hright := (List.mem_append.1 hmem).resolve_left hin
      rw [if_pos (List.any_eq_true.2 ⟨last, hlast, decide_eq_true hright⟩), if_neg hin, addAt]
      refine congrArg (PlanNode.join j left) (ihr hr hright (o := left.reOrder o) fun tb htb hright => ?_)
      have := hle tb htb (.inr hright)
      rwa [if_neg fun h => hdisj h hright, if_neg hin] at this

/-- A column that a leaf takes from outside of the tree is a variable of the tree. -/
theorem PlanNode.mem_free {m : MergeNode V} (hm : m ∈ n.leaves) (hlen : m.routeLen ≠ 0) {c : ColName}
    (hc : c ∈ m.outer m.queryCols) (hout : c.table ∉ n.tables) : c ∈ n.free := by
  induction n with
  | merge m' =>
    obtain rfl := List.mem_singleton.1 hm
    rwa [free, if_neg hlen]
  | join j left right ihl ihr =>
    rw [tables_join, List.mem_append, not_or] at hout
    rw [free, List.mem_append]
    obtain hm | hm := List.mem_append.1 hm
    · exact .inr (ihl hm hout.1)
    · exact .inl (List.mem_filter.2 ⟨ihr hm hout.2, by simpa using hout.1⟩)

/-- The join that `findLCA` finds is asked for the column: its left node has the table, its right node the leaf. -/
theorem mem_requests {left right : PlanNode V} {m : MergeNode V} (hm : m ∈ right.leaves) (hlen : m.routeLen ≠ 0)
    {c : ColName} (hc : c ∈ m.outer m.queryCols) (hleft : c.table ∈ left.tables) (hout : c.table ∉ right.tables) :
    c ∈ requests left right :=
  List.mem_filter.2 ⟨right.mem_free hm hlen hc hout, decide_eq_true hleft⟩

end Radon.Planner
