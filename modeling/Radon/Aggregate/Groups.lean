import Radon.Aggregate.PlanSpec

/-!
# The groups of the proxy

`AggregateOperator` makes one row of every group of its rows, and `AggregatePlan.analyze` says which
columns it groups them by.
-/

namespace Radon.Aggregate

open List

open Planner (ColName equalString)
open Relational

variable {R V K : Type}

/-! ## One row for every group -/

section Rows

variable [LinearOrder K] [DecidableEq V]

/-- There is one row for every key that occurs. An aggregate without groups has a row in any case. -/
def OneRowPerGroup (vals : Values V K) (plan : AggregatePlan) (rows out : List (Row V)) : Prop :=
  if rows = [] ∧ plan.groupAggrs = [] ∧ plan.normalAggrs ≠ [] then out.length = 1
  else ∃ groups,
    IsGrouping (fun a b => rowKey vals plan.groupAggrs a = rowKey vals plan.groupAggrs b) rows groups ∧
      List.Forall₂ (fun group row => ∃ first ∈ group, row = groupRow vals plan.normalAggrs first group)
        groups out

/-- The operator finds the groups of its rows. -/
theorem exists_groups_aggregateRows (slice : SliceSort (Row V)) (vals : Values V K) (plan : AggregatePlan) (width : ℕ)
    {rows : List (Row V)} (hne : rows ≠ []) : ∃ groups,
      IsGrouping (fun a b => rowKey vals plan.groupAggrs a = rowKey vals plan.groupAggrs b) rows groups ∧
        List.Forall₂ (fun group row => ∃ first ∈ group, row = groupRow vals plan.normalAggrs first group)
          groups (aggregateRows slice vals plan width rows) := by
  have hhead {group : List (Row V)} (hgroup : group ≠ []) : group.headD [] ∈ group := by
    obtain ⟨first, rest, rfl⟩ := exists_cons_of_ne_nil hgroup
    exact mem_cons_self
  by_cases hgroups : plan.groupAggrs = []
  · refine ⟨[rows], ⟨by simp, by simpa using hne, by simp [rowKey, hgroups], by simp⟩, ?_⟩
    rw [aggregateRows_of_total slice hgroups hne]
    exact .cons ⟨_, hhead hne, rfl⟩ .nil
  · obtain ⟨groups, hperm, halike, hdiffer, heq⟩ :=
      aggregateRows_of_groups vals slice plan width hgroups hne (by simp : rows.Perm (rows.map id))
    refine ⟨groups, ⟨hperm, fun g hg => (halike g hg).1, fun g hg => (halike g hg).2, hdiffer⟩, ?_⟩
    rw [heq, List.forall₂_map_right_iff, List.forall₂_same]
    intro group hgroup
    rw [map_id]
    exact ⟨_, hhead (halike group hgroup).1, rfl⟩

theorem groupRow_nil (vals : Values V K) (first : Row V) (group : List (Row V)) :
    groupRow vals [] first group = first :=
  removeColumns_nil first

/-- Without groups and aggregates the rows are their own groups if there is one at most. -/
theorem oneRow_unchanged_iff (vals : Values V K) (rows : List (Row V)) :
    (∃ groups, IsGrouping (fun a b => rowKey vals [] a = rowKey vals [] b) rows groups ∧
      List.Forall₂ (fun group row => ∃ first ∈ group, row = groupRow vals [] first group) groups rows) ↔
      rows.length < 2 := by
  constructor
  · rintro ⟨groups, hgroups, hforall⟩
    by_cases hne : rows = []
    · simp [hne]
    · rw [← hforall.length_eq, hgroups.length_eq_one hne fun _ _ _ _ => rfl]
      exact Nat.one_lt_two
  · intro hlen
    match rows, hlen with
    | [], _ => exact ⟨[], .nil, .nil⟩
    | [row], _ =>
      refine ⟨[[row]], ?_, .cons ⟨row, mem_cons_self, (groupRow_nil vals row [row]).symm⟩ .nil⟩
      apply isGrouping_singleton
      exact fun _ => rfl

/-- There is one row for every group, except that an aggregate with groups has a row where there is no
group, and that the rows stay as they are if there is nothing to evaluate. -/
theorem oneRowPerGroup_iff (slice : SliceSort (Row V)) (vals : Values V K) (plan : AggregatePlan) (res : Result V) :
    OneRowPerGroup vals plan res.rows (aggregate slice vals plan res).rows ↔
      ¬ (res.rows = [] ∧ plan.groupAggrs ≠ [] ∧ plan.normalAggrs ≠ []) ∧
        ¬ (plan.groupAggrs = [] ∧ plan.normalAggrs = [] ∧ 2 ≤ res.rows.length) := by
  obtain ⟨fields, rows⟩ := res
  rw [OneRowPerGroup, aggregate]
  by_cases hempty : plan.normalAggrs = [] ∧ plan.groupAggrs = []
  · obtain ⟨haggrs, hgroups⟩ := hempty
    simp only [haggrs, hgroups, and_self, if_true, ne_eq, not_true_eq_false, and_false, if_false,
      not_false_eq_true, true_and, not_le]
    exact oneRow_unchanged_iff vals rows
  · rw [if_neg hempty]
    have hplan : ¬ (plan.groupAggrs = [] ∧ plan.normalAggrs = [] ∧ 2 ≤ rows.length) :=
      fun h => hempty ⟨h.2.1, h.1⟩
    by_cases hrows : rows = []
    · subst hrows
      have hout := aggregateRows_nil slice vals plan fields.length
      by_cases haggrs : plan.normalAggrs = []
      · have hgroups : plan.groupAggrs ≠ [] := fun h => hempty ⟨haggrs, h⟩
        simp only [haggrs, hgroups, hout, ne_eq, not_true_eq_false, and_false, if_false,
          not_false_eq_true, false_and, and_self, iff_true]
        exact ⟨[], .nil, .nil⟩
      · by_cases hgroups : plan.groupAggrs = []
        · simp [haggrs, hgroups, hout]
        · simp only [haggrs, hgroups, hout, ne_eq, not_false_eq_true, and_true, and_false, if_false, if_true,
            and_self, not_true_eq_false, false_and, iff_false, not_exists, not_and]
          intro groups hgrouping hforall
          obtain rfl : groups = [] := List.eq_nil_iff_forall_not_mem.2 fun g hg => by
            obtain ⟨row, hrow⟩ := List.exists_mem_of_ne_nil g (hgrouping.ne_nil g hg)
            cases hgrouping.mem hg hrow
          cases hforall
    · rw [if_neg fun h => hrows h.1]
      exact iff_of_true (exists_groups_aggregateRows slice vals plan fields.length hrows)
        ⟨fun h => hrows h.1, hplan⟩

/-- `SELECT a, COUNT(*) FROM t GROUP BY a` on a table without rows has a row of `NULL` values. -/
theorem group_of_no_row :
    let plan : AggregatePlan := ⟨[⟨1, .count, false, true⟩], [0]⟩
    let res : Result ℚ := ⟨[("a", "t"), ("count(*)", "")], []⟩
    (aggregate (.insertion _) numbers plan res).rows = [[none, none]] ∧
      ¬ OneRowPerGroup numbers plan res.rows (aggregate (.insertion _) numbers plan res).rows := by
  have hrows : (aggregate (.insertion _) numbers ⟨[⟨1, .count, false, true⟩], [0]⟩
      ⟨[("a", "t"), ("count(*)", "")], []⟩).rows = [[none, none]] := by decide +kernel
  refine ⟨hrows, fun h => ?_⟩
  rw [hrows, OneRowPerGroup, if_neg (by simp)] at h
  obtain ⟨groups, hgroups, hforall⟩ := h
  cases hforall with
  | cons hrow _ =>
    obtain ⟨first, hfirst, -⟩ := hrow
    cases hgroups.mem List.mem_cons_self hfirst

end Rows

/-! ## The columns of the groups -/

section Columns

variable (columns : String → String → Prop) (tables : List Planner.TableInfo)

variable {columns tables} {items : List (SelectTuple R V K)}

variable (columns tables items)

end Columns

end Radon.Aggregate
