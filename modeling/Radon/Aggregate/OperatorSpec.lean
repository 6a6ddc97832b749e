import Radon.Aggregate.Operator
import Radon.Relational.Grouping

/-!
# The rows that the proxy makes

The columns that `analyze` adds and the functions that it lists fit together: the row of a group has one
value for every select expression. Sorting makes the groups runs of the rows, and the columns that
`ORDER BY` added are removed again.
-/

namespace Radon.Aggregate

open List

open Planner (ColName)
open Relational

variable {R V K : Type}

/-! ## Columns -/

/-- `removeColumns` on the columns from `k` on. -/
def removeFrom {α : Type} (k : ℕ) (idxs : List ℕ) (xs : List α) : List α :=
  ((xs.zipIdx k).filter fun x => x.2 ∉ idxs).map Prod.fst

variable {α : Type} {k : ℕ} {idxs : List ℕ} {isPushDown : Bool} {tuples : List (SelectTuple R V K)}
    {a : Analyzed R V K}

theorem removeFrom_cons_of_mem (hk : k ∈ idxs) (x : α) (xs : List α) :
    removeFrom k idxs (x :: xs) = removeFrom (k + 1) idxs xs := by
  simp [removeFrom, zipIdx_cons, hk]

theorem removeFrom_cons_of_notMem (hk : k ∉ idxs) (x : α) (xs : List α) :
    removeFrom k idxs (x :: xs) = x :: removeFrom (k + 1) idxs xs := by
  simp [removeFrom, zipIdx_cons, hk]

/-- Indexes in front of the columns do not matter. -/
theorem removeFrom_cons_lt {i : ℕ} (h : i < k) (xs : List α) : removeFrom k (i :: idxs) xs = removeFrom k idxs xs := by
  induction xs generalizing k with
  | nil => rfl
  | cons x xs ih => grind [removeFrom_cons_of_mem, removeFrom_cons_of_notMem]

theorem removeColumns_nil (xs : List α) : removeColumns [] xs = xs := by
  simp [removeColumns]

/-- Removing the last columns. -/
theorem removeColumns_range (n l : ℕ) (xs : List α) (hlen : xs.length = n + l) :
    removeColumns ((List.range l).map (n + ·)) xs = xs.take n := by
  have hfilter : (xs.zipIdx.filter fun x => x.2 ∉ (List.range l).map (n + ·)) = xs.zipIdx.take n := by
    rw [← take_append_drop n xs.zipIdx, filter_append, take_append_drop,
      filter_eq_self.2, filter_eq_nil_iff.2, append_nil]
    · intro x hx
      obtain ⟨i, hi, rfl⟩ := mem_iff_getElem.1 hx
      simp only [length_drop, length_zipIdx] at hi
      simp only [getElem_drop, getElem_zipIdx]
      simp
      omega
    · intro x hx
      obtain ⟨i, hi, rfl⟩ := mem_iff_getElem.1 hx
      grind
  rw [removeColumns, hfilter, map_take, zipIdx_map_fst]

/-! ## The row of a group -/

/-- One step of the loop of `analyze`. -/
inductive AnalyzeStep (isPushDown : Bool) (k : ℕ) (t : SelectTuple R V K) (a : Analyzed R V K) :
    ℕ → Analyzed R V K → Prop
  | plain (haggr : t.aggr = none) (hstar : t.star = none) :
    AnalyzeStep isPushDown k t a (k + 1) ⟨(t.field, k) :: a.nullAggrs, a.normalAggrs, t.outCol :: a.rewritten⟩
  | avg (haggr : t.aggr = some (.known .avg)) (hpush : isPushDown = true) :
    AnalyzeStep isPushDown k t a (k + 2) ⟨a.nullAggrs,
      ⟨k, .avg, t.distinct, true⟩ :: ⟨k, .sum, false, true⟩ :: ⟨k + 1, .count, false, true⟩ ::
        a.normalAggrs, decomposeAvg t ++ a.rewritten⟩
  | pushed (typ : AggrType) (haggr : t.aggr = some (.known typ)) (hne : typ ≠ .avg)
    (hpush : isPushDown = true) :
    AnalyzeStep isPushDown k t a (k + 1)
      ⟨a.nullAggrs, ⟨k, typ, t.distinct, true⟩ :: a.normalAggrs, t.outCol :: a.rewritten⟩
  | raw (typ : AggrType) (haggr : t.aggr = some (.known typ)) (hpush : isPushDown = false) :
    AnalyzeStep isPushDown k t a (k + 1)
      ⟨a.nullAggrs, ⟨k, typ, t.distinct, false⟩ :: a.normalAggrs, decomposeAgg t :: a.rewritten⟩

theorem analyzeFrom_cons {t : SelectTuple R V K} (h : analyzeFrom isPushDown k (t :: tuples) = .ok a) :
    ∃ k' a', AnalyzeStep isPushDown k t a' k' a ∧ analyzeFrom isPushDown k' tuples = .ok a' := by
  rw [analyzeFrom] at h
  split at h
  · rename_i haggr
    split at h
    · cases h
    · rename_i hstar
      obtain ⟨a', ha', h⟩ := except_bind_ok h
      cases h
      exact ⟨_, a', .plain haggr (not_not.1 hstar), ha'⟩
  · cases h
  · rename_i typ haggr
    split at h
    · rename_i hpush
      split at h
      · rename_i htyp
        obtain ⟨a', ha', h⟩ := except_bind_ok h
        cases h
        exact ⟨_, a', .avg (htyp ▸ haggr) hpush, ha'⟩
      · rename_i htyp
        obtain ⟨a', ha', h⟩ := except_bind_ok h
        cases h
        exact ⟨_, a', .pushed typ haggr htyp hpush, ha'⟩
    · rename_i hpush
      obtain ⟨a', ha', h⟩ := except_bind_ok h
      cases h
      exact ⟨_, a', .raw typ haggr (Bool.eq_false_iff.2 hpush), ha'⟩

theorem AnalyzeStep.analyzeFrom {k' : ℕ} {t : SelectTuple R V K} {a' : Analyzed R V K}
    (h : AnalyzeStep isPushDown k t a' k' a) (ha' : analyzeFrom isPushDown k' tuples = .ok a') :
    Aggregate.analyzeFrom isPushDown k (t :: tuples) = .ok a := by
  rw [Aggregate.analyzeFrom]
  cases h with
  | plain haggr hstar => simp_all
  | avg haggr hpush =>
    rw [haggr, ha']
    simp only [hpush, if_true]
    rfl
  | pushed typ haggr hne hpush =>
    rw [haggr, ha']
    simp only [hpush, hne, if_true, if_false]
    rfl
  | raw typ haggr hpush => simp_all

/-- The removed columns come after the first one. -/
theorem lt_of_mem_deIdxs
    (h : analyzeFrom isPushDown k tuples = .ok a) {i : ℕ} (hi : i ∈ deIdxs a.normalAggrs) : k < i := by
  induction tuples generalizing k a with
  | nil =>
    cases h
    cases hi
  | cons t tuples ih =>
    obtain ⟨k', a', hstep, ha'⟩ := analyzeFrom_cons h
    cases hstep with
    | plain haggr =>
      have := ih ha' hi
      omega
    | avg haggr hpush => grind [deIdxs_avg]
    | pushed typ haggr hne hpush => grind [deIdxs_cons]
    | raw typ haggr hpush => grind [deIdxs_cons]

/-! ## Groups -/

section Groups

variable [LinearOrder K] (vals : Values V K)

/-- What the rows are grouped by. -/
def rowKey (groups : List ℕ) (row : Row V) : List (WithBot K) :=
  groups.map fun index => vals.cellKey (cellAt row index)

theorem keysEqual_iff (groups : List ℕ) (row1 row2 : Row V) :
    keysEqual vals groups row1 row2 = true ↔ rowKey vals groups row1 = rowKey vals groups row2 := by
  have hcell (v w : Option V) : vals.nullsafeCompare v w = .eq ↔ vals.cellKey v = vals.cellKey w := by
    rw [Values.nullsafeCompare_eq_cmp, cmp_eq_eq_iff]
  simp only [keysEqual, rowKey, all_eq_true, decide_eq_true_eq, hcell, map_inj_left]

theorem rowLess_cons (index : ℕ) (desc : Bool) (keys : List (ℕ × Bool)) (row1 row2 : Row V) :
    rowLess vals ((index, desc) :: keys) row1 row2 = true ↔
      (if desc then vals.cellKey (cellAt row2 index) < vals.cellKey (cellAt row1 index)
        else vals.cellKey (cellAt row1 index) < vals.cellKey (cellAt row2 index)) ∨
      vals.cellKey (cellAt row1 index) = vals.cellKey (cellAt row2 index) ∧ rowLess vals keys row1 row2 = true := by
  rw [rowLess, Values.nullsafeCompare_eq_cmp]
  cases h : cmp (vals.cellKey (cellAt row1 index)) (vals.cellKey (cellAt row2 index)) with
  | lt =>
    have hlt := (cmp_eq_lt_iff _ _).1 h
    cases desc <;> simp [hlt, hlt.not_gt, hlt.ne]
  | eq =>
    have heq := (cmp_eq_eq_iff _ _).1 h
    simp [heq]
  | gt =>
    have hgt := (cmp_eq_gt_iff _ _).1 h
    cases desc <;> simp [hgt, hgt.not_gt, hgt.ne']

theorem rowLess_total (keys : List (ℕ × Bool)) (row1 row2 : Row V) :
    rowLess vals keys row1 row2 = true ∨ rowLess vals keys row2 row1 = true := by
  induction keys with
  | nil => exact .inl rfl
  | cons key keys ih => grind [rowLess_cons]

theorem rowLess_trans {keys : List (ℕ × Bool)} {row1 row2 row3 : Row V} (h : rowLess vals keys row1 row2 = true)
    (h' : rowLess vals keys row2 row3 = true) : rowLess vals keys row1 row3 = true := by
  induction keys with
  | nil => rfl
  | cons key keys ih =>
    obtain ⟨index, desc⟩ := key
    rw [rowLess_cons] at h h' ⊢
    obtain hlt | ⟨heq, h⟩ := h
    · obtain hlt' | ⟨heq', -⟩ := h'
      · left
        cases desc
        · exact lt_trans hlt hlt'
        · exact lt_trans hlt' hlt
      · exact .inl (heq' ▸ hlt)
    · obtain hlt' | ⟨heq', h'⟩ := h'
      · exact .inl (heq ▸ hlt')
      · exact .inr ⟨heq.trans heq', ih h h'⟩

/-- `sort.Slice` sorts the rows. -/
theorem pairwise_sort_rowLess (slice : SliceSort (Row V)) (keys : List (ℕ × Bool)) (rows : List (Row V)) :
    (slice.sort (rowLess vals keys) rows).Pairwise fun row1 row2 => rowLess vals keys row1 row2 = true :=
  slice.pairwise _ _ (rowLess_total vals keys) fun _ _ _ h h' => rowLess_trans vals h h'

theorem rowLess_iff (groups : List ℕ) (row1 row2 : Row V) :
    rowLess vals (groups.map fun index => (index, false)) row1 row2 = true ↔
      rowKey vals groups row1 ≤ rowKey vals groups row2 := by
  rw [← not_lt]
  induction groups with
  | nil => simp [rowLess, rowKey]
  | cons index groups ih =>
    simp only [rowKey, map_cons, cons_lt_cons_iff] at ih ⊢
    grind [rowLess_cons]

variable [DecidableEq V] {vals}

variable {arrived : List (Row V)} (slice : SliceSort (Row V))

variable (vals) in
/-- The groups are the rows with equal keys. The rows may stand for anything that has a row. -/
theorem aggregateRows_of_groups {ε : Type} {row : ε → Row V} {es : List ε} (plan : AggregatePlan) (width : ℕ)
    (hgroups : plan.groupAggrs ≠ []) (hne : es ≠ []) (harrived : arrived.Perm (es.map row)) :
    ∃ cs : List (List ε), cs.flatten.Perm es ∧ (∀ c ∈ cs, c ≠ [] ∧
        ∀ a ∈ c, ∀ b ∈ c, rowKey vals plan.groupAggrs (row a) = rowKey vals plan.groupAggrs (row b)) ∧
      (cs.Pairwise fun c d =>
        ∀ a ∈ c, ∀ b ∈ d, rowKey vals plan.groupAggrs (row a) ≠ rowKey vals plan.groupAggrs (row b)) ∧
      aggregateRows slice vals plan width arrived =
        cs.map fun c => groupRow vals plan.normalAggrs ((c.map row).headD []) (c.map row) := by
  have hsorted := pairwise_sort_rowLess vals slice (plan.groupAggrs.map fun index => (index, false)) arrived
  obtain ⟨es', hes', hmap⟩ :=
    exists_perm_of_perm_map ((slice.perm (rowLess vals (plan.groupAggrs.map (·, false))) arrived).trans harrived)
  have hchunks := chunks_map (keysEqual vals plan.groupAggrs) row es'
  rw [hmap] at hchunks
  have hgrouped : Grouped (fun a => rowKey vals plan.groupAggrs (row a))
      (chunks (fun a b => keysEqual vals plan.groupAggrs (row a) (row b)) es') := by
    refine chunks_grouped (fun a b => keysEqual_iff vals plan.groupAggrs (row a) (row b)) ?_
    rw [← hmap, pairwise_map] at hsorted
    exact hsorted.imp fun h => (rowLess_iff vals _ _ _).1 h
  refine ⟨_, (flatten_chunks _ es').symm ▸ hes', hgrouped.alike, ?_, ?_⟩
  · exact hgrouped.increasing.imp fun h a ha b hb => (h a ha b hb).ne
  · have hes'ne : es' ≠ [] := fun h => hne (h ▸ hes').nil_eq.symm
    rw [aggregateRows, if_neg hgroups, hchunks, if_neg]
    · rw [map_map]
      rfl
    · rintro ⟨h, -⟩
      exact hes'ne ((chunks_eq_nil_iff _).1 (map_eq_nil_iff.1 h))

/-- Without groups there is one row. -/
theorem aggregateRows_of_total {plan : AggregatePlan} {width : ℕ} (hgroups : plan.groupAggrs = []) (hne : arrived ≠ [])
    : aggregateRows slice vals plan width arrived = [groupRow vals plan.normalAggrs (arrived.headD []) arrived] := by
  have hchunks : chunks (keysEqual vals plan.groupAggrs) arrived = [arrived] := by
    refine chunks_of_forall hne fun a _ b _ => ?_
    rw [keysEqual_iff, rowKey, rowKey, hgroups, map_nil, map_nil]
  simp only [aggregateRows, hgroups, if_true] at hchunks ⊢
  rw [hchunks]
  simp

/-- Without rows there is a row if there is a function to evaluate. -/
theorem aggregateRows_nil (vals : Values V K) (plan : AggregatePlan) (width : ℕ) :
    aggregateRows slice vals plan width [] = if plan.normalAggrs ≠ [] then [groupRow vals plan.normalAggrs (List.replicate width none) []] else [] := by
  have hsort (less : Row V → Row V → Bool) : slice.sort less [] = [] := (slice.perm less []).eq_nil
  simp [aggregateRows, hsort, chunks]

end Groups

end Radon.Aggregate
