import Radon.Aggregate.Operator

/-!
# The comparisons given to `sort.Slice`

`OrderByOperator.Execute`, `AggregateOperator.aggregate` and `sortMergeJoin` sort rows by several columns, and
`sort.Slice` requires a strict weak ordering of them. All three comparisons return `true` at the end of their
loop, which they reach for a row and itself. None of them is irreflexive on any row.
-/

namespace Radon.Executor

open Aggregate

variable {V : Type}

/-- A comparison is a total preorder on some values. -/
structure TotalPreorderOn (compare : Option V → Option V → Ordering) (values : Option V → Prop) : Prop where
  swap : ∀ v w, values v → values w → compare w v = (compare v w).swap
  trans : ∀ u v w, values u → values v → values w → compare u v ≠ .gt → compare v w ≠ .gt → compare u w ≠ .gt

/-- A value is equal to itself. -/
theorem TotalPreorderOn.refl {compare : Option V → Option V → Ordering} {values : Option V → Prop}
    (h : TotalPreorderOn compare values) {v : Option V} (hv : values v) : compare v v = .eq := by
  have hswap := h.swap v v hv hv
  cases hcmp : compare v v with
  | eq => rfl
  | lt => simp [hcmp] at hswap
  | gt => simp [hcmp] at hswap

/-- The comparison of the values of the proxy is a total preorder. -/
theorem totalPreorderOn_nullsafeCompare {K : Type} [LinearOrder K] (vals : Values V K)
    (values : Option V → Prop) : TotalPreorderOn vals.nullsafeCompare values where
  swap v w _ _ := by
    rw [Values.nullsafeCompare_eq_cmp, Values.nullsafeCompare_eq_cmp]
    exact (cmp_swap _ _).symm
  trans u v w _ _ _ huv hvw := by
    rw [Values.nullsafeCompare_eq_cmp, ne_eq, cmp_eq_gt_iff, not_lt] at huv hvw ⊢
    exact huv.trans hvw

variable (compare : Option V → Option V → Ordering)

/-- The loop over the columns, each in its direction. -/
def lessBy : List (ℕ × Bool) → Row V → Row V → Bool
  | [], _, _ => true
  | (index, desc) :: keys, row1, row2 =>
    match compare (cellAt row1 index) (cellAt row2 index) with
    | .eq => lessBy keys row1 row2
    | .lt => !desc
    | .gt => desc

/-- The comparison of `AggregateOperator.aggregate`. -/
def aggregateLess (groupAggrs : List ℕ) : Row V → Row V → Bool :=
  lessBy compare (groupAggrs.map fun index => (index, false))

/-- The comparison of `sortMergeJoin`. -/
def sortMergeJoinLess (keys : List ℕ) : Row V → Row V → Bool :=
  lessBy compare (keys.map fun index => (index, false))

/-- The rows of the aggregate operator are sorted with its comparison. -/
theorem rowLess_eq_lessBy {K : Type} [LinearOrder K] (vals : Values V K) (keys : List (ℕ × Bool))
    (row1 row2 : Row V) : rowLess vals keys row1 row2 = lessBy vals.nullsafeCompare keys row1 row2 := by
  induction keys with
  | nil => rfl
  | cons key keys ih =>
    cases hcmp : vals.nullsafeCompare (cellAt row1 key.1) (cellAt row2 key.1) <;> simp [rowLess, lessBy, hcmp, ih]

/-- With all fields present the names stand for their columns. -/
theorem orderByLess_eq_lessBy {fields : List (String × String)} {orderBys : List OrderBy}
    {keys : List (ℕ × Bool)} (h : orderBys.mapM (orderIndex fields) = .ok keys) (row1 row2 : Row V) :
    orderByLess compare fields orderBys row1 row2 = .ok (lessBy compare keys row1 row2) := by
  induction orderBys generalizing keys with
  | nil =>
    cases h
    rfl
  | cons o orderBys ih =>
    rw [List.mapM_cons] at h
    obtain ⟨key, hkey, h⟩ := except_bind_ok h
    obtain ⟨rest, hkeys, h⟩ := except_bind_ok h
    cases h
    simp only [orderByLess, hkey, lessBy, ih hkeys]
    cases hcmp : compare (cellAt row1 key.1) (cellAt row2 key.1) <;> simp [bind, Except.bind, hcmp]

/-- What `sort.Slice` requires of its comparison. -/
structure StrictWeak (less : Row V → Row V → Prop) (rows : List (Row V)) : Prop where
  irrefl : ∀ a ∈ rows, ¬ less a a
  asymm : ∀ a ∈ rows, ∀ b ∈ rows, less a b → ¬ less b a
  trans : ∀ a ∈ rows, ∀ b ∈ rows, ∀ c ∈ rows, less a b → less b c → less a c
  incomparable : ∀ a ∈ rows, ∀ b ∈ rows, ∀ c ∈ rows, ¬ less a b → ¬ less b a → ¬ less b c → ¬ less c b →
    ¬ less a c ∧ ¬ less c a

/-- The values of a column. -/
def column (rows : List (Row V)) (index : ℕ) (v : Option V) : Prop := ∃ row ∈ rows, cellAt row index = v

variable {compare} {rows : List (Row V)}

/-- The loop does not find a difference between a row and itself. -/
theorem lessBy_self {keys : List (ℕ × Bool)} (hkeys : ∀ key ∈ keys, TotalPreorderOn compare (column rows key.1))
    {row : Row V} (hrow : row ∈ rows) : lessBy compare keys row row = true := by
  induction keys with
  | nil => rfl
  | cons key keys ih =>
    obtain ⟨hkey, hkeys⟩ := List.forall_mem_cons.1 hkeys
    rw [lessBy, hkey.refl ⟨row, hrow, rfl⟩]
    exact ih hkeys

/-- A comparison that holds for a row and itself is a strict weak ordering of no rows only. -/
theorem strictWeak_iff_of_refl {less : Row V → Row V → Prop} (h : ∀ row ∈ rows, less row row) :
    StrictWeak less rows ↔ rows = [] := by
  constructor
  · intro hweak
    refine List.eq_nil_iff_forall_not_mem.2 fun row hrow => ?_
    exact hweak.irrefl row hrow (h row hrow)
  · rintro rfl
    constructor <;> simp

/-- None of the three comparisons is a strict weak ordering, unless there are no rows. -/
theorem comparators_strictWeak_iff {fields : List (String × String)} {orderBys : List OrderBy}
    {keys : List (ℕ × Bool)} (hfields : orderBys.mapM (orderIndex fields) = .ok keys) (groupAggrs joinKeys : List ℕ)
    (hkeys : ∀ key ∈ keys, TotalPreorderOn compare (column rows key.1))
    (hgroups : ∀ index ∈ groupAggrs, TotalPreorderOn compare (column rows index))
    (hjoin : ∀ index ∈ joinKeys, TotalPreorderOn compare (column rows index)) :
    (StrictWeak (fun a b => orderByLess compare fields orderBys a b = .ok true) rows ↔ rows = []) ∧
      (StrictWeak (fun a b => aggregateLess compare groupAggrs a b = true) rows ↔ rows = []) ∧
      (StrictWeak (fun a b => sortMergeJoinLess compare joinKeys a b = true) rows ↔ rows = []) := by
  refine ⟨strictWeak_iff_of_refl fun row hrow => ?_, strictWeak_iff_of_refl fun row hrow => ?_,
    strictWeak_iff_of_refl fun row hrow => ?_⟩
  · rw [orderByLess_eq_lessBy compare hfields, lessBy_self hkeys hrow]
  · exact lessBy_self (List.forall_mem_map.2 hgroups) hrow
  · exact lessBy_self (List.forall_mem_map.2 hjoin) hrow

/-- The comparisons of an empty result, whose column `a` is sorted in descending order. -/
theorem comparators_empty :
    StrictWeak (fun a b => orderByLess numbers.nullsafeCompare [("a", "t")] [⟨"a", "", true⟩] a b = .ok true) [] :=
  (comparators_strictWeak_iff (show [OrderBy.mk "a" "" true].mapM (orderIndex [("a", "t")]) = .ok [(0, true)] from rfl)
    [0] [0] (fun _ _ => totalPreorderOn_nullsafeCompare _ _) (fun _ _ => totalPreorderOn_nullsafeCompare _ _)
    fun _ _ => totalPreorderOn_nullsafeCompare _ _).1.2 rfl

/-- One row with the number 1: it is less than itself for all three comparisons. -/
theorem row_less_than_itself :
    ¬ StrictWeak (fun a b => orderByLess numbers.nullsafeCompare [("a", "t")] [⟨"a", "", true⟩] a b = .ok true)
        [[some 1]] ∧
      ¬ StrictWeak (fun a b => aggregateLess numbers.nullsafeCompare [0] a b = true) [[some 1]] ∧
      ¬ StrictWeak (fun a b => sortMergeJoinLess numbers.nullsafeCompare [0] a b = true) [[some 1]] := by
  refine ⟨fun h => ?_, fun h => ?_, fun h => ?_⟩
  · exact h.irrefl _ (List.mem_singleton_self _) (by decide +kernel)
  · exact h.irrefl _ (List.mem_singleton_self _) (by decide +kernel)
  · exact h.irrefl _ (List.mem_singleton_self _) (by decide +kernel)

end Radon.Executor
