import Radon.Aggregate.Groups

/-!
# The columns of a result

`ORDER BY` may add columns to a query, and the proxy removes them from the rows again. It numbers them
among the select expressions, so that a `*` counts as one column. A node shows the select list if and only
if the order adds no column, or every `*` stands for one.
-/

namespace Radon.Aggregate

open List

open Planner (ColName equalString)

variable {R V K : Type}

/-- The node that the tables of a statement end in. -/
inductive Root (R V K : Type)
  | merge
  | join (spans : SelectTuple R V K → Bool)

/-- The clauses on the node. -/
def Root.processSelect : Root R V K → Scope R V K → Statement R V K → Except String (Node R V K)
  | .merge => Aggregate.processSelect
  | .join spans => joinSelect spans

/-- The positions of the columns of the select list in a query, from position `k` on. An average that the
proxy divides out has a count behind it, which is not one of them. -/
def selectColumns (divides : Bool) : ℕ → List (SelectTuple R V K) → List ℕ
  | _, [] => []
  | k, t :: tuples =>
    if divides = true ∧ t.aggr = some (.known .avg) then k :: selectColumns divides (k + 2) tuples
    else List.range' k t.outCols.length ++ selectColumns divides (k + t.outCols.length) tuples

/-- The proxy combines the results of aggregates that the backends computed. -/
def Node.divides (m : Node R V K) : Bool :=
  m.children.any fun
    | .aggregate plan => plan.normalAggrs.any fun aggr => aggr.isPushDown
    | _ => false

/-- The positions of the columns of the query that are left in the result. -/
def Node.columns (m : Node R V K) : List ℕ := leftColumns m.children (List.range m.selectExprs.length)

/-- The result has the columns of the select list, in their order. -/
def Node.ShowsSelectList (m : Node R V K) (s : Statement R V K) : Prop :=
  m.columns = selectColumns m.divides 0 s.items

/-! ## Columns that are left -/

theorem leftColumns_append {α : Type} (children more : List ChildPlan) (cols : List α) :
    leftColumns (children ++ more) cols = leftColumns more (leftColumns children cols) := by
  induction children generalizing cols with
  | nil => rfl
  | cons child children ih => cases child <;> exact ih _

/-- The columns `n` to `n + l` are the last ones if the select list has `n` of them. -/
theorem removeColumns_range_iff {n w l : ℕ} (hnw : n ≤ w) :
    removeColumns ((List.range l).map (n + ·)) (List.range (w + l)) = List.range w ↔ l = 0 ∨ w = n := by
  constructor
  · intro h
    by_contra hne
    rw [not_or] at hne
    have hmem : n ∈ removeColumns ((List.range l).map (n + ·)) (List.range (w + l)) := by
      rw [h, mem_range]
      omega
    obtain ⟨x, hx, rfl⟩ := mem_map.1 hmem
    rw [mem_filter] at hx
    obtain ⟨hpos, hkeep⟩ := hx
    have hsame : x.2 = x.1 := by
      obtain ⟨i, hi, rfl⟩ := mem_iff_getElem.1 hpos
      simp
    simp_all
  · rintro (rfl | rfl)
    · simp [removeColumns_nil]
    · grind [removeColumns_range]

/-! ## The result of the proxy -/

/-- How many columns are left depends on their number only. -/
theorem length_removeColumns {α : Type} (idxs : List ℕ) (xs : List α) :
    (removeColumns idxs xs).length = ((List.range xs.length).filter (· ∉ idxs)).length := by
  rw [removeColumns, length_map, range_eq_range', ← zipIdx_map_snd, filter_map, length_map]
  rfl

/-- The values of the functions are put into columns that are there. -/
theorem length_getResults (vals : Values V K) (ctxs : List (Aggregation × EvalContext V)) (row : Row V) :
    (getResults vals ctxs row).length = row.length := by
  fun_induction getResults vals ctxs row with
  | case1 row => rfl
  | case2 row aggr ctx _ _ sum _ count rest ih => rw [ih, length_set]
  | case3 => rfl
  | case4 row aggr ctx rest _ ih => rw [ih, length_set]

section Result

variable [LinearOrder K] [DecidableEq V] {slice : SliceSort (Row V)} {vals : Values V K} {res res' : Result V}

/-- The result has a cell for every field in all its rows. -/
def Result.Rectangular (res : Result V) : Prop := ∀ row ∈ res.rows, row.length = res.fields.length

omit [LinearOrder K] [DecidableEq V] in
/-- Columns are removed from the fields and from the rows. -/
theorem Result.Rectangular.removeColumns {rows : List (Row V)} (hrows : ∀ row ∈ rows, row.length = res.fields.length)
    (idxs : List ℕ) :
    Result.Rectangular ⟨Aggregate.removeColumns idxs res.fields, rows.map (Aggregate.removeColumns idxs)⟩ := by
  intro row hrow
  obtain ⟨row, hmem, rfl⟩ := mem_map.1 hrow
  rw [length_removeColumns, length_removeColumns, hrows row hmem]

/-- The rows of the groups have a cell for every field that is left. -/
theorem aggregate_rectangular (plan : AggregatePlan) (h : res.Rectangular) :
    (aggregate slice vals plan res).Rectangular := by
  have hgroup {first : Row V} (hfirst : first.length = res.fields.length) (group : List (Row V)) :
      (groupRow vals plan.normalAggrs first group).length =
        (removeColumns (deIdxs plan.normalAggrs) res.fields).length := by
    rw [groupRow, length_removeColumns, length_removeColumns, length_getResults, hfirst]
  unfold aggregate
  split_ifs with hempty
  · exact h
  · intro row hrow
    by_cases hrows : res.rows = []
    · rw [hrows, aggregateRows_nil] at hrow
      split_ifs at hrow with haggrs
      · rw [mem_singleton.1 hrow]
        exact hgroup length_replicate []
      · cases hrow
    · obtain ⟨groups, hgroups, hout⟩ := exists_groups_aggregateRows slice vals plan res.fields.length hrows
      obtain ⟨group, hmem, first, hfirst, rfl⟩ := Relational.exists_left_of_mem hout hrow
      exact hgroup (h first (hgroups.mem hmem hfirst)) group

/-- What the steps of the proxy return has the fields that they leave, and a cell for each of them in every
row. -/
theorem execSubPlan_columns {children : List ChildPlan} (h : execSubPlan slice vals children res = .ok res')
    (hres : res.Rectangular) : res'.fields = leftColumns children res.fields ∧ res'.Rectangular := by
  induction children generalizing res with
  | nil =>
    cases h
    exact ⟨rfl, hres⟩
  | cons child children ih =>
    cases child with
    | aggregate plan =>
      have hfields : (aggregate slice vals plan res).fields = removeColumns (deIdxs plan.normalAggrs) res.fields := by
        unfold aggregate
        split_ifs with hempty
        · rw [hempty.1]
          exact (removeColumns_nil _).symm
        · rfl
      rw [leftColumns, ← hfields]
      exact ih h (aggregate_rectangular plan hres)
    | orderBy plan =>
      obtain ⟨sorted, hsorted, h⟩ := except_bind_ok h
      obtain ⟨_, -, hsorted⟩ := except_bind_ok hsorted
      cases hsorted
      exact ih h (.removeColumns (fun row hrow => hres row ((slice.perm _ _).subset hrow)) _)
    | limit plan =>
      obtain ⟨rows, hrows, h⟩ := except_bind_ok h
      have hlimited : Result.Rectangular { res with rows := rows } := by
        intro row hrow
        simp only [limitRows] at hrows
        split_ifs at hrows
        cases hrows
        exact hres row (mem_of_mem_take (mem_of_mem_drop hrow))
      have hleft := ih h hlimited
      exact hleft

omit [LinearOrder K] [DecidableEq V] in
/-- The columns that are left are those at the positions that are left. -/
theorem map_leftColumns {α β : Type} (f : α → β) (children : List ChildPlan) (cols : List α) :
    (leftColumns children cols).map f = leftColumns children (cols.map f) := by
  have hremove (idxs : List ℕ) (cols : List α) : (removeColumns idxs cols).map f = removeColumns idxs (cols.map f) := by
    rw [removeColumns, removeColumns, zipIdx_map, filter_map, map_map, map_map]
    rfl
  induction children generalizing cols with
  | nil => rfl
  | cons child children ih =>
    cases child with
    | aggregate plan => rw [leftColumns, leftColumns, ih, hremove]
    | orderBy plan => rw [leftColumns, leftColumns, ih, hremove]
    | limit plan => exact ih cols

/-- The fields of the result are those of the query at the positions of `Node.columns`. -/
theorem Node.fields_eq {m : Node R V K} {arrived : List (Row V)} (h : m.execute slice vals arrived = .ok res)
    (harrived : ∀ row ∈ arrived, row.length = m.selectExprs.length) :
    res.fields.map some = m.columns.map (fun i => m.selectExprs[i]?.map fun c => (c.name, c.table)) ∧
      res.Rectangular := by
  have hrange : (List.range m.selectExprs.length).map
      (fun i => m.selectExprs[i]?.map fun c => (c.name, c.table)) =
        m.selectExprs.map fun c => some (c.name, c.table) := by
    refine ext_getElem (by simp) fun i _ hi => ?_
    rw [length_map] at hi
    simp [getElem?_eq_getElem hi]
  obtain ⟨hfields, hres⟩ := execSubPlan_columns h fun row hrow => by rw [harrived row hrow, length_map]
  rw [hfields, map_leftColumns, map_map, Node.columns, map_leftColumns, hrange]
  exact ⟨rfl, hres⟩

end Result
/-! ## The columns of the select list -/

theorem selectColumns_direct (k : ℕ) (tuples : List (SelectTuple R V K)) :
    selectColumns false k tuples = List.range' k (tuples.flatMap SelectTuple.outCols).length := by
  induction tuples generalizing k with
  | nil => rfl
  | cons t tuples ih => grind [selectColumns]

variable {t : SelectTuple R V K} {tuples extras : List (SelectTuple R V K)} {scope : Scope R V K}
    {s : Statement R V K} {order : List ChildPlan} {m m' : Node R V K}

theorem SelectTuple.length_outCols (h : t.star = none) : t.outCols.length = 1 := by
  rw [outCols, h]
  rfl

theorem SelectTuple.one_le_length_outCols (t : SelectTuple R V K) : 1 ≤ t.outCols.length := by
  grind [star_ne_nil, outCols]

theorem length_le_width (tuples : List (SelectTuple R V K)) :
    tuples.length ≤ (tuples.flatMap SelectTuple.outCols).length ∧
      ((tuples.flatMap SelectTuple.outCols).length = tuples.length ↔ ∀ t ∈ tuples, t.outCols.length = 1) := by
  induction tuples with
  | nil => simp
  | cons t tuples ih => grind [SelectTuple.one_le_length_outCols]

/-- What is left of a query whose averages the proxy divides out. -/
theorem removeFrom_deIdxs {isPushDown : Bool} {k : ℕ} {a : Analyzed R V K} (h : analyzeFrom isPushDown k tuples = .ok a)
    : removeFrom k (deIdxs a.normalAggrs) (List.range' k a.rewritten.length) = selectColumns isPushDown k tuples := by
  induction tuples generalizing k a with
  | nil =>
    cases h
    rfl
  | cons t tuples ih =>
    have hstar := star_of_analyzeFrom h t mem_cons_self
    obtain ⟨k', a', hstep, ha'⟩ := analyzeFrom_cons h
    have hlt : ∀ i ∈ deIdxs a'.normalAggrs, k' < i := fun i hi => lt_of_mem_deIdxs ha' hi
    have hk (hk' : k ≤ k') : k ∉ deIdxs a'.normalAggrs := fun hmem => absurd (hlt k hmem) (by omega)
    rw [selectColumns, SelectTuple.length_outCols hstar]
    cases hstep with
    | plain haggr =>
      rw [if_neg (by simp [haggr]), length_cons, range'_succ, removeFrom_cons_of_notMem (hk (by omega)),
        ih ha']
      rfl
    | avg haggr hpush =>
      have hmem : k ∉ (k + 1) :: deIdxs a'.normalAggrs :=
        not_mem_cons_of_ne_of_not_mem (by omega) (hk (by omega))
      have hlen : (decomposeAvg t ++ a'.rewritten).length = a'.rewritten.length + 1 + 1 := by
        simp [decomposeAvg]
      rw [if_pos ⟨hpush, haggr⟩, deIdxs_avg _ ⟨rfl, rfl⟩, hlen, range'_succ, removeFrom_cons_of_notMem hmem,
        range'_succ, removeFrom_cons_of_mem mem_cons_self, removeFrom_cons_lt (Nat.lt_succ_self _),
        ih ha']
    | pushed typ haggr hne hpush =>
      rw [if_neg (by simp [haggr, hne]), deIdxs_cons _ fun h => hne h.2, length_cons, range'_succ,
        removeFrom_cons_of_notMem (hk (by omega)), ih ha']
      rfl
    | raw typ haggr hpush =>
      rw [if_neg (by simp [hpush]), deIdxs_cons _ fun h => Bool.false_ne_true h.1, length_cons,
        range'_succ, removeFrom_cons_of_notMem (hk (by omega)), ih ha']
      rfl

theorem selectColumns_append (divides : Bool) (k : ℕ) (tuples more : List (SelectTuple R V K)) :
    ∃ j, selectColumns divides k (tuples ++ more) = selectColumns divides k tuples ++ selectColumns divides j more := by
  induction tuples generalizing k with
  | nil => exact ⟨k, rfl⟩
  | cons t tuples ih =>
    rw [cons_append, selectColumns, selectColumns]
    split
    · simp_all
    · simp_all

theorem length_selectColumns (divides : Bool) (k : ℕ)
    (hstar : ∀ t ∈ tuples, t.star = none) : (selectColumns divides k tuples).length = tuples.length := by
  induction tuples generalizing k with
  | nil => rfl
  | cons t tuples ih => grind [selectColumns, SelectTuple.outCols]

theorem isPushDown_normalAggrs {isPushDown : Bool} {k : ℕ} {a : Analyzed R V K}
    (h : analyzeFrom isPushDown k tuples = .ok a) : ∀ aggr ∈ a.normalAggrs, aggr.isPushDown = isPushDown := by
  induction tuples generalizing k a with
  | nil =>
    cases h
    simp
  | cons t tuples ih =>
    obtain ⟨k', a', hstep, ha'⟩ := analyzeFrom_cons h
    cases hstep with
    | plain => simpa using ih ha'
    | avg haggr hpush => simpa [hpush] using ih ha'
    | pushed typ haggr hne hpush => simpa [hpush] using ih ha'
    | raw typ haggr hpush => simpa [hpush] using ih ha'

/-! ## Nodes -/

/-- The columns `extras` are behind those of the select list, and `order` removes them. -/
structure Laid (s : Statement R V K) (extras : List (SelectTuple R V K)) (order : List ChildPlan)
    (m : Node R V K) : Prop where
  plain : ∀ t ∈ extras, t.aggr = none ∧ t.star = none
  removed : (order = [] ∧ extras = []) ∨
    ∃ p : OrderByPlan, order = [.orderBy p] ∧ p.removedIdxs = (List.range extras.length).map (s.items.length + ·)
  query : (m.selectExprs = s.items.flatMap SelectTuple.outCols ++ extras.map SelectTuple.outCol ∧
      m.children = order) ∨
    ∃ isPushDown a indexes, analyzeFrom isPushDown 0 s.items = .ok a ∧
      (isPushDown = true → ∃ t ∈ s.items, t.aggr ≠ none) ∧
      m.selectExprs = a.rewritten ++ extras.map SelectTuple.outCol ∧
      m.children = .aggregate ⟨a.normalAggrs, indexes⟩ :: order

theorem Clauses.laid {groupBy : List ColName} {groups : List (SelectTuple R V K)}
    (h : Clauses scope s groupBy groups extras order m) : Laid s extras order m := by
  refine ⟨h.ordered.plain, h.ordered.children.imp_right fun ⟨p, hp, _, hidxs⟩ => ⟨p, hp, hidxs⟩, ?_⟩
  cases h.planned with
  | direct hgroups hkind hexprs hchildren => exact .inl ⟨hexprs.trans h.ordered.flatMap_extras, hchildren⟩
  | merged a indexes hgroups hkind ha hindexes hexprs hchildren => grind [exists_aggr_of_kind]

theorem Laid.divides_order
    (h : Laid s extras order m) :
    (order.any fun
      | .aggregate plan => plan.normalAggrs.any fun aggr => aggr.isPushDown
      | _ => false) = false := by
  obtain ⟨rfl, -⟩ | ⟨p, rfl, -⟩ := h.removed <;> rfl

/-- The order leaves the columns of the select list if it numbers them as they are. -/
theorem Laid.leftColumns_order (h : Laid s extras order m) {α : Type} {cols : List α}
    (hlen : cols.length = s.items.length + extras.length) : leftColumns order cols = cols.take s.items.length := by
  obtain ⟨rfl, rfl⟩ | ⟨p, rfl, hidxs⟩ := h.removed
  · rw [leftColumns, take_of_length_le (by simpa using hlen.le)]
  · rw [leftColumns, hidxs, removeColumns_range _ _ _ hlen]
    rfl

theorem Laid.shows_iff (h : Laid s extras order m) :
    m.ShowsSelectList s ↔ extras = [] ∨ ∀ t ∈ s.items, t.outCols.length = 1 := by
  obtain ⟨hle, heq⟩ := length_le_width s.items
  obtain ⟨hexprs, hchildren⟩ | ⟨isPushDown, a, indexes, ha, hpush, hexprs, hchildren⟩ := h.query
  · -- the order is the only step
    have hdivides : m.divides = false := by
      rw [Node.divides, hchildren]
      exact h.divides_order
    rw [Node.ShowsSelectList, Node.columns, hdivides, selectColumns_direct, hexprs, hchildren, length_append,
      length_map, ← range_eq_range', ← heq]
    obtain ⟨rfl, rfl⟩ | ⟨p, rfl, hidxs⟩ := h.removed
    · simp [leftColumns]
    · rw [leftColumns, leftColumns, hidxs, removeColumns_range_iff hle, length_eq_zero_iff]
  · -- a select list with aggregates for the proxy has no `*`
    have hstar := star_of_analyzeFrom ha
    refine iff_of_true ?_ (.inr fun t ht => SelectTuple.length_outCols (hstar t ht))
    have hdivides : selectColumns m.divides 0 s.items = selectColumns isPushDown 0 s.items := by
      have haggrs := isPushDown_normalAggrs ha
      rw [Node.divides, hchildren, any_cons, h.divides_order, Bool.or_false]
      cases isPushDown with
      | false => grind
      | true =>
        obtain ⟨t, ht, haggr⟩ := hpush rfl
        obtain ⟨aggr, rest, hne⟩ := exists_cons_of_ne_nil (normalAggrs_ne_nil ha ht haggr)
        grind
    obtain ⟨a', ha', haggrs, hrewritten⟩ := analyzeFrom_append ha h.plain
    have hfields : ∀ t ∈ s.items ++ extras, t.star = none := fun t ht =>
      (mem_append.1 ht).elim (hstar t) fun ht => (h.plain t ht).2
    rw [Node.ShowsSelectList, Node.columns, hdivides, hexprs, hchildren, ← haggrs, ← hrewritten, leftColumns,
      range_eq_range',
      show removeColumns (deIdxs a'.normalAggrs) (List.range' 0 a'.rewritten.length) = _ from
        removeFrom_deIdxs ha',
      h.leftColumns_order (by rw [length_selectColumns _ _ hfields, length_append])]
    obtain ⟨j, hj⟩ := selectColumns_append isPushDown 0 s.items extras
    rw [hj, take_left' (length_selectColumns _ _ hstar)]

/-! ## Names that are in the select list -/

theorem analyzeOrderBy_length {node : List Order} {p p' : OrderByPlan}
    (h : analyzeOrderBy scope node m p = .ok (m', p')) : m.fields.length ≤ m'.fields.length ∧
      (m'.fields.length = m.fields.length ↔ ∀ o ∈ node, checkInTuple o.col m.fields ≠ none) := by
  induction node generalizing m p with
  | nil =>
    cases h
    simp
  | cons o node ih =>
    rw [analyzeOrderBy] at h
    split at h
    · cases h
    split at h
    · grind
    · rename_i hfind
      obtain ⟨table, -, h⟩ := except_bind_ok h
      have hlen := (ih h).1
      grind

/-- The order of a node adds no column if and only if all its names are in the select list. -/
theorem addOrderByPlan_length {orderBy : List Order} (h : m.addOrderByPlan scope orderBy = .ok m') :
    m'.fields.length = m.fields.length ↔ ∀ o ∈ orderBy, checkInTuple o.col m.fields ≠ none := by
  obtain ⟨⟨m₁, p⟩, h₁, h⟩ := except_bind_ok h
  cases h
  exact (analyzeOrderBy_length h₁).2

theorem SelectTuple.named_distinctCol {col : ColName} (h : t.distinctCol = .ok col) : t.named col = true := by
  have hrefl (name : String) : equalString name name = true := decide_eq_true rfl
  unfold distinctCol at h
  grind [named]

theorem checkInTuple_ne_none {col : ColName} {fields : List (SelectTuple R V K)}
    (ht : t ∈ fields) (h : t.named col = true) : checkInTuple col fields ≠ none := by grind [checkInTuple]

/-- The names of the groups are in the select list. -/
theorem checkGroups_names {groupBy : List ColName} {groups : List (SelectTuple R V K)}
    (h : checkGroups scope s = .ok (groupBy, groups)) : ∀ c ∈ groupBy, checkInTuple c s.items ≠ none := by
  obtain ⟨groups', hgroups', h⟩ := except_bind_ok h
  unfold checkDistinct at h
  split at h
  · cases h
    obtain ⟨⟨found, hasShard⟩, hfound, -⟩ := except_bind_ok hgroups'
    intro c hc
    obtain ⟨group, -, hgroup⟩ := Relational.exists_left_of_mem (findGroups_ok hfound).flip hc
    have hnamed := List.find?_some hgroup
    exact checkInTuple_ne_none (mem_of_find?_eq_some hgroup) hnamed
  · obtain ⟨hasShard, -, h⟩ := except_bind_ok h
    obtain ⟨groupBy', hgroupBy', h⟩ := except_bind_ok h
    cases h
    intro c hc
    obtain ⟨t, ht, hcol⟩ := of_mem_mapM_ok hgroupBy' hc
    exact checkInTuple_ne_none ht (SelectTuple.named_distinctCol hcol)

/-- A node has no columns but those of the select list if the names of `ORDER BY` are in it. -/
theorem pushClauses_length (h : pushClauses scope s = .ok m) :
    m.fields.length = s.items.length ↔ ∀ o ∈ s.orderBy, checkInTuple o.col s.items ≠ none := by
  obtain ⟨⟨groupBy, groups⟩, hchecked, h⟩ := except_bind_ok h
  obtain ⟨m₁, hm₁, h⟩ := except_bind_ok h
  obtain ⟨extras, order, -, hfields, -, -, -, hnone, -⟩ := pushSelectExprs_ok hchecked hm₁
  split at h
  · rename_i hne
    rw [(hnone hne).1, append_nil] at hfields
    rw [← hfields]
    exact addOrderByPlan_length (m := { m₁ with orderBy := s.orderBy }) h
  · rename_i hnil
    cases h
    rw [not_not] at hnil
    refine iff_of_true ?_ (by simp [hnil])
    rw [pushSelectExprs_eq] at hm₁
    split at hm₁
    · split at hm₁
      · refine (addOrderByPlan_length hm₁).2 ?_
        simpa [startNode, hnil] using checkGroups_names hchecked
      · cases hm₁
        rfl
    · split at hm₁
      · obtain ⟨a, indexes, -, -, rfl⟩ := addAggregatePlan_ok hm₁
        rfl
      · cases hm₁
        rfl

/-! ## Join nodes -/

theorem joinClauses_laid {spans : SelectTuple R V K → Bool} (h : joinClauses spans scope s = .ok m) :
    (∀ t ∈ s.items, t.star = none) ∧ ∃ extras order, Laid s extras order m := by
  unfold joinClauses at h
  split at h
  · cases h
  rename_i hstar
  obtain ⟨groups', -, h⟩ := except_bind_ok h
  obtain ⟨⟨groupBy, groups⟩, -, h⟩ := except_bind_ok h
  obtain ⟨m₁, hm₁, h⟩ := except_bind_ok h
  obtain ⟨m₀, hm₀, hm₁⟩ := except_bind_ok hm₁
  cases hm₁
  have hnone : ∀ t ∈ s.items, t.star = none := fun t ht => by simp_all
  refine ⟨hnone, ?_⟩
  -- the node before its order
  have hstart : m₀.fields = s.items ∧ ((m₀.selectExprs = s.items.flatMap SelectTuple.outCols ∧ m₀.children = []) ∨
      ∃ a indexes, analyzeFrom false 0 s.items = .ok a ∧ m₀.selectExprs = a.rewritten ∧
        m₀.children = [.aggregate ⟨a.normalAggrs, indexes⟩]) := by
    unfold Node.evaluateGroups at hm₀
    split at hm₀
    · obtain ⟨a, indexes, ha, -, rfl⟩ := addAggregatePlan_ok hm₀
      exact ⟨rfl, .inr ⟨a, indexes, ha, rfl, rfl⟩⟩
    · grind [flatMap_outCols]
  obtain ⟨hfields, hquery⟩ := hstart
  split at h
  · obtain ⟨extras, order, hordered, rfl⟩ := addOrderByPlan_ok h
    refine ⟨extras, order, hordered.plain, ?_, ?_⟩
    · grind [Ordered.children]
    · grind
  · cases h
    refine ⟨[], [], by simp, .inl ⟨rfl, rfl⟩, ?_⟩
    grind

/-! ## Statements -/

/-- A limit leaves all columns. -/
theorem Node.showsSelectList_limit (plan : LimitPlan) (hexprs : m'.selectExprs = m.selectExprs)
    (hchildren : m'.children = m.children ++ [.limit plan]) : m'.ShowsSelectList s ↔ m.ShowsSelectList s := by
  grind [leftColumns_append, divides, ShowsSelectList, columns, leftColumns]

theorem pushClauses_showsSelectList (h : pushClauses scope s = .ok m) :
    m.ShowsSelectList s ↔ (∀ o ∈ s.orderBy, checkInTuple o.col s.items ≠ none) ∨
      ∀ t ∈ s.items, t.outCols.length = 1 := by
  obtain ⟨groupBy, groups, extras, order, hc⟩ := pushClauses_ok h
  rw [hc.laid.shows_iff, ← pushClauses_length h, hc.fields, length_append, Nat.add_eq_left,
    length_eq_zero_iff]

theorem joinClauses_showsSelectList {spans : SelectTuple R V K → Bool} (h : joinClauses spans scope s = .ok m)
    : m.ShowsSelectList s ∧ ∀ t ∈ s.items, t.outCols.length = 1 := by
  obtain ⟨hstar, extras, order, hlaid⟩ := joinClauses_laid h
  grind [SelectTuple.length_outCols, Laid.shows_iff]

/-- For every statement that is accepted, on a merge node or on a join node, the result has the columns of
the select list if and only if the names of `ORDER BY` are in the select list or every select expression
is one column. -/
theorem showsSelectList_iff (root : Root R V K) (scope : Scope R V K) (s : Statement R V K) (m : Node R V K)
    (h : root.processSelect scope s = .ok m) :
    m.ShowsSelectList s ↔ (∀ o ∈ s.orderBy, checkInTuple o.col s.items ≠ none) ∨
      ∀ t ∈ s.items, t.outCols.length = 1 := by
  cases root with
  | merge =>
    obtain ⟨m₁, hm₁, h⟩ := except_bind_ok h
    rw [← pushClauses_showsSelectList hm₁]
    split at h
    · obtain ⟨plan, -, h⟩ := except_bind_ok h
      cases h
      exact Node.showsSelectList_limit plan rfl rfl
    · cases h
      rfl
  | join spans =>
    obtain ⟨m₁, hm₁, h⟩ := except_bind_ok h
    obtain ⟨hshows, hone⟩ := joinClauses_showsSelectList hm₁
    refine iff_of_true ?_ (.inr hone)
    split at h
    · obtain ⟨plan, -, h⟩ := except_bind_ok h
      cases h
      refine (Node.showsSelectList_limit plan ?_ ?_).2 hshows <;> rfl
    · cases h
      exact hshows

/-- The row of two tables with the columns `id` and `b`. -/
structure JoinedRow where
  id : ℚ
  b₁ : ℚ
  b₂ : ℚ

/-- What the names of the two tables stand for. -/
def joinedScope : Scope JoinedRow ℚ ℚ where
  tables := [keyedTable "t1", keyedTable "t2"]
  column col := ⟨fun r => some (if col.name = "id" then r.id else if col.table = "t1" then r.b₁ else r.b₂), id, id⟩
  groupCol col := ⟨fun r => some (if col.name = "id" then r.id else if col.table = "t1" then r.b₁ else r.b₂), id, id⟩
  orderCol col := ⟨fun r => some (if col.name = "id" then r.id else if col.table = "t1" then r.b₁ else r.b₂), id, id⟩

/-- `t1.*`. -/
def starItem : SelectTuple JoinedRow ℚ ℚ where
  field := "*"
  table := "t1"
  expr := ⟨fun _ => none, id, id⟩
  star := some [⟨"id", "t1", ⟨fun r => some r.id, id, id⟩⟩, ⟨"b", "t1", ⟨fun r => some r.b₁, id, id⟩⟩]

/-- `SELECT t1.* FROM t1 JOIN t2 ON t1.id = t2.id ORDER BY t1.b`. -/
theorem star_shown : ∃ m : Node JoinedRow ℚ ℚ,
    Root.merge.processSelect joinedScope
      { items := [starItem], orderBy := [⟨{ table := "t1", name := "b" }, false⟩] } = .ok m ∧
    m.ShowsSelectList { items := [starItem], orderBy := [⟨{ table := "t1", name := "b" }, false⟩] } := by
  refine ⟨_, rfl, ?_⟩
  exact (showsSelectList_iff .merge joinedScope
    { items := [starItem], orderBy := [⟨{ table := "t1", name := "b" }, false⟩] } _ rfl).2 (.inl (by
      rintro o ho
      cases List.mem_singleton.1 ho
      simp [checkInTuple, SelectTuple.mayHave, starItem]))

/-- `SELECT t1.* FROM t1 JOIN t2 ON t1.id = t2.id ORDER BY t2.b`: the result has `t1.id` and `t2.b`. -/
theorem order_column_shown : ∃ m : Node JoinedRow ℚ ℚ,
    Root.merge.processSelect joinedScope
      { items := [starItem], orderBy := [⟨{ table := "t2", name := "b" }, false⟩] } = .ok m ∧
    m.names = [("id", "t1"), ("b", "t1"), ("b", "t2")] ∧ m.columns = [0, 2] ∧
    ¬ m.ShowsSelectList { items := [starItem], orderBy := [⟨{ table := "t2", name := "b" }, false⟩] } := by
  refine ⟨_, rfl, rfl, rfl, fun h => ?_⟩
  exact absurd (show [0, 2] = [0, 1] from h) (by decide)

end Radon.Aggregate
