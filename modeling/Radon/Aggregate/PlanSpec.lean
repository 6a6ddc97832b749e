import Radon.Aggregate.OperatorSpec

/-!
# What the planner makes of the clauses

A node has the select list of the statement and, behind it, the columns that `ORDER BY` adds. The proxy
evaluates the aggregates and the groups first, if it has to, and sorts the rows then. The names by which it
sorts are always found.
-/

namespace Radon.Aggregate

open List

open Planner (ColName equalString)

variable {R V K : Type}

/-! ## Order -/

/-- The element of an order is the column of the select expression, or one of those that a `*` stands for. -/
def OrderBy.Fits (o : OrderBy) (t : SelectTuple R V K) : Prop :=
  t.star ≠ none ∨ o.field = t.name ∧ (o.table = "" ∨ t.isCol = true ∧ o.table = t.table)

/-- The elements of an order are columns of the node. -/
def OrderByPlan.Found (p : OrderByPlan) (fields : List (SelectTuple R V K)) : Prop :=
  ∀ o ∈ p.orderBys, ∃ t ∈ fields, o.Fits t

variable {p : OrderByPlan} {fields tuples extras groups items : List (SelectTuple R V K)}
    {t : SelectTuple R V K} {col : ColName} {scope : Scope R V K} {m m' : Node R V K} {isPushDown : Bool}
    {k : ℕ} {a : Analyzed R V K} {s : Statement R V K} {groupBy : List ColName}

theorem OrderByPlan.Found.mono {fields' : List (SelectTuple R V K)}
    (h : p.Found fields) (hsub : fields ⊆ fields') : p.Found fields' := fun o ho => by
  obtain ⟨t, ht, hname⟩ := h o ho
  exact ⟨t, hsub ht, hname⟩

theorem OrderByPlan.Found.append (h : p.Found fields)
    (idxs : List ℕ) (ht : t ∈ fields) {o : OrderBy} (hfits : o.Fits t) :
    OrderByPlan.Found ⟨idxs, p.orderBys ++ [o]⟩ fields := fun o' ho => by
  obtain ho | ho := mem_append.1 ho
  · exact h o' ho
  · cases mem_singleton.1 ho
    exact ⟨t, ht, hfits⟩

theorem checkInTuple_some
    (h : checkInTuple col fields = some t) :
    t ∈ fields ∧ (t.star ≠ none ∨ t.star = none ∧ t.named col = true) := by
  refine ⟨mem_of_find?_eq_some h, ?_⟩
  have hfit := List.find?_some h
  grind [SelectTuple.mayHave]

theorem orderTable_ok {tbInfos : List Planner.TableInfo} {table : String}
    (h : orderTable tbInfos col = .ok table) : col.table = "" ∨ col.table = table := by
  unfold orderTable at h
  grind

theorem analyzeOrderBy_ok {node : List Order} {p' : OrderByPlan}
    (h : analyzeOrderBy scope node m p = .ok (m', p')) (hp : p.Found m.fields) :
    ∃ extras : List (SelectTuple R V K), (∀ t ∈ extras, t.aggr = none ∧ t.star = none) ∧
      m' = { m with fields := m.fields ++ extras
                    selectExprs := m.selectExprs ++ extras.map SelectTuple.outCol } ∧
      p'.removedIdxs = p.removedIdxs ++ (List.range extras.length).map (m.fields.length + ·) ∧
      p'.Found m'.fields := by
  induction node generalizing m p with
  | nil =>
    cases h
    exact ⟨[], by simp, by simp, by simp, hp⟩
  | cons o node ih =>
    rw [analyzeOrderBy] at h
    split at h
    · cases h
    split at h
    · rename_i t hfind
      obtain ⟨ht, hfit⟩ := checkInTuple_some hfind
      have hfits : OrderBy.Fits ⟨t.orderName o.col, o.col.table, o.desc⟩ t := by
        grind [SelectTuple.named, OrderBy.Fits, SelectTuple.orderName]
      grind [OrderByPlan.Found.append]
    · obtain ⟨table, htable, h⟩ := except_bind_ok h
      have ht : orderTuple scope table o.col ∈ m.fields ++ [orderTuple scope table o.col] := by simp
      have hfound : OrderByPlan.Found
          ⟨p.removedIdxs ++ [m.fields.length],
            p.orderBys ++ [⟨(orderTuple scope table o.col).name, o.col.table, o.desc⟩]⟩
          (m.fields ++ [orderTuple scope table o.col]) := by
        refine (hp.mono (subset_append_left _ _)).append _ ht (.inr ⟨rfl, ?_⟩)
        exact (orderTable_ok htable).imp_right fun h => ⟨rfl, h⟩
      obtain ⟨extras, hplain, rfl, hidxs, hfound'⟩ := ih h hfound
      refine ⟨orderTuple scope table o.col :: extras, ?_, ?_, ?_, hfound'⟩
      · exact forall_mem_cons.2 ⟨⟨rfl, rfl⟩, hplain⟩
      · simp
      · rw [hidxs]
        simp only [length_append, append_assoc, length_cons, range_succ_eq_map,
          map_cons, map_map, singleton_append, append_cancel_left_eq, Nat.add_zero,
          List.cons.injEq, true_and]
        refine map_congr_left fun i _ => ?_
        simp only [Function.comp, length_nil]
        omega

/-- What the end of a node is: the columns `extras` that the order adds, and the step that sorts. -/
structure Ordered (items extras : List (SelectTuple R V K)) (children : List ChildPlan) : Prop where
  plain : ∀ t ∈ extras, t.aggr = none ∧ t.star = none
  children : (children = [] ∧ extras = []) ∨
    ∃ p : OrderByPlan, children = [.orderBy p] ∧ p.Found (items ++ extras) ∧
      p.removedIdxs = (List.range extras.length).map (items.length + ·)

theorem Ordered.nil (items : List (SelectTuple R V K)) : Ordered items [] [] := ⟨by simp, .inl ⟨rfl, rfl⟩⟩

theorem addOrderByPlan_ok {orderBy : List Order}
    (h : m.addOrderByPlan scope orderBy = .ok m') :
    ∃ extras order, Ordered m.fields extras order ∧
      m' = { m with fields := m.fields ++ extras
                    selectExprs := m.selectExprs ++ extras.map SelectTuple.outCol
                    children := m.children ++ order } := by
  obtain ⟨⟨m₁, p⟩, h₁, h⟩ := except_bind_ok h
  cases h
  obtain ⟨extras, hplain, rfl, hidxs, hfound⟩ := analyzeOrderBy_ok h₁ fun o ho => nomatch ho
  exact ⟨extras, [.orderBy p], ⟨hplain, .inr ⟨p, rfl, hfound, by simpa using hidxs⟩⟩, rfl⟩

/-- The columns that the steps of the proxy leave. -/
def leftColumns {α : Type} : List ChildPlan → List α → List α
  | [], cols => cols
  | .aggregate plan :: children, cols => leftColumns children (removeColumns (deIdxs plan.normalAggrs) cols)
  | .orderBy plan :: children, cols => leftColumns children (removeColumns plan.removedIdxs cols)
  | .limit _ :: children, cols => leftColumns children cols

/-! ## Names of the columns -/

/-- Columns behind the select list change nothing for the aggregates. -/
theorem analyzeFrom_append
    (h : analyzeFrom isPushDown k tuples = .ok a) (hplain : ∀ t ∈ extras, t.aggr = none ∧ t.star = none) :
    ∃ a', analyzeFrom isPushDown k (tuples ++ extras) = .ok a' ∧ a'.normalAggrs = a.normalAggrs ∧
      a'.rewritten = a.rewritten ++ extras.map SelectTuple.outCol := by
  induction tuples generalizing k a with
  | nil =>
    cases h
    rw [nil_append]
    induction extras generalizing k with
    | nil => exact ⟨_, rfl, rfl, rfl⟩
    | cons t extras ih =>
      obtain ⟨ht, hextras⟩ := forall_mem_cons.1 hplain
      obtain ⟨a', ha', haggrs, hrewritten⟩ := ih hextras (k := k + 1)
      exact ⟨_, (AnalyzeStep.plain ht.1 ht.2).analyzeFrom ha', haggrs, by rw [hrewritten]; rfl⟩
  | cons t tuples ih =>
    obtain ⟨k', a₁, hstep, ha₁⟩ := analyzeFrom_cons h
    obtain ⟨a₂, ha₂, haggrs, hrewritten⟩ := ih ha₁
    rw [cons_append]
    cases hstep with
    | plain haggr hstar =>
      exact ⟨_, (AnalyzeStep.plain haggr hstar).analyzeFrom ha₂, haggrs, by rw [hrewritten]; rfl⟩
    | avg haggr hpush =>
      exact ⟨_, (AnalyzeStep.avg haggr hpush).analyzeFrom ha₂, by rw [haggrs],
        by rw [hrewritten, append_assoc]⟩
    | pushed typ haggr hne hpush =>
      exact ⟨_, (AnalyzeStep.pushed typ haggr hne hpush).analyzeFrom ha₂, by rw [haggrs],
        by rw [hrewritten]; rfl⟩
    | raw typ haggr hpush =>
      exact ⟨_, (AnalyzeStep.raw typ haggr hpush).analyzeFrom ha₂, by rw [haggrs], by rw [hrewritten]; rfl⟩

/-! ## The node of a statement -/

/-- How a node came about: its query has the select list, or the one that the aggregates need. -/
inductive Planned (s : Statement R V K) (groupBy : List ColName) (groups extras : List (SelectTuple R V K))
    (order : List ChildPlan) (m : Node R V K) : Prop
  | direct (hgroups : groups = []) (hkind : groupBy ≠ [] ∨ aggrKind s.items = .nullAgg)
    (hexprs : m.selectExprs = (s.items ++ extras).flatMap SelectTuple.outCols) (hchildren : m.children = order)
  | merged (a : Analyzed R V K) (indexes : List ℕ) (hgroups : groups = [] → groupBy = [])
    (hkind : aggrKind s.items ≠ .nullAgg ∨ groups ≠ [])
    (ha : analyzeFrom (aggrKind s.items = .canPush) 0 s.items = .ok a)
    (hindexes : groupIndexes a.nullAggrs groups = .ok indexes)
    (hexprs : m.selectExprs = a.rewritten ++ extras.map SelectTuple.outCol)
    (hchildren : m.children = .aggregate ⟨a.normalAggrs, indexes⟩ :: order)

/-- The plan of the clauses before the limit. -/
structure Clauses (scope : Scope R V K) (s : Statement R V K) (groupBy : List ColName)
    (groups extras : List (SelectTuple R V K)) (order : List ChildPlan) (m : Node R V K) : Prop where
  checked : checkGroups scope s = .ok (groupBy, groups)
  ordered : Ordered s.items extras order
  fields : m.fields = s.items ++ extras
  grouped : m.groupBy = groupBy
  orderBy : groupBy = [] → m.orderBy = s.orderBy
  limit : m.limit = none
  planned : Planned s groupBy groups extras order m

theorem addAggregatePlan_ok
    (h : m.addAggregatePlan groups isPushDown = .ok m') :
    ∃ a indexes, analyzeFrom isPushDown 0 m.fields = .ok a ∧ groupIndexes a.nullAggrs groups = .ok indexes ∧
      m' = { m with selectExprs := a.rewritten
                    children := m.children ++ [.aggregate ⟨a.normalAggrs, indexes⟩] } := by
  obtain ⟨a, ha, h⟩ := except_bind_ok h
  obtain ⟨indexes, hindexes, h⟩ := except_bind_ok h
  cases h
  exact ⟨a, indexes, ha, hindexes, rfl⟩

/-- The node of a statement before its groups and aggregates. -/
def startNode (s : Statement R V K) (groupBy : List ColName) : Node R V K where
  fields := s.items
  selectExprs := s.items.flatMap SelectTuple.outCols
  groupBy := groupBy
  orderBy := if s.orderBy = [] then groupBy.map fun by_ => ⟨by_, false⟩ else []

theorem pushSelectExprs_eq (scope : Scope R V K) (s : Statement R V K) (groupBy : List ColName)
    (groups : List (SelectTuple R V K)) (aggTyp : AggrKind) :
    pushSelectExprs scope s groupBy groups aggTyp =
      if groupBy ≠ [] ∧ groups = [] then
        if (startNode s groupBy).orderBy ≠ [] then
          (startNode s groupBy).addOrderByPlan scope (startNode s groupBy).orderBy
        else .ok (startNode s groupBy)
      else if aggTyp ≠ .nullAgg ∨ groups ≠ [] then
        (startNode s groupBy).addAggregatePlan groups (aggTyp = .canPush)
      else .ok (startNode s groupBy) := by grind [pushSelectExprs, startNode]

/-- A select expression other than `*` is one column. -/
theorem flatMap_outCols (h : ∀ t ∈ fields, t.star = none) :
    fields.flatMap SelectTuple.outCols = fields.map SelectTuple.outCol := by
  rw [map_eq_flatMap]
  refine flatMap_congr fun t ht => ?_
  rw [SelectTuple.outCols, h t ht]

theorem Ordered.flatMap_extras {order : List ChildPlan}
    (h : Ordered items extras order) :
    (items ++ extras).flatMap SelectTuple.outCols =
      items.flatMap SelectTuple.outCols ++ extras.map SelectTuple.outCol := by
  rw [flatMap_append, flatMap_outCols fun t ht => (h.plain t ht).2]

/-- The select list and the groups on a node. The order of the statement is not there yet. -/
theorem pushSelectExprs_ok
    (hchecked : checkGroups scope s = .ok (groupBy, groups))
    (h : pushSelectExprs scope s groupBy groups (aggrKind s.items) = .ok m) :
    ∃ extras order, Ordered s.items extras order ∧ m.fields = s.items ++ extras ∧ m.groupBy = groupBy ∧
      (groupBy = [] → s.orderBy = [] → m.orderBy = []) ∧ m.limit = none ∧
      (s.orderBy ≠ [] → extras = [] ∧ order = []) ∧ Planned s groupBy groups extras order m := by
  have hstart : groupBy = [] → s.orderBy = [] → (startNode s groupBy).orderBy = [] := by
    rintro rfl horder
    simp [startNode, horder]
  have hexprs : (startNode s groupBy).selectExprs = (s.items ++ []).flatMap SelectTuple.outCols := by
    rw [append_nil]
    rfl
  rw [pushSelectExprs_eq] at h
  split at h
  · rename_i hshard
    split at h
    · rename_i horder
      obtain ⟨extras, order, hordered, rfl⟩ := addOrderByPlan_ok h
      refine ⟨extras, order, hordered, rfl, rfl, fun hnil => absurd hnil hshard.1, rfl, fun hne => ?_, ?_⟩
      · simp [startNode, hne] at horder
      · exact .direct hshard.2 (.inl hshard.1) hordered.flatMap_extras.symm rfl
    · cases h
      exact ⟨[], [], .nil _, (append_nil _).symm, rfl, hstart, rfl, fun _ => ⟨rfl, rfl⟩,
        .direct hshard.2 (.inl hshard.1) hexprs rfl⟩
  · rename_i hshard
    split at h
    · rename_i hkind
      obtain ⟨a, indexes, ha, hindexes, rfl⟩ := addAggregatePlan_ok h
      exact ⟨[], [], .nil _, (append_nil _).symm, rfl, hstart, rfl, fun _ => ⟨rfl, rfl⟩,
        .merged a indexes (fun hnil => by simpa [hnil] using hshard) hkind ha hindexes (by simp) rfl⟩
    · rename_i hkind
      cases h
      rw [not_or, not_not, not_not] at hkind
      exact ⟨[], [], .nil _, (append_nil _).symm, rfl, hstart, rfl, fun _ => ⟨rfl, rfl⟩,
        .direct hkind.2 (.inr hkind.1) hexprs rfl⟩

/-- The order of the statement comes last. -/
theorem Planned.addOrder
    {order : List ChildPlan}
    (h : Planned s groupBy groups [] [] m) (hordered : Ordered s.items extras order) (orderBy : List Order) :
    Planned s groupBy groups extras order
      { m with fields := m.fields ++ extras
               selectExprs := m.selectExprs ++ extras.map SelectTuple.outCol
               orderBy := orderBy
               children := m.children ++ order } := by
  cases h with
  | direct hgroups hkind hexprs hchildren =>
    refine .direct hgroups hkind ?_ (by simp [hchildren])
    rw [hexprs, append_nil, hordered.flatMap_extras]
  | merged a indexes hgroups hkind ha hindexes hexprs hchildren =>
    exact .merged a indexes hgroups hkind ha hindexes (by simp [hexprs]) (by simp [hchildren])

theorem pushClauses_ok
    (h : pushClauses scope s = .ok m) :
    ∃ groupBy groups extras order, Clauses scope s groupBy groups extras order m := by
  obtain ⟨⟨groupBy, groups⟩, hchecked, h⟩ := except_bind_ok h
  obtain ⟨m₁, hm₁, h⟩ := except_bind_ok h
  obtain ⟨extras, order, hordered, hfields, hgrouped, horderBy, hlimit, hnone, hplanned⟩ :=
    pushSelectExprs_ok hchecked hm₁
  split at h
  · rename_i hne
    obtain ⟨rfl, rfl⟩ := hnone hne
    rw [append_nil] at hfields
    obtain ⟨extras, order, hordered, rfl⟩ := addOrderByPlan_ok h
    exact ⟨groupBy, groups, extras, order, hchecked, hfields ▸ hordered, by simp [hfields], hgrouped,
      fun _ => rfl, hlimit, hplanned.addOrder (hfields ▸ hordered) s.orderBy⟩
  · rename_i hnil
    cases h
    rw [not_not] at hnil
    exact ⟨groupBy, groups, extras, order, hchecked, hordered, hfields, hgrouped,
      fun hgroup => (horderBy hgroup hnil).trans hnil.symm, hlimit, hplanned⟩

/-- The groups are the select expressions that the names of the clause refer to. -/
theorem findGroups_ok {canOpt hasShard hasShard' : Bool} {tables : List Planner.TableInfo}
    {exprs : List ColName}
    (h : findGroups canOpt tables items exprs hasShard = .ok (groups, hasShard')) :
    List.Forall₂ (fun c group => findGroup c items = some group) exprs groups := by
  induction exprs generalizing hasShard groups with
  | nil =>
    cases h
    exact .nil
  | cons c exprs ih =>
    rw [findGroups] at h
    split at h
    · cases h
    · split at h
      · cases h
      · rename_i group hgroup
        obtain ⟨hasShard₁, -, h⟩ := except_bind_ok h
        obtain ⟨⟨groups₁, hasShard₂⟩, h₁, h⟩ := except_bind_ok h
        cases h
        exact .cons hgroup (ih h₁)

/-! ## The columns that the proxy groups by -/

/-- The number of columns of the query that a select expression has. -/
def SelectTuple.width (isPushDown : Bool) (t : SelectTuple R V K) : ℕ :=
  if isPushDown = true ∧ t.aggr = some (.known .avg) then 2 else 1

theorem normalAggrs_ne_nil
    (h : analyzeFrom isPushDown k tuples = .ok a) (ht : t ∈ tuples)
    (haggr : t.aggr ≠ none) : a.normalAggrs ≠ [] := by
  induction tuples generalizing k a with
  | nil => cases ht
  | cons u tuples ih =>
    obtain ⟨k', a', hstep, ha'⟩ := analyzeFrom_cons h
    cases hstep with
    | plain hu => grind
    | avg => exact cons_ne_nil _ _
    | pushed => exact cons_ne_nil _ _
    | raw => exact cons_ne_nil _ _

theorem exists_aggr_of_kind (h : aggrKind items ≠ .nullAgg) :
    ∃ t ∈ items, t.aggr ≠ none := by grind [aggrKind, setAggregatorType]

section Execute

variable [LinearOrder K] [DecidableEq V] {vals : Values V K}

/-- The names of the columns of the query. -/
def Node.names (m : Node R V K) : List (String × String) := m.selectExprs.map fun c => (c.name, c.table)

omit [LinearOrder K] [DecidableEq V] in
theorem star_of_analyzeFrom
    (h : analyzeFrom isPushDown k tuples = .ok a) : ∀ t ∈ tuples, t.star = none := by
  induction tuples generalizing k a with
  | nil => simp
  | cons t tuples ih => grind [analyzeFrom_cons, SelectTuple.of_star, analyzeFrom]

end Execute

end Radon.Aggregate
