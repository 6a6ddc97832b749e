import Radon.Planner.MergeNodeSpec
import Radon.Planner.Union

/-!
# Routes of the leaves

The route of a leaf is made of its tables, its backend, the number of its queries and the tables that its
`FROM` clause mentions. Filters do not change the routes of a tree, except that two leaves become one; the
select list does not change them at all.
-/

namespace Radon.Planner

open List

variable {V : Type} {r : Router} {H : Hasher}

/-- The part of a merge node that decides where its queries go. -/
structure Route where
  referTables : List TableInfo
  nonGlobalCnt : ℕ
  backend : String
  routeLen : ℕ
  from_ : List TableRef
  ast : List TableRef

/-- The route of a leaf. -/
def MergeNode.route (m : MergeNode V) : Route :=
  ⟨m.referTables, m.nonGlobalCnt, m.backend, m.routeLen, m.from_.mentions, m.ast.mentions⟩

/-- The routes of the leaves of a tree. -/
def PlanNode.routes (n : PlanNode V) : List Route := n.leaves.map MergeNode.route

/-- The route of two leaves that become one. -/
def Route.merge (hasJoinExpr : Bool) (l r : Route) : Route :=
  { l with
    referTables := l.referTables ++ r.referTables
    nonGlobalCnt := l.nonGlobalCnt + r.nonGlobalCnt
    from_ := if hasJoinExpr then l.ast ++ r.ast else l.from_ ++ r.from_
    ast := l.ast ++ r.ast }

/-- When the filters make one leaf of two: one has global tables only, or a table of each has its partitions
beside the other's. -/
def Route.Joinable (l r : Route) : Prop :=
  l.nonGlobalCnt = 0 ∨ r.nonGlobalCnt = 0 ∨
    ∃ lt ∈ l.referTables, ∃ rt ∈ r.referTables, ∃ lc rc, isSameShard lt rt lc rc = true

@[simp] theorem routes_merge (m : MergeNode V) : (PlanNode.merge m).routes = [m.route] := rfl

@[simp] theorem routes_join (j : JoinNode V) (left right : PlanNode V) :
    (PlanNode.join j left right).routes = left.routes ++ right.routes := map_append

/-! ## The select list -/

@[simp] theorem routes_setNestLoop (n : PlanNode V) : n.setNestLoop.routes = n.routes := by
  induction n with
  | merge m => rfl
  | join j left right ihl ihr => simp [PlanNode.setNestLoop, ihl, ihr]

variable {n n' : PlanNode V} {t t' : JoinTree V} {filter : ExprInfo V} {lmn rmn : MergeNode V}
    {shape : JoinShape V}

theorem routes_pushSelectExpr {field : Field V} {i : ℕ}
    (h : n.pushSelectExpr field = .ok (i, n')) : n'.routes = n.routes := by
  induction n generalizing i n' with
  | merge m =>
    cases h
    rfl
  | join j left right ihl ihr =>
    rw [PlanNode.pushSelectExpr] at h
    split_ifs at h
    · obtain ⟨⟨index, left'⟩, hleft, h⟩ := except_bind_ok h
      cases h
      simp [ihl hleft]
    · obtain ⟨⟨index, right'⟩, hright, h⟩ := except_bind_ok h
      cases h
      simp [ihr hright]
    · obtain ⟨⟨index, right'⟩, hright, h⟩ := except_bind_ok h
      cases h
      simp [ihr hright]

theorem routes_fieldIndex {field : Field V} {i : ℕ} (h : n.fieldIndex field = .ok (i, n')) : n'.routes = n.routes := by
  unfold PlanNode.fieldIndex at h
  grind [routes_pushSelectExpr]

@[simp] theorem routes_addNoTableFilter (exprs : List (Expr V)) (n : PlanNode V) :
    (n.addNoTableFilter exprs).routes = n.routes := by
  cases n with
  | merge m => rfl
  | join j left right => simp [PlanNode.addNoTableFilter]

@[simp] theorem routes_addFilter (filter : ExprInfo V) (n : PlanNode V) : (n.addFilter filter).routes = n.routes := by
  induction n with
  | merge m => rfl
  | join j left right ihl ihr =>
    rw [PlanNode.addFilter]
    split_ifs <;> simp [ihl, ihr]

@[simp] theorem routes_addWhereLast (tables : List String) (e : Expr V) (n : PlanNode V) :
    (n.addWhereLast tables e).routes = n.routes := by
  induction n with
  | merge m => rfl
  | join j left right ihl ihr =>
    rw [PlanNode.addWhereLast]
    split_ifs <;> simp [ihl, ihr]

/-- The routes below a join node. -/
def JoinTree.routes (t : JoinTree V) : List Route := t.left.routes ++ t.right.routes

theorem JoinTree.routes_pushNullExprs {rightNull : List (Scalar V)}
    (h : t.pushNullExprs rightNull = .ok t') : t'.routes = t.routes := by
  induction rightNull generalizing t with
  | nil =>
    cases h
    rfl
  | cons s rightNull ih =>
    obtain ⟨⟨index, right⟩, hright, h⟩ := except_bind_ok h
    rw [ih h, JoinTree.routes, routes_fieldIndex hright]
    rfl

theorem JoinTree.routes_pushLeftConds {lefts : List (Expr V)}
    (h : t.pushLeftConds lefts = .ok t') : t'.routes = t.routes := by
  induction lefts generalizing t with
  | nil =>
    cases h
    rfl
  | cons e lefts ih =>
    obtain ⟨⟨index, left⟩, hleft, h⟩ := except_bind_ok h
    rw [ih h, JoinTree.routes, routes_pushSelectExpr hleft]
    rfl

@[simp] theorem JoinTree.routes_judgeStrategy (filters : List (ExprInfo V)) (t : JoinTree V) :
    (t.judgeStrategy filters).routes = t.routes := by
  unfold JoinTree.judgeStrategy
  split_ifs <;> simp [JoinTree.routes]

@[simp] theorem JoinTree.routes_addWhereLast (tables : List String) (e : Expr V) (t : JoinTree V) :
    (t.addWhereLast tables e).routes = t.routes := by
  unfold JoinTree.addWhereLast
  split_ifs <;> simp [JoinTree.routes]

@[simp] theorem routes_buildOrderBy (field : Field V) (n : PlanNode V) :
    (n.buildOrderBy field).2.routes = n.routes := by
  obtain ⟨i, n', hindex, heq⟩ | ⟨-, heq⟩ := n.buildOrderBy_cases field
  · rw [heq, routes_fieldIndex hindex]
  · rw [heq]

@[simp] theorem JoinTree.routes_addKey (l r : Field V) (t : JoinTree V) : (t.addKey l r).routes = t.routes := by
  simp [JoinTree.routes, JoinTree.addKey]

theorem JoinTree.routes_addCmp {op : CmpOp} {exchange : Bool} {l r : Field V}
    (h : t.addCmp op exchange l r = .ok t') : t'.routes = t.routes := by
  obtain ⟨⟨lidx, left⟩, hleft, h⟩ := except_bind_ok h
  obtain ⟨⟨ridx, right⟩, hright, h⟩ := except_bind_ok h
  cases h
  grind [routes_fieldIndex, routes]

theorem JoinTree.routes_pushOtherFilter {isOtherJoin : Bool}
    (h : t.pushOtherFilter isOtherJoin filter = .ok t') : t'.routes = t.routes := by
  unfold JoinTree.pushOtherFilter at h
  split_ifs at h
  · cases h
    simp
  · split at h
    · simp only at h
      split_ifs at h
      · cases h
        simp
      · cases h
        simp
      · exact JoinTree.routes_addCmp h
      · exact JoinTree.routes_addCmp h
    · cases h
    · cases h

theorem JoinTree.routes_pushOtherFilters {isOtherJoin : Bool} {filters : List (ExprInfo V)}
    (h : t.pushOtherFilters isOtherJoin filters = .ok t') : t'.routes = t.routes := by
  induction filters generalizing t with
  | nil =>
    cases h
    rfl
  | cons filter filters ih =>
    obtain ⟨t₁, ht₁, h⟩ := except_bind_ok h
    rw [ih h, JoinTree.routes_pushOtherFilter ht₁]

theorem routes_addFilters (filters : List (ExprInfo V)) (n : PlanNode V) :
    (filters.foldl (fun n filter => n.addFilter filter) n).routes = n.routes := by
  induction filters generalizing n with
  | nil => rfl
  | cons filter filters ih => rw [foldl_cons, ih, routes_addFilter]

theorem JoinTree.routes_pushOthers (h : t.pushOthers = .ok t') : t'.routes = t.routes := by
  obtain ⟨t₁, ht₁, h⟩ := except_bind_ok h
  obtain ⟨t₂, ht₂, h⟩ := except_bind_ok h
  rw [JoinTree.routes_pushOtherFilters h, JoinTree.routes_judgeStrategy,
    JoinTree.routes_pushOtherFilters ht₂, JoinTree.routes_judgeStrategy]
  have hleft := JoinTree.routes_pushLeftConds ht₁
  grind [routes_addFilters, routes_addNoTableFilter, routes]

theorem routes_handleOthers {levels : ℕ} (h : n.handleOthers levels = .ok n') : n'.routes = n.routes := by
  induction levels generalizing n n' with
  | zero =>
    cases h
    rfl
  | succ levels ih =>
    cases n with
    | merge m =>
      cases h
      rfl
    | join j left right =>
      obtain ⟨t₁, ht₁, h⟩ := except_bind_ok h
      obtain ⟨t₂, ht₂, h⟩ := except_bind_ok h
      obtain ⟨left', hleft, h⟩ := except_bind_ok h
      obtain ⟨right', hright, h⟩ := except_bind_ok h
      cases h
      have hroutes := (JoinTree.routes_pushOthers ht₂).trans (JoinTree.routes_pushNullExprs ht₁)
      rw [routes_join, ih hleft, ih hright, routes_join]
      exact hroutes

theorem JoinTree.routes_addKeys (joinOn : List (JoinCond V)) (t : JoinTree V) :
    (t.addKeys joinOn).routes = t.routes := by
  induction joinOn generalizing t with
  | nil => rfl
  | cons cond joinOn ih =>
    rw [JoinTree.addKeys, ih]
    split_ifs <;> simp

theorem routes_handleJoinOn (n : PlanNode V) : n.handleJoinOn.routes = n.routes := by
  induction n with
  | merge m => rfl
  | join j left right ihl ihr =>
    rw [PlanNode.handleJoinOn, routes_join, routes_join, ← ihl, ← ihr]
    exact JoinTree.routes_addKeys j.joinOn ⟨j, left.handleJoinOn, right.handleJoinOn⟩

theorem routes_pushFields {fields : List (Field V)} (h : n.pushFields fields = .ok n') : n'.routes = n.routes := by
  induction fields generalizing n with
  | nil =>
    cases h
    rfl
  | cons field fields ih =>
    obtain ⟨⟨i, n₁⟩, hn₁, h⟩ := except_bind_ok h
    rw [ih h, routes_pushSelectExpr hn₁]

theorem routes_pushSelectExprs {fields : List (Field V)}
    (h : n.pushSelectExprs fields = .ok n') : n'.routes = n.routes := by
  cases n with
  | merge m =>
    cases h
    rfl
  | join j left right =>
    obtain ⟨n₁, hn₁, h⟩ := except_bind_ok h
    obtain ⟨n₂, hn₂, h⟩ := except_bind_ok h
    cases h
    rw [routes_handleJoinOn, routes_handleOthers hn₂, routes_pushFields hn₁]

@[simp] theorem routes_buildQuery (noTables : List (Expr V)) (n : PlanNode V) :
    (n.buildQuery noTables).routes = n.routes := by
  induction n generalizing noTables with
  | merge m => rfl
  | join j left right ihl ihr => simp [PlanNode.buildQuery, ihl, ihr]

/-- The select list changes no route. -/
theorem routes_pushSelect {tbInfos : List TableInfo} {exprs : List (Scalar V)}
    (h : pushSelect tbInfos exprs n = .ok n') : n'.routes = n.routes := by
  cases n with
  | merge m =>
    rw [pushSelect] at h
    split_ifs at h
    · obtain ⟨-, -, h⟩ := except_bind_ok h
      cases h
      rfl
    · obtain ⟨fields, -, h⟩ := except_bind_ok h
      obtain ⟨n₁, hn₁, h⟩ := except_bind_ok h
      cases h
      rw [routes_buildQuery, routes_pushSelectExprs hn₁]
  | join j left right =>
    obtain ⟨fields, -, h⟩ := except_bind_ok h
    obtain ⟨n₁, hn₁, h⟩ := except_bind_ok h
    cases h
    rw [routes_buildQuery, routes_pushSelectExprs hn₁]

/-! ## Filters -/

theorem routes_pushKeyFilter {table field : String}
    (h : n.pushKeyFilter r H filter table field = .ok n') : n'.routes = n.routes := by
  induction n generalizing filter table field n' with
  | merge m =>
    obtain ⟨m', hm', h⟩ := except_bind_ok h
    cases h
    obtain ⟨idxs, rfl⟩ := MergeNode.pushKeyFilter_spec hm'
    rfl
  | join j left right ihl ihr =>
    rw [PlanNode.pushKeyFilter] at h
    split at h
    · obtain ⟨left', hleft, h⟩ := except_bind_ok h
      split at h
      · cases h
        simp [ihl hleft]
      · obtain ⟨right', hright, h⟩ := except_bind_ok h
        cases h
        simp [ihl hleft, ihr hright]
    · obtain ⟨right', hright, h⟩ := except_bind_ok h
      split at h
      · cases h
        simp [ihr hright]
      · obtain ⟨left', hleft, h⟩ := except_bind_ok h
        cases h
        simp [ihl hleft, ihr hright]

theorem routes_placeFilter (h : n.placeFilter r H filter = .ok n') : n'.routes = n.routes := by
  unfold PlanNode.placeFilter at h
  grind [routes_pushKeyFilter, routes_addFilter]

theorem routes_pushFilter (h : n.pushFilter r H filter = .ok n') : n'.routes = n.routes := by
  cases n with
  | merge m =>
    obtain ⟨m', hm', h⟩ := except_bind_ok h
    cases h
    obtain ⟨idxs, rfl⟩ := MergeNode.pushFilter_spec hm'
    rfl
  | join j left right =>
    rw [PlanNode.pushFilter] at h
    grind [routes_placeFilter, routes_join]

theorem routes_pushFilterList {filters : List (ExprInfo V)}
    (h : n.pushFilterList r H filters = .ok n') : n'.routes = n.routes := by
  induction filters generalizing n with
  | nil =>
    cases h
    rfl
  | cons filter filters ih =>
    obtain ⟨n₁, hn₁, h⟩ := except_bind_ok h
    rw [ih h, routes_pushFilter hn₁]

/-! ## Leaves that become one -/

theorem JoinShape.mentions_build (l r : TableExpr V) (shape : JoinShape V) :
    (shape.build l r).mentions = l.mentions ++ r.mentions := by
  cases shape <;> rfl

theorem route_mergeNodes (lmn rmn : MergeNode V) (shape : JoinShape V) (hasJoinExpr : Bool) :
    (mergeNodes lmn rmn shape hasJoinExpr).route = Route.merge hasJoinExpr lmn.route rmn.route := by
  cases hasJoinExpr <;>
    simp [mergeNodes, MergeNode.route, Route.merge, JoinShape.mentions_build, TableExpr.mentions]

theorem route_mergeChildren (j : JoinNode V) (lmn rmn : MergeNode V) :
    (j.mergeChildren lmn rmn).route = Route.merge j.hasJoinExpr lmn.route rmn.route :=
  route_mergeNodes lmn rmn j.shape j.hasJoinExpr

theorem route_mergeRoutes {m : MergeNode V} {hasJoinExpr : Bool} {otherJoinOn : List (ExprInfo V)}
    (h : mergeRoutes r H lmn rmn shape hasJoinExpr otherJoinOn = .ok m) :
    m.route = Route.merge hasJoinExpr lmn.route rmn.route := by
  unfold mergeRoutes at h
  grind [MergeNode.pushFilters_spec, route_mergeNodes, MergeNode.route]

theorem joinable_of_sameShard {join : JoinCond V}
    (h : sameShard lmn.referTables rmn.referTables join = true) : lmn.route.Joinable rmn.route := by
  unfold sameShard at h
  grind [findTable, Route.Joinable, MergeNode.route]

theorem joinable_of_canMerge {joinOn : List (JoinCond V)}
    (h : canMerge lmn rmn joinOn = true) : lmn.route.Joinable rmn.route := by
  simp only [canMerge, Bool.or_eq_true, decide_eq_true_eq, any_eq_true] at h
  grind [joinable_of_sameShard, Route.Joinable, MergeNode.route]

section Merge

variable {P : Route → Prop} (hP : ∀ b l r, l.Joinable r → P l → P r → P (Route.merge b l r))
include hP

theorem forall_pushEqualCmpr (joinCond : JoinCond V) (hn : ∀ x ∈ n.routes, P x) :
    ∀ x ∈ (n.pushEqualCmpr joinCond).routes, P x := by
  induction n with
  | merge m => exact hn
  | join j left right ihl ihr =>
    rw [routes_join, forall_mem_append] at hn
    rw [PlanNode.pushEqualCmpr]
    split_ifs
    · rw [routes_join, forall_mem_append]
      exact ⟨ihl hn.1, hn.2⟩
    · rw [routes_join, forall_mem_append]
      exact ⟨hn.1, ihr hn.2⟩
    · simp only
      split
      · split_ifs with hsame
        · rw [routes_merge, forall_mem_singleton]
          simp only [routes_merge, forall_mem_singleton] at hn
          grind [route_mergeChildren, joinable_of_sameShard, MergeNode.route, MergeNode.addWhere]
        · rw [routes_join, forall_mem_append]
          exact hn
      · rw [routes_join, forall_mem_append]
        exact hn

variable {order : InOrder V}

theorem forall_pushFilters {e : Expr V}
    (hn : ∀ x ∈ n.routes, P x) (h : pushFilters r H order n e = .ok n') : ∀ x ∈ n'.routes, P x := by
  obtain ⟨parsed, -, h⟩ := except_bind_ok h
  obtain ⟨s, hs, h⟩ := except_bind_ok h
  rw [← routes_pushFilterList hs] at hn
  cases s with
  | merge m =>
    cases h
    exact hn
  | join j left right =>
    simp only at h
    split_ifs at h
    cases h
    revert hn
    generalize PlanNode.join j left right = s
    intro hn
    induction parsed.joins generalizing s with
    | nil => exact hn
    | cons join joins ih => exact ih _ (forall_pushEqualCmpr hP join hn)

theorem forall_pushWhere {where_ : Option (Expr V)}
    (hn : ∀ x ∈ n.routes, P x) (h : pushWhere r H order n where_ = .ok n') : ∀ x ∈ n'.routes, P x := by
  cases where_ with
  | none =>
    cases h
    exact hn
  | some e => exact forall_pushFilters hP hn h

omit hP in
theorem forall_newJoinNode {lpn rpn : PlanNode V} {hasJoinExpr : Bool} {joinOn : List (JoinCond V)}
    {otherJoinOn : List (ExprInfo V)} (hl : ∀ x ∈ lpn.routes, P x) (hr : ∀ x ∈ rpn.routes, P x)
    (h : newJoinNode r H lpn rpn shape hasJoinExpr joinOn otherJoinOn = .ok n) : ∀ x ∈ n.routes, P x := by
  unfold newJoinNode at h
  grind [routes_pushFilterList, routes_join]

theorem forall_joinPlans {lpn rpn : PlanNode V} (hl : ∀ x ∈ lpn.routes, P x) (hr : ∀ x ∈ rpn.routes, P x)
    (h : joinPlans r H order lpn rpn shape = .ok n) : ∀ x ∈ n.routes, P x := by
  unfold joinPlans at h
  split at h
  · cases h
  · obtain ⟨parsed, -, h⟩ := except_bind_ok h
    obtain ⟨joinOn, -, h⟩ := except_bind_ok h
    simp only at h
    split at h
    · split at h
      · rename_i hmerge
        obtain ⟨m, hm, h⟩ := except_bind_ok h
        cases h
        simp only [routes_merge, forall_mem_singleton] at hl hr ⊢
        rw [route_mergeRoutes hm]
        exact hP _ _ _ (joinable_of_canMerge hmerge) hl hr
      · exact forall_newJoinNode hl hr h
    · exact forall_newJoinNode hl hr h

/-- What holds for the route of every table, and for two leaves that become one, holds for the routes of
the tree of a `FROM` clause. -/
theorem forall_scanTableExpr {database : String} (hscan : ∀ dbName name asName (m : MergeNode V),
      scanAliasedTableExpr r database dbName name asName = .ok m → P m.route)
    {from_ : TableExpr V} (h : scanTableExpr r H order database from_ = .ok n) : ∀ x ∈ n.routes, P x := by
  induction from_ generalizing n with
  | table dbName name asName =>
    obtain ⟨m, hm, h⟩ := except_bind_ok h
    cases h
    rw [routes_merge, forall_mem_singleton]
    exact hscan _ _ _ m hm
  | comma left right ihl ihr =>
    obtain ⟨lpn, hlpn, h⟩ := except_bind_ok h
    obtain ⟨rpn, hrpn, h⟩ := except_bind_ok h
    exact forall_joinPlans hP (ihl hlpn) (ihr hrpn) h
  | join kind left right on ihl ihr =>
    cases kind with
    | right =>
      obtain ⟨lpn, hlpn, h⟩ := except_bind_ok h
      obtain ⟨rpn, hrpn, h⟩ := except_bind_ok h
      exact forall_joinPlans hP (ihr hlpn) (ihl hrpn) h
    | inner | left =>
      obtain ⟨lpn, hlpn, h⟩ := except_bind_ok h
      obtain ⟨rpn, hrpn, h⟩ := except_bind_ok h
      exact forall_joinPlans hP (ihl hlpn) (ihr hrpn) h

end Merge

/-- What holds for the routes of the leaves after `calcRoute`: a leaf with global tables only goes where its
neighbour goes, and neighbours on one backend become one leaf. -/
theorem forall_calcRoute {P Q : Route → Prop} {pick : MergeNode V → ℕ × ℕ}
    (hcalc : ∀ m m' : MergeNode V, P m.route → m.calcRoute r pick = .ok m' → Q m'.route)
    (hleft : ∀ b x y, Q x → Q y → y.nonGlobalCnt = 0 ∨ (x.backend ≠ "" ∧ x.backend = y.backend) →
      Q (Route.merge b x y)) (hright : ∀ b x y, Q x → Q y → x.nonGlobalCnt = 0 →
      Q (Route.merge b { x with backend := y.backend, routeLen := y.routeLen } y))
    (hn : ∀ x ∈ n.routes, P x) (h : n.calcRoute r pick = .ok n') : ∀ x ∈ n'.routes, Q x := by
  induction n generalizing n' with
  | merge m =>
    obtain ⟨m', hm', h⟩ := except_bind_ok h
    cases h
    grind [routes_merge]
  | join j left right ihl ihr =>
    obtain ⟨left', hleft', h⟩ := except_bind_ok h
    obtain ⟨right', hright', h⟩ := except_bind_ok h
    rw [routes_join, forall_mem_append] at hn
    have hl := ihl hn.1 hleft'
    have hr := ihr hn.2 hright'
    split at h
    · simp only [routes_merge, forall_mem_singleton] at hl hr
      split at h
      · rename_i hmerge
        cases h
        rw [routes_merge, forall_mem_singleton, route_mergeChildren]
        split_ifs with hzero
        · exact hright _ _ _ hl hr hzero
        · exact hleft _ _ _ hl hr (hmerge.elim .inr fun h => .inl (h.resolve_right hzero))
      · cases h
        rw [routes_join, forall_mem_append]
        simpa using ⟨hl, hr⟩
    · cases h
      rw [routes_join, forall_mem_append]
      exact ⟨hl, hr⟩

end Radon.Planner
