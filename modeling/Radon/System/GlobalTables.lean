import Radon.Planner.RouteSpec
import Radon.System.Cluster

/-!
# Where global tables are read

A global table has a segment on every backend that was there when it was created, and on those that a shift
added. The planner sends a query with a global table to the backends of another table, or to a backend of
one of its global tables, or to any backend.
-/

namespace Radon

open Planner List

variable {V : Type}

/-- The table has a segment on the backend. -/
def Table.LiesOn (t : Table) (backend : String) : Prop :=
  ∃ p, t.partition = some p ∧ ∃ seg ∈ p.getSegments, seg.backend = backend

/-- Some table that a statement can name has a segment on the backend. -/
def Router.Used (r : Router) (backend : String) : Prop :=
  ∃ db name t, r.getTable db name = .ok t ∧ t.LiesOn backend

/-- The backends to which a query can go. -/
def Cluster.reached (c : Cluster) : Target → List String
  | .backend name => [name]
  | .anyNormal => c.backends

/-- Every query of every plan finds the global tables that it mentions where it goes. -/
def GlobalsRead (V : Type) (c : Cluster) : Prop :=
  ∀ (H : Hasher) (order : InOrder V) (pick : List Bool → MergeNode V → ℕ × ℕ) (database : String)
    (s : SelectStatement V) (plan : UnionPlan V) (sent : List SentQuery),
    buildNode c.router H order pick database s = .ok plan → plan.sent = .ok sent →
      ∀ q ∈ sent, ∀ backend ∈ c.reached q.target, ∀ ref ∈ q.mentions, ∀ t,
        c.router.getTable ref.1 ref.2 = .ok t → t.tableConfig.shardType = .global → t.LiesOn backend

/-- Every global table lies on all backends that are not attached and on all backends of other tables. -/
def Replicated (c : Cluster) : Prop :=
  ∀ db name t, c.router.getTable db name = .ok t → t.tableConfig.shardType = .global →
    ∀ backend, backend ∈ c.backends ∨ c.router.Used backend → t.LiesOn backend

/-! ## Segments of the router -/

variable {segs : List Segment} {indexes : List ℕ} {backend database : String} {m : MergeNode V}
    {pick : MergeNode V → ℕ × ℕ} {order : InOrder V}

section Router

variable {r : Router} {db name : String} {t : Table}

theorem tables_of_getTable (h : r.getTable db name = .ok t) : r.tables db name = some t := by
  unfold Router.getTable at h
  split at h
  · cases h
  · grind

theorem getPartition_ok {p : Partition} (h : r.getPartition db name = .ok p) :
    ∃ t, r.getTable db name = .ok t ∧ t.partition = some p := by
  obtain ⟨t, ht, h⟩ := except_bind_ok h
  split at h
  · rename_i hp
    cases h
    exact ⟨t, ht, hp⟩
  · cases h

theorem used_of_lookupAll (h : r.lookupAll db name = .ok segs) : ∀ seg ∈ segs, r.Used seg.backend := by
  obtain ⟨p, hp, h⟩ := except_bind_ok h
  obtain ⟨t, ht, hpart⟩ := getPartition_ok hp
  cases h
  exact fun seg hseg => ⟨db, name, t, ht, p, hpart, seg, hseg, rfl⟩

theorem used_of_getSegments (hr : r.Ok)
    (h : r.getSegments db name indexes = .ok segs) : ∀ seg ∈ segs, r.Used seg.backend := by
  obtain ⟨p, hp, h⟩ := except_bind_ok h
  obtain ⟨t, ht, hpart⟩ := getPartition_ok hp
  have hok := (hr db name t (tables_of_getTable ht)).2
  exact fun seg hseg => ⟨db, name, t, ht, p, hpart, seg, hok.segmentsOf_subset hpart h hseg, rfl⟩

theorem length_getSegments_single (hr : r.Ok) (ht : r.getTable db name = .ok t)
    (hsingle : t.tableConfig.shardType = .single) (h : r.getSegments db name indexes = .ok segs) : segs.length ≤ 1 := by
  obtain ⟨p, hp, h⟩ := except_bind_ok h
  obtain ⟨t', ht', hpart⟩ := getPartition_ok hp
  cases ht.symm.trans ht'
  have hok := (hr db name t (tables_of_getTable ht)).2
  obtain ⟨seg, rfl⟩ := hok.single hpart hsingle
  exact segmentsOf_single h

end Router

/-! ## Routes -/

section Routes

variable {r : Router} {H : Hasher}

/-- A table of a query that has no segments yet, as it is in the router. -/
structure Fresh (r : Router) (info : TableInfo) : Prop where
  segments : info.segments = []
  known : ∃ t, r.getTable info.database info.tableName = .ok t ∧
    info.shardKey = t.tableConfig.shardKey ∧ info.shardType = t.tableConfig.shardType

/-- A leaf before `calcRoute`. -/
structure Unrouted (r : Router) (x : Route) : Prop where
  backend : x.backend = ""
  routeLen : x.routeLen = 0
  tables : ∀ info ∈ x.referTables, Fresh r info

/-- The backend of a leaf has a table, or there is none since the leaf has no single query: then the
segments of a table with a key give the backends. -/
def Directed (r : Router) (backend : String) (routeLen : ℕ) (keyed : Prop) : Prop :=
  r.Used backend ∨ (backend = "" ∧ routeLen ≠ 1 ∧ (routeLen = 0 ∨ keyed))

/-- A leaf after `calcRoute`. -/
structure RoutedLeaf (r : Router) (x : Route) : Prop where
  segments : ∀ info ∈ x.referTables, ∀ seg ∈ info.segments, r.Used seg.backend
  directed : Directed r x.backend x.routeLen (∃ info ∈ x.referTables, info.shardKey ≠ "")

variable {routeLen : ℕ} {keyed : Prop}

theorem Directed.mono {keyed' : Prop}
    (h : Directed r backend routeLen keyed) (himp : keyed → keyed') : Directed r backend routeLen keyed' :=
  h.imp_right fun ⟨hb, hne, hk⟩ => ⟨hb, hne, hk.imp_right himp⟩

theorem Unrouted.merge (b : Bool) (x y : Route) (_ : x.Joinable y) (hx : Unrouted r x) (hy : Unrouted r y) :
    Unrouted r (x.merge b y) :=
  ⟨hx.backend, hx.routeLen, forall_mem_append.2 ⟨hx.tables, hy.tables⟩⟩

theorem unrouted_scan {dbName name asName : String}
    (h : scanAliasedTableExpr r database dbName name asName = .ok m) : Unrouted r m.route := by
  obtain ⟨t, ht, h⟩ := except_bind_ok h
  cases h
  refine ⟨rfl, rfl, fun info hinfo => ?_⟩
  cases mem_singleton.1 hinfo
  exact ⟨rfl, t, ht, rfl, rfl⟩

/-- A table without a key that is not global is a single table. -/
theorem single_of_noKey (hr : r.Ok) {db name : String} {t : Table} (ht : r.getTable db name = .ok t)
    (hkey : t.tableConfig.shardKey = "") (hglobal : t.tableConfig.shardType ≠ .global) :
    t.tableConfig.shardType = .single := by
  have hconf := (hr db name t (tables_of_getTable ht)).2.conf
  cases htype : t.tableConfig.shardType with
  | hash => exact absurd hkey (hconf.key (.inl htype))
  | list => exact absurd hkey (hconf.key (.inr htype))
  | global => exact absurd htype hglobal
  | single => rfl

/-- One table of the loop of `calcRoute` with one segment. -/
theorem Directed.one (h : Directed r backend routeLen keyed) {seg : Segment} (hseg : r.Used seg.backend) (routeLen' : ℕ)
    (keyed' : Prop) : Directed r (if backend = "" then seg.backend else backend) routeLen' keyed' := by
  left
  split_ifs with hempty
  · exact hseg
  · exact h.resolve_right fun hr => hempty hr.1

/-- One table of the loop of `calcRoute` with no segment or several. -/
theorem Directed.many (hr : r.Ok) (h : Directed r backend routeLen keyed) {info : TableInfo}
    (hinfo : Fresh r info) (hglobal : info.shardType ≠ .global)
    (hsegs : r.getSegments info.database info.tableName indexes = .ok segs) (hlen : segs.length ≠ 1) :
    Directed r backend (if routeLen = 0 then segs.length else routeLen) (keyed ∨ info.shardKey ≠ "") := by
  refine h.imp_right fun ⟨hb, hne, hk⟩ => ⟨hb, ?_, ?_⟩
  · split_ifs
    · exact hlen
    · exact hne
  · split_ifs with hzero
    · -- more than one segment needs a key
      grind [Fresh.known, single_of_noKey, length_getSegments_single]
    · exact .inr (.inl (hk.resolve_left hzero))

theorem calcTables_routed (hr : r.Ok) {tbInfos : List TableInfo} (hinfos : ∀ info ∈ tbInfos, Fresh r info)
    (hdir : Directed r backend routeLen keyed) {res : List TableInfo × String × ℕ}
    (h : calcTables r indexes tbInfos backend routeLen = .ok res) :
    (∀ info ∈ res.1, ∀ seg ∈ info.segments, r.Used seg.backend) ∧
      Directed r res.2.1 res.2.2 (keyed ∨ ∃ info ∈ res.1, info.shardKey ≠ "") := by
  induction tbInfos generalizing backend routeLen keyed res with
  | nil =>
    cases h
    exact ⟨nofun, hdir.mono .inl⟩
  | cons info tbInfos ih =>
    obtain ⟨hinfo, hinfos⟩ := forall_mem_cons.1 hinfos
    rw [calcTables] at h
    split at h
    · obtain ⟨rest, hrest, h⟩ := except_bind_ok h
      cases h
      grind [Fresh.segments, Directed.mono]
    · rename_i hglobal
      obtain ⟨segments, hsegments, h⟩ := except_bind_ok h
      obtain ⟨rest, hrest, h⟩ := except_bind_ok h
      cases h
      have hused := used_of_getSegments hr hsegments
      obtain ⟨hsegs, hdir'⟩ : _ ∧ Directed r rest.2.1 rest.2.2
          ((keyed ∨ info.shardKey ≠ "") ∨ ∃ info ∈ rest.1, info.shardKey ≠ "") := by
        split at hrest
        · exact ih hinfos (hdir.one (hused _ (mem_singleton.2 rfl)) _ _) hrest
        · rename_i hnot
          have hlen : segments.length ≠ 1 := fun hlen => (length_eq_one_iff.1 hlen).elim hnot
          exact ih hinfos (hdir.many hr hinfo hglobal hsegments hlen) hrest
      refine ⟨forall_mem_cons.2 ⟨hused, hsegs⟩, hdir'.mono ?_⟩
      rintro ((hk | hkey) | ⟨i, hi, hkey⟩)
      · exact .inl hk
      · exact .inr ⟨_, mem_cons_self, hkey⟩
      · exact .inr ⟨i, mem_cons_of_mem _ hi, hkey⟩

theorem routed_calcRoute (hr : r.Ok) {m' : MergeNode V}
    (hm : Unrouted r m.route) (h : m.calcRoute r pick = .ok m') : RoutedLeaf r m'.route := by
  have hfresh : ∀ info ∈ m.referTables, ∀ seg ∈ info.segments, r.Used seg.backend := by
    intro info hinfo
    rw [(hm.tables info hinfo).segments]
    exact nofun
  have hdir : Directed r m.backend m.routeLen False := by
    refine .inr ⟨hm.backend, ?_, .inl hm.routeLen⟩
    rw [show m.routeLen = 0 from hm.routeLen]
    exact Nat.zero_ne_one
  unfold MergeNode.calcRoute at h
  split at h
  · split at h
    · cases h
      exact ⟨hfresh, hdir.mono False.elim⟩
    · obtain ⟨segments, hsegments, h⟩ := except_bind_ok h
      simp only at h
      split at h
      · cases h
      · rename_i seg hseg
        cases h
        exact ⟨hfresh, .inl (used_of_lookupAll hsegments seg (mem_of_getElem? hseg))⟩
  · obtain ⟨res, hres, h⟩ := except_bind_ok h
    cases h
    obtain ⟨hsegs, hdir'⟩ := calcTables_routed hr hm.tables hdir hres
    exact ⟨hsegs, hdir'.mono fun hk => hk.resolve_left id⟩

theorem RoutedLeaf.merge_left (b : Bool) (x y : Route) (hx : RoutedLeaf r x) (hy : RoutedLeaf r y)
    (_ : y.nonGlobalCnt = 0 ∨ (x.backend ≠ "" ∧ x.backend = y.backend)) : RoutedLeaf r (x.merge b y) where
  segments := forall_mem_append.2 ⟨hx.segments, hy.segments⟩
  directed := hx.directed.mono fun ⟨info, hinfo, hkey⟩ => ⟨info, mem_append_left _ hinfo, hkey⟩

theorem RoutedLeaf.merge_right (b : Bool) (x y : Route) (hx : RoutedLeaf r x) (hy : RoutedLeaf r y)
    (_ : x.nonGlobalCnt = 0) : RoutedLeaf r ({ x with backend := y.backend, routeLen := y.routeLen }.merge b y) where
  segments := forall_mem_append.2 ⟨hx.segments, hy.segments⟩
  directed := hy.directed.mono fun ⟨info, hinfo, hkey⟩ => ⟨info, mem_append_right _ hinfo, hkey⟩

/-- The leaves of the plan of a `SELECT` are routed. -/
theorem forall_processSelect (hr : r.Ok) {node : Select V} {root : PlanNode V}
    (h : processSelect r H order pick database node = .ok root) : ∀ x ∈ root.routes, RoutedLeaf r x := by
  obtain ⟨scanned, hscanned, h⟩ := except_bind_ok h
  obtain ⟨pushed, hpushed, h⟩ := except_bind_ok h
  obtain ⟨routed, hrouted, h⟩ := except_bind_ok h
  rw [routes_pushSelect h]
  have hscan := forall_scanTableExpr Unrouted.merge (fun _ _ _ _ => unrouted_scan) hscanned
  exact forall_calcRoute (fun _ _ => routed_calcRoute hr) RoutedLeaf.merge_left RoutedLeaf.merge_right
    (forall_pushWhere Unrouted.merge hscan hpushed) hrouted

/-- A query at a position of the route goes to the backend of some table. -/
theorem used_segmentNames {i : ℕ} {infos : List TableInfo} {q : SegmentQuery}
    (hinfos : ∀ info ∈ infos, ∀ seg ∈ info.segments, r.Used seg.backend)
    (hback : r.Used backend ∨ (backend = "" ∧ ∃ info ∈ infos, info.shardKey ≠ ""))
    (h : segmentNames i infos backend = .ok q) : r.Used q.backend := by
  induction infos generalizing backend q with
  | nil => grind [segmentNames]
  | cons info infos ih =>
    obtain ⟨hinfo, hinfos⟩ := forall_mem_cons.1 hinfos
    rw [segmentNames] at h
    split at h
    · rename_i hkey
      obtain ⟨q', hq', h⟩ := except_bind_ok h
      cases h
      change r.Used q'.backend
      refine ih hinfos (hback.imp_right fun ⟨hb, i, hi, hne⟩ => ⟨hb, i, ?_, hne⟩) hq'
      exact (mem_cons.1 hi).resolve_left fun heq => hne (heq ▸ hkey)
    · split at h
      · cases h
      · rename_i seg hseg
        split at h
        · cases h
        · obtain ⟨q', hq', h⟩ := except_bind_ok h
          cases h
          grind

theorem used_queries (hm : RoutedLeaf r m.route) {qs : List SegmentQuery}
    (h : m.queries = .ok qs) : ∀ q ∈ qs, r.Used q.backend := by
  intro q hq
  obtain ⟨i, hi, hname⟩ := of_mem_mapM_ok h hq
  refine used_segmentNames hm.segments ?_ hname
  refine hm.directed.imp_right fun ⟨hb, _, hk⟩ => ⟨hb, hk.resolve_left fun hzero => ?_⟩
  have hzero : m.routeLen = 0 := hzero
  rw [hzero] at hi
  cases hi

end Routes

/-! ## Unions -/

section Union

variable {r : Router} {H : Hasher}

/-- A node with one query: it goes to any backend, or to the backend of some table. -/
structure RoutedMerge (r : Router) (m : UnionMerge) : Prop where
  segments : ∀ info ∈ m.referTables, ∀ seg ∈ info.segments, r.Used seg.backend
  directed : (m.single = true ∧ m.nonGlobalCnt = 0) ∨ (m.single = false ∧ r.Used m.backend)

/-- A plan all of whose leaves are routed. -/
def RoutedPlan (r : Router) : UnionPlan V → Prop
  | .select root _ => ∀ x ∈ root.routes, RoutedLeaf r x
  | .merged m => RoutedMerge r m
  | .union left right => RoutedPlan r left ∧ RoutedPlan r right

theorem routedPlan_ofSelect {clauses : Clauses V} {root : PlanNode V}
    (h : ∀ x ∈ root.routes, RoutedLeaf r x) : RoutedPlan r (.ofSelect clauses root) := by
  unfold UnionPlan.ofSelect
  split
  · rename_i m
    split_ifs with hone
    · rw [routes_merge, forall_mem_singleton] at h
      exact ⟨h.segments, .inr ⟨rfl, h.directed.resolve_right fun hd => hd.2.1 hone⟩⟩
    · exact h
  · exact h

theorem RoutedMerge.merge {lm rm : UnionMerge} (hl : RoutedMerge r lm) (hr : RoutedMerge r rm)
    (mentions : List TableRef) : RoutedMerge r (lm.merge rm mentions) where
  segments info hinfo := by
    rcases mem_append.1 hinfo with hinfo | hinfo
    · exact hl.segments info (mem_filter.1 hinfo).1
    · exact hr.segments info hinfo
  directed := by
    simp only [UnionMerge.merge]
    split_ifs with hfollow
    · grind [directed]
    · exact hl.directed

variable {plan : UnionPlan V}

/-- The plan of a union: one node for two nodes with one query, or a node above both sides. -/
theorem union_cases {left right : UnionPlan V} {mentions : List TableRef} {order : Except String Unit}
    (h : union left right mentions order = .ok plan) :
    (∃ lm rm, left = .merged lm ∧ right = .merged rm ∧ plan = .merged (lm.merge rm mentions)) ∨
      plan = .union left right := by
  obtain ⟨_, -, h⟩ := except_bind_ok h
  obtain ⟨_, -, h⟩ := except_bind_ok h
  split at h
  · cases h
  · split at h
    · split at h
      · cases h
        exact .inl ⟨_, _, rfl, rfl, rfl⟩
      · obtain ⟨-, -, h⟩ := except_bind_ok h
        cases h
        exact .inr rfl
    · obtain ⟨-, -, h⟩ := except_bind_ok h
      cases h
      exact .inr rfl

theorem routedPlan_union {left right : UnionPlan V} {mentions : List TableRef}
    {order : Except String Unit} (hl : RoutedPlan r left) (hr : RoutedPlan r right)
    (h : union left right mentions order = .ok plan) : RoutedPlan r plan := by
  obtain ⟨lm, rm, rfl, rfl, rfl⟩ | rfl := union_cases h
  · exact RoutedMerge.merge hl hr mentions
  · exact ⟨hl, hr⟩

theorem routedPlan_processPart (hr : r.Ok) {pick : List Bool → MergeNode V → ℕ × ℕ} {s : SelectStatement V}
    (h : processPart r H order database pick s = .ok plan) : RoutedPlan r plan := by
  induction s generalizing pick plan with
  | select node clauses =>
    obtain ⟨root, hroot, h⟩ := except_bind_ok h
    obtain ⟨-, -, h⟩ := except_bind_ok h
    cases h
    exact routedPlan_ofSelect (forall_processSelect hr hroot)
  | dual fields mentions =>
    cases h
    exact ⟨nofun, .inl ⟨rfl, rfl⟩⟩
  | union left right mentions orderBy ihl ihr =>
    obtain ⟨lplan, hleft, h⟩ := except_bind_ok h
    obtain ⟨rplan, hright, h⟩ := except_bind_ok h
    exact routedPlan_union (ihl hleft) (ihr hright) h

theorem routedPlan_buildNode (hr : r.Ok) {pick : List Bool → MergeNode V → ℕ × ℕ} {s : SelectStatement V}
    (h : buildNode r H order pick database s = .ok plan) : RoutedPlan r plan := by
  cases s with
  | select node clauses => grind [routedPlan_processPart, buildNode]
  | dual fields mentions => cases h
  | union left right mentions orderBy => exact routedPlan_processPart hr h

/-- A query goes to a backend that has a table, or to any backend. -/
theorem used_sent (hplan : RoutedPlan r plan) {sent : List SentQuery}
    (h : plan.sent = .ok sent) : ∀ q ∈ sent, ∀ name, q.target = .backend name → r.Used name := by
  induction plan generalizing sent with
  | select root mentions =>
    intro q hq name hname
    obtain ⟨queries, hqueries, h⟩ := except_bind_ok h
    cases h
    obtain ⟨qs, hqs, hq⟩ := mem_flatten.1 hq
    obtain ⟨m, hm, hsent⟩ := of_mem_mapM_ok hqueries hqs
    obtain ⟨segs, hsegs, hsent⟩ := except_bind_ok hsent
    cases hsent
    obtain ⟨q', hq', rfl⟩ := mem_map.1 hq
    cases hname
    exact used_queries (hplan m.route (mem_map_of_mem hm)) hsegs q' hq'
  | merged m =>
    intro q hq name hname
    obtain ⟨q', hq', h⟩ := except_bind_ok h
    cases h
    cases mem_singleton.1 hq
    unfold UnionMerge.sent at hq'
    split_ifs at hq' with hsingle
    · cases hq'
      cases hname
    · obtain ⟨seg, hseg, hq'⟩ := except_bind_ok hq'
      cases hq'
      cases hname
      obtain ⟨-, hused⟩ := hplan.directed.resolve_left fun hd => hsingle hd.1
      exact used_segmentNames hplan.segments (.inl hused) hseg
  | union left right ihl ihr =>
    obtain ⟨ls, hls, h⟩ := except_bind_ok h
    obtain ⟨rs, hrs, h⟩ := except_bind_ok h
    cases h
    exact forall_mem_append.2 ⟨ihl hplan.1 hls, ihr hplan.2 hrs⟩

end Union

/-- Where every global table lies on all backends of the other tables, all queries find the global tables
that they mention. -/
theorem Replicated.globalsRead {c : Cluster} (hc : c.router.Ok) (h : Replicated c) : GlobalsRead V c := by
  intro H order pick database s plan sent hplan hsent q hq backend hbackend ref hrefs t ht hglobal
  refine h ref.1 ref.2 t ht hglobal backend ?_
  have hused := used_sent (routedPlan_buildNode hc hplan) hsent q hq
  cases htarget : q.target with
  | backend name => grind [Cluster.reached]
  | anyNormal =>
    rw [htarget] at hbackend
    exact .inl hbackend

/-! ## Queries that reach a backend -/

section Probe

variable {r : Router} {H : Hasher} {db dbg name nameg : String} {t g : Table}

/-- A node without groups sends the queries of its route. -/
theorem sent_ofSelect_merge {qs : List SegmentQuery} (h : m.queries = .ok qs) :
    (UnionPlan.ofSelect .none (.merge m)).sent = .ok (qs.map fun q => ⟨.backend q.backend, m.from_.mentions⟩) := by
  by_cases hone : m.routeLen = 1
  · rw [MergeNode.queries, hone] at h
    have h : (segmentNames 0 m.referTables m.backend).map (fun q => [q]) = .ok qs := by
      rw [← h]
      simp
      rfl
    obtain ⟨q, hq, rfl⟩ := except_map_ok h
    simp [UnionPlan.ofSelect, hone, UnionPlan.sent, UnionMerge.sent, hq, Clauses.none]
  · simp [UnionPlan.ofSelect, hone, UnionPlan.sent, PlanNode.leaves, MergeNode.sent, h, Clauses.none]

/-- A constant in the select list changes neither the route nor the tables of a node. -/
theorem pushSelect_val (tbInfos : List TableInfo) (v : SQLVal) (m : MergeNode V) :
    ∃ m', pushSelect tbInfos [.val v] (.merge m) = .ok (.merge m') ∧ m'.queries = m.queries ∧ m'.from_ = m.from_ := by
  unfold pushSelect
  simp only
  split
  · exact ⟨_, rfl, rfl, rfl⟩
  · exact ⟨_, rfl, rfl, rfl⟩

/-- The node of a table with an alias. -/
def leafNode (db name asName : String) (t : Table) : MergeNode V where
  from_ := .table db name asName
  ast := .table db name asName
  referTables := [tableInfo db name asName t]
  nonGlobalCnt := if t.tableConfig.shardType = .global then 0 else 1
  indexes := if t.tableConfig.shardType = .single then [0] else []

theorem scan_leaf {asName : String} (ht : r.getTable db name = .ok t) (has : asName ≠ "") :
    scanAliasedTableExpr (V := V) r "" db name asName = .ok (leafNode db name asName t) := by
  have hdb : db ≠ "" := by
    rintro rfl
    cases ht
  simp only [scanAliasedTableExpr, hdb, if_false, ht, has, and_false, leafNode]
  rfl

/-- A table and a global table in one `FROM` clause. -/
def pairFrom (db name dbg nameg : String) : TableExpr V := .comma (.table db name "a") (.table dbg nameg "b")

/-- The node of such a clause. -/
def pairNode (db name dbg nameg : String) (t g : Table) : MergeNode V where
  from_ := pairFrom db name dbg nameg
  ast := pairFrom db name dbg nameg
  referTables := [tableInfo db name "a" t, tableInfo dbg nameg "b" g]
  nonGlobalCnt := if t.tableConfig.shardType = .global then 0 else 1
  indexes := if t.tableConfig.shardType = .single then [0] else []

theorem scan_pair (order : InOrder V) (ht : r.getTable db name = .ok t) (hg : r.getTable dbg nameg = .ok g)
    (hglobal : g.tableConfig.shardType = .global) :
    scanTableExpr r H order "" (pairFrom db name dbg nameg) = .ok (.merge (pairNode db name dbg nameg t g)) := by
  have hmerge : canMerge (leafNode (V := V) db name "a" t) (leafNode dbg nameg "b" g) [] = true := by
    simp [canMerge, leafNode, hglobal]
  have hjoin : joinPlans r H order (.merge (leafNode db name "a" t)) (.merge (leafNode dbg nameg "b" g)) .comma =
      .ok (.merge (pairNode db name dbg nameg t g)) := by
    unfold joinPlans
    rw [if_neg (by simp [PlanNode.tables, PlanNode.referTables, leafNode, tableInfo])]
    change (if canMerge (leafNode db name "a" t) (leafNode dbg nameg "b" g) [] = true then _ else _) = _
    rw [if_pos hmerge]
    simp [mergeRoutes, mergeNodes, MergeNode.pushFilters, JoinShape.build, leafNode, pairNode, pairFrom,
      hglobal]
  rw [pairFrom, scanTableExpr, scanTableExpr, scanTableExpr, scan_leaf ht (by decide), scan_leaf hg (by decide)]
  exact hjoin

/-- A node of the two tables that sends a query to the backend. -/
def Reaches (r : Router) (pick : MergeNode V → ℕ × ℕ) (m : MergeNode V) (backend : String) : Prop :=
  ∃ m' qs, m.calcRoute r pick = .ok m' ∧ m'.from_ = m.from_ ∧ m'.queries = .ok qs ∧
    ∃ q ∈ qs, q.backend = backend

theorem noKey_global (hr : r.Ok) (hg : r.getTable dbg nameg = .ok g)
    (hglobal : g.tableConfig.shardType = .global) : g.tableConfig.shardKey = "" :=
  (hr dbg nameg g (tables_of_getTable hg)).2.conf.noKey (.inl hglobal)

theorem getPartition_eq {p : Partition} (ht : r.getTable db name = .ok t) (hp : t.partition = some p) :
    r.getPartition db name = .ok p := by
  simp only [Router.getPartition, ht, bind, Except.bind, hp]
  rfl

/-- Of two global tables the first one gives the backend. -/
theorem reaches_global (hr : r.Ok) (ht : r.getTable db name = .ok t) (hg : r.getTable dbg nameg = .ok g)
    (hglobal : g.tableConfig.shardType = .global) (hglobal' : t.tableConfig.shardType = .global)
    (hlies : t.LiesOn backend) : ∃ pick, Reaches r pick (pairNode (V := V) db name dbg nameg t g) backend := by
  obtain ⟨p, hp, seg, hseg, rfl⟩ := hlies
  obtain ⟨i, hi, hget⟩ := mem_iff_getElem.1 hseg
  have hgets : p.getSegments[i % p.getSegments.length]? = some seg := by
    rw [Nat.mod_eq_of_lt hi, List.getElem?_eq_getElem hi, hget]
  refine ⟨fun _ => (0, i), { pairNode db name dbg nameg t g with
    backend := seg.backend, indexes := [i % p.getSegments.length], routeLen := 1 }, ?_⟩
  refine ⟨[⟨seg.backend, [("a", name), ("b", nameg)]⟩], ?_, rfl, ?_, ?_⟩
  · have hlookup : r.lookupAll db name = .ok p.getSegments := by
      rw [Router.lookupAll, getPartition_eq ht hp]
      rfl
    simp only [MergeNode.calcRoute, pairNode, hglobal', if_true, length_cons, length_nil, Nat.zero_mod,
      List.getElem?_cons_zero, tableInfo, hlookup, bind, Except.bind, hgets]
    rfl
  · simp [MergeNode.queries, pairNode, segmentNames, tableInfo, noKey_global hr ht hglobal',
      noKey_global hr hg hglobal]
  · simp

/-- The backend of a route with one segment. -/
def onlyBackend : List String → String
  | [backend] => backend
  | _ => ""

/-- The route of a table and a global one follows the segments of the first. -/
theorem calcTables_pair (info infog : TableInfo) (hlocal : info.shardType ≠ .global)
    (hglobal : infog.shardType = .global) (hsegs : r.getSegments info.database info.tableName indexes = .ok segs) :
    calcTables r indexes [info, infog] "" 0 =
      .ok ([{ info with segments := segs }, infog], onlyBackend (segs.map Segment.backend), segs.length) := by
  have hrest (backend : String) (routeLen : ℕ) :
      calcTables r indexes [infog] backend routeLen = .ok ([infog], backend, routeLen) := by
    rw [calcTables, if_pos hglobal]
    rfl
  rw [calcTables, if_neg hlocal, hsegs]
  simp only [hrest, bind, Except.bind, if_true]
  cases segs with
  | nil => rfl
  | cons seg segs => cases segs <;> rfl

/-- A partitioned table leads to all its backends. -/
theorem segmentNames_pair (info infog : TableInfo) (hkey : info.shardKey ≠ "") (hnoKey : infog.shardKey = "")
    {i : ℕ} {seg : Segment} (hseg : info.segments[i]? = some seg) (hrange : seg.range ≠ .nil)
    (hbackend : backend = "" ∨ backend = seg.backend) : segmentNames i [info, infog] backend =
      .ok ⟨seg.backend, [(info.refer, seg.table), (infog.refer, infog.tableName)]⟩ := by
  have hif : (if backend = "" then seg.backend else backend) = seg.backend := by grind
  simp only [segmentNames, hkey, hseg, hrange, hnoKey, hif, if_false, if_true]
  rfl

/-- The node of the two tables after `calcRoute`. -/
def routedPair (db name dbg nameg : String) (t g : Table) (segs : List Segment) : MergeNode V :=
  { pairNode db name dbg nameg t g with
    referTables := [{ tableInfo db name "a" t with segments := segs }, tableInfo dbg nameg "b" g]
    backend := onlyBackend (segs.map Segment.backend)
    routeLen := segs.length }

theorem calcRoute_pair (pick : MergeNode V → ℕ × ℕ) (hlocal : t.tableConfig.shardType ≠ .global)
    (hglobal : g.tableConfig.shardType = .global)
    (hsegs : r.getSegments db name (if t.tableConfig.shardType = .single then [0] else []) = .ok segs) :
    (pairNode db name dbg nameg t g).calcRoute r pick = .ok (routedPair db name dbg nameg t g segs) := by
  have hcalc := calcTables_pair (tableInfo db name "a" t) (tableInfo dbg nameg "b" g) hlocal hglobal hsegs
  unfold MergeNode.calcRoute
  rw [if_neg (by simp [pairNode, hlocal])]
  simp only [pairNode, hcalc, bind, Except.bind]
  rfl

section Reaches

variable (hr : r.Ok) (ht : r.getTable db name = .ok t) (hg : r.getTable dbg nameg = .ok g)
    (hglobal : g.tableConfig.shardType = .global)

include hr ht hg hglobal

theorem reaches_partitioned (htype : t.tableConfig.shardType = .hash ∨ t.tableConfig.shardType = .list)
    (hlies : t.LiesOn backend) (pick : MergeNode V → ℕ × ℕ) : Reaches r pick (pairNode (V := V) db name dbg nameg t g) backend := by
  obtain ⟨p, hp, seg, hseg, rfl⟩ := hlies
  have hlocal : t.tableConfig.shardType ≠ .global := by rcases htype with h | h <;> rw [h] <;> nofun
  have hmany : t.tableConfig.shardType ≠ .single := by rcases htype with h | h <;> rw [h] <;> nofun
  have hok := (hr db name t (tables_of_getTable ht)).2
  have hsegs : r.getSegments db name (if t.tableConfig.shardType = .single then [0] else []) =
      .ok p.getSegments := by
    rw [if_neg hmany, Router.getSegments, getPartition_eq ht hp]
    rfl
  have hnames (i : ℕ) (s : Segment) (hi : p.getSegments[i]? = some s) :
      ∃ names, segmentNames i (routedPair (V := V) db name dbg nameg t g p.getSegments).referTables
        (onlyBackend (p.getSegments.map Segment.backend)) = .ok ⟨s.backend, names⟩ := by
    refine ⟨_, segmentNames_pair _ _ (hok.conf.key htype) (noKey_global hr hg hglobal) hi
      (hok.range_ne hp htype (mem_of_getElem? hi)) ?_⟩
    unfold onlyBackend
    split
    · rename_i b heq
      have hs := heq ▸ mem_map_of_mem (mem_of_getElem? hi)
      exact .inr (mem_singleton.1 hs).symm
    · exact .inl rfl
  obtain ⟨qs, hqs⟩ : ∃ qs, (routedPair (V := V) db name dbg nameg t g p.getSegments).queries = .ok qs := by
    refine exists_mapM_ok fun i hi => ?_
    obtain ⟨names, hnames⟩ := hnames i _ (List.getElem?_eq_getElem (mem_range.1 hi))
    exact ⟨_, hnames⟩
  obtain ⟨i, hi, hget⟩ := mem_iff_getElem.1 hseg
  obtain ⟨q, hq, hname⟩ := mem_mapM_ok hqs (mem_range.2 hi)
  obtain ⟨names, hnames⟩ := hnames i seg (List.getElem?_eq_some_iff.2 ⟨hi, hget⟩)
  cases hname.symm.trans hnames
  exact ⟨_, qs, calcRoute_pair pick hlocal hglobal hsegs, rfl, hqs, _, hq, rfl⟩

theorem reaches_single (htype : t.tableConfig.shardType = .single) (hlies : t.LiesOn backend)
    (pick : MergeNode V → ℕ × ℕ) : Reaches r pick (pairNode (V := V) db name dbg nameg t g) backend := by
  obtain ⟨p, hp, seg, hseg, rfl⟩ := hlies
  have hok := (hr db name t (tables_of_getTable ht)).2
  obtain ⟨only, rfl⟩ := hok.single hp htype
  cases mem_singleton.1 hseg
  have hsegs : r.getSegments db name (if t.tableConfig.shardType = .single then [0] else []) = .ok [seg] := by
    rw [if_pos htype, Router.getSegments, getPartition_eq ht hp]
    rfl
  have hlocal : t.tableConfig.shardType ≠ .global := by rw [htype]; nofun
  have hnames : segmentNames 0 (routedPair (V := V) db name dbg nameg t g [seg]).referTables seg.backend =
      .ok ⟨seg.backend, [("a", name), ("b", nameg)]⟩ := by
    simp [routedPair, segmentNames, tableInfo, hok.conf.noKey (.inr htype), noKey_global hr hg hglobal]
  have hqs : (routedPair (V := V) db name dbg nameg t g [seg]).queries =
      .ok [⟨seg.backend, [("a", name), ("b", nameg)]⟩] := by
    rw [MergeNode.queries]
    simp [routedPair, onlyBackend] at hnames ⊢
    rw [hnames]
    rfl
  exact ⟨_, _, calcRoute_pair pick hlocal hglobal hsegs, rfl, hqs, _, mem_singleton.2 rfl, rfl⟩

/-- A table and a global table: some query of both goes to every backend of the table. -/
theorem exists_reaches (hlies : t.LiesOn backend) :
    ∃ pick, Reaches r pick (pairNode (V := V) db name dbg nameg t g) backend := by
  cases htype : t.tableConfig.shardType with
  | hash => exact ⟨_, reaches_partitioned hr ht hg hglobal (.inl htype) hlies default⟩
  | list => exact ⟨_, reaches_partitioned hr ht hg hglobal (.inr htype) hlies default⟩
  | global => exact reaches_global hr ht hg hglobal htype hlies
  | single => exact ⟨_, reaches_single hr ht hg hglobal htype hlies default⟩

end Reaches

/-- The statement `SELECT 1` from the two tables. -/
def pairSelect (db name dbg nameg : String) : SelectStatement V :=
  .select ⟨[.val ⟨.intVal, "1"⟩], pairFrom db name dbg nameg, none⟩ .none

theorem sent_pairSelect (order : InOrder V) (ht : r.getTable db name = .ok t) (hg : r.getTable dbg nameg = .ok g)
    (hglobal : g.tableConfig.shardType = .global) (h : Reaches r pick (pairNode db name dbg nameg t g) backend) :
    ∃ plan sent, buildNode r H order (fun _ => pick) "" (pairSelect db name dbg nameg) = .ok plan ∧
      plan.sent = .ok sent ∧ ∃ q ∈ sent, q.target = .backend backend ∧ (dbg, nameg) ∈ q.mentions := by
  obtain ⟨m, qs, hroute, hfrom, hqs, q, hq, rfl⟩ := h
  obtain ⟨m', hselect, hqueries, hfrom'⟩ :=
    pushSelect_val (pairNode (V := V) db name dbg nameg t g).referTables ⟨.intVal, "1"⟩ m
  refine ⟨.ofSelect .none (.merge m'), _, ?_, sent_ofSelect_merge (hqueries.trans hqs), _,
    mem_map_of_mem hq, rfl, ?_⟩
  · have hprocess : processSelect r H order pick "" ⟨[.val ⟨.intVal, "1"⟩], pairFrom db name dbg nameg, none⟩ =
        .ok (.merge m') := by
      simp only [processSelect, scan_pair order ht hg hglobal, pushWhere, PlanNode.calcRoute, hroute, bind,
        Except.bind, pure, Except.pure]
      exact hselect
    simp only [pairSelect, buildNode, processPart, processClauses, hprocess]
    rfl
  · rw [hfrom', hfrom]
    simp [pairNode, pairFrom, TableExpr.mentions]

/-- A union of two constants without tables, of which one part has a subquery on the global table in its `WHERE`
clause, goes to any backend. -/
theorem sent_dual (order : InOrder V) (pick : List Bool → MergeNode V → ℕ × ℕ) (ref : TableRef) :
    ∃ plan, buildNode r H order pick "" (.union (.dual (.ok 1) [ref]) (.dual (.ok 1) []) [] (.ok ())) = .ok plan ∧
      plan.sent = .ok [⟨.anyNormal, [ref]⟩] :=
  ⟨_, rfl, rfl⟩

end Probe

theorem replicated_of_globalsRead {c : Cluster} (hc : c.router.Ok) (h : GlobalsRead V c) : Replicated c := by
  rintro dbg nameg g hg hglobal backend (hnormal | ⟨db, name, t, ht, hlies⟩)
  · obtain ⟨plan, hplan, hsent⟩ := sent_dual (V := V) (r := c.router) (H := default) default default (dbg, nameg)
    exact h _ _ _ _ _ _ _ hplan hsent _ (mem_singleton.2 rfl) backend hnormal _ (mem_singleton.2 rfl)
      g hg hglobal
  · obtain ⟨pick, hreach⟩ := exists_reaches (V := V) hc ht hg hglobal hlies
    obtain ⟨plan, sent, hplan, hsent, q, hq, htarget, hmention⟩ :=
      sent_pairSelect (H := default) default ht hg hglobal hreach
    refine h _ _ _ _ _ _ _ hplan hsent q hq backend ?_ _ hmention g hg hglobal
    rw [htarget]
    exact mem_singleton.2 rfl

/-- In every run, the queries find their global tables exactly where these lie on all backends: on those
that are not attached and on those of other tables. -/
theorem globalsRead_iff_replicated (V : Type) (slots blocks : ℕ) (ops : List ClusterOp) :
    GlobalsRead V ((Cluster.init slots blocks).run ops) ↔ Replicated ((Cluster.init slots blocks).run ops) :=
  have hok := Cluster.run_ok (Cluster.init_ok slots blocks) ops
  ⟨replicated_of_globalsRead hok, Replicated.globalsRead hok⟩

/-! ## A backend that comes later -/

/-- A backend with an address of its own. -/
def plainBackend (name : String) : Metadata.BackendConfig := ⟨name, name ++ ":3306", "", "", "", "", "", 1024, 0⟩

/-- A global table is created before the second backend is added, a single table on that backend after it. -/
def lateBackend : List ClusterOp :=
  [.addBackend (plainBackend "b1"), .createDatabase "d",
   .createTable true default "d" "g" "" .global,
   .addBackend (plainBackend "b2"),
   .createTable true default "d" "t" "" (.single "b2")]

theorem global_missing_on_late_backend :
    ∃ plan g, buildNode ((Cluster.init 16 4).run lateBackend).router default (default : InOrder ℕ) default ""
        (pairSelect "d" "t" "d" "g") = .ok plan ∧
      plan.sent = .ok [⟨.backend "b2", [("d", "t"), ("d", "g")]⟩] ∧
      ((Cluster.init 16 4).run lateBackend).router.getTable "d" "g" = .ok g ∧
      g.tableConfig.shardType = .global ∧ ¬ g.LiesOn "b2" := by
  refine ⟨_, _, rfl, rfl, rfl, rfl, ?_⟩
  rintro ⟨p, hp, seg, hseg, hbackend⟩
  cases hp
  cases List.mem_singleton.1 hseg
  exact absurd hbackend (by decide)

end Radon
