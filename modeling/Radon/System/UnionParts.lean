import Radon.System.Colocation
import Radon.System.GlobalTables

/-!
# One query for the parts of a UNION

A `SELECT` with one query has every table that is not global in one segment on its backend. `union` makes
one query of two parts when one of them has global tables only, but it goes by the count of the leftmost
part: the count stays zero when a part with global tables takes over another part, and the next part then
decides where all of them go.
-/

namespace Radon

open Planner List

variable {V : Type} {r : Router} {H : Hasher}

/-! ## Segments side by side -/

variable {segs segs' : List Segment}

theorem Partition.Alike.pickSegments {p p' : Partition} (h : p.Alike p') (indexes : List ℕ)
    (hsegs : segs.map Segment.shape = segs'.map Segment.shape) : (p.pickSegments indexes segs).toOption.map
    (List.map Segment.shape) = (p'.pickSegments indexes segs').toOption.map (List.map Segment.shape) := by
  induction indexes generalizing segs segs' with
  | nil => exact congrArg some hsegs
  | cons idx indexes ih =>
    have hidx := h.getSegment idx
    rw [Partition.pickSegments, Partition.pickSegments]
    generalize p.getSegment idx = seg, p'.getSegment idx = seg' at hidx
    match seg, seg', hidx with
    | .error _, .error _, _ => rfl
    | .ok seg, .ok seg', hidx =>
      have hshape := Option.some.inj hidx
      have hany : (segs.any fun s => s.range = seg.range) = segs'.any fun s => s.range = seg'.range := by
        have hcomp (l : List Segment) (range : KeyRange) :
            (l.any fun s => s.range = range) = (l.map Segment.shape).any fun s => s.2 = range := by
          rw [any_map]
          rfl
        rw [hcomp, hcomp, hsegs, show seg.range = seg'.range from congrArg Prod.snd hshape]
      refine ih ?_
      rw [hany]
      split_ifs
      · exact hsegs
      · simp [hsegs, hshape]

variable {indexes : List ℕ}

theorem Partition.Alike.segmentsOf {p p' : Partition} (h : p.Alike p') (hsegs : p.segmentsOf indexes = .ok segs)
    (hsegs' : p'.segmentsOf indexes = .ok segs') : segs.map Segment.shape = segs'.map Segment.shape := by
  unfold Partition.segmentsOf at hsegs hsegs'
  split at hsegs
  · grind [segments]
  · rw [if_neg (by assumption)] at hsegs'
    have hnil : ([] : List Segment).map Segment.shape = [].map Segment.shape := rfl
    have hpick := h.pickSegments indexes hnil
    rw [hsegs, hsegs'] at hpick
    exact Option.some.inj hpick

/-! ## Leaves with one query -/

/-- The segments and backends of the configuration of a table. -/
def places (info : TableInfo) : List (String × String) :=
  info.tableConfig.partitions.map PartitionConfig.place

/-- The two are one table, or tables with keys whose partitions lie side by side. -/
def Beside (info info' : TableInfo) : Prop :=
  info = info' ∨ (info.shardKey ≠ "" ∧ info'.shardKey ≠ "" ∧ places info = places info')

variable {info : TableInfo}

theorem Beside.symm {info' : TableInfo} (h : Beside info info') : Beside info' info :=
  h.imp Eq.symm fun ⟨hkey, hkey', hplaces⟩ => ⟨hkey', hkey, hplaces.symm⟩

theorem Beside.trans {a b c : TableInfo} (h : Beside a b) (h' : Beside b c) : Beside a c := by grind [Beside]

/-- The entry of a table as it comes from the router. -/
def Scanned (r : Router) (info : TableInfo) : Prop :=
  ∃ t asName, r.getTable info.database info.tableName = .ok t ∧
    info = tableInfo info.database info.tableName asName t

theorem beside_of_isSameShard {lt rt : TableInfo} {lc rc : ColName} (h : isSameShard lt rt lc rc = true) :
    Beside lt rt := by
  simp only [isSameShard, Bool.and_eq_true, decide_eq_true_eq, samePartitions_iff] at h
  grind [Beside, places]

theorem Scanned.not_global (hr : r.Ok) (h : Scanned r info) (hkey : info.shardKey ≠ "") : info.shardType ≠ .global := by
  obtain ⟨t, asName, ht, heq⟩ := h
  rw [heq] at hkey ⊢
  exact fun hglobal => hkey ((hr _ _ t (tables_of_getTable ht)).2.conf.noKey (.inl hglobal))

/-- Tables side by side have the same backends at every route. -/
theorem Beside.backends (hr : r.Ok) {info' : TableInfo} (h : Beside info info') (hi : Scanned r info)
    (hi' : Scanned r info') (hsegs : r.getSegments info.database info.tableName indexes = .ok segs)
    (hsegs' : r.getSegments info'.database info'.tableName indexes = .ok segs') :
    segs.map Segment.backend = segs'.map Segment.backend := by
  rcases h with rfl | ⟨hkey, hkey', hplaces⟩
  · cases hsegs.symm.trans hsegs'
    rfl
  · obtain ⟨t, asName, ht, heq⟩ := hi
    obtain ⟨t', asName', ht', heq'⟩ := hi'
    obtain ⟨p, hp, hsegs⟩ := except_bind_ok hsegs
    obtain ⟨p', hp', hsegs'⟩ := except_bind_ok hsegs'
    obtain ⟨u, hu, hp⟩ := getPartition_ok hp
    obtain ⟨u', hu', hp'⟩ := getPartition_ok hp'
    cases ht.symm.trans hu
    cases ht'.symm.trans hu'
    rw [heq] at hkey hplaces
    rw [heq'] at hkey' hplaces
    have halike := alike_of_samePlaces hr (tables_of_getTable ht) (tables_of_getTable ht') hp hp' hkey hkey' hplaces
    have hshape := congrArg (List.map Prod.fst) (halike.segmentsOf hsegs hsegs')
    rw [map_map, map_map] at hshape
    exact hshape

/-- A leaf before `calcRoute`: its tables that are not global lie side by side. -/
structure Uniform (r : Router) (x : Route) : Prop where
  backend : x.backend = ""
  routeLen : x.routeLen = 0
  scanned : ∀ info ∈ x.referTables, Scanned r info
  count : x.nonGlobalCnt = 0 ↔ ∀ info ∈ x.referTables, info.shardType = .global
  beside : ∀ info ∈ x.referTables, info.shardType ≠ .global → ∀ info' ∈ x.referTables,
    info'.shardType ≠ .global → Beside info info'

/-- A leaf after `calcRoute`: with one query or a backend, its tables that are not global have one segment,
on that backend. -/
structure OneBackend (x : Route) : Prop where
  count : x.nonGlobalCnt = 0 ↔ ∀ info ∈ x.referTables, info.shardType = .global
  one : x.routeLen = 1 ∨ x.backend ≠ "" → ∀ info ∈ x.referTables, info.shardType ≠ .global →
    info.segments.map Segment.backend = [x.backend]

theorem Uniform.merge (hr : r.Ok) (b : Bool) (x y : Route) (hjoin : x.Joinable y) (hx : Uniform r x)
    (hy : Uniform r y) : Uniform r (x.merge b y) where
  backend := hx.backend
  routeLen := hx.routeLen
  scanned := forall_mem_append.2 ⟨hx.scanned, hy.scanned⟩
  count := by
    rw [Route.merge, Nat.add_eq_zero_iff, hx.count, hy.count, forall_mem_append]
  beside := by
    -- tables of different leaves
    have hcross : ∀ info ∈ x.referTables, info.shardType ≠ .global → ∀ info' ∈ y.referTables,
        info'.shardType ≠ .global → Beside info info' := by
      intro info hinfo hlocal info' hinfo' hlocal'
      rcases hjoin with hzero | hzero | ⟨lt, hlt, rt, hrt, lc, rc, hsame⟩
      · exact absurd (hx.count.1 hzero info hinfo) hlocal
      · exact absurd (hy.count.1 hzero info' hinfo') hlocal'
      · have hbeside := beside_of_isSameShard hsame
        simp only [isSameShard, Bool.and_eq_true, decide_eq_true_eq] at hsame
        have hltlocal := (hx.scanned lt hlt).not_global hr hsame.1.1.1.1
        have hrtlocal := (hy.scanned rt hrt).not_global hr hsame.1.1.2
        exact (hx.beside info hinfo hlocal lt hlt hltlocal).trans
          (hbeside.trans (hy.beside rt hrt hrtlocal info' hinfo' hlocal'))
    intro info hinfo hlocal info' hinfo' hlocal'
    rcases mem_append.1 hinfo with hl | hl <;> rcases mem_append.1 hinfo' with hl' | hl'
    · exact hx.beside info hl hlocal info' hl' hlocal'
    · exact hcross info hl hlocal info' hl' hlocal'
    · exact (hcross info' hl' hlocal' info hl hlocal).symm
    · exact hy.beside info hl hlocal info' hl' hlocal'

variable {database : String}

theorem uniform_scan {dbName name asName : String} {m : MergeNode V}
    (h : scanAliasedTableExpr r database dbName name asName = .ok m) : Uniform r m.route := by
  obtain ⟨t, ht, h⟩ := except_bind_ok h
  cases h
  refine ⟨rfl, rfl, ?_, ?_, ?_⟩
  · grind [MergeNode.route, tableInfo, Scanned]
  · simp [MergeNode.route, tableInfo]
  · grind [MergeNode.route, Beside]

/-- The backend and the length of a route over tables that all have these backends. -/
def Settles (backends : List String) (backend : String) (routeLen : ℕ) : Prop :=
  (backend = "" ∧ routeLen = 0) ∨ (backend = onlyBackend backends ∧ routeLen = backends.length)

variable {backend : String} {routeLen : ℕ}

/-- One table of the loop of `calcRoute` with one segment. -/
theorem Settles.single {b : String} (h : Settles [b] backend routeLen) :
    Settles [b] (if backend = "" then b else backend) (if routeLen = 0 then 1 else routeLen) := by
  grind [onlyBackend, Settles]

variable {backends : List String}

/-- One table of the loop of `calcRoute` with no segment or several. -/
theorem Settles.several (hlen : backends.length ≠ 1) (h : Settles backends backend routeLen) :
    Settles backends backend (if routeLen = 0 then backends.length else routeLen) := by
  rcases h with ⟨rfl, rfl⟩ | ⟨rfl, rfl⟩
  · refine .inr ⟨?_, rfl⟩
    rcases backends with _ | ⟨b, _ | ⟨b', backends⟩⟩
    · rfl
    · exact absurd rfl hlen
    · rfl
  · exact .inr ⟨rfl, by split_ifs <;> rfl⟩

theorem Settles.one
    (h : Settles backends backend routeLen) (hone : routeLen = 1 ∨ backend ≠ "") : backends = [backend] := by
  rcases h with ⟨rfl, rfl⟩ | ⟨rfl, rfl⟩
  · simp at hone
  · rcases backends with _ | ⟨b, _ | ⟨b', backends⟩⟩ <;> simp [onlyBackend] at hone ⊢

theorem calcTables_settles {tbInfos : List TableInfo} (hinfos : ∀ info ∈ tbInfos, info.shardType ≠ .global → ∀ segs,
      r.getSegments info.database info.tableName indexes = .ok segs → segs.map Segment.backend = backends)
    (hsettles : Settles backends backend routeLen) {res : List TableInfo × String × ℕ}
    (h : calcTables r indexes tbInfos backend routeLen = .ok res) : Settles backends res.2.1 res.2.2 ∧
      res.1.map TableInfo.shardType = tbInfos.map TableInfo.shardType ∧
      ∀ info ∈ res.1, info.shardType ≠ .global → info.segments.map Segment.backend = backends := by
  induction tbInfos generalizing backend routeLen res with
  | nil =>
    cases h
    exact ⟨hsettles, rfl, nofun⟩
  | cons info tbInfos ih =>
    obtain ⟨hinfo, hinfos⟩ := forall_mem_cons.1 hinfos
    rw [calcTables] at h
    split at h
    · rename_i hglobal
      obtain ⟨rest, hrest, h⟩ := except_bind_ok h
      cases h
      grind
    · rename_i hlocal
      obtain ⟨segments, hsegments, h⟩ := except_bind_ok h
      obtain ⟨rest, hrest, h⟩ := except_bind_ok h
      cases h
      obtain rfl := hinfo hlocal segments hsegments
      obtain ⟨hend, htypes, hsegs⟩ : Settles (segments.map Segment.backend) rest.2.1 rest.2.2 ∧
          rest.1.map TableInfo.shardType = tbInfos.map TableInfo.shardType ∧
          ∀ info ∈ rest.1, info.shardType ≠ .global →
            info.segments.map Segment.backend = segments.map Segment.backend := by
        split at hrest
        · exact ih hinfos hsettles.single hrest
        · rename_i hnot
          have hlen : (segments.map Segment.backend).length ≠ 1 := by
            rw [length_map]
            exact fun hlen => (length_eq_one_iff.1 hlen).elim hnot
          refine ih hinfos ?_ hrest
          simpa using hsettles.several hlen
      grind

theorem getSegments_of_calcTables {tbInfos : List TableInfo} {res : List TableInfo × String × ℕ}
    (h : calcTables r indexes tbInfos backend routeLen = .ok res) (hinfo : info ∈ tbInfos)
    (hlocal : info.shardType ≠ .global) : ∃ segs, r.getSegments info.database info.tableName indexes = .ok segs := by
  induction tbInfos generalizing backend routeLen res with
  | nil => cases hinfo
  | cons first tbInfos ih =>
    rw [calcTables] at h
    split at h
    · rename_i hglobal
      obtain ⟨rest, hrest, -⟩ := except_bind_ok h
      grind
    · obtain ⟨segments, hsegments, h⟩ := except_bind_ok h
      obtain ⟨rest, hrest, -⟩ := except_bind_ok h
      grind

theorem oneBackend_calcRoute (hr : r.Ok) {pick : MergeNode V → ℕ × ℕ} {m m' : MergeNode V}
    (hm : Uniform r m.route) (h : m.calcRoute r pick = .ok m') : OneBackend m'.route := by
  unfold MergeNode.calcRoute at h
  split at h
  · rename_i hzero
    have hglobal := hm.count.1 hzero
    split at h
    · cases h
      exact ⟨hm.count, fun _ info hinfo hlocal => absurd (hglobal info hinfo) hlocal⟩
    · obtain ⟨segments, -, h⟩ := except_bind_ok h
      simp only at h
      split at h
      · cases h
      · cases h
        exact ⟨hm.count, fun _ info hinfo hlocal => absurd (hglobal info hinfo) hlocal⟩
  · obtain ⟨res, hres, h⟩ := except_bind_ok h
    cases h
    rename_i hcnt
    -- all tables with segments of their own have the backends of the first one
    obtain ⟨first, hfirst, hlocal⟩ : ∃ info ∈ m.referTables, info.shardType ≠ .global := by
      by_contra hnone
      exact hcnt (hm.count.2 fun info hinfo => not_not.1 fun hlocal => hnone ⟨info, hinfo, hlocal⟩)
    obtain ⟨segs, hsegs⟩ := getSegments_of_calcTables hres hfirst hlocal
    have hall : ∀ info ∈ m.referTables, info.shardType ≠ .global → ∀ segs',
        r.getSegments info.database info.tableName m.indexes = .ok segs' →
          segs'.map Segment.backend = segs.map Segment.backend := fun info hinfo hl segs' hsegs' =>
      (hm.beside info hinfo hl first hfirst hlocal).backends hr (hm.scanned info hinfo)
        (hm.scanned first hfirst) hsegs' hsegs
    obtain ⟨hsettles, htypes, hbackends⟩ := calcTables_settles hall (.inl ⟨hm.backend, hm.routeLen⟩) hres
    refine ⟨?_, fun hone info hinfo hl => (hbackends info hinfo hl).trans (hsettles.one hone)⟩
    have hmap (l : List TableInfo) : (∀ info ∈ l, info.shardType = .global) ↔
        ∀ type ∈ l.map TableInfo.shardType, type = .global := by rw [forall_mem_map]
    have hcount : m.nonGlobalCnt = 0 ↔ ∀ info ∈ m.referTables, info.shardType = .global := hm.count
    rw [hmap, ← htypes, ← hmap] at hcount
    exact hcount

theorem OneBackend.merge_left (b : Bool) (x y : Route) (hx : OneBackend x) (hy : OneBackend y)
    (h : y.nonGlobalCnt = 0 ∨ (x.backend ≠ "" ∧ x.backend = y.backend)) : OneBackend (x.merge b y) where
  count := by
    rw [Route.merge, Nat.add_eq_zero_iff, hx.count, hy.count, forall_mem_append]
  one hone := by
    refine forall_mem_append.2 ⟨hx.one hone, fun info hinfo hlocal => ?_⟩
    rcases h with hzero | ⟨hne, heq⟩
    · exact absurd (hy.count.1 hzero info hinfo) hlocal
    · grind [one, Route.merge]

theorem OneBackend.merge_right (b : Bool) (x y : Route) (hx : OneBackend x) (hy : OneBackend y)
    (hzero : x.nonGlobalCnt = 0) : OneBackend ({ x with backend := y.backend, routeLen := y.routeLen }.merge b y) where
  count := by
    rw [Route.merge, Nat.add_eq_zero_iff, hx.count, hy.count, forall_mem_append]
  one hone := by
    refine forall_mem_append.2 ⟨fun info hinfo hlocal => ?_, hy.one hone⟩
    exact absurd (hx.count.1 hzero info hinfo) hlocal

variable {order : InOrder V}

/-- The leaves of the plan of a `SELECT` have one backend for their one query. -/
theorem forall_oneBackend_processSelect (hr : r.Ok) {pick : MergeNode V → ℕ × ℕ} {node : Select V} {root : PlanNode V}
    (h : processSelect r H order pick database node = .ok root) : ∀ x ∈ root.routes, OneBackend x := by
  obtain ⟨scanned, hscanned, h⟩ := except_bind_ok h
  obtain ⟨pushed, hpushed, h⟩ := except_bind_ok h
  obtain ⟨routed, hrouted, h⟩ := except_bind_ok h
  rw [routes_pushSelect h]
  have hscan := forall_scanTableExpr (Uniform.merge hr) (fun _ _ _ _ => uniform_scan) hscanned
  exact forall_calcRoute (fun _ _ => oneBackend_calcRoute hr) OneBackend.merge_left OneBackend.merge_right
    (forall_pushWhere (Uniform.merge hr) hscan hpushed) hrouted

/-! ## Unions with one query -/

/-- The parts of a union that becomes one query, each as it is planned alone, with the tables that their
subqueries mention. -/
inductive Parts
  | one (part : UnionMerge) (subqueries : List TableRef)
  | both (left right : Parts) (subqueries : List TableRef)

namespace Parts

/-- The parts from left to right. -/
def list : Parts → List UnionMerge
  | one part _ => [part]
  | both left right _ => left.list ++ right.list

/-- The tables that subqueries mention. -/
def subqueries : Parts → List TableRef
  | one _ refs => refs
  | both left right refs => left.subqueries ++ right.subqueries ++ refs

/-- The leftmost part. -/
def first : Parts → UnionMerge
  | one part _ => part
  | both left _ _ => left.first

/-- What `union` makes of the parts. -/
def merge : Parts → UnionMerge
  | one part _ => part
  | both left right refs => left.merge.merge right.merge refs

/-- The part that decides on the backend: the leftmost one, if it has a table that is not global. If it has
none, the last right side with a part that is not from `dual` decides. -/
def decider : Parts → UnionMerge
  | one part _ => part
  | both left right _ =>
    if left.first.nonGlobalCnt = 0 ∧ right.list.any (fun part => !part.single) then right.decider
    else left.decider

end Parts

/-- The parts of a statement that are planned with one query each. -/
def partsOf (r : Router) (H : Hasher) (order : InOrder V) (database : String) :
    (List Bool → MergeNode V → ℕ × ℕ) → SelectStatement V → Option Parts
  | pick, .select node clauses =>
    match processSelect r H order (pick []) database node with
    | .ok (.merge m) =>
      if m.routeLen = 1 then
        some (.one ⟨m.getFields clauses, m.backend, m.nonGlobalCnt, false, m.referTables,
          m.from_.mentions ++ clauses.mentions m⟩ (clauses.mentions m))
      else none
    | _ => none
  | _, .dual fields mentions => some (.one ⟨fields, "", 0, true, [], mentions⟩ mentions)
  | pick, .union left right mentions _ => do
    let left ← partsOf r H order database (fun path => pick (false :: path)) left
    let right ← partsOf r H order database (fun path => pick (true :: path)) right
    return .both left right mentions

/-- A part with one query: from `dual` it has no tables, else those that are not global have one segment on
its backend. -/
structure PartOk (part : UnionMerge) : Prop where
  dual : part.single = true → part.referTables = []
  count : part.nonGlobalCnt = 0 ↔ ∀ info ∈ part.referTables, info.shardType = .global
  one : ∀ info ∈ part.referTables, info.shardType ≠ .global →
    info.segments.map Segment.backend = [part.backend]

/-- Tables that are global, or that the router does not know. -/
def OnlyGlobal (r : Router) (refs : List TableRef) : Prop :=
  ∀ ref ∈ refs, ∀ t, r.getTable ref.1 ref.2 = .ok t → t.tableConfig.shardType = .global

/-- Every table of the query that is not global has one segment, on the backend of the query. A table of a
subquery has no segment at all. -/
def MergeSound (r : Router) (parts : Parts) (m : UnionMerge) : Prop :=
  (∀ part ∈ parts.list, ∀ info ∈ part.referTables, info.shardType ≠ .global →
    m.single = false ∧ ∃ seg, info.segments = [seg] ∧ seg.backend = m.backend) ∧
  OnlyGlobal r parts.subqueries

/-- Every part with a table that is not global goes to the backend of the part that decides. -/
def PartsAgree (r : Router) (parts : Parts) : Prop :=
  (∀ part ∈ parts.list, part.nonGlobalCnt ≠ 0 → part.backend = parts.decider.backend) ∧
  OnlyGlobal r parts.subqueries

variable {parts : Parts}

theorem partOk_of_partsOf (hr : r.Ok) {pick : List Bool → MergeNode V → ℕ × ℕ} {s : SelectStatement V}
    (h : partsOf r H order database pick s = some parts) : ∀ part ∈ parts.list, PartOk part := by
  induction s generalizing pick parts with
  | select node clauses =>
    rw [partsOf] at h
    split at h
    · rename_i m hm
      split_ifs at h with hone
      cases h
      have hroute := forall_oneBackend_processSelect hr hm
      rw [routes_merge, forall_mem_singleton] at hroute
      rw [Parts.list, forall_mem_singleton]
      exact ⟨nofun, hroute.count, hroute.one (.inl hone)⟩
    · cases h
  | dual fields mentions =>
    cases h
    rw [Parts.list, forall_mem_singleton]
    exact ⟨fun _ => rfl, by simp, nofun⟩
  | union left right mentions orderBy ihl ihr =>
    obtain ⟨l, hl, h⟩ := Option.bind_eq_some_iff.1 h
    obtain ⟨rt, hrt, h⟩ := Option.bind_eq_some_iff.1 h
    cases h
    exact forall_mem_append.2 ⟨ihl hl, ihr hrt⟩

/-- A statement with one query is the query of its parts. -/
theorem merged_eq_merge {pick : List Bool → MergeNode V → ℕ × ℕ} {s : SelectStatement V} {m : UnionMerge}
    (h : processPart r H order database pick s = .ok (.merged m)) :
    ∃ parts, partsOf r H order database pick s = some parts ∧ parts.merge = m := by
  induction s generalizing pick m with
  | select node clauses =>
    obtain ⟨root, hroot, h⟩ := except_bind_ok h
    obtain ⟨-, -, h⟩ := except_bind_ok h
    have h := Except.ok.inj h
    unfold UnionPlan.ofSelect at h
    split at h
    · split_ifs at h with hone
      cases h
      exact ⟨_, by rw [partsOf, hroot]; exact if_pos hone, rfl⟩
    · cases h
  | dual fields mentions =>
    cases h
    exact ⟨_, rfl, rfl⟩
  | union left right mentions orderBy ihl ihr =>
    obtain ⟨lplan, hleft, h⟩ := except_bind_ok h
    obtain ⟨rplan, hright, h⟩ := except_bind_ok h
    obtain ⟨lm, rm, rfl, rfl, heq⟩ | heq := union_cases h
    · cases heq
      obtain ⟨l, hl, rfl⟩ := ihl hleft
      obtain ⟨rt, hrt, rfl⟩ := ihr hright
      exact ⟨.both l rt mentions, by rw [partsOf, hl, hrt]; rfl, rfl⟩
    · cases heq

namespace Parts

/-- The count of the query is that of the leftmost part. -/
theorem nonGlobalCnt_merge (parts : Parts) : parts.merge.nonGlobalCnt = parts.first.nonGlobalCnt := by
  induction parts with
  | one part refs => rfl
  | both left right refs ihl ihr => exact ihl

theorem first_mem (parts : Parts) : parts.first ∈ parts.list := by
  induction parts with
  | one part refs => exact mem_singleton.2 rfl
  | both left right refs ihl ihr => exact mem_append_left _ ihl

/-- The query goes to any backend only if all parts are from `dual`. -/
theorem single_merge (h : ∀ part ∈ parts.list, PartOk part) :
    parts.merge.single = parts.list.all UnionMerge.single := by
  induction parts with
  | one part refs => simp [merge, list]
  | both left right refs ihl ihr =>
    obtain ⟨hl, hr⟩ := forall_mem_append.1 h
    simp only [merge, UnionMerge.merge, list, all_append, ihl hl, ihr hr, nonGlobalCnt_merge]
    by_cases hright : right.list.all UnionMerge.single = true
    · simp [hright]
    · by_cases hzero : left.first.nonGlobalCnt = 0
      · simp [hzero, hright]
      · -- the leftmost part has a table, so it is not from `dual`
        grind [first_mem, PartOk.count, PartOk.dual]

/-- The part that decides gives the query its backend. -/
theorem backend_merge (h : ∀ part ∈ parts.list, PartOk part) : parts.merge.backend = parts.decider.backend := by
  induction parts with
  | one part refs => rfl
  | both left right refs ihl ihr =>
    obtain ⟨hl, hr⟩ := forall_mem_append.1 h
    have hany : right.list.all UnionMerge.single = false ↔
        (right.list.any fun part => !part.single) = true := by
      rw [all_eq_not_any_not, Bool.not_eq_false']
    simp only [merge, UnionMerge.merge, decider, nonGlobalCnt_merge, ihl hl, ihr hr, single_merge hr, hany]
    split_ifs <;> rfl

end Parts

theorem mergeSound_iff_partsAgree (h : ∀ part ∈ parts.list, PartOk part) :
    MergeSound r parts parts.merge ↔ PartsAgree r parts := by
  refine and_congr_left' ⟨fun hsound part hpart hcnt => ?_, fun hagree part hpart info hinfo hlocal => ?_⟩
  · grind [PartOk.count, PartOk.one, Parts.backend_merge]
  · have hok := h part hpart
    have hcnt : part.nonGlobalCnt ≠ 0 := fun hzero => hlocal (hok.count.1 hzero info hinfo)
    refine ⟨?_, ?_⟩
    · grind [Parts.single_merge, PartOk.dual]
    · obtain ⟨seg, hseg, hbackend⟩ := map_eq_singleton_iff.1 (hok.one info hinfo hlocal)
      grind [Parts.backend_merge]

/-- In every router, a union that becomes one query finds its tables exactly if all parts with a table that
is not global go where the part that decides goes. -/
theorem unionMerge_sound_iff (slots blocks : ℕ) (ops : List ClusterOp) (H : Hasher) (order : InOrder V)
    (database : String) (pick : List Bool → MergeNode V → ℕ × ℕ) (left right : SelectStatement V)
    (mentions : List TableRef) (orderBy : Except String Unit) (m : UnionMerge)
    (h : processPart ((Cluster.init slots blocks).run ops).router H order database pick
      (.union left right mentions orderBy) = .ok (.merged m)) :
    ∃ parts, partsOf ((Cluster.init slots blocks).run ops).router H order database pick
        (.union left right mentions orderBy) = some parts ∧
      (MergeSound ((Cluster.init slots blocks).run ops).router parts m ↔
        PartsAgree ((Cluster.init slots blocks).run ops).router parts) := by
  have hok := Cluster.run_ok (Cluster.init_ok slots blocks) ops
  obtain ⟨parts, hparts, rfl⟩ := merged_eq_merge h
  exact ⟨parts, hparts, mergeSound_iff_partsAgree (partOk_of_partsOf hok hparts)⟩

/-! ## Three parts -/

/-- A global table on two backends and a single table on each of them. -/
def threeTables : List ClusterOp :=
  [.addBackend (plainBackend "b1"), .addBackend (plainBackend "b2"), .createDatabase "d",
   .createTable true default "d" "g" "" .global,
   .createTable true default "d" "s" "" (.single "b1"),
   .createTable true default "d" "t" "" (.single "b2")]

/-- `SELECT 1` from a table. -/
def selectOne (table : String) : SelectStatement ℕ :=
  .select ⟨[.val ⟨.intVal, "1"⟩], .table "d" table "", none⟩ .none

/-- The global table and a single table are one query, to which the theorem applies. -/
theorem unionMerge_sound_twoTables :
    ∃ m, processPart ((Cluster.init 16 4).run threeTables).router default (default : InOrder ℕ) "d" default
        (.union (selectOne "g") (selectOne "s") [] (.ok ())) = .ok (.merged m) ∧
      ∃ parts, partsOf ((Cluster.init 16 4).run threeTables).router default (default : InOrder ℕ) "d" default
          (.union (selectOne "g") (selectOne "s") [] (.ok ())) = some parts ∧
        (MergeSound ((Cluster.init 16 4).run threeTables).router parts m ↔
          PartsAgree ((Cluster.init 16 4).run threeTables).router parts) :=
  ⟨_, rfl, unionMerge_sound_iff 16 4 threeTables default default "d" default (selectOne "g") (selectOne "s") []
    (.ok ()) _ rfl⟩

/-- With the other single table as a third part, all three go to its backend. -/
theorem unionMerge_threeTables :
    ∃ m parts, processPart ((Cluster.init 16 4).run threeTables).router default (default : InOrder ℕ) "d" default
        (.union (.union (selectOne "g") (selectOne "s") [] (.ok ())) (selectOne "t") [] (.ok ())) =
          .ok (.merged m) ∧
      partsOf ((Cluster.init 16 4).run threeTables).router default (default : InOrder ℕ) "d" default
        (.union (.union (selectOne "g") (selectOne "s") [] (.ok ())) (selectOne "t") [] (.ok ())) = some parts ∧
      m.sent = .ok ⟨.backend "b2", [("d", "g"), ("d", "s"), ("d", "t")]⟩ ∧
      ¬ MergeSound ((Cluster.init 16 4).run threeTables).router parts m := by
  refine ⟨_, _, rfl, rfl, rfl, fun h => ?_⟩
  obtain ⟨-, seg, hseg, hbackend⟩ :=
    h.1 _ (List.mem_cons_of_mem _ List.mem_cons_self) _ (List.mem_singleton.2 rfl) (by decide)
  cases hseg
  exact absurd hbackend (by decide)

end Radon
