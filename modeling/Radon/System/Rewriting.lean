import Radon.System.UnionParts

/-!
# Physical names

`buildQuery` writes the name of a segment into the table expression to which the entry of a partitioned
table points. In a `SELECT` every table expression has its entry. `union` keeps one entry for every name: the
expression of an entry that a later part replaces keeps the name of the logical table, and so do the tables
of subqueries.
-/

namespace Radon

open Planner List

variable {V : Type} {r : Router} {H : Hasher}

/-! ## The texts of a plan -/

/-- An entry of the map `referTables` of a query: it points to the table expression at the position `expr` of the
part `part`. -/
structure Entry where
  info : TableInfo
  part : ℕ
  expr : ℕ

/-- The entries of a node that is a part of a query. -/
def ownEntries (part : ℕ) (m : MergeNode V) : List Entry :=
  m.referTables.zipIdx.map fun (info, expr) => ⟨info, part, expr⟩

/-- A query with `routeLen` texts: the nodes of its parts from left to right, the entries of its map, and the
tables of the subqueries. -/
structure QueryText (V : Type) where
  parts : List (MergeNode V)
  referTables : List Entry
  subqueries : List TableRef
  routeLen : ℕ

/-- The query of a leaf. -/
def leafText (mentions : MergeNode V → List TableRef) (m : MergeNode V) : QueryText V :=
  ⟨[m], ownEntries 0 m, mentions m, m.routeLen⟩

/-- One query for two: the loop of `union` puts the entries of the right side into the map of the left, where they
replace those of the same name. -/
def QueryText.merge (left right : QueryText V) (mentions : List TableRef) : QueryText V where
  parts := left.parts ++ right.parts
  referTables :=
    left.referTables.filter (fun e => e.info.refer ∉ right.referTables.map fun e => e.info.refer) ++
      right.referTables.map fun e => { e with part := left.parts.length + e.part }
  subqueries := left.subqueries ++ right.subqueries ++ mentions
  routeLen := 1

/-- The queries of a union: one for both sides if its plan has one node. -/
def unionTexts (plan : UnionPlan V) (left right : List (QueryText V)) (mentions : List TableRef) :
    List (QueryText V) :=
  match plan, left, right with
  | .merged _, [lt], [rt] => [lt.merge rt mentions]
  | _, left, right => left ++ right

/-- `processPart` with the queries of the plan. -/
def processTexts (r : Router) (H : Hasher) (order : InOrder V) (database : String) :
    (List Bool → MergeNode V → ℕ × ℕ) → SelectStatement V → Except String (UnionPlan V × List (QueryText V))
  | pick, .select node clauses => do
    let root ← processSelect r H order (pick []) database node
    clauses.check root
    return (.ofSelect clauses root, root.leaves.map (leafText clauses.mentions))
  | _, .dual fields mentions => .ok (.merged ⟨fields, "", 0, true, [], mentions⟩, [⟨[], [], mentions, 1⟩])
  | pick, .union left right mentions orderBy => do
    let left ← processTexts r H order database (fun path => pick (false :: path)) left
    let right ← processTexts r H order database (fun path => pick (true :: path)) right
    let plan ← union left.1 right.1 mentions orderBy
    return (plan, unionTexts plan left.2 right.2 mentions)

/-- The plan is the one of `processPart`. -/
theorem processPart_eq_map_fst {order : InOrder V} {database : String} {s : SelectStatement V}
    {pick : List Bool → MergeNode V → ℕ × ℕ} :
    processPart r H order database pick s = (processTexts r H order database pick s).map Prod.fst := by
  induction s generalizing pick with
  | select node clauses =>
    rw [processPart, processClauses, processTexts]
    cases processSelect r H order (pick []) database node with
    | error e => rfl
    | ok root =>
      change (clauses.check root >>= fun _ => _) = Except.map _ (clauses.check root >>= fun _ => _)
      cases clauses.check root <;> rfl
  | dual fields mentions => rfl
  | union left right mentions orderBy ihl ihr =>
    rw [processPart, processTexts, ihl, ihr]
    cases processTexts r H order database (fun path => pick (false :: path)) left with
    | error e => rfl
    | ok l =>
      cases processTexts r H order database (fun path => pick (true :: path)) right with
      | error e => rfl
      | ok rt =>
        change union l.1 rt.1 mentions orderBy = Except.map _ (union l.1 rt.1 mentions orderBy >>= fun _ => _)
        cases union l.1 rt.1 mentions orderBy <;> rfl

/-! ## What the texts say -/

/-- The table is split into segments. -/
def Partitioned (r : Router) (ref : TableRef) : Prop :=
  ∃ t, r.getTable ref.1 ref.2 = .ok t ∧
    (t.tableConfig.shardType = .hash ∨ t.tableConfig.shardType = .list)

/-- The table of an entry. -/
def ref (info : TableInfo) : TableRef := (info.database, info.tableName)

/-- The name of the table is an entry of one of the parts, which replaces those of the parts before. -/
def Replaced (later : List (MergeNode V)) (info : TableInfo) : Prop := ∃ part ∈ later, info.refer ∈ part.tables

instance (later : List (MergeNode V)) (info : TableInfo) : Decidable (Replaced later info) :=
  inferInstanceAs (Decidable (∃ part ∈ later, _))

/-- The segment whose name the loop of `buildQuery` over the entries writes into a table expression at position
`i` of the route. -/
def QueryText.written (t : QueryText V) (i part expr : ℕ) : Option Segment := do
  let entry ← t.referTables.find? fun e => e.part = part ∧ e.expr = expr ∧ e.info.shardKey ≠ ""
  entry.info.segments[i]?

/-- In the text at position `i` every table expression of a partitioned table has the name of the segment
there, and no subquery has a partitioned table. -/
structure QueryText.Rewritten (r : Router) (t : QueryText V) (i : ℕ) : Prop where
  from_ : ∀ (p : ℕ) part, t.parts[p]? = some part →
    ∀ (k : ℕ) table, part.from_.mentions[k]? = some table → Partitioned r table →
      ∃ info seg, part.referTables[k]? = some info ∧ ref info = table ∧ info.segments[i]? = some seg ∧
        t.written i p k = some seg
  subqueries : ∀ table ∈ t.subqueries, ¬ Partitioned r table

/-- No later part uses the name of a partitioned table again, and no subquery has a partitioned table. -/
structure QueryText.OwnNames (r : Router) (t : QueryText V) : Prop where
  from_ : ∀ before part later, t.parts = before ++ part :: later →
    ∀ info ∈ part.referTables, Partitioned r (ref info) → ¬ Replaced later info
  subqueries : ∀ table ∈ t.subqueries, ¬ Partitioned r table

/-! ## Every table expression has an entry -/

/-- An entry without its segments. -/
def bare (info : TableInfo) : TableInfo := { info with segments := [] }

/-- The entry is for a table of the router. -/
def Known (r : Router) (info : TableInfo) : Prop :=
  ∃ t, r.getTable info.database info.tableName = .ok t ∧ info.shardKey = t.tableConfig.shardKey

/-- The table expressions of a leaf and its entries are the same tables in the same order. -/
structure Entered (r : Router) (x : Route) : Prop where
  from_ : x.from_ = x.referTables.map ref
  ast : x.ast = x.referTables.map ref
  known : ∀ info ∈ x.referTables, Known r info

theorem Entered.of_bare {x y : Route} (h : Entered r x) (hfrom : y.from_ = x.from_) (hast : y.ast = x.ast)
    (htables : y.referTables.map bare = x.referTables.map bare) : Entered r y := by
  have href : y.referTables.map ref = x.referTables.map ref := by
    have := congrArg (List.map ref) htables
    rwa [map_map, map_map] at this
  refine ⟨by rw [hfrom, href, h.from_], by rw [hast, href, h.ast], fun info hinfo => ?_⟩
  have hbare : bare info ∈ x.referTables.map bare := htables ▸ mem_map_of_mem hinfo
  obtain ⟨info', hinfo', heq⟩ := mem_map.1 hbare
  have hknown : Known r (bare info') := h.known info' hinfo'
  rw [heq] at hknown
  exact hknown

theorem Entered.merge (b : Bool) {x y : Route} (hx : Entered r x) (hy : Entered r y) : Entered r (x.merge b y) where
  from_ := by
    simp only [Route.merge, map_append, hx.from_, hy.from_, hx.ast, hy.ast, ite_self]
  ast := by simp only [Route.merge, map_append, hx.ast, hy.ast]
  known := forall_mem_append.2 ⟨hx.known, hy.known⟩

variable {database : String} {plan : UnionPlan V} {texts : List (QueryText V)}

theorem entered_scan {dbName name asName : String} {m : MergeNode V}
    (h : scanAliasedTableExpr r database dbName name asName = .ok m) : Entered r m.route := by
  obtain ⟨t, ht, h⟩ := except_bind_ok h
  cases h
  refine ⟨rfl, rfl, fun info hinfo => ?_⟩
  cases mem_singleton.1 hinfo
  exact ⟨t, ht, rfl⟩

theorem bare_calcTables {indexes : List ℕ} {tbInfos : List TableInfo} {backend : String} {routeLen : ℕ}
    {res : List TableInfo × String × ℕ} (h : calcTables r indexes tbInfos backend routeLen = .ok res) :
    res.1.map bare = tbInfos.map bare := by
  induction tbInfos generalizing backend routeLen res with
  | nil =>
    cases h
    rfl
  | cons info tbInfos ih =>
    rw [calcTables] at h
    split at h
    · obtain ⟨rest, hrest, h⟩ := except_bind_ok h
      cases h
      rw [map_cons, map_cons, ih hrest]
    · obtain ⟨segments, -, h⟩ := except_bind_ok h
      obtain ⟨rest, hrest, h⟩ := except_bind_ok h
      cases h
      rw [map_cons, map_cons, ih hrest]
      rfl

theorem entered_calcRoute {pick : MergeNode V → ℕ × ℕ} (m m' : MergeNode V) (hm : Entered r m.route)
    (h : m.calcRoute r pick = .ok m') : Entered r m'.route := by
  unfold MergeNode.calcRoute at h
  split at h
  · split at h
    · cases h
      exact hm
    · obtain ⟨segments, -, h⟩ := except_bind_ok h
      simp only at h
      split at h
      · cases h
      · cases h
        exact hm.of_bare rfl rfl rfl
  · obtain ⟨res, hres, h⟩ := except_bind_ok h
    cases h
    exact hm.of_bare rfl rfl (bare_calcTables hres)

/-- The leaves of the plan of a `SELECT` have an entry for every table expression. -/
theorem entered_processSelect {order : InOrder V} {pick : MergeNode V → ℕ × ℕ} {node : Select V} {root : PlanNode V}
    (h : processSelect r H order pick database node = .ok root) : ∀ m ∈ root.leaves, Entered r m.route := by
  obtain ⟨scanned, hscanned, h⟩ := except_bind_ok h
  obtain ⟨pushed, hpushed, h⟩ := except_bind_ok h
  obtain ⟨routed, hrouted, h⟩ := except_bind_ok h
  have hmerge (b : Bool) (x y : Route) (_ : x.Joinable y) : Entered r x → Entered r y → Entered r (x.merge b y) :=
    Entered.merge b
  have hall : ∀ x ∈ root.routes, Entered r x := by
    rw [routes_pushSelect h]
    have hscan := forall_scanTableExpr hmerge (fun _ _ _ _ => entered_scan) hscanned
    refine forall_calcRoute entered_calcRoute (fun b x y hx hy _ => hx.merge b hy) (fun b x y hx hy _ => ?_)
      (forall_pushWhere hmerge hscan hpushed) hrouted
    exact Entered.merge b (hx.of_bare rfl rfl rfl) hy
  exact fun m hm => hall m.route (mem_map_of_mem hm)

/-! ## The entries of a query -/

theorem replaced_append (later more : List (MergeNode V)) (info : TableInfo) :
    Replaced (later ++ more) info ↔ Replaced later info ∨ Replaced more info := by
  simp only [Replaced, mem_append, or_and_right, exists_or]

/-- The entries that no later part replaces; the parts are counted from `n`. -/
def liveEntries : ℕ → List (MergeNode V) → List Entry
  | _, [] => []
  | n, part :: later =>
    (ownEntries n part).filter (fun e => ¬ Replaced later e.info) ++ liveEntries (n + 1) later

/-- An entry of a node points to the table expression at its own position. -/
theorem mem_ownEntries {n : ℕ} {m : MergeNode V} {e : Entry} :
    e ∈ ownEntries n m ↔ e.part = n ∧ m.referTables[e.expr]? = some e.info := by
  rw [ownEntries, mem_map]
  constructor
  · rintro ⟨⟨info, expr⟩, hmem, rfl⟩
    exact ⟨rfl, mem_zipIdx_iff_getElem?.1 hmem⟩
  · rintro ⟨rfl, hinfo⟩
    exact ⟨(e.info, e.expr), mem_zipIdx_iff_getElem?.2 hinfo, rfl⟩

/-- The entries of a query point to the table expressions of its parts that no later part replaces. -/
theorem mem_liveEntries {n : ℕ} {parts : List (MergeNode V)} {e : Entry} :
    e ∈ liveEntries n parts ↔ ∃ before part later, parts = before ++ part :: later ∧
      e.part = n + before.length ∧ part.referTables[e.expr]? = some e.info ∧ ¬ Replaced later e.info := by
  induction parts generalizing n with
  | nil => simp [liveEntries]
  | cons part later ih =>
    rw [liveEntries, mem_append, mem_filter, mem_ownEntries, ih, decide_eq_true_eq]
    constructor
    · rintro (⟨⟨hpart, hinfo⟩, hlive⟩ | ⟨before, part', later', rfl, hpart, hinfo, hlive⟩)
      · exact ⟨[], part, later, rfl, hpart, hinfo, hlive⟩
      · refine ⟨part :: before, part', later', rfl, ?_, hinfo, hlive⟩
        rw [hpart, length_cons]
        omega
    · rintro ⟨before, part', later', heq, hpart, hinfo, hlive⟩
      cases before with
      | nil =>
        cases heq
        exact .inl ⟨⟨hpart, hinfo⟩, hlive⟩
      | cons first before =>
        cases heq
        refine .inr ⟨before, part', later', rfl, ?_, hinfo, hlive⟩
        rw [hpart, length_cons]
        omega

/-- The names of the entries are the names of the parts. -/
theorem refer_mem_liveEntries {n : ℕ} {parts : List (MergeNode V)} {info : TableInfo} :
    (info.refer ∈ (liveEntries n parts).map fun e => e.info.refer) ↔ Replaced parts info := by
  induction parts generalizing n with
  | nil => simp [liveEntries, Replaced]
  | cons part later ih =>
    rw [liveEntries, map_append, mem_append, ih]
    constructor
    · rintro (h | ⟨p, hp, hrefer⟩)
      · obtain ⟨e, he, heq⟩ := mem_map.1 h
        have hinfo := mem_of_getElem? (mem_ownEntries.1 (mem_filter.1 he).1).2
        exact ⟨part, mem_cons_self, heq ▸ mem_map_of_mem hinfo⟩
      · exact ⟨p, mem_cons_of_mem _ hp, hrefer⟩
    · rintro ⟨p, hp, hrefer⟩
      by_cases hlater : Replaced later info
      · exact .inr hlater
      · obtain rfl | hp := mem_cons.1 hp
        · obtain ⟨info', hinfo', heq⟩ := mem_map.1 hrefer
          obtain ⟨k, hk⟩ := mem_iff_getElem?.1 hinfo'
          refine .inl (mem_map.2 ⟨⟨info', n, k⟩, mem_filter.2 ⟨mem_ownEntries.2 ⟨rfl, hk⟩, ?_⟩, heq⟩)
          rw [decide_eq_true_eq, Replaced, heq]
          exact hlater
        · exact absurd ⟨p, hp, hrefer⟩ hlater

/-- The parts can be counted from another number. -/
theorem map_liveEntries (k n : ℕ) (parts : List (MergeNode V)) :
    (liveEntries n parts).map (fun e => { e with part := k + e.part }) = liveEntries (k + n) parts := by
  induction parts generalizing n with
  | nil => rfl
  | cons part later ih =>
    rw [liveEntries, map_append, ih, liveEntries, ownEntries, ownEntries, Nat.add_assoc]
    congr 1
    rw [filter_map, filter_map, map_map]
    rfl

/-- The entries of a query of two are those that `union` keeps. -/
theorem liveEntries_append (n : ℕ) (parts more : List (MergeNode V)) :
    liveEntries n (parts ++ more) = (liveEntries n parts).filter (fun e => ¬ Replaced more e.info) ++
      liveEntries (n + parts.length) more := by
  induction parts generalizing n with
  | nil => rfl
  | cons part later ih =>
    rw [cons_append, liveEntries, ih, liveEntries, filter_append, filter_filter, append_assoc, length_cons,
      Nat.add_assoc, Nat.add_comm 1]
    congr 1
    refine filter_congr fun e _ => ?_
    simp only [replaced_append, not_or, Bool.decide_and, Bool.and_comm]

/-- The map of a query holds the entries that no later part replaces. -/
def QueryText.Kept (t : QueryText V) : Prop := t.referTables = liveEntries 0 t.parts

theorem kept_leafText (mentions : MergeNode V → List TableRef) (m : MergeNode V) : (leafText mentions m).Kept := by
  simp [QueryText.Kept, leafText, liveEntries, Replaced]

/-- `union` keeps the right entries. -/
theorem QueryText.Kept.merge {left right : QueryText V} (hl : left.Kept) (hr : right.Kept)
    (mentions : List TableRef) : (left.merge right mentions).Kept := by
  simp only [Kept] at hl hr
  simp only [Kept, QueryText.merge, liveEntries_append, hl, hr, map_liveEntries, refer_mem_liveEntries,
    Nat.zero_add, Nat.add_zero]

/-- `buildQuery` writes a name into a table expression unless a later part has replaced its entry. -/
theorem QueryText.Kept.written {t : QueryText V} (ht : t.Kept) {before later : List (MergeNode V)}
    {part : MergeNode V} (hparts : t.parts = before ++ part :: later) {k : ℕ} {info : TableInfo}
    (hinfo : part.referTables[k]? = some info) (i : ℕ) : t.written i before.length k =
      if info.shardKey = "" ∨ Replaced later info then none else info.segments[i]? := by
  -- an entry that points here is the one of this part
  have hentry (e : Entry) (he : e ∈ t.referTables) (hpart : e.part = before.length) (hexpr : e.expr = k) :
      e.info = info ∧ ¬ Replaced later info := by
    rw [ht, mem_liveEntries] at he
    obtain ⟨before', part', later', heq, hpart', hinfo', hlive⟩ := he
    have hlen : before'.length = before.length := by omega
    obtain ⟨-, hcons⟩ := append_inj (heq.symm.trans hparts) hlen
    cases hcons
    rw [hexpr, hinfo] at hinfo'
    cases hinfo'
    exact ⟨rfl, hlive⟩
  unfold QueryText.written
  cases hfind : t.referTables.find? fun e => e.part = before.length ∧ e.expr = k ∧ e.info.shardKey ≠ "" with
  | none =>
    rw [find?_eq_none] at hfind
    refine (if_pos ?_).symm
    by_contra hcon
    obtain ⟨hkey, hlive⟩ := not_or.1 hcon
    have hmem : (⟨info, before.length, k⟩ : Entry) ∈ t.referTables := by
      rw [ht, mem_liveEntries]
      exact ⟨before, part, later, hparts, (Nat.zero_add _).symm, hinfo, hlive⟩
    exact hfind _ hmem (decide_eq_true ⟨rfl, rfl, hkey⟩)
  | some e =>
    have hfound := find?_some hfind
    obtain ⟨hpart, hexpr, hkey⟩ := of_decide_eq_true hfound
    obtain ⟨rfl, hlive⟩ := hentry e (mem_of_find?_eq_some hfind) hpart hexpr
    rw [if_neg (not_or.2 ⟨hkey, hlive⟩)]
    rfl

/-! ## Plans and their texts -/

/-- What a plan has to do with its queries: a node with one query has the map of its text. -/
def Describes : UnionPlan V → List (QueryText V) → Prop
  | .select root mentions, texts => texts = root.leaves.map (leafText mentions)
  | .merged m, texts => ∃ t, texts = [t] ∧ t.routeLen = 1 ∧ t.referTables.map Entry.info = m.referTables ∧
      (m.single = true → m.nonGlobalCnt = 0 ∧ m.referTables = [])
  | .union left right, texts => ∃ ltexts rtexts, texts = ltexts ++ rtexts ∧ Describes left ltexts ∧
      Describes right rtexts

theorem map_info_ownEntries (n : ℕ) (m : MergeNode V) : (ownEntries n m).map Entry.info = m.referTables := by
  rw [ownEntries, map_map]
  exact zipIdx_map_fst 0 _

/-- The map of the merged node is the map of the merged text. -/
theorem map_info_merge (left right : QueryText V) (mentions : List TableRef) :
    (left.merge right mentions).referTables.map Entry.info =
      (left.referTables.map Entry.info).filter (fun info =>
        info.refer ∉ (right.referTables.map Entry.info).map TableInfo.refer) ++
      right.referTables.map Entry.info := by
  simp [QueryText.merge, filter_map, Function.comp_def]

theorem describes_union {left right : UnionPlan V} {ltexts rtexts : List (QueryText V)}
    (hl : Describes left ltexts) (hr : Describes right rtexts) {mentions : List TableRef}
    {orderBy : Except String Unit} (h : union left right mentions orderBy = .ok plan) :
    Describes plan (unionTexts plan ltexts rtexts mentions) := by
  obtain ⟨lm, rm, rfl, rfl, rfl⟩ | rfl := union_cases h
  · obtain ⟨lt, rfl, -, hltables, hlsingle⟩ := hl
    obtain ⟨rt, rfl, -, hrtables, hrsingle⟩ := hr
    refine ⟨lt.merge rt mentions, rfl, rfl, ?_, fun hsingle => ?_⟩
    · rw [map_info_merge, hltables, hrtables]
      rfl
    · simp only [UnionMerge.merge] at hsingle ⊢
      split_ifs at hsingle with hfollow
      · exact absurd hsingle (by rw [hfollow.2]; exact Bool.false_ne_true)
      · obtain ⟨hcnt, hnil⟩ := hlsingle hsingle
        have hright : rm.single = true := by
          rw [not_and, Bool.not_eq_false] at hfollow
          exact hfollow hcnt
        exact ⟨hcnt, by rw [hnil, (hrsingle hright).2]; rfl⟩
  · exact ⟨ltexts, rtexts, rfl, hl, hr⟩

/-- A fact about the queries of both sides that `merge` keeps holds for the queries of a union. -/
theorem forall_unionTexts {P : QueryText V → Prop} {ltexts rtexts : List (QueryText V)} {mentions : List TableRef}
    (hmerge : ∀ lt rt, P lt → P rt → P (lt.merge rt mentions)) (hl : ∀ t ∈ ltexts, P t) (hr : ∀ t ∈ rtexts, P t) :
    ∀ t ∈ unionTexts plan ltexts rtexts mentions, P t := by
  unfold unionTexts
  split
  · rw [forall_mem_singleton] at hl hr ⊢
    exact hmerge _ _ hl hr
  · exact forall_mem_append.2 ⟨hl, hr⟩

/-- A query whose map is right and whose parts have an entry for every table expression. -/
structure QueryText.Ok (r : Router) (t : QueryText V) : Prop where
  kept : t.Kept
  entered : ∀ part ∈ t.parts, Entered r part.route

theorem describes_processTexts {order : InOrder V} {pick : List Bool → MergeNode V → ℕ × ℕ}
    {s : SelectStatement V} (h : processTexts r H order database pick s = .ok (plan, texts)) :
    Describes plan texts ∧ ∀ t ∈ texts, t.Ok r := by
  induction s generalizing pick plan texts with
  | select node clauses =>
    obtain ⟨root, hroot, h⟩ := except_bind_ok h
    obtain ⟨_, -, h⟩ := except_bind_ok h
    cases h
    refine ⟨?_, fun t ht => ?_⟩
    · unfold UnionPlan.ofSelect
      split
      · split_ifs with hone
        · exact ⟨_, rfl, hone, map_info_ownEntries _ _, nofun⟩
        · rfl
      · rfl
    · obtain ⟨m, hm, rfl⟩ := mem_map.1 ht
      refine ⟨kept_leafText _ m, fun part hpart => ?_⟩
      rw [mem_singleton.1 hpart]
      exact entered_processSelect hroot m hm
  | dual fields mentions =>
    cases h
    exact ⟨⟨_, rfl, rfl, rfl, fun _ => ⟨rfl, rfl⟩⟩, forall_mem_singleton.2 ⟨rfl, nofun⟩⟩
  | union left right mentions orderBy ihl ihr =>
    obtain ⟨⟨lplan, ltexts⟩, hleft, h⟩ := except_bind_ok h
    obtain ⟨⟨rplan, rtexts⟩, hright, h⟩ := except_bind_ok h
    obtain ⟨plan', hplan, h⟩ := except_bind_ok h
    cases h
    obtain ⟨hl, hlok⟩ := ihl hleft
    obtain ⟨hr, hrok⟩ := ihr hright
    refine ⟨describes_union hl hr hplan, forall_unionTexts (fun lt rt hlt hrt => ?_) hlok hrok⟩
    exact ⟨hlt.kept.merge hrt.kept mentions, forall_mem_append.2 ⟨hlt.entered, hrt.entered⟩⟩

theorem segment_of_segmentNames {i : ℕ} {infos : List TableInfo} {backend : String} {q : SegmentQuery}
    (h : segmentNames i infos backend = .ok q) :
    ∀ info ∈ infos, info.shardKey ≠ "" → ∃ seg, info.segments[i]? = some seg := by
  induction infos generalizing backend q with
  | nil => simp
  | cons info infos ih =>
    rw [segmentNames] at h
    split at h
    · rename_i hkey
      obtain ⟨q', hq', -⟩ := except_bind_ok h
      exact forall_mem_cons.2 ⟨fun hne => absurd hkey hne, ih hq'⟩
    · split at h
      · cases h
      · rename_i seg hseg
        split at h
        · cases h
        · obtain ⟨q', hq', -⟩ := except_bind_ok h
          exact forall_mem_cons.2 ⟨fun _ => ⟨seg, hseg⟩, ih hq'⟩

/-- The queries of a plan that is sent have the segments they need. -/
theorem segment_of_sent (hdescribes : Describes plan texts) {sent : List SentQuery} (h : plan.sent = .ok sent)
    : ∀ t ∈ texts, ∀ i < t.routeLen, ∀ info ∈ t.referTables.map Entry.info, info.shardKey ≠ "" →
      ∃ seg, info.segments[i]? = some seg := by
  induction plan generalizing texts sent with
  | select root mentions =>
    cases hdescribes
    obtain ⟨queries, hqueries, -⟩ := except_bind_ok h
    intro t ht i hi
    obtain ⟨m, hm, rfl⟩ := mem_map.1 ht
    rw [leafText, map_info_ownEntries]
    obtain ⟨qs, -, hqs⟩ := mem_mapM_ok hqueries hm
    obtain ⟨segs, hsegs, -⟩ := except_bind_ok hqs
    obtain ⟨q, -, hq⟩ := mem_mapM_ok hsegs (mem_range.2 hi)
    exact segment_of_segmentNames hq
  | merged m =>
    obtain ⟨t, rfl, hlen, htables, hsingle⟩ := hdescribes
    obtain ⟨q, hq, -⟩ := except_bind_ok h
    intro t' ht i hi
    cases mem_singleton.1 ht
    rw [hlen, Nat.lt_one_iff] at hi
    subst hi
    rw [htables]
    unfold UnionMerge.sent at hq
    split at hq
    · rename_i hone
      rw [(hsingle hone).2]
      simp
    · obtain ⟨q', hq', -⟩ := except_bind_ok hq
      exact segment_of_segmentNames hq'
  | union left right ihl ihr =>
    obtain ⟨ltexts, rtexts, rfl, hl, hr⟩ := hdescribes
    obtain ⟨lsent, hlsent, h⟩ := except_bind_ok h
    obtain ⟨rsent, hrsent, -⟩ := except_bind_ok h
    exact forall_mem_append.2 ⟨ihl hl hlsent, ihr hr hrsent⟩

/-! ## Completeness -/

/-- The tables of the router with a key are the partitioned ones. -/
theorem partitioned_iff (hr : r.Ok) {info : TableInfo} (h : Known r info) :
    Partitioned r (ref info) ↔ info.shardKey ≠ "" := by
  obtain ⟨t, ht, hkey⟩ := h
  have hconf := (hr _ _ t (tables_of_getTable ht)).2.conf
  rw [hkey]
  constructor
  · grind [ConfOk.key, Partitioned, ref]
  · intro hne
    refine ⟨t, ht, ?_⟩
    cases htype : t.tableConfig.shardType with
    | hash => exact .inl rfl
    | list => exact .inr rfl
    | global => exact absurd (hconf.noKey (.inl htype)) hne
    | single => exact absurd (hconf.noKey (.inr htype)) hne

theorem QueryText.rewritten_iff_ownNames (hr : r.Ok) {t : QueryText V} {i : ℕ} (ht : t.Ok r)
    (hsegment : ∀ info ∈ t.referTables.map Entry.info, info.shardKey ≠ "" → ∃ seg, info.segments[i]? = some seg) :
    t.Rewritten r i ↔ t.OwnNames r := by
  have hpart {before : List (MergeNode V)} {part : MergeNode V} {later : List (MergeNode V)}
      (hparts : t.parts = before ++ part :: later) : Entered r part.route :=
    ht.entered part (hparts ▸ mem_append_right _ mem_cons_self)
  constructor
  · intro h
    refine ⟨fun before part later hparts info hinfo htable hreplaced => ?_, h.subqueries⟩
    obtain ⟨k, hk⟩ := mem_iff_getElem?.1 hinfo
    have hmention : part.from_.mentions[k]? = some (ref info) := by
      rw [show part.from_.mentions = part.referTables.map ref from (hpart hparts).from_, List.getElem?_map, hk]
      rfl
    have hget : t.parts[before.length]? = some part := by simp [hparts]
    obtain ⟨-, seg, -, -, -, hwritten⟩ := h.from_ before.length part hget k _ hmention htable
    rw [ht.kept.written hparts hk, if_pos (.inr hreplaced)] at hwritten
    cases hwritten
  · intro h
    refine ⟨fun p part hget k table hk htable => ?_, h.subqueries⟩
    obtain ⟨hp, hget⟩ := List.getElem?_eq_some_iff.1 hget
    have hparts : t.parts = t.parts.take p ++ part :: t.parts.drop (p + 1) := by
      rw [← hget, ← drop_eq_getElem_cons, take_append_drop]
    rw [show part.from_.mentions = part.referTables.map ref from (hpart hparts).from_, List.getElem?_map,
      Option.map_eq_some_iff] at hk
    obtain ⟨info, hinfo, rfl⟩ := hk
    have hmem : info ∈ part.referTables := mem_of_getElem? hinfo
    have hkey : info.shardKey ≠ "" := (partitioned_iff hr ((hpart hparts).known info hmem)).1 htable
    have hlive := h.from_ _ part _ hparts info hmem htable
    have hentry : (⟨info, p, k⟩ : Entry) ∈ t.referTables := by
      rw [ht.kept, mem_liveEntries]
      refine ⟨_, part, _, hparts, ?_, hinfo, hlive⟩
      rw [length_take_of_le (Nat.le_of_lt hp), Nat.zero_add]
    obtain ⟨seg, hseg⟩ := hsegment info (mem_map_of_mem hentry) hkey
    have hwritten := ht.kept.written hparts hinfo i
    rw [length_take_of_le (Nat.le_of_lt hp), if_neg (not_or.2 ⟨hkey, hlive⟩), hseg] at hwritten
    exact ⟨info, seg, hinfo, rfl, hseg, hwritten⟩

/-- In every router, the texts of a planned statement have physical names for all partitioned tables exactly
if no part of a query uses the name of a partitioned table of a part before it, and no subquery has a
partitioned table. -/
theorem rewritten_iff (slots blocks : ℕ) (ops : List ClusterOp) (H : Hasher) (order : InOrder V)
    (database : String) (pick : List Bool → MergeNode V → ℕ × ℕ) (s : SelectStatement V) (plan : UnionPlan V)
    (texts : List (QueryText V)) (sent : List SentQuery)
    (h : processTexts ((Cluster.init slots blocks).run ops).router H order database pick s = .ok (plan, texts))
    (hsent : plan.sent = .ok sent) :
    (∀ t ∈ texts, ∀ i < t.routeLen, t.Rewritten ((Cluster.init slots blocks).run ops).router i) ↔
      ∀ t ∈ texts, t.routeLen ≠ 0 → t.OwnNames ((Cluster.init slots blocks).run ops).router := by
  have hok := Cluster.run_ok (Cluster.init_ok slots blocks) ops
  obtain ⟨hdescribes, htexts⟩ := describes_processTexts h
  have hiff (t : QueryText V) (ht : t ∈ texts) (i : ℕ) (hi : i < t.routeLen) :=
    QueryText.rewritten_iff_ownNames hok (htexts t ht) (segment_of_sent hdescribes hsent t ht i hi)
  constructor
  · exact fun hall t ht hne => (hiff t ht 0 (Nat.pos_of_ne_zero hne)).1 (hall t ht 0 (Nat.pos_of_ne_zero hne))
  · exact fun hall t ht i hi => (hiff t ht i hi).2 (hall t ht (Nat.ne_zero_of_lt hi))

/-- A backend with a table that has one partition. -/
def onePartition : List ClusterOp :=
  [.addBackend (plainBackend "b1"), .createDatabase "d",
    .createTable true default "d" "t" "id" .normal]

/-- The plan of a statement over this table. -/
def onePartitionTexts (s : SelectStatement ℕ) : Except String (UnionPlan ℕ × List (QueryText ℕ)) :=
  processTexts ((Cluster.init 16 16).run onePartition).router default default "d" default s

/-- The plan is sent, and its only query has these tables in its parts. -/
def hasParts (parts : List (List TableRef × List String)) (p : UnionPlan ℕ × List (QueryText ℕ)) : Bool :=
  match p.2 with
  | [t] => p.1.sent.toOption.isSome && t.routeLen = 1 && t.subqueries = [] &&
      (t.parts.map fun m => (m.from_.mentions, m.tables)) = parts
  | _ => false

theorem exists_of_hasParts {parts : List (List TableRef × List String)} {s : SelectStatement ℕ}
    (h : (onePartitionTexts s).toOption.any (hasParts parts) = true) :
    ∃ plan t sent, onePartitionTexts s = .ok (plan, [t]) ∧ plan.sent = .ok sent ∧ t.routeLen = 1 ∧
      t.subqueries = [] ∧ (t.parts.map fun m => (m.from_.mentions, m.tables)) = parts := by
  cases hplan : onePartitionTexts s with
  | error e => simp [hplan, Except.toOption] at h
  | ok p =>
    obtain ⟨plan, texts⟩ := p
    simp only [hplan, Except.toOption, Option.any_some, hasParts] at h
    split at h
    · grind
    · cases h

/-- `SELECT 1 FROM t` is rewritten. -/
theorem select_rewritten :
    ∃ plan t sent, onePartitionTexts (selectOne "t") = .ok (plan, [t]) ∧ plan.sent = .ok sent ∧
      ∀ i < t.routeLen, t.Rewritten ((Cluster.init 16 16).run onePartition).router i := by
  have hparts : (onePartitionTexts (selectOne "t")).toOption.any (hasParts [([("d", "t")], ["t"])]) = true := by
    decide +kernel
  obtain ⟨plan, t, sent, hplan, hsent, -, hsub, hparts⟩ := exists_of_hasParts hparts
  refine ⟨plan, t, sent, hplan, hsent, ?_⟩
  have hiff := rewritten_iff 16 16 onePartition default default "d" default (selectOne "t") plan [t] sent hplan hsent
  simp only [List.forall_mem_singleton] at hiff
  obtain ⟨m, hm, -⟩ := List.map_eq_singleton_iff.1 hparts
  refine hiff.2 fun _ => ⟨fun before part later heq info _ _ => ?_, by simp [hsub]⟩
  have hlater : later = [] := by
    have hlen := congrArg List.length (hm.symm.trans heq)
    simp only [List.length_append, List.length_cons, List.length_nil] at hlen
    exact List.length_eq_zero_iff.1 (by omega)
  simp [hlater, Replaced]

/-- `SELECT 1 FROM t UNION SELECT 1 FROM t` reads the logical table in its first part. -/
theorem union_not_rewritten :
    ∃ plan t sent, onePartitionTexts (.union (selectOne "t") (selectOne "t") [] (.ok ())) = .ok (plan, [t]) ∧
      plan.sent = .ok sent ∧ t.routeLen = 1 ∧
      ¬ t.Rewritten ((Cluster.init 16 16).run onePartition).router 0 := by
  have hparts : (onePartitionTexts (.union (selectOne "t") (selectOne "t") [] (.ok ()))).toOption.any
      (hasParts [([("d", "t")], ["t"]), ([("d", "t")], ["t"])]) = true := by decide +kernel
  have htable : (((Cluster.init 16 16).run onePartition).router.getTable "d" "t").toOption.any
      (fun t => t.tableConfig.shardType = .hash) = true := by decide +kernel
  obtain ⟨plan, t, sent, hplan, hsent, hlen, -, hparts⟩ := exists_of_hasParts hparts
  refine ⟨plan, t, sent, hplan, hsent, hlen, fun h => ?_⟩
  obtain ⟨first, rest, hfirst, hm, hrest⟩ := List.map_eq_cons_iff.1 hparts
  obtain ⟨second, rfl, hm'⟩ := List.map_eq_singleton_iff.1 hrest
  simp only [Prod.mk.injEq] at hm hm'
  have hpartitioned : Partitioned ((Cluster.init 16 16).run onePartition).router ("d", "t") := by
    cases ht : ((Cluster.init 16 16).run onePartition).router.getTable "d" "t" with
    | error e => simp [ht, Except.toOption] at htable
    | ok table => exact ⟨table, ht, .inl (by simpa [ht, Except.toOption] using htable)⟩
  obtain ⟨info, seg, hinfo, -, -, hwritten⟩ := h.from_ 0 first (by rw [hfirst]; rfl) 0 ("d", "t")
    (by rw [hm.1]; rfl) hpartitioned
  have hrefer : info.refer = "t" := by
    have hmem : info.refer ∈ first.tables := List.mem_map_of_mem (List.mem_of_getElem? hinfo)
    rw [hm.2] at hmem
    exact List.mem_singleton.1 hmem
  have hreplaced : Replaced [second] info := ⟨second, List.mem_singleton.2 rfl, by rw [hrefer, hm'.2]; simp⟩
  have hkept := ((describes_processTexts hplan).2 t (List.mem_singleton.2 rfl)).kept
  have hnone := (hkept.written (show t.parts = [] ++ first :: [second] from hfirst) hinfo 0).trans (if_pos (.inr hreplaced))
  cases hnone.symm.trans hwritten

end Radon
