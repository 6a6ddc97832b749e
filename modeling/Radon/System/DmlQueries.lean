import Radon.Router.Failures
import Radon.System.Placement

/-!
# The queries of `UPDATE` and `DELETE`

`UpdatePlan.Build` prints the clauses of the statement as they are behind the name of the physical table.
`DeletePlan.Build` gives every column of the condition and of the order the physical table as its qualifier,
in one tree that all queries share. Both print the limit of the statement in every query.
-/

namespace Radon.Planner

open List Function

variable {V : Type}

/-- A value with other qualifiers. -/
def Scalar.mapCols (g : ColName → ColName) : Scalar V → Scalar V
  | .col c => .col (g c)
  | .val v => .val v
  | .null => .null
  | .func cols f => .func (cols.map g) f
  | .other cols f => .other (cols.map g) f

/-- A condition with other qualifiers. -/
def Expr.mapCols (g : ColName → ColName) : Expr V → Expr V
  | .and l r => .and (l.mapCols g) (r.mapCols g)
  | .or l r => .or (l.mapCols g) (r.mapCols g)
  | .paren e => .paren (e.mapCols g)
  | .cmp op l r => .cmp op (l.mapCols g) (r.mapCols g)
  | .inTuple neg l vs => .inTuple neg (l.mapCols g) (vs.map (Scalar.mapCols g))
  | .isNull s => .isNull (s.mapCols g)
  | .other cols f => .other (cols.map g) f

theorem Scalar.cols_mapCols (g : ColName → ColName) (s : Scalar V) : (s.mapCols g).cols = s.cols.map g := by
  cases s <;> rfl

theorem Expr.cols_mapCols (g : ColName → ColName) (e : Expr V) : (e.mapCols g).cols = e.cols.map g := by
  induction e with
  | and l r ihl ihr | or l r ihl ihr => simp only [mapCols, cols, map_append, ihl, ihr]
  | paren e ih => exact ih
  | cmp op l r => simp only [mapCols, cols, map_append, Scalar.cols_mapCols]
  | inTuple neg l vs =>
    simp only [mapCols, cols, map_append, Scalar.cols_mapCols, flatMap_map, map_flatMap]
  | isNull s => exact s.cols_mapCols g
  | other cols f => rfl

/-- The values of the columns in a row of the only table of a query. -/
def nameValues (row : Row V) : Valuation V := fun c => row c.name.toLower

/-- The qualifiers of the columns do not matter there. -/
theorem nameValues_comp {g : ColName → ColName} (hg : ∀ c, (g c).name = c.name) (row : Row V) :
    nameValues row ∘ g = nameValues row :=
  funext fun c => by rw [comp_apply, nameValues, hg, nameValues]

section Meaning

variable {sem : Sem V} {ν : Valuation V} {g : ColName → ColName}

theorem Scalar.eval_mapCols (s : Scalar V) : (s.mapCols g).eval sem ν = s.eval sem (ν ∘ g) := by
  cases s <;> simp only [mapCols, eval, map_map, comp_apply]

variable [LinearOrder V]

theorem Expr.eval_mapCols (e : Expr V) : (e.mapCols g).eval sem ν = e.eval sem (ν ∘ g) := by
  induction e with
  | and l r ihl ihr | or l r ihl ihr => simp only [mapCols, eval, ihl, ihr]
  | paren e ih => exact ih
  | cmp op l r => simp only [mapCols, eval, Scalar.eval_mapCols]
  | inTuple neg l vs =>
    cases neg <;> simp only [mapCols, eval, Scalar.eval_mapCols, map_map, comp_def]
  | isNull s => simp only [mapCols, eval, Scalar.eval_mapCols]
  | other cols f => simp only [mapCols, eval, map_map]

end Meaning

/-! ## The queries -/

/-- `sqlparser.Update` with its assignments, or `sqlparser.Delete`. -/
inductive DmlKind (V : Type)
  | update (exprs : List (ColName × Scalar V))
  | delete

/-- The assignments of a statement. -/
def DmlKind.exprs : DmlKind V → List (ColName × Scalar V)
  | .update exprs => exprs
  | .delete => []

/-- An `UPDATE` or `DELETE` on a table, with the terms of its order and whether they descend. -/
structure DmlStmt (V : Type) where
  kind : DmlKind V
  database : String
  table : String
  where_ : Option (Expr V)
  orderBy : List (Scalar V × Bool)
  limit : Option ℕ

/-- The columns of a statement. -/
def DmlStmt.cols (s : DmlStmt V) : List ColName :=
  (s.kind.exprs.flatMap fun e => e.1 :: e.2.cols) ++ (s.where_.map Expr.cols).getD [] ++
    s.orderBy.flatMap fun e => e.1.cols

/-- `rewriteField`. -/
def rewriteField (database partTable : String) (node : DmlStmt V) : DmlStmt V :=
  let g : ColName → ColName := fun c => { c with table := partTable, database := database }
  { node with
    where_ := node.where_.map (Expr.mapCols g)
    orderBy := node.orderBy.map fun e => (e.1.mapCols g, e.2) }

/-- The loop of `DeletePlan.Build`; the tree of a query is the one that the next query starts from. -/
def rewriteAll (node : DmlStmt V) : List QueryTuple → List (QueryTuple × DmlStmt V)
  | [] => []
  | q :: qs =>
    let node := { rewriteField node.database q.table node with table := q.table }
    (q, node) :: rewriteAll node qs

/-- `UpdatePlan.Build` and `DeletePlan.Build` with the texts of their queries. -/
def DmlStmt.querys (r : Router) (H : Hasher) (order : InOrder V) (s : DmlStmt V) :
    Except String (List (QueryTuple × DmlStmt V)) :=
  match s.kind with
  | .update exprs => do
    let qs ← UpdatePlan.build r H order s.database s.table (exprs.map fun e => e.1.name) s.where_
    return qs.map fun q => (q, { s with table := q.table })
  | .delete => do
    let qs ← DeletePlan.build r H order s.database s.table s.where_ (s.orderBy.flatMap fun e => e.1.cols)
    return rewriteAll s qs

/-! ## Physical tables -/

variable {qs : List QueryTuple}

section Segments

variable {r : Router} {H : Hasher} {T : Table} {p : Partition} (hok : TableOk r.slots T) (hp : T.partition = some p)

theorem hash_slots_pos {k : Hash} (hok : TableOk r.slots T) (hk : T.partition = some (.hash k)) : 0 < k.slots := by
  have htype : T.tableConfig.shardType = .hash := (hok.type hk).symm
  have hpos := hok.conf.hash htype
  obtain ⟨conf, hb, hshape⟩ := hok.built _ hk
  have hconf : conf.shardType = .hash := (congrArg Prod.fst hshape).trans htype
  have hslots : conf.slots = T.tableConfig.slots := congrArg (fun s => s.2.1) hshape
  rw [Partition.build, hconf] at hb
  obtain ⟨k', hk', heq⟩ := except_map_ok hb
  cases heq
  rw [(Hash.build_exact hk').2.1, if_neg (by omega)]
  omega

/-- How the router answers with segments of a partition: with all of them, or for a key or for indexes. -/
inductive Answers (H : Hasher) (p : Partition) : List Segment → Prop
  | all : Answers H p p.getSegments
  | key {v : SQLVal} {segs : List Segment} (h : p.lookup H v = .ok segs) : Answers H p segs
  | indexes {idxs : List ℕ} {segs : List Segment} (h : p.segmentsOf idxs = .ok segs) : Answers H p segs

variable {order : InOrder V}

section Answers

variable {segs : List Segment}

include hok hp in
theorem Answers.subset (h : Answers H p segs) : segs ⊆ p.getSegments := by
  cases h with
  | all => exact List.Subset.refl _
  | indexes h => exact hok.segmentsOf_subset hp h
  | key h =>
    cases p with
    | hash k =>
      obtain ⟨idx, hidx, rfl⟩ := except_map_ok h
      have hlt : idx < k.slots := by
        have hmax := Hash.getIndex_lt hidx
        have hpos := hash_slots_pos hok hp
        omega
      have hseg : (Partition.hash k).getSegment idx = .ok ((k.partitions.find idx).getD {}) :=
        if_neg (Nat.not_le.2 hlt)
      exact cons_subset.2 ⟨hok.getSegment_mem hp hseg, nil_subset _⟩
    | list l =>
      obtain ⟨idx, -, h⟩ := except_bind_ok h
      cases h
      exact fun seg hseg => mem_of_getElem? (Option.mem_toList.1 hseg)
    | global segs | single segs =>
      cases h
      exact List.Subset.refl _

variable {db tbl : String} (hentry : r.getTable db tbl = .ok T)

include hp hentry

theorem getPartition_of_getTable : r.getPartition db tbl = .ok p := by
  rw [Router.getPartition, hentry]
  simp only [bind, Except.bind, hp]
  rfl

theorem lookupAll_of_getTable : r.lookupAll db tbl = .ok p.getSegments := by
  rw [Router.lookupAll, getPartition_of_getTable hp hentry]
  rfl

theorem lookupFilters_answers {shardKey : String} {filters : List (Expr V)}
    (h : lookupFilters r H db tbl shardKey filters = .ok segs) : Answers H p segs := by
  have hpart := getPartition_of_getTable hp hentry
  have hall (h : r.lookupAll db tbl = .ok segs) : Answers H p segs := by
    cases (lookupAll_of_getTable hp hentry).symm.trans h
    exact .all
  induction filters using lookupFilters.induct (V := V) tbl shardKey with
  | case1 => exact hall h
  | case2 left v filters hmatch =>
    rw [lookupFilters, if_pos hmatch, Router.lookup, hpart] at h
    exact .key h
  | case3 left v filters hmatch ih | case5 left v filters hmatch ih =>
    rw [lookupFilters, if_neg hmatch] at h
    exact ih h
  | case4 left tuple filters hmatch =>
    rw [lookupFilters, if_pos hmatch] at h
    obtain ⟨idxs, -, h⟩ := except_bind_ok h
    cases idxs with
    | none => exact hall h
    | some idxs =>
      have hsegs : r.getSegments db tbl idxs = .ok segs := h
      rw [Router.getSegments, hpart] at hsegs
      exact .indexes hsegs
  | case6 e filters hcmp hin ih => grind [lookupFilters]

theorem lookupFromWhere_answers {shardKey : String} {e : Expr V}
    (h : lookupFromWhere r H order db tbl shardKey e = .ok segs) :
    Answers H p segs ∧ (shardKey = "" → segs = p.getSegments) := by
  unfold lookupFromWhere at h
  split at h
  · grind [lookupFilters_answers]
  · cases (lookupAll_of_getTable hp hentry).symm.trans h
    exact ⟨.all, fun _ => rfl⟩

end Answers

variable {db tbl : String} (hentry : r.getTable db tbl = .ok T)

include hp hentry

theorem UpdatePlan.build_answers {assigned : List String} {where_ : Option (Expr V)}
    (h : UpdatePlan.build r H order db tbl assigned where_ = .ok qs) :
    ∃ segs, (Answers H p segs ∧ (T.shardKey = "" → segs = p.getSegments)) ∧ segs.mapM segmentTuple = .ok qs := by
  unfold UpdatePlan.build at h
  split at h
  · cases h
  · rw [hentry] at h
    obtain ⟨t, htable, h⟩ := except_bind_ok h
    cases htable
    split at h
    · cases h
    · obtain ⟨segs, hsegs, h⟩ := except_bind_ok h
      exact ⟨segs, lookupFromWhere_answers hp hentry hsegs, h⟩

theorem DeletePlan.build_answers {where_ : Option (Expr V)} {orderBy : List ColName}
    (h : DeletePlan.build r H order db tbl where_ orderBy = .ok qs) :
    ∃ segs, (Answers H p segs ∧ (T.shardKey = "" → segs = p.getSegments)) ∧ segs.mapM segmentTuple = .ok qs := by
  unfold DeletePlan.build at h
  obtain ⟨_, -, h⟩ := except_bind_ok h
  obtain ⟨_, -, h⟩ := except_bind_ok h
  split at h
  · obtain ⟨segs, hsegs, h⟩ := except_bind_ok h
    cases (lookupAll_of_getTable hp hentry).symm.trans hsegs
    exact ⟨_, ⟨.all, fun _ => rfl⟩, h⟩
  · rw [hentry] at h
    obtain ⟨t, htable, h⟩ := except_bind_ok h
    cases htable
    obtain ⟨segs, hsegs, h⟩ := except_bind_ok h
    exact ⟨segs, lookupFromWhere_answers hp hentry hsegs, h⟩

end Segments

variable {r : Router} {H : Hasher} {order : InOrder V} {s : DmlStmt V}

theorem rewriteAll_fst (node : DmlStmt V) (qs : List QueryTuple) : (rewriteAll node qs).map Prod.fst = qs := by
  induction qs generalizing node with
  | nil => rfl
  | cons q qs ih => rw [rewriteAll, map_cons, ih]

/-- The queries of a statement go to physical tables of its table. -/
theorem querys_physical {T : Table} (hok : TableOk r.slots T) (hentry : r.getTable s.database s.table = .ok T)
    (hnamed : T.Named s.table) {es : List (QueryTuple × DmlStmt V)} (h : s.querys r H order = .ok es) :
    ∀ e ∈ es, PhysicalName T.tableConfig.shardType.plain s.table e.1.table := by
  obtain ⟨slots, p, hbuild, hp⟩ := hnamed.built
  have hsegs : ∃ segs, (Answers H p segs ∧ (T.shardKey = "" → segs = p.getSegments)) ∧
      segs.mapM segmentTuple = .ok (es.map Prod.fst) := by
    unfold DmlStmt.querys at h
    split at h
    · obtain ⟨qs, hqs, h⟩ := except_bind_ok h
      cases h
      rw [map_map, show Prod.fst ∘ _ = id from rfl, map_id]
      exact UpdatePlan.build_answers hp hentry hqs
    · obtain ⟨qs, hqs, h⟩ := except_bind_ok h
      cases h
      rw [rewriteAll_fst]
      exact DeletePlan.build_answers hp hentry hqs
  obtain ⟨segs, ⟨hanswers, -⟩, htuples⟩ := hsegs
  intro e he
  obtain ⟨seg, hseg, htuple⟩ := of_mem_mapM_ok htuples (mem_map_of_mem he)
  have hphysical := (Partition.build_physical hbuild).mem_iff.1 (mem_map_of_mem (hanswers.subset hok hp hseg))
  rw [(segmentTuple_ok htuple).2]
  exact hnamed.suited.2 _ hphysical

theorem rewriteAll_limit {node : DmlStmt V} : ∀ e ∈ rewriteAll node qs, e.2.limit = node.limit := by
  induction qs generalizing node with
  | nil => exact nofun
  | cons q qs ih => grind [rewriteAll, rewriteField]

/-- Every query has the limit of the statement. -/
theorem querys_limit {es : List (QueryTuple × DmlStmt V)} (h : s.querys r H order = .ok es) :
    ∀ e ∈ es, e.2.limit = s.limit := by
  intro e he
  unfold DmlStmt.querys at h
  split at h
  · obtain ⟨qs, -, h⟩ := except_bind_ok h
    cases h
    obtain ⟨q, -, rfl⟩ := mem_map.1 he
    rfl
  · obtain ⟨qs, -, h⟩ := except_bind_ok h
    cases h
    exact rewriteAll_limit e he

theorem table_ne_partitionName (table : String) (k : ℕ) : table ≠ partitionName table k := by
  intro h
  have hlen := congrArg (fun name => name.toList.length) h
  simp [partitionName_toList, nameSuffix] at hlen

/-! ## Completeness -/

/-- MySQL finds the column in a query on the table. -/
def ColName.Resolves (database table : String) (c : ColName) : Prop :=
  c.table = "" ∨ c.table = table ∧ (c.database = "" ∨ c.database = database)

instance (database table : String) (c : ColName) : Decidable (c.Resolves database table) :=
  inferInstanceAs (Decidable (_ ∨ _))

theorem rewriteField_resolves (database partTable : String) {s : DmlStmt V} (hs : s.kind = .delete) :
    ∀ c ∈ (rewriteField database partTable s).cols, c.Resolves database partTable := by
  intro c hc
  simp only [rewriteField, DmlStmt.cols, hs, DmlKind.exprs, flatMap_nil, nil_append,
    mem_append, flatMap_map, Scalar.cols_mapCols] at hc
  -- every column of the two clauses has the new qualifiers
  suffices h : ∃ d : ColName, { d with table := partTable, database := database } = c by
    obtain ⟨d, rfl⟩ := h
    exact .inr ⟨rfl, .inr rfl⟩
  obtain hc | hc := hc
  · cases hwhere : s.where_ with
    | none => simp [hwhere] at hc
    | some e => grind [Expr.cols_mapCols]
  · grind

variable [LinearOrder V]

/-- What a statement says about a row: the condition, the new values and the terms of the order, and the
limit beside them. -/
def DmlStmt.meaning (sem : Sem V) (s : DmlStmt V) (row : Row V) :
    Option (Option Bool) × List (String × WithBot V) × List (WithBot V × Bool) × Option ℕ :=
  (s.where_.map (Expr.eval sem (nameValues row)),
    s.kind.exprs.map fun e => (e.1.name, e.2.eval sem (nameValues row)),
    s.orderBy.map fun e => (e.1.eval sem (nameValues row), e.2), s.limit)

/-- The query is the statement on the physical table, and mentions no other table. -/
structure DmlStmt.Restricted (s : DmlStmt V) (q : QueryTuple) (query : DmlStmt V) : Prop where
  database : query.database = s.database
  table : query.table = q.table
  resolves : ∀ c ∈ query.cols, c.Resolves s.database q.table
  meaning : ∀ sem row, query.meaning sem row = s.meaning sem row

theorem rewriteField_meaning (database partTable : String) (sem : Sem V) (s : DmlStmt V) (row : Row V) :
    (rewriteField database partTable s).meaning sem row = s.meaning sem row := by
  have hvalues := nameValues_comp (g := fun c => { c with table := partTable, database := database })
    (fun _ => rfl) row
  simp only [rewriteField, DmlStmt.meaning, Option.map_map, map_map, comp_def,
    Expr.eval_mapCols, Scalar.eval_mapCols]
  rw [show (fun c => nameValues row _) = nameValues row from hvalues]

/-- Every query of a `DELETE` is restricted to its physical table, whatever the tree looked like. -/
theorem restricted_of_rewriteAll {node : DmlStmt V} (hkind : node.kind = .delete)
    (hdb : node.database = s.database) (hmeaning : ∀ sem row, node.meaning sem row = s.meaning sem row)
    : ∀ e ∈ rewriteAll node qs, s.Restricted e.1 e.2 := by
  induction qs generalizing node with
  | nil => exact nofun
  | cons q qs ih =>
    intro e he
    have hnode (sem : Sem V) (row : Row V) := (rewriteField_meaning node.database q.table sem node row).trans
      (hmeaning sem row)
    obtain rfl | he := mem_cons.1 he
    · exact ⟨hdb, rfl, hdb ▸ rewriteField_resolves _ _ hkind, hnode⟩
    · refine ih ?_ ?_ ?_ e he
      · exact hkind
      · exact hdb
      · exact hnode

/-- On a hash or list table the queries of a `DELETE` are the statement on their physical tables, and those of
an `UPDATE` are exactly if it has no qualified column. -/
theorem DmlStmt.restricted_iff {T : Table} (hok : TableOk r.slots T)
    (hentry : r.getTable s.database s.table = .ok T) (hnamed : T.Named s.table)
    (hsharded : T.tableConfig.shardType.plain = false)
    (hcols : ∀ c ∈ s.cols, c.Resolves s.database s.table)
    {es : List (QueryTuple × DmlStmt V)} (h : s.querys r H order = .ok es) :
    ∀ e ∈ es, s.Restricted e.1 e.2 ↔ s.kind = .delete ∨ ∀ c ∈ s.cols, c.table = "" := by
  intro e he
  have hphysical := querys_physical hok hentry hnamed h e he
  rw [hsharded] at hphysical
  obtain ⟨kind, database, table, where_, orderBy, limit⟩ := s
  cases kind with
  | delete =>
    obtain ⟨qs, -, h⟩ := except_bind_ok h
    cases h
    exact iff_of_true (restricted_of_rewriteAll rfl rfl (fun _ _ => rfl) e he) (.inl rfl)
  | update exprs =>
    obtain ⟨qs, -, h⟩ := except_bind_ok h
    cases h
    obtain ⟨q, hq, rfl⟩ := List.mem_map.1 he
    have hne : table ≠ q.table := by
      obtain ⟨k, hk⟩ := hphysical
      exact hk ▸ table_ne_partitionName table k
    constructor
    · intro hrestricted
      refine .inr fun c hc => ?_
      obtain hempty | ⟨htable, -⟩ := hrestricted.resolves c hc
      · exact hempty
      · exact (hcols c hc).resolve_right fun hother => hne (hother.1.symm.trans htable)
    · rintro (hdelete | hplain)
      · cases hdelete
      · exact ⟨rfl, rfl, fun c hc => .inl (hplain c hc), fun _ _ => rfl⟩

/-- An `UPDATE` of column `a` in the rows with the key 1, with a qualifier in front of both columns. -/
def updateKey (qualifier : String) : DmlStmt (String ×ₗ ℕ) where
  kind := .update [({ table := qualifier, name := "a" }, .val ⟨.intVal, "1"⟩)]
  database := "db"
  table := "t"
  where_ := some (.cmp .equal (.col { table := qualifier, name := "id" }) (.val ⟨.intVal, "1"⟩))
  orderBy := []
  limit := none

theorem updateKey_querys {qualifier : String} (h : qualifier = "" ∨ qualifier = "t") :
    (updateKey qualifier).querys listRouter firstSlot default =
      .ok [(⟨"backend1", "t_0000", .list 0⟩, { updateKey qualifier with table := "t_0000" })] := by
  have hplan : UpdatePlan.build listRouter firstSlot default "db" "t" ["a"] (updateKey qualifier).where_ =
      .ok [⟨"backend1", "t_0000", .list 0⟩] := by
    obtain rfl | rfl := h <;> decide +kernel
  unfold DmlStmt.querys
  exact congrArg (fun plan : Except String (List QueryTuple) => plan >>= fun qs =>
    pure (qs.map fun q => (q, { updateKey qualifier with table := q.table }))) hplan

/-- The table of the router. -/
def listTable : Table := ⟨"t", "id", some (.list (ListPartition.build listConf)), listConf⟩

theorem listTable_named : listTable.Named "t" where
  name := rfl
  suited := by
    have hconf : listUniform ⟨id, fun _ => .refl _⟩ "t" "id"
        [⟨"backend1", [⟨.intVal, "1"⟩]⟩, ⟨"backend2", [⟨.intVal, "2"⟩]⟩] = .ok listConf := rfl
    exact (listUniform_suited hconf).1
  built := ⟨4, _, rfl, rfl⟩

/-- Without qualifiers the query is the statement on `t_0000`. -/
theorem updateKey_plain_restricted :
    (updateKey "").Restricted ⟨"backend1", "t_0000", .list 0⟩ { updateKey "" with table := "t_0000" } := by
  have hok : TableOk listRouter.slots listTable := ((Router.Ok.init 4 2).run _ "db" "t" listTable rfl).2
  have hcols : ∀ c ∈ (updateKey "").cols, c.table = "" := by decide
  exact (DmlStmt.restricted_iff hok rfl listTable_named rfl (fun c hc => .inl (hcols c hc))
    (updateKey_querys (.inl rfl)) _ List.mem_cons_self).2 (.inr hcols)

/-- `UPDATE t SET t.a = 1 WHERE t.id = 1` goes to `t_0000` as it is, where there is no `t.a`. -/
theorem updateKey_qualified_unresolved :
    (updateKey "t").querys listRouter firstSlot default =
        .ok [(⟨"backend1", "t_0000", .list 0⟩, { updateKey "t" with table := "t_0000" })] ∧
      (∀ c ∈ (updateKey "t").cols, c.Resolves "db" "t") ∧
      ¬ (updateKey "t").Restricted ⟨"backend1", "t_0000", .list 0⟩ { updateKey "t" with table := "t_0000" } := by
  refine ⟨updateKey_querys (.inr rfl), by decide, fun h => ?_⟩
  exact absurd (h.resolves { table := "t", name := "a" } List.mem_cons_self) (by decide)

/-! ## Limits -/

/-- The rows that a query applies to; a column that it does not find is an error. -/
def DmlStmt.matching (sem : Sem V) (query : DmlStmt V) (rows : List (Row V)) : List (Row V) :=
  if ∀ c ∈ query.cols, c.Resolves query.database query.table then
    rows.filter fun row => (query.where_.map (Expr.eval sem (nameValues row))).getD (some true) = some true
  else []

/-- A query changes rows that it applies to, as many as its limit allows. -/
def DmlStmt.Takes (sem : Sem V) (query : DmlStmt V) (rows taken : List (Row V)) : Prop :=
  taken.Subperm (query.matching sem rows) ∧
    taken.length = match query.limit with
      | none => (query.matching sem rows).length
      | some n => min n (query.matching sem rows).length

theorem sum_min_le (n : ℕ) (ms : List ℕ) : (ms.map (min n)).sum ≤ ms.sum := by
  induction ms with
  | nil => exact le_rfl
  | cons m ms ih =>
    simp only [map_cons, sum_cons]
    omega

theorem sum_min_eq_of_lt (n : ℕ) (ms : List ℕ) (h : (ms.map (min n)).sum < n) : (ms.map (min n)).sum = ms.sum := by
  induction ms with
  | nil => rfl
  | cons m ms ih => grind

theorem length_filter_pos_eq_zero (ms : List ℕ) : (ms.filter (0 < ·)).length = 0 ↔ ms.sum = 0 := by
  induction ms with
  | nil => simp
  | cons m ms ih => grind

/-- Shares that are cut at a bound are within the bound together exactly if the bound is zero, there is at most
one of them, or they are without being cut. -/
theorem sum_min_le_iff (n : ℕ) (ms : List ℕ) :
    (ms.map (min n)).sum ≤ n ↔ n = 0 ∨ (ms.filter (0 < ·)).length ≤ 1 ∨ ms.sum ≤ n := by
  induction ms with
  | nil => simp
  | cons m ms ih => grind [length_filter_pos_eq_zero, sum_min_le, sum_min_eq_of_lt]

/-- The rows that the queries change, with the rows of the physical tables. -/
def Outcome (sem : Sem V) (content : String × String → List (Row V)) (es : List (QueryTuple × DmlStmt V))
    (takens : List (List (Row V))) : Prop :=
  List.Forall₂ (fun e taken => e.2.Takes sem (content (e.1.backend, e.1.table)) taken) es takens

/-- The numbers of rows that the queries apply to. -/
def matchCounts (sem : Sem V) (content : String × String → List (Row V)) (es : List (QueryTuple × DmlStmt V)) :
    List ℕ :=
  es.map fun e => (e.2.matching sem (content (e.1.backend, e.1.table))).length

section Counts

variable {sem : Sem V} {content : String × String → List (Row V)} {n : ℕ}
  {es : List (QueryTuple × DmlStmt V)} (hlimit : ∀ e ∈ es, e.2.limit = some n)

include hlimit

theorem Outcome.lengths {takens : List (List (Row V))} (h : Outcome sem content es takens) :
    takens.map List.length = (matchCounts sem content es).map (min n) := by
  induction h with
  | nil => rfl
  | @cons e taken es takens htakes _ ih =>
    obtain ⟨he, hes⟩ := forall_mem_cons.1 hlimit
    have hlength := htakes.2
    rw [he] at hlength
    rw [map_cons, hlength, ih hes]
    rfl

variable (sem content) in
theorem exists_outcome : ∃ takens, Outcome sem content es takens := by
  induction es with
  | nil => exact ⟨[], .nil⟩
  | cons e es ih =>
    obtain ⟨he, hes⟩ := forall_mem_cons.1 hlimit
    obtain ⟨takens, htakens⟩ := ih hes
    refine ⟨_ :: takens, .cons ⟨(take_sublist n _).subperm, ?_⟩ htakens⟩
    rw [he, length_take]

theorem outcomes_le_iff : (∀ takens, Outcome sem content es takens → (takens.map List.length).sum ≤ n) ↔
    n = 0 ∨ ((matchCounts sem content es).filter (0 < ·)).length ≤ 1 ∨ (matchCounts sem content es).sum ≤ n := by
  rw [← sum_min_le_iff]
  constructor
  · intro h
    obtain ⟨takens, htakens⟩ := exists_outcome sem content hlimit
    exact htakens.lengths hlimit ▸ h takens htakens
  · intro h takens htakens
    rw [htakens.lengths hlimit]
    exact h

end Counts

/-- An `UPDATE` or `DELETE` with a limit changes no more rows than that, in all outcomes, exactly if the limit
is zero, the rows it applies to are in one physical table, or there are no more of them than the limit. -/
theorem DmlStmt.limit_kept_iff {n : ℕ} (hlimit : s.limit = some n) {es : List (QueryTuple × DmlStmt V)}
    (h : s.querys r H order = .ok es) (sem : Sem V) (content : String × String → List (Row V)) :
    (∀ takens, Outcome sem content es takens → (takens.map List.length).sum ≤ n) ↔
      n = 0 ∨ ((matchCounts sem content es).filter (0 < ·)).length ≤ 1 ∨
        (matchCounts sem content es).sum ≤ n :=
  outcomes_le_iff fun e he => (querys_limit h e he).trans hlimit

/-- `DELETE FROM t LIMIT 1`. -/
def deleteOne : DmlStmt (String ×ₗ ℕ) := ⟨.delete, "db", "t", none, [], some 1⟩

/-- Its queries, with the limit in each. -/
def deleteOneQuerys : List (QueryTuple × DmlStmt (String ×ₗ ℕ)) :=
  [(⟨"backend1", "t_0000", .list 0⟩, { deleteOne with table := "t_0000" }),
    (⟨"backend2", "t_0001", .list 1⟩, { deleteOne with table := "t_0001" })]

/-- Rows with the keys 1 and 2, each in its physical table. -/
def keyRows : String × String → List (Row (String ×ₗ ℕ))
  | ("backend1", "t_0000") => [(keyRow "1").cells]
  | ("backend2", "t_0001") => [(keyRow "2").cells]
  | _ => []

/-- A row goes in every physical table. -/
theorem deleteOne_deletes_two :
    deleteOne.querys listRouter firstSlot default = .ok deleteOneQuerys ∧
      ∃ takens, Outcome literalSem keyRows deleteOneQuerys takens ∧ (takens.map List.length).sum = 2 := by
  refine ⟨rfl, [[(keyRow "1").cells], [(keyRow "2").cells]], .cons ?_ (.cons ?_ .nil), rfl⟩
  · exact ⟨.refl _, rfl⟩
  · exact ⟨.refl _, rfl⟩

/-- With one row in the table one row goes. -/
theorem deleteOne_deletes_one :
    deleteOne.querys listRouter firstSlot default = .ok deleteOneQuerys ∧ ∀ takens,
      Outcome literalSem (fun loc => if loc = ("backend1", "t_0000") then [(keyRow "1").cells] else [])
        deleteOneQuerys takens → (takens.map List.length).sum ≤ 1 := by
  have hquerys : deleteOne.querys listRouter firstSlot default = .ok deleteOneQuerys := rfl
  exact ⟨hquerys, (DmlStmt.limit_kept_iff rfl hquerys literalSem _).2 (.inr (.inl (by decide)))⟩

end Radon.Planner
