import Mathlib.Algebra.BigOperators.Group.Finset.Basic
import Mathlib.Algebra.Order.BigOperators.Group.Finset
import Radon.System.DmlQueries

/-!
# The number of affected rows

`Txn.execute` runs the queries of a statement on their backends, those of different backends at the same time,
and adds up the numbers of rows that they report. On a table with one copy of every row the sum is the number of
rows that the statement affects. On a global table every backend reports the same rows again.
-/

namespace Radon.Planner

open Relation

/-- `sqltypes.Result` of a statement that writes, without fields and rows. -/
structure DmlResult where
  rowsAffected : ℕ := 0
  insertID : ℕ := 0

/-- `Result.AppendResult`. -/
def DmlResult.appendResult (result src : DmlResult) : DmlResult :=
  if src.rowsAffected = 0 then result
  else ⟨result.rowsAffected + src.rowsAffected, if src.insertID ≠ 0 then src.insertID else result.insertID⟩

/-- Add a query to those of its backend. -/
def addQuery (q : QueryTuple) : List (String × List QueryTuple) → List (String × List QueryTuple)
  | [] => [(q.backend, [q])]
  | (backend, querys) :: m =>
    if backend = q.backend then (backend, querys ++ [q]) :: m else (backend, querys) :: addQuery q m

/-- The `queryMap` of `Txn.execute`. -/
def queryMap (qs : List QueryTuple) : List (String × List QueryTuple) := qs.foldl (fun m q => addQuery q m) []

/-- The `oneShard` of some backend executes its next query and appends the reply under the mutex. -/
inductive OneShard (reply : QueryTuple → DmlResult) :
    DmlResult × List (List QueryTuple) → DmlResult × List (List QueryTuple) → Prop
  | query (qr : DmlResult) (before : List (List QueryTuple)) (q : QueryTuple) (querys : List QueryTuple)
      (after : List (List QueryTuple)) :
      OneShard reply (qr, before ++ (q :: querys) :: after) (qr.appendResult (reply q), before ++ querys :: after)

/-- `Txn.execute` returns the result when all queries succeed. -/
def Executes (reply : QueryTuple → DmlResult) (qs : List QueryTuple) (qr : DmlResult) : Prop :=
  ∃ todo, ReflTransGen (OneShard reply) ({}, (queryMap qs).map Prod.snd) (qr, todo) ∧ ∀ querys ∈ todo, querys = []

variable {qs : List QueryTuple} {segs : List Segment}

section Sum

variable {reply : QueryTuple → DmlResult}

/-- The sum of the replies to some queries. -/
def replied (reply : QueryTuple → DmlResult) (qs : List QueryTuple) : ℕ := (qs.map fun q => (reply q).rowsAffected).sum

/-- What is added and what is left make the same sum in every step. -/
theorem OneShard.sum {s t : DmlResult × List (List QueryTuple)} (h : OneShard reply s t) :
    t.1.rowsAffected + replied reply t.2.flatten = s.1.rowsAffected + replied reply s.2.flatten := by
  cases h with
  | query qr before q querys after => grind [DmlResult.appendResult, replied]

theorem replied_addQuery (q : QueryTuple) (m : List (String × List QueryTuple)) :
    replied reply ((addQuery q m).map Prod.snd).flatten =
      replied reply (m.map Prod.snd).flatten + (reply q).rowsAffected := by
  induction m with
  | nil => simp [addQuery, replied]
  | cons entry m ih => grind [replied, addQuery]

theorem replied_queryMap (qs : List QueryTuple) :
    replied reply ((queryMap qs).map Prod.snd).flatten = replied reply qs := by
  have hfold (m : List (String × List QueryTuple)) :
      replied reply ((qs.foldl (fun m q => addQuery q m) m).map Prod.snd).flatten =
        replied reply (m.map Prod.snd).flatten + replied reply qs := by
    induction qs generalizing m with
    | nil => rfl
    | cons q qs ih => grind [replied_addQuery, replied]
  exact (hfold []).trans (Nat.zero_add _)

/-- In every order of the queries the result has the sum of the replies. -/
theorem Executes.rowsAffected {qr : DmlResult} (h : Executes reply qs qr) : qr.rowsAffected = replied reply qs := by
  obtain ⟨todo, hrun, hdone⟩ := h
  have hsum {s t : DmlResult × List (List QueryTuple)} (hrun : ReflTransGen (OneShard reply) s t) :
      t.1.rowsAffected + replied reply t.2.flatten = s.1.rowsAffected + replied reply s.2.flatten := by
    induction hrun with
    | refl => rfl
    | tail _ hstep ih => exact hstep.sum.trans ih
  have hall := hsum hrun
  rw [List.flatten_eq_nil_iff.2 hdone, replied_queryMap] at hall
  exact hall.trans (Nat.zero_add _)

end Sum

/-! ## The queries of a statement -/

variable {V : Type}

/-- An `INSERT`, `UPDATE` or `DELETE`, with what its plan reads. -/
inductive Dml (V : Type)
  | insert (columns onDup : List String) (rows : List (List (Scalar V)))
  | update (assigned : List String) (where_ : Option (Expr V))
  | delete (where_ : Option (Expr V)) (orderBy : List ColName)

/-- The queries of `InsertPlan.Build`, `UpdatePlan.Build` and `DeletePlan.Build`. -/
def Dml.build (r : Router) (H : Hasher) (order : InOrder V) (database table : String) :
    Dml V → Except String (List QueryTuple)
  | .insert columns onDup rows => do
    let p ← r.getPartition database table
    if p.type.plain then
      let segments ← r.lookupAll database table
      segments.mapM segmentTuple
    else
      let rTuples ← InsertPlan.build r H database table columns onDup rows
      return rTuples.map RowsTuple.tuple
  | .update assigned where_ => UpdatePlan.build r H order database table assigned where_
  | .delete where_ orderBy => DeletePlan.build r H order database table where_ orderBy

/-- The table is built from its configuration. The router made a hash or list configuration, and the copies of a
global table are different physical tables. -/
structure ServedTable (r : Router) (db tbl : String) (conf : TableConfig) (p : Partition) : Prop where
  build : Partition.build r.slots conf = .ok p
  entry : r.getTable db tbl = .ok ⟨conf.name, conf.shardKey, some p, conf⟩
  confOk : ConfOk conf
  sharded : conf.shardType.plain = false → ∃ r₀, Configured r₀ conf
  copies : conf.shardType.plain = true → conf.physicals.Nodup

/-- The physical table of a query and its backend. -/
def QueryTuple.physical (q : QueryTuple) : String × String := (q.table, q.backend)

theorem mapM_segmentTuple (h : segs.mapM segmentTuple = .ok qs) :
    qs.map QueryTuple.physical = segs.map Segment.physical := by
  induction segs generalizing qs with
  | nil =>
    cases h
    rfl
  | cons seg segs ih =>
    rw [List.mapM_cons] at h
    obtain ⟨q, hq, h⟩ := except_bind_ok h
    obtain ⟨qs', hqs, h⟩ := except_bind_ok h
    cases h
    rw [List.map_cons, List.map_cons, ih hqs, QueryTuple.physical, (segmentTuple_ok hq).2]
    rfl

theorem pickSegments_nodup {p : Partition} {indexes : List ℕ} {out : List Segment} (hsegs : segs.Nodup)
    (h : p.pickSegments indexes segs = .ok out) : out.Nodup := by
  induction indexes generalizing segs with
  | nil =>
    cases h
    exact hsegs
  | cons idx indexes ih =>
    obtain ⟨seg, -, h⟩ := except_bind_ok h
    refine ih ?_ h
    split
    · exact hsegs
    · rename_i hnew
      -- a segment that is there already has its range there
      grind

theorem Answers.nodup {H : Hasher} {p : Partition} (hp : p.getSegments.Nodup) (h : Answers H p segs) : segs.Nodup := by
  cases h with
  | all => exact hp
  | indexes h =>
    unfold Partition.segmentsOf at h
    split at h
    · cases h
      exact hp
    · exact pickSegments_nodup List.nodup_nil h
  | key h =>
    cases p with
    | hash k =>
      obtain ⟨idx, -, rfl⟩ := except_map_ok h
      exact List.nodup_singleton _
    | list l =>
      obtain ⟨idx, -, h⟩ := except_bind_ok h
      cases h
      grind
    | global segs | single segs =>
      cases h
      exact hp

section Queries

variable {r : Router} {H : Hasher} {order : InOrder V} {db tbl : String} {conf : TableConfig} {p : Partition}
  (ht : ServedTable r db tbl conf p)

include ht

theorem ServedTable.physical_nodup : (p.getSegments.map Segment.physical).Nodup := by
  refine (Partition.build_physical ht.build).nodup_iff.2 ?_
  cases hplain : conf.shardType.plain with
  | true => exact ht.copies hplain
  | false =>
    grind [sharded, DistinctNames.nodup, Configured.distinctNames, TableConfig.physicals,
      PartitionConfig.physical]

theorem ServedTable.ok : TableOk r.slots ⟨conf.name, conf.shardKey, some p, conf⟩ :=
  ⟨ht.confOk, fun _ hq => ⟨conf, Option.some.inj hq ▸ ht.build, rfl⟩⟩

theorem answers_physical (h : Answers H p segs ∧ (conf.shardKey = "" → segs = p.getSegments))
    (htuples : segs.mapM segmentTuple = .ok qs) : (qs.map QueryTuple.physical).Nodup ∧
      (conf.shardType = .global → (qs.map QueryTuple.physical).Perm conf.physicals) := by
  have hnodup := ht.physical_nodup
  rw [mapM_segmentTuple htuples]
  constructor
  · refine (h.1.nodup hnodup.of_map).map_on fun a ha b hb heq => ?_
    have hsub := h.1.subset ht.ok rfl
    exact List.inj_on_of_nodup_map hnodup (hsub ha) (hsub hb) heq
  · intro hglobal
    rw [h.2 (ht.confOk.noKey (.inl hglobal))]
    exact Partition.build_physical ht.build

/-- Different queries of a statement go to different physical tables; on a global table they go to all copies. -/
theorem Dml.build_physical {stmt : Dml V} (h : stmt.build r H order db tbl = .ok qs) :
    (qs.map QueryTuple.physical).Nodup ∧
      (conf.shardType = .global → (qs.map QueryTuple.physical).Perm conf.physicals) := by
  cases stmt with
  | update assigned where_ =>
    obtain ⟨segs, hsegs, htuples⟩ := UpdatePlan.build_answers rfl ht.entry h
    exact answers_physical ht hsegs htuples
  | delete where_ orderBy =>
    obtain ⟨segs, hsegs, htuples⟩ := DeletePlan.build_answers rfl ht.entry h
    exact answers_physical ht hsegs htuples
  | insert columns onDup rows =>
    have htype : p.type = conf.shardType := ht.ok.type rfl
    rw [Dml.build, getPartition_of_getTable rfl ht.entry] at h
    obtain ⟨_, hp, h⟩ := except_bind_ok h
    cases hp
    split at h
    · rw [lookupAll_of_getTable rfl ht.entry] at h
      exact answers_physical (H := H) ht ⟨.all, fun _ => rfl⟩ h
    · rename_i hplain
      rw [htype, Bool.not_eq_true] at hplain
      obtain ⟨rTuples, hrows, h⟩ := except_bind_ok h
      cases h
      have hbuilt : BuiltTable r db tbl conf p := ⟨ht.sharded hplain, ht.build, ht.entry⟩
      obtain ⟨-, idx, -, hdivided, -⟩ := Radon.InsertPlan.build_ok hbuilt hrows
      refine ⟨List.Nodup.of_map Prod.fst ?_, fun hglobal => ?_⟩
      · rw [List.map_map, List.map_map]
        exact hdivided.nodup
      · rw [hglobal] at hplain
        cases hplain

end Queries

/-! ## Logical rows -/

section Logical

variable {ρ : Type} [DecidableEq ρ] {rows : String × String → Finset ρ} {reply : QueryTuple → DmlResult}
  {qs : List QueryTuple}

/-- The logical rows that are affected in the physical tables of some queries. -/
def logicalRows (rows : String × String → Finset ρ) (qs : List QueryTuple) : Finset ρ :=
  (qs.map QueryTuple.physical).toFinset.biUnion rows

omit [DecidableEq ρ] in
theorem replied_eq_sum (hnodup : (qs.map QueryTuple.physical).Nodup)
    (hreply : ∀ q ∈ qs, (reply q).rowsAffected = (rows q.physical).card) :
    replied reply qs = ∑ x ∈ (qs.map QueryTuple.physical).toFinset, (rows x).card := by
  rw [List.sum_toFinset _ hnodup, List.map_map, replied, List.map_congr_left hreply]
  rfl

/-- Copies report `k` times the rows of one of them. -/
theorem replied_copies (hnodup : (qs.map QueryTuple.physical).Nodup)
    (hreply : ∀ q ∈ qs, (reply q).rowsAffected = (rows q.physical).card)
    (hcopies : ∀ q ∈ qs, ∀ q' ∈ qs, rows q.physical = rows q'.physical) :
    replied reply qs = qs.length * (logicalRows rows qs).card := by
  cases qs with
  | nil => rfl
  | cons q qs =>
    have hall : ∀ x ∈ ((q :: qs).map QueryTuple.physical).toFinset, rows x = rows q.physical := by simp_all
    have hunion : logicalRows rows (q :: qs) = rows q.physical :=
      Finset.Subset.antisymm (Finset.biUnion_subset.2 fun x hx => (hall x hx).le)
        (Finset.subset_biUnion_of_mem rows (by simp))
    rw [replied_eq_sum hnodup hreply, Finset.sum_const_nat fun x hx => congrArg Finset.card (hall x hx),
      List.toFinset_card_of_nodup hnodup, List.length_map, hunion]

end Logical

/-- The result has the number of logical rows, except for a global table with several copies that report rows. -/
theorem rowsAffected_iff {ρ : Type} [DecidableEq ρ] {r : Router} {H : Hasher} {order : InOrder V} {db tbl : String}
    {conf : TableConfig} {p : Partition} (ht : ServedTable r db tbl conf p) {stmt : Dml V} {qs : List QueryTuple}
    (hbuild : stmt.build r H order db tbl = .ok qs) {rows : String × String → Finset ρ}
    {reply : QueryTuple → DmlResult} (hreply : ∀ q ∈ qs, (reply q).rowsAffected = (rows q.physical).card)
    (hcopies : conf.shardType = .global → ∀ q ∈ qs, ∀ q' ∈ qs, rows q.physical = rows q'.physical)
    (hparts : conf.shardType ≠ .global → ∀ q ∈ qs, ∀ q' ∈ qs, q.physical ≠ q'.physical →
      Disjoint (rows q.physical) (rows q'.physical))
    {qr : DmlResult} (hrun : Executes reply qs qr) :
    qr.rowsAffected = (logicalRows rows qs).card ↔
      (conf.shardType = .global → conf.partitions.length ≤ 1 ∨ logicalRows rows qs = ∅) := by
  obtain ⟨hnodup, hglobal⟩ := Dml.build_physical ht hbuild
  rw [hrun.rowsAffected]
  by_cases htype : conf.shardType = .global
  · have hlen : qs.length = conf.partitions.length := by
      have := (hglobal htype).length_eq
      rwa [List.length_map, TableConfig.physicals, List.length_map] at this
    rw [replied_copies hnodup hreply (hcopies htype), hlen, ← Finset.card_eq_zero, imp_iff_right htype]
    -- without copies there is no query and no row
    have hnone : conf.partitions.length = 0 → (logicalRows rows qs).card = 0 := by
      intro hzero
      rw [List.length_eq_zero_iff.1 (hlen.trans hzero)]
      rfl
    constructor
    · intro h
      by_contra hne
      obtain ⟨hmany, hrows⟩ := not_or.1 hne
      exact hmany (Nat.le_of_mul_le_mul_right ((h.trans (Nat.one_mul _).symm).le) (Nat.pos_of_ne_zero hrows))
    · rintro (hle | hzero)
      · obtain hzero | hone := Nat.le_one_iff_eq_zero_or_eq_one.1 hle
        · rw [hnone hzero, Nat.mul_zero]
        · rw [hone, Nat.one_mul]
      · rw [hzero, Nat.mul_zero]
  · refine iff_of_true ?_ fun h => absurd h htype
    rw [replied_eq_sum hnodup hreply, logicalRows, Finset.card_biUnion]
    intro x hx y hy hne
    obtain ⟨q, hq, rfl⟩ := List.mem_map.1 (List.mem_toFinset.1 hx)
    obtain ⟨q', hq', rfl⟩ := List.mem_map.1 (List.mem_toFinset.1 hy)
    exact hparts htype q hq q' hq' hne

/-! ## A row in each of two partitions -/

/-- Two queries to different backends, each of which affects a row. -/
theorem executes_two {q q' : QueryTuple} (hne : q.backend ≠ q'.backend) :
    Executes (fun _ => ⟨1, 0⟩) [q, q'] ⟨2, 0⟩ := by
  have hmap : (queryMap [q, q']).map Prod.snd = [[q], [q']] := by
    simp [queryMap, addQuery, hne]
  rw [Executes, hmap]
  refine ⟨[[], []], .tail (.single (.query _ [] q [] [[q']])) (.query _ [[]] q' [] []), by simp⟩

/-- Two rows in two partitions of a list table are reported as two rows. -/
theorem list_rows_counted_once :
    2 = (logicalRows (fun x => {x}) [⟨"backend1", "t_0000", .list 0⟩, ⟨"backend2", "t_0001", .list 1⟩]).card := by
  have hok : listRouter.Ok := (Router.Ok.init 4 2).run _
  have hserved : ServedTable listRouter "db" "t" listConf (.list (ListPartition.build listConf)) :=
    ⟨listRouter_built.build, listRouter_built.entry,
      (hok "db" "t" ⟨"t", "id", some (.list (ListPartition.build listConf)), listConf⟩ rfl).2.conf,
      fun _ => listRouter_built.configured, fun h => Bool.noConfusion h⟩
  have hbuild : (Dml.insert ["id"] [] [keyValues "1", keyValues "2"]).build listRouter firstSlot
      ⟨id, fun _ => .refl _⟩ "db" "t" =
        .ok [⟨"backend1", "t_0000", .list 0⟩, ⟨"backend2", "t_0001", .list 1⟩] := by
    rw [Dml.build, getPartition_of_getTable rfl hserved.entry, insert_two]
    rfl
  refine (rowsAffected_iff hserved hbuild (fun _ _ => rfl) (fun h => MethodType.noConfusion h)
    (fun _ _ _ _ _ hne => Finset.disjoint_singleton.2 hne) (executes_two (by decide))).2 fun h => MethodType.noConfusion h

/-- A router with a global table on two backends. -/
def globalRouter : Router :=
  (Router.init 4 2).run [.createDatabase "db", .createGlobalTable true "db" "g" ["backend1", "backend2"]]

/-- A row that is inserted into a global table on two backends is reported as two rows. -/
theorem global_row_counted_twice : ∃ qs,
    (Dml.insert [] [] [] : Dml ℕ).build globalRouter firstSlot default "db" "g" = .ok qs ∧
      (logicalRows (fun _ => {0}) qs).card = 1 ∧ Executes (fun _ => ⟨1, 0⟩) qs ⟨2, 0⟩ := by
  refine ⟨[⟨"backend1", "g", .global 0⟩, ⟨"backend2", "g", .global 1⟩], rfl, by decide +kernel, executes_two (by decide)⟩

end Radon.Planner
