import Mathlib.Data.Prod.Lex
import Mathlib.Data.String.Basic
import Mathlib.Logic.Relation
import Radon.Planner.Dml
import Radon.Planner.Select
import Radon.Planner.MergeNodeSpec
import Radon.System.Colocation

/-!
# Rows lie where the queries go

Every row of a partitioned table was inserted with a literal for its shard key, and it stays in the
physical table of this literal. A condition can hold for a row only if the literals it compares the shard
key with include the one of the row, so that the query of a plan reaches the row.
-/

namespace Radon

open Planner List

variable {V : Type} {sem : Sem V}

variable {shardKey : String} {segs : List Segment} {seg : Segment} {rows : List (List (Scalar V))}
    {qs : List (RowsTuple V)}

section Route

variable {r : Router} {H : Hasher} {db tbl : String} {conf : TableConfig} {p : Partition}
  (hp : p.Built conf) (hpart : r.getPartition db tbl = .ok p) {key : SQLVal} {seg : Segment}
  (hseg : p.Holds H key seg)

include hpart hseg

variable [LinearOrder V]

end Route

/-! ## INSERT -/

section Insert

variable {r : Router} {H : Hasher} {db tbl : String} {conf : TableConfig} {p : Partition}
  (hp : p.Built conf) (hnames : DistinctNames conf) (hpart : r.getPartition db tbl = .ok p)

variable {tuple : Planner.QueryTuple} {idx : ℕ} {row : List (Scalar V)}

theorem segmentTuple_ok (h : segmentTuple seg = .ok tuple) :
    seg.range ≠ .nil ∧ tuple = ⟨seg.backend, seg.table, seg.range⟩ := by
  unfold segmentTuple at h
  split at h
  · cases h
  · cases h
    exact ⟨‹_›, rfl⟩

/-- Where a row goes: to the segment that `Router.Lookup` gives for the literal of its shard key. -/
def rowTuple (r : Router) (H : Hasher) (db tbl : String) (idx : ℕ) (row : List (Scalar V)) :
    Option Planner.QueryTuple :=
  match row[idx]? with
  | some (.val v) =>
    match r.lookup H db tbl v with
    | .ok (seg :: _) => (segmentTuple seg).toOption
    | _ => none
  | _ => none

theorem rowTuple_eq_some (h : rowTuple r H db tbl idx row = some tuple)
    : ∃ v seg segs, row[idx]? = some (.val v) ∧ r.lookup H db tbl v = .ok (seg :: segs) ∧ seg.range ≠ .nil ∧
      tuple = ⟨seg.backend, seg.table, seg.range⟩ := by
  unfold rowTuple at h
  split at h
  · rename_i v hv
    split at h
    · rename_i seg segs hlookup
      cases htuple : segmentTuple seg with
      | error e =>
        rw [htuple] at h
        cases h
      | ok tuple' =>
        rw [htuple] at h
        cases h
        exact ⟨v, seg, segs, hv, hlookup, segmentTuple_ok htuple⟩
    · cases h
  · cases h

include hp hpart in
theorem rowTuple_spec (h : rowTuple r H db tbl idx row = some tuple)
    : ∃ v seg, row[idx]? = some (.val v) ∧ p.Holds H v seg ∧ tuple = ⟨seg.backend, seg.table, seg.range⟩ := by
  obtain ⟨v, seg, segs, hv, hlookup, hne, htuple⟩ := rowTuple_eq_some h
  rw [Router.lookup, hpart] at hlookup
  exact ⟨v, seg, hv, hp.holds_of_lookup hlookup hne, htuple⟩

include hp hnames hpart in
/-- The name of the physical table decides where a row goes. -/
theorem rowTuple_inj {row' : List (Scalar V)} {tuple' : Planner.QueryTuple}
    (h : rowTuple r H db tbl idx row = some tuple) (h' : rowTuple r H db tbl idx row' = some tuple')
    (htable : tuple.table = tuple'.table) : tuple = tuple' := by
  grind [rowTuple_spec, Partition.Built.table_inj, Partition.Holds]

theorem insertRows_cons {rTuples out : List (RowsTuple V)}
    (h : insertRows r H db tbl shardKey idx (row :: rows) rTuples = .ok out) :
    ∃ tuple, rowTuple r H db tbl idx row = some tuple ∧
      insertRows r H db tbl shardKey idx rows (addRow tuple row rTuples) = .ok out := by
  rw [insertRows] at h
  split at h
  · cases h
  · rename_i v hv
    obtain ⟨segs, hsegs, h⟩ := except_bind_ok h
    split at h
    · cases h
    · obtain ⟨tuple, htuple, h⟩ := except_bind_ok h
      refine ⟨tuple, ?_, h⟩
      simp only [rowTuple, hv, hsegs, htuple]
      rfl
  · cases h

/-- A row joins the rows of its physical table, or is the first one there. -/
theorem addRow_cases (tuple : Planner.QueryTuple) (row : List (Scalar V)) (rTuples : List (RowsTuple V)) :
    (∃ pre q post, rTuples = pre ++ q :: post ∧ q.tuple.table = tuple.table ∧
      addRow tuple row rTuples = pre ++ { q with rows := q.rows ++ [row] } :: post) ∨
    (∀ q ∈ rTuples, q.tuple.table ≠ tuple.table) ∧ addRow tuple row rTuples = rTuples ++ [⟨tuple, [row]⟩] := by
  induction rTuples with
  | nil => exact .inr ⟨by simp, rfl⟩
  | cons rTuple rTuples ih =>
    rw [Planner.addRow]
    split
    · exact .inl ⟨[], rTuple, rTuples, rfl, ‹_›, rfl⟩
    · grind

/-- The rows are divided among queries for different physical tables: each query has the rows that go to its
segment, in their order, and every row goes to one. -/
structure Divided (r : Router) (H : Hasher) (db tbl : String) (idx : ℕ) (rows : List (List (Scalar V)))
    (qs : List (RowsTuple V)) : Prop where
  nodup : (qs.map (·.tuple.table)).Nodup
  own : ∀ q ∈ qs, q.rows ≠ [] ∧ q.rows = rows.filter fun row => rowTuple r H db tbl idx row = some q.tuple
  covered : ∀ row ∈ rows, ∃ q ∈ qs, rowTuple r H db tbl idx row = some q.tuple

include hp hnames hpart in
theorem Divided.addRow (h : Divided r H db tbl idx rows qs) (hrow : rowTuple r H db tbl idx row = some tuple)
    : Divided r H db tbl idx (rows ++ [row]) (addRow tuple row qs) := by
  -- the row adds nothing to the queries for other tables
  have hother {q : RowsTuple V} (hq : q ∈ qs) (hne : q.tuple.table ≠ tuple.table) :
      q.rows ≠ [] ∧ q.rows = (rows ++ [row]).filter fun row => rowTuple r H db tbl idx row = some q.tuple := by
    have hskip : ¬ some tuple = some q.tuple := fun heq => hne (congrArg _ (Option.some.inj heq).symm)
    obtain ⟨hnil, heq⟩ := h.own q hq
    exact ⟨hnil, heq.trans (by simp [filter_append, hrow, hskip])⟩
  have hcovered {qs' : List (RowsTuple V)} (hold : ∀ q ∈ qs, ∃ q' ∈ qs', q'.tuple = q.tuple)
      (hnew : ∃ q' ∈ qs', q'.tuple = tuple) :
      ∀ row' ∈ rows ++ [row], ∃ q' ∈ qs', rowTuple r H db tbl idx row' = some q'.tuple := by
    intro row' hrow'
    obtain hrow' | hrow' := mem_append.1 hrow'
    · grind [covered]
    · grind
  obtain ⟨pre, q, post, rfl, htable, heq⟩ | ⟨hall, heq⟩ := addRow_cases tuple row qs
  · obtain ⟨hnil, hrows⟩ := h.own q (by simp)
    obtain ⟨row', hrow'⟩ := exists_mem_of_ne_nil _ hnil
    rw [hrows, mem_filter, decide_eq_true_eq] at hrow'
    have htuple : q.tuple = tuple := rowTuple_inj hp hnames hpart hrow'.2 hrow htable
    have hnodup := h.nodup
    rw [map_append, map_cons, nodup_middle, ← map_append, nodup_cons] at hnodup
    have hjoined : (rows ++ [row]).filter (fun row => rowTuple r H db tbl idx row = some q.tuple) =
        q.rows ++ [row] := by
      rw [filter_append, ← hrows]
      simp [hrow, htuple]
    have hin : { q with rows := q.rows ++ [row] } ∈ pre ++ { q with rows := q.rows ++ [row] } :: post := by simp
    rw [heq]
    refine ⟨by simpa using h.nodup, fun q' hq' => ?_, hcovered (fun q' hq' => ?_) ⟨_, hin, htuple⟩⟩
    · obtain rfl | hq' := mem_cons.1 (perm_middle.mem_iff.1 hq')
      · exact ⟨by simp, hjoined.symm⟩
      · grind
    · grind
  · rw [heq]
    refine ⟨?_, fun q hq => ?_, hcovered (fun q hq => ⟨q, mem_append_left _ hq, rfl⟩)
      ⟨⟨tuple, [row]⟩, by simp, rfl⟩⟩
    · grind [nodup]
    · obtain hq | hq := mem_append.1 hq
      · exact hother hq (hall q hq)
      · obtain rfl := mem_singleton.1 hq
        -- no row before went to this table
        have hnone : rows.filter (fun row => rowTuple r H db tbl idx row = some tuple) = [] := by
          refine filter_eq_nil_iff.2 fun row' hrow' htuple => ?_
          obtain ⟨q, hmem, hq'⟩ := h.covered row' hrow'
          cases (of_decide_eq_true htuple).symm.trans hq'
          exact hall q hmem rfl
        exact ⟨by simp, by simp [filter_append, hrow, hnone]⟩

theorem Divided.perm {qs' : List (RowsTuple V)}
    (h : Divided r H db tbl idx rows qs) (hqs : qs'.Perm qs) : Divided r H db tbl idx rows qs' where
  nodup := (hqs.map _).nodup_iff.2 h.nodup
  own q hq := h.own q (hqs.mem_iff.1 hq)
  covered row hrow := by
    obtain ⟨q, hq, heq⟩ := h.covered row hrow
    exact ⟨q, hqs.mem_iff.2 hq, heq⟩

include hp hnames hpart in
theorem insertRows_divided {done : List (List (Scalar V))}
    {rTuples out : List (RowsTuple V)} (h : insertRows r H db tbl shardKey idx rows rTuples = .ok out)
    (hdone : Divided r H db tbl idx done rTuples) : Divided r H db tbl idx (done ++ rows) out := by
  induction rows generalizing done rTuples with
  | nil =>
    cases h
    rwa [append_nil]
  | cons row rows ih =>
    obtain ⟨tuple, htuple, h⟩ := insertRows_cons h
    rw [append_cons]
    exact ih h (hdone.addRow hp hnames hpart htuple)

end Insert

/-! ## Stored rows -/

/-- A stored row with the literal of its shard key. -/
structure StoredRow (sem : Sem V) (shardKey : String) where
  key : SQLVal
  cells : Row V
  key_cell : cells shardKey.toLower = sem.lit key

/-- The rows of the physical tables of a table, by backend and name. -/
abbrev Store (sem : Sem V) (shardKey : String) := String × String → List (StoredRow sem shardKey)

/-- The physical table of a query. -/
def QueryTuple.loc (q : Planner.QueryTuple) : String × String := (q.backend, q.table)

/-- The row after assignments to some columns: the others keep their values, and a shard key that is not
assigned keeps its literal. -/
def Assigned {shardKey : String} (assigned : List String) (old new : StoredRow sem shardKey) : Prop :=
  (∀ name, (∀ a ∈ assigned, a.toLower ≠ name) → new.cells name = old.cells name) ∧
    ((∀ a ∈ assigned, a.toLower ≠ shardKey.toLower) → new.key = old.key)

section Statements

variable (sem) (r : Router) (H : Hasher) (order : InOrder V) (db tbl : String) (conf : TableConfig)

/-- The rows after a statement with an accepted plan. Every query reaches its own physical table only,
and may fail; an `INSERT` may leave out rows, replace rows, or update the rows it would repeat. -/
inductive Written : Store sem conf.shardKey → Store sem conf.shardKey → Prop
  | insert {s s' : Store sem conf.shardKey} {columns onDup : List String}
      {rows : List (List (Scalar V))} {qs : List (RowsTuple V)} {idx : ℕ}
      (hplan : InsertPlan.build r H db tbl columns onDup rows = .ok qs)
      (hidx : (columns.findIdx? fun column => equalString column conf.shardKey) = some idx)
      (hrows : ∀ loc, ∀ row ∈ s' loc, row ∈ s loc ∨ (∃ old ∈ s loc, Assigned onDup old row) ∨
        ∃ q ∈ qs, QueryTuple.loc q.tuple = loc ∧ ∃ values ∈ q.rows, values[idx]? = some (.val row.key)) :
      Written s s'
  | update {s s' : Store sem conf.shardKey} {assigned : List String} {where_ : Option (Expr V)}
      {qs : List Planner.QueryTuple} (hplan : UpdatePlan.build r H order db tbl assigned where_ = .ok qs)
      (hrows : ∀ loc, ∀ row ∈ s' loc, row ∈ s loc ∨
        ∃ q ∈ qs, QueryTuple.loc q = loc ∧ ∃ old ∈ s loc, Assigned assigned old row) : Written s s'
  | delete {s s' : Store sem conf.shardKey} {where_ : Option (Expr V)} {orderBy : List ColName}
      {qs : List Planner.QueryTuple} (hplan : DeletePlan.build r H order db tbl where_ orderBy = .ok qs)
      (hrows : ∀ loc, ∀ row ∈ s' loc, row ∈ s loc) : Written s s'

/-- The router has a table that it built from one of its configurations. -/
structure BuiltTable (p : Partition) : Prop where
  configured : ∃ r₀, Configured r₀ conf
  build : Partition.build r.slots conf = .ok p
  entry : r.getTable db tbl = .ok
    { name := conf.name, shardKey := conf.shardKey, partition := some p, tableConfig := conf }

end Statements

section Placement

variable {r : Router} {H : Hasher} {order : InOrder V} {db tbl : String} {conf : TableConfig}
  {p : Partition} (ht : BuiltTable r db tbl conf p)

include ht

theorem BuiltTable.built : p.Built conf := by
  obtain ⟨r₀, hconf⟩ := ht.configured
  exact Partition.built_of_build hconf.typed ht.build

theorem BuiltTable.distinctNames : DistinctNames conf := by
  obtain ⟨r₀, hconf⟩ := ht.configured
  exact hconf.distinctNames

theorem BuiltTable.getPartition : r.getPartition db tbl = .ok p := by
  rw [Router.getPartition, ht.entry]
  rfl

/-- Every row lies in the physical table of its key. -/
def Placed (H : Hasher) (p : Partition) {shardKey : String} (s : Store sem shardKey) : Prop :=
  ∀ loc, ∀ row ∈ s loc, ∃ seg, p.Holds H row.key seg ∧ (seg.backend, seg.table) = loc

omit ht in
/-- An assignment that leaves the shard key out keeps the literal of the key. -/
theorem key_of_assigned {assigned : List String} {old new : StoredRow sem shardKey} (h : Assigned assigned old new)
    (hkey : isUpdateShardKey assigned shardKey = false) (hne : shardKey ≠ "") : new.key = old.key := by
  refine h.2 fun a ha heq => ?_
  simp only [isUpdateShardKey, hne, ne_eq, not_false_eq_true, decide_true, Bool.true_and,
    any_eq_false, equalString, decide_eq_true_eq] at hkey
  exact hkey a ha heq

theorem BuiltTable.shardKey_ne : conf.shardKey ≠ "" := by
  obtain ⟨r₀, hconf⟩ := ht.configured
  exact hconf.shardKey_ne

theorem InsertPlan.build_ok {columns onDup : List String} (h : InsertPlan.build r H db tbl columns onDup rows = .ok qs)
    : isUpdateShardKey onDup conf.shardKey = false ∧
      ∃ idx, (columns.findIdx? fun column => equalString column conf.shardKey) = some idx ∧
        Divided r H db tbl idx rows qs ∧ qs.Pairwise fun a b => a.tuple.table ≤ b.tuple.table := by
  unfold Planner.InsertPlan.build at h
  rw [ht.entry] at h
  obtain ⟨t, htable, h⟩ := except_bind_ok h
  cases htable
  split at h
  · cases h
  · rename_i hdup
    split at h
    · cases h
    · rename_i idx hidx
      obtain ⟨rTuples, hrows, h⟩ := except_bind_ok h
      cases h
      have hempty : Divided (V := V) r H db tbl idx [] [] := ⟨nodup_nil, by simp, by simp⟩
      have hdivided := insertRows_divided ht.built ht.distinctNames ht.getPartition hrows hempty
      exact ⟨Bool.eq_false_of_not_eq_true hdup, idx, hidx, hdivided.perm (perm_insertionSort _ _),
        pairwise_insertionSort _ _⟩

/-- An `INSERT` sends every row to the segment of its shard key. Each query has the rows of one physical table in
their order, and the names of the tables are strictly increasing. -/
theorem InsertPlan.build_divided {columns onDup : List String} {rows : List (List (Scalar V))}
    {qs : List (RowsTuple V)} (h : InsertPlan.build r H db tbl columns onDup rows = .ok qs) :
    ∃ idx, (columns.findIdx? fun column => equalString column conf.shardKey) = some idx ∧
      (∀ row ∈ rows, ∃ v seg segs, row[idx]? = some (.val v) ∧ r.lookup H db tbl v = .ok (seg :: segs) ∧
        ∃ q ∈ qs, q.tuple = ⟨seg.backend, seg.table, seg.range⟩ ∧ row ∈ q.rows) ∧
      (∀ q ∈ qs, q.rows ≠ [] ∧ q.rows = rows.filter fun row => rowTuple r H db tbl idx row = some q.tuple) ∧
      qs.Pairwise fun a b => a.tuple.table < b.tuple.table := by
  obtain ⟨-, idx, hidx, hdivided, hsorted⟩ := InsertPlan.build_ok ht h
  refine ⟨idx, hidx, fun row hrow => ?_, hdivided.own, ?_⟩
  · obtain ⟨q, hq, htuple⟩ := hdivided.covered row hrow
    obtain ⟨v, seg, segs, hv, hlookup, -, heq⟩ := rowTuple_eq_some htuple
    refine ⟨v, seg, segs, hv, hlookup, q, hq, heq, ?_⟩
    rw [(hdivided.own q hq).2, List.mem_filter]
    exact ⟨hrow, decide_eq_true htuple⟩
  · exact (hsorted.and (List.pairwise_map.1 hdivided.nodup)).imp fun h => lt_of_le_of_ne h.1 h.2

variable {where_ : Option (Expr V)} {m : MergeNode V}

/-- An accepted `UPDATE` leaves the shard key alone, and its queries go to the segments of its condition. -/
theorem UpdatePlan.build_ok {assigned : List String} {qs : List Planner.QueryTuple}
    (h : UpdatePlan.build r H order db tbl assigned where_ = .ok qs) :
    isUpdateShardKey assigned conf.shardKey = false ∧ ∃ e segs, where_ = some e ∧
      lookupFromWhere r H order db tbl conf.shardKey e = .ok segs ∧ segs.mapM segmentTuple = .ok qs := by
  unfold Planner.UpdatePlan.build at h
  split at h
  · cases h
  · rw [ht.entry] at h
    obtain ⟨t, htable, h⟩ := except_bind_ok h
    cases htable
    split at h
    · cases h
    · rename_i hkey
      obtain ⟨segs, hsegs, h⟩ := except_bind_ok h
      exact ⟨Bool.eq_false_of_not_eq_true hkey, _, segs, rfl, hsegs, h⟩

/-- The queries of an accepted `DELETE` go to the segments of its condition, or to all segments. -/
theorem DeletePlan.build_ok {orderBy : List ColName} {qs : List Planner.QueryTuple}
    (h : DeletePlan.build r H order db tbl where_ orderBy = .ok qs) :
    ∃ segs, segs.mapM segmentTuple = .ok qs ∧ (where_ = none ∧ r.lookupAll db tbl = .ok segs ∨
        ∃ e, where_ = some e ∧ lookupFromWhere r H order db tbl conf.shardKey e = .ok segs) := by
  unfold Planner.DeletePlan.build at h
  obtain ⟨_, -, h⟩ := except_bind_ok h
  obtain ⟨_, -, h⟩ := except_bind_ok h
  split at h
  · obtain ⟨segs, hsegs, h⟩ := except_bind_ok h
    exact ⟨segs, h, .inl ⟨rfl, hsegs⟩⟩
  · rw [ht.entry] at h
    obtain ⟨t, htable, h⟩ := except_bind_ok h
    cases htable
    obtain ⟨segs, hsegs, h⟩ := except_bind_ok h
    exact ⟨segs, h, .inr ⟨_, rfl, hsegs⟩⟩

/-- A statement keeps the rows where they belong. -/
theorem Placed.written {s s' : Store sem conf.shardKey} (hs : Placed H p s)
    (h : Written sem r H order db tbl conf s s') : Placed H p s' := by
  intro loc row hrow
  cases h with
  | insert hplan hidx hrows =>
    obtain ⟨hdup, idx, hidx', hqs, -⟩ := InsertPlan.build_ok ht hplan
    cases hidx.symm.trans hidx'
    obtain hold | ⟨old, hold, hassigned⟩ | ⟨q, hq, rfl, values, hvalues, hval⟩ := hrows loc row hrow
    · exact hs loc row hold
    · rw [key_of_assigned hassigned hdup ht.shardKey_ne]
      exact hs loc old hold
    · rw [(hqs.own q hq).2, mem_filter, decide_eq_true_eq] at hvalues
      obtain ⟨v, seg, hv, hholds, htuple⟩ := rowTuple_spec ht.built ht.getPartition hvalues.2
      grind [QueryTuple.loc]
  | update hplan hrows =>
    obtain ⟨hkey, -⟩ := UpdatePlan.build_ok ht hplan
    obtain hold | ⟨q, hq, rfl, old, hold, hassigned⟩ := hrows loc row hrow
    · exact hs loc row hold
    · rw [key_of_assigned hassigned hkey ht.shardKey_ne]
      exact hs _ old hold
  | delete hplan hrows => exact hs loc row (hrows loc row hrow)

end Placement

/-- The number of a type of literals. -/
def ValType.code : ValType → ℕ
  | .strVal => 0
  | .intVal => 1
  | .floatVal => 2
  | .hexNum => 3
  | .hexVal => 4
  | .valArg => 5
  | .strValWithoutQuote => 6

/-- Literals as their own values. -/
def literalSem : Sem (String ×ₗ ℕ) where
  resolve := id
  lit v := some (toLex (v.val, v.type.code))
  like a b := a = b
  regexp a b := a = b
  ofTruth
    | none => ⊥
    | some false => some (toLex ("0", 0))
    | some true => some (toLex ("1", 0))
  castToBool
    | none => false
    | some v => decide (v = toLex ("1", 0))
  castToBool_ofTruth t := by rcases t with _ | _ | _ <;> decide

/-- The configuration of a list table with the value `1` on one backend and `2` on another. -/
def listConf : TableConfig where
  name := "t"
  slots := 0
  blocks := 0
  shardType := .list
  shardKey := "id"
  partitions := listPartitions "t" 0 [("1", "backend1"), ("2", "backend2")]

/-- A router with the list table. -/
def listRouter : Router :=
  (Router.init 4 2).run [.createDatabase "db", .createListTable true default "db" "t" "id"
    [⟨"backend1", [⟨.intVal, "1"⟩]⟩, ⟨"backend2", [⟨.intVal, "2"⟩]⟩]]

theorem listRouter_built : BuiltTable listRouter "db" "t" listConf (.list (ListPartition.build listConf)) where
  configured := by
    refine ⟨Router.init 4 2, ?_⟩
    refine @Configured.list _ ⟨id, fun _ => .refl _⟩ "t" "id"
      [⟨"backend1", [⟨.intVal, "1"⟩]⟩, ⟨"backend2", [⟨.intVal, "2"⟩]⟩] _ rfl
  build := rfl
  entry := rfl

/-- A stored row whose only column is its key. -/
def keyRow (v : String) : StoredRow literalSem "id" where
  key := ⟨.intVal, v⟩
  cells name := if name = "id" then literalSem.lit ⟨.intVal, v⟩ else ⊥
  key_cell := if_pos (by decide +kernel)

/-- A hash function that sends all keys to the first slot. -/
def firstSlot : Hasher where
  jump _ _ := 0
  jump_lt _ _ := Nat.lt_of_lt_of_le Nat.one_pos (Nat.le_max_right _ _)
  crc64 _ := 0
  parseFloat _ := .ok 0

/-- The row with the key `v`. -/
def keyValues (v : String) : List (Scalar (String ×ₗ ℕ)) := [.val ⟨.intVal, v⟩]

theorem insert_two : InsertPlan.build listRouter firstSlot "db" "t" ["id"] [] [keyValues "1", keyValues "2"] =
    .ok [⟨⟨"backend1", "t_0000", .list 0⟩, [keyValues "1"]⟩, ⟨⟨"backend2", "t_0001", .list 1⟩, [keyValues "2"]⟩] := by
  have hidx : (["id"].findIdx? fun column => equalString column listConf.shardKey) = some 0 := by
    decide +kernel
  have hle : "t_0000" ≤ "t_0001" := by decide +kernel
  simp only [Planner.InsertPlan.build, listRouter_built.entry, bind, Except.bind, isUpdateShardKey,
    any_nil, Bool.and_false, Bool.false_eq_true, if_false, hidx]
  rfl

/-- The row `2` of an `INSERT` of two rows is in one of its queries. -/
theorem insert_two_divided : ∃ q ∈ [(⟨⟨"backend1", "t_0000", .list 0⟩, [keyValues "1"]⟩ : RowsTuple (String ×ₗ ℕ)),
    ⟨⟨"backend2", "t_0001", .list 1⟩, [keyValues "2"]⟩], keyValues "2" ∈ q.rows := by
  obtain ⟨_, -, hrows, -⟩ := InsertPlan.build_divided listRouter_built insert_two
  obtain ⟨_, _, _, _, _, q, hq, _, hrow⟩ := hrows (keyValues "2") (by simp)
  exact ⟨q, hq, hrow⟩

end Radon
