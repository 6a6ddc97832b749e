import Mathlib.Data.List.Sort
import Radon.Router.Ownership

/-!
# Shifting a partition to another backend

`PartitionRuleShift` changes the configuration, writes it and loads the table again. The partition that is built
then is the old one with other physical tables: the keys go to the same segments, and one of these has another
backend.

A table whose configuration has another name than the table, as a failed `RENAME` leaves it, comes back under
that name, or the reload fails and the table is gone.
-/

namespace Radon

open List

/-! ## The same partition with other physical tables -/

/-- The segment on another physical table. -/
def Segment.move (φ : String × String → String × String) (seg : Segment) : Segment :=
  { seg with table := (φ seg.physical).1, backend := (φ seg.physical).2 }

/-- The partition on another physical table. -/
def PartitionConfig.move (φ : String × String → String × String) (part : PartitionConfig) : PartitionConfig :=
  { part with table := (φ part.physical).1, backend := (φ part.physical).2 }

/-- The slots with other segments. -/
def SlotMap.map (f : Segment → Segment) (m : SlotMap) : SlotMap := ⟨fun i => (m.find i).map f, m.size⟩

/-- The hash with other segments. -/
def Hash.map (f : Segment → Segment) (h : Hash) : Hash := ⟨h.slots, h.partitions.map f, h.segments.map f⟩

/-- The partition with other segments. -/
def Partition.map (f : Segment → Segment) : Partition → Partition
  | .hash h => .hash (h.map f)
  | .list l => .list ⟨l.segments.map f⟩
  | .global segments => .global (segments.map f)
  | .single segments => .single (segments.map f)

theorem SlotMap.fill_map (f : Segment → Segment) (text : String) (seg : Segment) (slots : List ℕ) (m : SlotMap) :
    (m.map f).fill text (f seg) slots = (m.fill text seg slots).map (SlotMap.map f) := by
  induction slots generalizing m with
  | nil => rfl
  | cons i slots ih =>
    rw [SlotMap.fill, SlotMap.fill]
    cases hfind : m.find i with
    | some s => simp [SlotMap.map, hfind, Except.map]
    | none => grind [map]

section Move

variable (φ : String × String → String × String)

theorem Hash.buildFrom_move (n : ℕ) (parts : List PartitionConfig) (h : Hash) :
    Hash.buildFrom n (parts.map (PartitionConfig.move φ)) (h.map (Segment.move φ)) =
      (Hash.buildFrom n parts h).map (Hash.map (Segment.move φ)) := by
  induction parts generalizing n h with
  | nil => rfl
  | cons part parts ih =>
    rw [map_cons, Hash.buildFrom, Hash.buildFrom]
    have hsegment : (part.move φ).segment = part.segment := rfl
    cases hbounds : parseSegment part.segment with
    | error e => simp only [hsegment, hbounds, bind, Except.bind, Except.map]
    | ok bounds =>
      let seg : Segment := { table := part.table, backend := part.backend, range := .hash n bounds.1 bounds.2 }
      have hfill := SlotMap.fill_map (Segment.move φ) part.segment seg
        (List.range' bounds.1 (bounds.2 - bounds.1)) h.partitions
      simp only [hsegment, hbounds, bind, Except.bind]
      rw [show (⟨(part.move φ).table, (part.move φ).backend, .hash n bounds.1 bounds.2, ""⟩ : Segment) =
        seg.move φ from rfl, show (h.map (Segment.move φ)).partitions = h.partitions.map (Segment.move φ) from rfl,
        hfill]
      cases h.partitions.fill part.segment seg (List.range' bounds.1 (bounds.2 - bounds.1)) with
      | error e => rfl
      | ok filled =>
        rw [Except.map, ← ih]
        simp [Hash.map, seg]

theorem listSegments_move (n : ℕ) (parts : List PartitionConfig) :
    ListPartition.buildFrom n (parts.map (PartitionConfig.move φ)) =
      (ListPartition.buildFrom n parts).map (Segment.move φ) := by
  induction parts generalizing n with
  | nil => rfl
  | cons part parts ih =>
    rw [map_cons, ListPartition.buildFrom, ih]
    rfl

theorem plainSegments_move (range : ℕ → KeyRange) (n : ℕ) (parts : List PartitionConfig) :
    plainSegments range n (parts.map (PartitionConfig.move φ)) = (plainSegments range n parts).map (Segment.move φ) := by
  induction parts generalizing n with
  | nil => rfl
  | cons part parts ih =>
    rw [map_cons, plainSegments, ih]
    rfl

variable {φ} {conf conf' : TableConfig} (hparts : conf'.partitions = conf.partitions.map (PartitionConfig.move φ))

include hparts

theorem Hash.build_move (slots : ℕ) :
    Hash.build slots conf' = (Hash.build slots conf).map (Hash.map (Segment.move φ)) := by
  have hfrom := Hash.buildFrom_move φ 0 conf.partitions ⟨slots, .empty, []⟩
  rw [← hparts] at hfrom
  rw [Hash.build, show (⟨slots, .empty, []⟩ : Hash) = Hash.map (Segment.move φ) ⟨slots, .empty, []⟩ from rfl, hfrom,
    Hash.build]
  cases Hash.buildFrom 0 conf.partitions ⟨slots, .empty, []⟩ with
  | error e => rfl
  | ok h =>
    simp only [Except.map, bind, Except.bind]
    rw [show (h.map (Segment.move φ)).partitions.size = h.partitions.size from rfl]
    split_ifs
    · rfl
    · -- the order of the segments is that of their ranges
      simp only [Hash.map, Except.ok.injEq, Hash.mk.injEq, true_and]
      symm
      apply map_insertionSort
      exact fun _ _ _ _ => Iff.rfl

/-- The physical tables do not matter to what is built. -/
theorem Partition.build_move (htype : conf'.shardType = conf.shardType) (hslots : conf'.slots = conf.slots) (slots : ℕ)
    : Partition.build slots conf' = (Partition.build slots conf).map (Partition.map (Segment.move φ)) := by
  rw [Partition.build, Partition.build, htype, hslots]
  cases conf.shardType with
  | hash =>
    simp only [Hash.build_move hparts]
    cases Hash.build (if conf.slots = 0 then slots else conf.slots) conf <;> rfl
  | list => simp only [ListPartition.build, hparts, listSegments_move, Except.map, Partition.map]
  | global | single => simp only [hparts, plainSegments_move, Except.map, Partition.map]

end Move

/-! ## Fresh entries -/

/-- The partition of a table under the name of its configuration is the one that is built from it. -/
def Router.Fresh (r : Router) : Prop :=
  ∀ db t T, r.tables db t = some T → T.name = t ∧
    (T.tableConfig.name = t → T.partition = (Partition.build r.slots T.tableConfig).toOption)

variable {r : Router}

theorem Router.Fresh.step (h : r.Fresh) (op : RouterOp) : (r.step op).2.Fresh := by
  intro d n T hT
  rw [Router.step_slots]
  obtain hT | ⟨_, _, S, toTable, -, hS, hto, rfl⟩ | ⟨conf, -, rfl, rfl⟩ :=
    Router.step_tables (fun d n S hS => (h d n S hS).1) hT
  · exact h d n T hT
  · -- the configuration has the name of a table that is not there
    refine ⟨(h d n S hS).1, fun hname => ?_⟩
    obtain rfl : toTable = n := hname
    cases hS.symm.trans hto
  · exact ⟨rfl, fun _ => rfl⟩

theorem Router.Fresh.run (h : r.Fresh) (ops : List RouterOp) : (r.run ops).Fresh := by
  induction ops generalizing r with
  | nil => exact h
  | cons op ops ih => exact ih (h.step op)

theorem Router.Fresh.init (slots blocks : ℕ) : (Router.init slots blocks).Fresh := by
  intro db t T h
  cases h

/-! ## The shift -/

section Shift

variable (fromBackend toBackend db partitionTable found : String)

/-- The physical table of the shift on the new backend; the others stay. -/
def shiftTo (x : String × String) : String × String :=
  if x = (partitionTable, fromBackend) then (partitionTable, toBackend) else x

/-- One partition of one table is on the new backend, or a global table has one more. All other tables, segments
and configurations are the same. -/
structure Router.Shifted (r r' : Router) : Prop where
  databases : r'.databases = r.databases
  tables : ∀ d t, ¬ (d = db ∧ t = found) → r'.tables d t = r.tables d t
  files : ∀ d t, ¬ (d = db ∧ t = found) → r'.files d t = r.files d t
  table : ∃ T p pre part post, r.tables db found = some T ∧ T.partition = some p ∧
    T.tableConfig.partitions = pre ++ part :: post ∧ part.physical = (partitionTable, fromBackend) ∧
    ((T.tableConfig.shardType ≠ .global ∧
      r'.tables db found = some ⟨found, T.tableConfig.shardKey,
        some (p.map (Segment.move (shiftTo fromBackend toBackend partitionTable))),
        { T.tableConfig with partitions := pre ++ { part with backend := toBackend } :: post }⟩) ∨
    (T.tableConfig.shardType = .global ∧ ∃ segs range, p = .global segs ∧
      r'.tables db found = some ⟨found, T.tableConfig.shardKey, some (.global (segs ++ [⟨found, toBackend, range, ""⟩])),
        { T.tableConfig with partitions := T.tableConfig.partitions ++ [⟨found, "", toBackend, ""⟩] }⟩))

variable {fromBackend toBackend db partitionTable found}

variable {part : PartitionConfig} {moved pre post : List PartitionConfig}

variable {r : Router} {written : Bool}

end Shift

end Radon
