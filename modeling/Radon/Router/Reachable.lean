import Mathlib.Data.Finset.Card
import Radon.Router.PartitionSpec

/-!
# The states of the router

What every operation keeps: the configuration of a table suits its type, and the partition in memory was
built from one of the same shape. The slots of a hash table are all assigned, so that every index below
their number has a segment.
-/

namespace Radon

open List

/-! ## Bounds of a segment -/

variable {n : ℕ} {seg : Segment} {conf : TableConfig} {r : Router} {table : String}

theorem le_of_isDigit {c : Char} (h : c.isDigit = true) : '0' ≤ c ∧ c ≤ '9' := by
  rw [Char.isDigit, Bool.and_eq_true, decide_eq_true_eq, decide_eq_true_eq] at h
  exact h

theorem parseDigits_decimal {cs : List Char} (hcs : ∀ c ∈ cs, c.isDigit = true) {k : ℕ}
    (h : parseDigits 10 n cs = .ok k) : k = Nat.ofDigitChars 10 cs n := by
  induction cs generalizing n with
  | nil =>
    cases h
    rfl
  | cons c cs ih =>
    rw [parseDigits, digitVal, if_pos (le_of_isDigit (hcs c mem_cons_self))] at h
    simp only at h
    split_ifs at h
    rw [ih (fun d hd => hcs d (mem_cons_of_mem _ hd)) h, Nat.ofDigitChars, Nat.ofDigitChars,
      foldl_cons, Nat.mul_comm n 10]

theorem isDigit_toDigits {c : Char} (h : c ∈ Nat.toDigits 10 n) : c.isDigit = true :=
  Nat.isDigit_of_mem_toDigits (by norm_num) (by norm_num) h

/-- A number is read back from its text. -/
theorem atoi_toDigits {k : ℕ} (h : atoi (Nat.toDigits 10 n) = some k) : k = n := by
  have hplus : '+' ∉ Nat.toDigits 10 n := fun hmem => absurd (isDigit_toDigits hmem) (by decide)
  unfold atoi at h
  simp only at h
  split at h
  · rename_i heq
    exact absurd (heq ▸ mem_cons_self) hplus
  · split_ifs at h
    split at h
    · cases h
    · rename_i m hm
      split_ifs at h
      cases h
      rw [parseDigits_decimal (fun _ => isDigit_toDigits) hm,
        Nat.ofDigitChars_toDigits (by norm_num) (by norm_num)]

theorem splitOn_segment (a b : ℕ) : (toString a ++ "-" ++ toString b).toList.splitOn '-' =
    [Nat.toDigits 10 a, Nat.toDigits 10 b] := by
  have hdash {n : ℕ} : ∀ c ∈ Nat.toDigits 10 n, (c == '-') = false := fun c hc =>
    beq_false_of_ne fun heq => absurd (isDigit_toDigits (heq ▸ hc)) (by decide)
  have htext : (toString a ++ "-" ++ toString b).toList = Nat.toDigits 10 a ++ '-' :: Nat.toDigits 10 b := by
    simp [toString, Nat.toList_repr]
  rw [htext, List.splitOn, splitOnP_append_cons _ _ (by simp), splitOnP_eq_singleton hdash,
    splitOnP_eq_singleton hdash]
  rfl

theorem parseSegment_text {a b : ℕ} {bounds : ℕ × ℕ}
    (h : parseSegment (toString a ++ "-" ++ toString b) = .ok bounds) : bounds = (a, b) := by
  unfold parseSegment at h
  rw [splitOn_segment] at h
  simp only at h
  split at h
  · cases h
  · grind [atoi_toDigits]

/-! ## Slots -/

/-- The map has as many slots as its size says, all below a number. -/
def SlotMap.Counted (m : SlotMap) (n : ℕ) : Prop :=
  ∃ s : Finset ℕ, s.card = m.size ∧ s ⊆ Finset.range n ∧ ∀ i, m.find i ≠ none ↔ i ∈ s

theorem SlotMap.Counted.fill {text : String} {slots : List ℕ} {m m' : SlotMap} (hm : m.Counted n)
    (hslots : ∀ i ∈ slots, i < n) (h : m.fill text seg slots = .ok m') : m'.Counted n := by
  induction slots generalizing m with
  | nil =>
    cases h
    exact hm
  | cons i slots ih =>
    rw [SlotMap.fill] at h
    split at h
    · cases h
    · rename_i hnone
      refine ih ?_ (fun k hk => hslots k (mem_cons_of_mem _ hk)) h
      obtain ⟨s, hcard, hsub, hfind⟩ := hm
      have hi : i ∉ s := fun hmem => (hfind i).2 hmem hnone
      refine ⟨insert i s, by rw [Finset.card_insert_of_notMem hi, hcard], ?_, fun k => ?_⟩
      · grind
      · grind

/-- The bounds of the segments are not larger than a number. -/
def SegmentsWithin (parts : List PartitionConfig) (n : ℕ) : Prop :=
  ∀ part ∈ parts, ∀ bounds, parseSegment part.segment = .ok bounds → bounds.2 ≤ n

theorem Hash.buildFrom_counted {parts : List PartitionConfig} {k : ℕ} {h h' : Hash} (hparts : SegmentsWithin parts n)
    (hh : h.partitions.Counted n) (hb : Hash.buildFrom k parts h = .ok h') : h'.partitions.Counted n := by
  induction parts generalizing k h with
  | nil =>
    cases hb
    exact hh
  | cons part parts ih =>
    obtain ⟨bounds, hbounds, hb⟩ := except_bind_ok hb
    obtain ⟨filled, hfilled, hb⟩ := except_bind_ok hb
    refine ih (fun p hp => hparts p (mem_cons_of_mem _ hp)) (hh.fill (fun i hi => ?_) hfilled) hb
    have hle := hparts part mem_cons_self bounds hbounds
    rw [mem_range'_1] at hi
    omega

/-- A hash table assigns all its slots. -/
theorem Hash.build_total {slots : ℕ} {h : Hash} (hb : Hash.build slots conf = .ok h)
    (hparts : SegmentsWithin conf.partitions slots) {i : ℕ} (hi : i < h.slots) : h.partitions.find i ≠ none := by
  obtain ⟨h₀, hh₀, hsize, rfl⟩ := Hash.build_ok hb
  have hempty : SlotMap.empty.Counted slots := ⟨∅, rfl, Finset.empty_subset _, fun i => by simp [SlotMap.empty]⟩
  obtain ⟨s, hcard, hsub, hfind⟩ := Hash.buildFrom_counted hparts hempty hh₀
  have hall : s = Finset.range slots := Finset.eq_of_subset_of_card_le hsub (by simp [hcard, hsize])
  have hslots : h₀.slots = slots := Hash.buildFrom_slots hh₀
  rw [hfind, hall, Finset.mem_range]
  exact hslots ▸ hi

/-- The segments of `HashUniform` end at the number of slots. -/
theorem hashPartitions_within (table : String) {slots blocks slotsPerShard : ℕ} {backends : List String}
    (hper : backends.length * slotsPerShard ≤ slots) :
    SegmentsWithin (hashPartitions table slots blocks slotsPerShard (slotsPerShard / blocks) backends) slots := by
  intro part hpart bounds hbounds
  obtain ⟨⟨backend, s⟩, hs, hpart⟩ := mem_flatMap.1 hpart
  obtain ⟨i, hi, rfl⟩ := mem_map.1 hpart
  have hs : s < backends.length := by
    have hzip := mem_zipIdx hs
    omega
  rw [mem_range] at hi
  obtain rfl := parseSegment_text hbounds
  have hstep : s * slotsPerShard + slotsPerShard ≤ slots :=
    calc s * slotsPerShard + slotsPerShard = (s + 1) * slotsPerShard := (Nat.succ_mul _ _).symm
      _ ≤ backends.length * slotsPerShard := Nat.mul_le_mul_right _ hs
      _ ≤ slots := hper
  have hblock : (i + 1) * blocks ≤ slotsPerShard :=
    calc (i + 1) * blocks ≤ slotsPerShard / blocks * blocks := Nat.mul_le_mul_right _ hi
      _ ≤ slotsPerShard := Nat.div_mul_le_self _ _
  dsimp only
  split_ifs <;> omega

/-! ## Configurations -/

/-- The part of a partition configuration that decides where keys go. -/
def PartitionConfig.shape (p : PartitionConfig) : String × String × String :=
  (p.segment, p.backend, p.listValue)

/-- The part of a configuration that decides where keys go. -/
def TableConfig.shape (conf : TableConfig) : MethodType × ℕ × List (String × String × String) :=
  (conf.shardType, conf.slots, conf.partitions.map PartitionConfig.shape)

/-- The values of the partitions. -/
def TableConfig.listValues (conf : TableConfig) : List String :=
  conf.partitions.map PartitionConfig.listValue

/-- What every configuration of a table has: slots for a hash table, empty segments and different
values for a list table, a key for both and none for the others, and one partition for a single table. -/
structure ConfOk (conf : TableConfig) : Prop where
  hash : conf.shardType = .hash → 0 < conf.slots
  hashWithin : conf.shardType = .hash → SegmentsWithin conf.partitions conf.slots
  listSegment : conf.shardType = .list → ∀ part ∈ conf.partitions, part.segment = ""
  listNonempty : conf.shardType = .list → conf.partitions ≠ []
  listNodup : conf.shardType = .list → conf.listValues.Nodup
  key : conf.shardType = .hash ∨ conf.shardType = .list → conf.shardKey ≠ ""
  noKey : conf.shardType = .global ∨ conf.shardType = .single → conf.shardKey = ""
  single : conf.shardType = .single → conf.partitions.length = 1

/-- The table has a sound configuration, and its partition was built from one of the same shape. -/
structure TableOk (slots : ℕ) (t : Table) : Prop where
  conf : ConfOk t.tableConfig
  built : ∀ p, t.partition = some p →
    ∃ conf, Partition.build slots conf = .ok p ∧ conf.shape = t.tableConfig.shape

/-- Every table of the router is sound and stands under its own name. -/
def Router.Ok (r : Router) : Prop :=
  ∀ db name t, r.tables db name = some t → t.name = name ∧ TableOk r.slots t

/-- A table that is added is new and is built from its configuration. -/
theorem Router.addTable_ok {r' : Router} {db : String} (h : r.addTable db conf = (none, r')) :
    r.databases db = true ∧ r.tables db conf.name = none ∧ ∃ p, Partition.build r.slots conf = .ok p ∧
      r' = r.putTable db conf.name (some ⟨conf.name, conf.shardKey, some p, conf⟩) := by
  unfold Router.addTable at h
  split_ifs at h with hdb
  · cases h
  · grind

theorem ConfOk.of_hashUniform {shardKey : String} {backends : List String} {partitionNum : Option SQLVal}
    (h : r.hashUniform table shardKey backends partitionNum = .ok conf) : ConfOk conf := by
  obtain ⟨hkey, -, hslots, -, rfl⟩ := hashUniform_eq h
  refine ⟨fun _ => Nat.zero_lt_of_lt hslots, fun _ => hashPartitions_within table ?_, nofun, nofun, nofun,
    fun _ => hkey, fun h => h.elim nofun nofun, nofun⟩
  rw [length_insertionSort]
  exact Nat.mul_div_le _ _

theorem listPartitions_values (table : String) (n : ℕ) (entries : List (String × String)) :
    (listPartitions table n entries).map PartitionConfig.listValue = entries.map Prod.fst := by
  conv_rhs => rw [← zipIdx_map_fst n entries]
  rw [listPartitions_eq, map_map, map_map]
  rfl

theorem ConfOk.of_listUniform {order : ListOrder} {shardKey : String} {defs : List PartitionDefinition}
    (h : listUniform order table shardKey defs = .ok conf) : ConfOk conf := by
  obtain ⟨m, hkey, hne, rfl⟩ := listUniform_ok h
  have hperm := order.perm m.entries
  refine ⟨nofun, nofun, fun _ => by rw [listPartitions_eq, forall_mem_map]; exact fun _ _ => rfl,
    fun _ hnil => hne ?_, fun _ => ?_, fun _ => hkey, fun h => h.elim nofun nofun, nofun⟩
  · have hlen := congrArg (List.length ∘ List.map PartitionConfig.listValue) hnil
    simp only [Function.comp, listPartitions_values, length_map, hperm.length_eq, map_nil,
      length_nil, length_eq_zero_iff] at hlen
    exact hlen
  · rw [TableConfig.listValues, listPartitions_values]
    exact ((hperm.map _).nodup_iff).2 m.nodup

theorem ConfOk.of_globalUniform {backends : List String}
    (h : globalUniform table backends = .ok conf) : ConfOk conf := by
  obtain ⟨-, rfl⟩ := globalUniform_eq h
  exact ⟨nofun, nofun, nofun, nofun, nofun, fun h => h.elim nofun nofun, fun _ => rfl, nofun⟩

theorem ConfOk.of_singleUniform {backends : List String}
    (h : singleUniform table backends = .ok conf) : ConfOk conf := by
  obtain ⟨backend, -, rfl⟩ := singleUniform_eq h
  exact ⟨nofun, nofun, nofun, nofun, nofun, fun h => h.elim nofun nofun, fun _ => rfl, fun _ => rfl⟩

theorem TableConfig.shape_rename (conf : TableConfig) (fromTable toTable : String) :
    (conf.rename fromTable toTable).shape = conf.shape := by
  simp [TableConfig.shape, TableConfig.rename, PartitionConfig.shape, Function.comp_def]

theorem ConfOk.rename (h : ConfOk conf) (fromTable toTable : String) : ConfOk (conf.rename fromTable toTable) where
  hash := h.hash
  hashWithin hh part hpart := by
    obtain ⟨part', hpart', rfl⟩ := mem_map.1 hpart
    exact h.hashWithin hh part' hpart'
  listSegment hl part hpart := by
    obtain ⟨part', hpart', rfl⟩ := mem_map.1 hpart
    exact h.listSegment hl part' hpart'
  listNonempty hl hnil := h.listNonempty hl (map_eq_nil_iff.1 hnil)
  listNodup hl := by
    simpa [TableConfig.listValues, TableConfig.rename, Function.comp_def] using h.listNodup hl
  key := h.key
  noKey := h.noKey
  single hs := by
    rw [TableConfig.rename, length_map]
    exact h.single hs

/-- Partitions with the segments of others have them among the segments of the others. -/
theorem segment_of_fixed {parts parts' : List PartitionConfig} (hparts : parts.map (fun p => (p.segment, p.listValue)) =
      parts'.map fun p => (p.segment, p.listValue)) {part : PartitionConfig} (hpart : part ∈ parts) :
    ∃ part' ∈ parts', part'.segment = part.segment := by
  have hmem : (part.segment, part.listValue) ∈ parts'.map fun p => (p.segment, p.listValue) :=
    hparts ▸ mem_map_of_mem hpart
  grind

theorem ConfOk.move (h : ConfOk conf) {parts : List PartitionConfig}
    (hparts : parts.map (fun p => (p.segment, p.listValue)) =
      conf.partitions.map fun p => (p.segment, p.listValue)) : ConfOk { conf with partitions := parts } where
  hash := h.hash
  hashWithin hh part hpart := by
    obtain ⟨part', hpart', heq⟩ := segment_of_fixed hparts hpart
    exact heq ▸ h.hashWithin hh part' hpart'
  listSegment hl part hpart := by
    obtain ⟨part', hpart', heq⟩ := segment_of_fixed hparts hpart
    exact heq ▸ h.listSegment hl part' hpart'
  listNonempty hl hnil := by
    have hnil : parts = [] := hnil
    rw [hnil, map_nil] at hparts
    exact h.listNonempty hl (map_eq_nil_iff.1 hparts.symm)
  listNodup hl := by
    have hvalues := congrArg (List.map Prod.snd) hparts
    simp only [map_map, Function.comp_def] at hvalues
    simpa [TableConfig.listValues, hvalues] using h.listNodup hl
  key := h.key
  noKey := h.noKey
  single hs := by
    have hlength := congrArg List.length hparts
    rw [length_map, length_map] at hlength
    exact hlength.trans (h.single hs)

/-! ## Where the tables come from -/

/-- The configuration that a shift writes: a global table gets another partition, the others move one. -/
def Table.shifted (T : Table) (toBackend : String) (moved : List PartitionConfig) : TableConfig :=
  { T.tableConfig with
    partitions := if T.tableConfig.shardType = .global then
      T.tableConfig.partitions ++ [⟨T.name, "", toBackend, ""⟩] else moved }

/-- The configurations that an operation may give to a table. -/
inductive Router.ConfOf (r : Router) : RouterOp → TableConfig → Prop
  | hash {written : Bool} {db table shardKey : String} {backends : List String} {partitionNum : Option SQLVal}
      {conf : TableConfig} (h : r.hashUniform table shardKey backends partitionNum = .ok conf) :
      ConfOf r (.createHashTable written db table shardKey backends partitionNum) conf
  | list {written : Bool} {order : ListOrder} {db table shardKey : String} {defs : List PartitionDefinition}
      {conf : TableConfig} (h : listUniform order table shardKey defs = .ok conf) :
      ConfOf r (.createListTable written order db table shardKey defs) conf
  | global {written : Bool} {db table : String} {backends : List String} {conf : TableConfig}
      (h : globalUniform table backends = .ok conf) : ConfOf r (.createGlobalTable written db table backends) conf
  | single {written : Bool} {db table : String} {backends : List String} {conf : TableConfig}
      (h : singleUniform table backends = .ok conf) : ConfOf r (.createSingleTable written db table backends) conf
  | rename {written removed : Bool} {db fromTable toTable : String} {T : Table} (h : r.tables db fromTable = some T) :
      ConfOf r (.rename written removed db fromTable toTable) (T.tableConfig.rename fromTable toTable)
  | shift {written : Bool} {fromBackend toBackend db partitionTable found : String} {T : Table}
      {moved : List PartitionConfig} (h : r.tables db found = some T)
      (hmoved : movePartition fromBackend toBackend partitionTable T.tableConfig.partitions = some moved) :
      ConfOf r (.shift written fromBackend toBackend db partitionTable found) (T.shifted toBackend moved)

/-- The entry that `addTable` makes, with the partition if it can be built. -/
def TableConfig.entry (slots : ℕ) (conf : TableConfig) : Table :=
  ⟨conf.name, conf.shardKey, (Partition.build slots conf).toOption, conf⟩

theorem TableConfig.build_of_entry {slots : ℕ} {p : Partition}
    (h : (conf.entry slots).partition = some p) : Partition.build slots conf = .ok p := by
  rw [TableConfig.entry] at h
  cases hbuild : Partition.build slots conf with
  | error e =>
    rw [hbuild] at h
    cases h
  | ok q =>
    rw [hbuild] at h
    cases h
    rfl

section Tables

variable {r : Router} {written : Bool} {db : String} {conf : TableConfig} {d n : String} {T : Table}

theorem Router.removeTable_tables (h : (r.removeTable db table).tables d n = some T) : r.tables d n = some T := by
  simp only [Router.removeTable, Router.putTable, updateEntry] at h
  split at h
  · cases h
  · exact h

theorem Router.addTable_tables (h : (r.addTable db conf).2.tables d n = some T) :
    r.tables d n = some T ∨ (d = db ∧ n = conf.name) ∧ T = conf.entry r.slots := by
  unfold Router.addTable at h
  split at h
  · exact .inl h
  split at h
  · exact .inl h
  rw [TableConfig.entry]
  cases hbuild : Partition.build r.slots conf with
  | error e | ok p =>
    simp only [hbuild, Router.putTable, updateEntry] at h
    split at h
    · cases h
      exact .inr ⟨‹_›, rfl⟩
    · exact .inl h

theorem Router.createTable_tables (h : (r.createTable written db table conf).2.tables d n = some T) :
    r.tables d n = some T ∨ (d = db ∧ n = conf.name) ∧ T = conf.entry r.slots := by
  unfold Router.createTable at h
  split at h
  · exact .inl h
  split at h
  · grind [addTable_tables]
  · grind [addTable_tables, removeTable_tables, putFile]

/-- The configuration is changed in memory and in the file before the table is loaded again. -/
theorem Router.changeTheRuleBackend_ok {fromBackend toBackend partitionTable found : String} {changed : Router}
    (h : r.changeTheRuleBackend written fromBackend toBackend db partitionTable found = .ok (table, changed)) :
    fromBackend ≠ toBackend ∧ r.databases db = true ∧ ∃ S moved, r.tables db found = some S ∧ table = S.name ∧
      movePartition fromBackend toBackend partitionTable S.tableConfig.partitions = some moved ∧
      changed = (r.putTable db found (some { S with tableConfig := S.shifted toBackend moved })).putFile db S.name
        (some (S.shifted toBackend moved)) := by
  unfold Router.changeTheRuleBackend at h
  split at h
  · cases h
  rename_i hne
  split at h
  · cases h
  rename_i hdb
  simp only at h
  split at h
  · cases h
  rename_i S hS
  split at h
  · cases h
  rename_i moved hmoved
  split at h
  · cases h
  split at h
  · cases h
  cases h
  exact ⟨hne, by simpa using hdb, S, moved, hS, rfl, hmoved, rfl⟩

/-- A table under its own name is removed and added from its file. -/
theorem Router.refreshTable_changed (S : Table) (conf : TableConfig) :
    ((r.putTable db S.name (some { S with tableConfig := conf })).putFile db S.name (some conf)).refreshTable db
      S.name = ((r.putFile db S.name (some conf)).removeTable db S.name).addTable db conf := by
  simp only [Router.refreshTable, Router.removeTable, Router.putTable, Router.putFile, updateEntry, and_self,
    if_true]
  congr 2
  funext d n
  simp only [updateEntry]
  split_ifs <;> rfl

/-- Every table is an old one, one whose configuration was renamed in its place, or a new entry. -/
theorem Router.step_tables (hr : ∀ d n S, r.tables d n = some S → S.name = n) {op : RouterOp}
    (h : (r.step op).2.tables d n = some T) : r.tables d n = some T ∨
      (∃ written removed S toTable, op = .rename written removed d n toTable ∧ r.tables d n = some S ∧
        r.tables d toTable = none ∧ T = { S with tableConfig := S.tableConfig.rename n toTable }) ∨
      ∃ conf, r.ConfOf op conf ∧ n = conf.name ∧ T = conf.entry r.slots := by
  have hcreate {written : Bool} {db table : String} {conf : Except String TableConfig}
      (hconf : ∀ c, conf = .ok c → r.ConfOf op c)
      (h : (r.create written db table conf).2.tables d n = some T) :
      r.tables d n = some T ∨ ∃ conf, r.ConfOf op conf ∧ n = conf.name ∧ T = conf.entry r.slots := by
    cases conf with
    | error e => exact .inl h
    | ok c => exact (Router.createTable_tables h).imp id fun ⟨hn, hT⟩ => ⟨c, hconf c rfl, hn.2, hT⟩
  cases op with
  | createDatabase db => exact .inl h
  | createHashTable => exact (hcreate (fun _ hc => .hash hc) h).imp id .inr
  | createListTable => exact (hcreate (fun _ hc => .list hc) h).imp id .inr
  | createGlobalTable => exact (hcreate (fun _ hc => .global hc) h).imp id .inr
  | createSingleTable => exact (hcreate (fun _ hc => .single hc) h).imp id .inr
  | dropTable removed db table =>
    simp only [Router.step] at h
    grind [removeTable_tables, putFile]
  | rename written removed db fromTable toTable =>
    simp only [Router.step, Router.renameTable] at h
    split at h
    · exact .inl h
    split at h
    · exact .inl h
    rename_i S hS
    split at h
    · exact .inl h
    rename_i hto
    have hcreated {result : Option String × Router}
        (hresult : (r.putTable db fromTable
          (some { S with tableConfig := S.tableConfig.rename fromTable toTable })).createTable written db toTable
          (S.tableConfig.rename fromTable toTable) = result) (h : result.2.tables d n = some T) :
        r.tables d n = some T ∨
          (∃ w m S to', RouterOp.rename written removed db fromTable toTable = .rename w m d n to' ∧
            r.tables d n = some S ∧ r.tables d to' = none ∧
            T = { S with tableConfig := S.tableConfig.rename n to' }) ∨
          ∃ conf, r.ConfOf (.rename written removed db fromTable toTable) conf ∧ n = conf.name ∧
            T = conf.entry r.slots := by
      rw [← hresult] at h
      obtain hold | ⟨hn, rfl⟩ := Router.createTable_tables h
      · simp only [Router.putTable, updateEntry] at hold
        split at hold
        · grind
        · exact .inl hold
      · exact .inr (.inr ⟨_, .rename hS, hn.2, rfl⟩)
    split at h
    · rename_i hresult
      exact hcreated hresult h
    · grind [removeTable_tables, putFile]
  | shift written fromBackend toBackend db partitionTable found =>
    simp only [Router.step, Router.partitionRuleShift] at h
    split at h
    · exact .inl h
    rename_i table changed hchange
    obtain ⟨-, -, S, moved, hS, rfl, hmoved, rfl⟩ := Router.changeTheRuleBackend_ok hchange
    obtain rfl := hr db found S hS
    rw [Router.refreshTable_changed] at h
    obtain h | ⟨hn, rfl⟩ := Router.addTable_tables h
    · exact .inl (Router.removeTable_tables h)
    · exact .inr (.inr ⟨_, .shift hS hmoved, hn.2, rfl⟩)

end Tables

theorem Router.addTable_slots (r : Router) (db : String) (conf : TableConfig) :
    (r.addTable db conf).2.slots = r.slots := by grind [addTable, putTable]

theorem Router.createTable_slots (r : Router) (written : Bool) (db table : String) (conf : TableConfig) :
    (r.createTable written db table conf).2.slots = r.slots := by
  unfold Router.createTable
  split
  · rfl
  have hslots := r.addTable_slots db conf
  split <;> rename_i hadd <;> rw [hadd] at hslots
  · exact hslots
  · split <;> exact hslots

theorem Router.step_slots (r : Router) (op : RouterOp) : (r.step op).2.slots = r.slots := by
  have hcreate (written : Bool) (db table : String) (conf : Except String TableConfig) :
      (r.create written db table conf).2.slots = r.slots := by
    cases conf with
    | error e => rfl
    | ok conf => exact r.createTable_slots written db table conf
  cases op with
  | createDatabase db => rfl
  | createHashTable | createListTable | createGlobalTable | createSingleTable => exact hcreate _ _ _ _
  | dropTable removed db table =>
    simp only [Router.step]
    split
    · rfl
    split <;> rfl
  | rename written removed db fromTable toTable =>
    simp only [Router.step, Router.renameTable]
    split
    · rfl
    split
    · rfl
    split
    · rfl
    split <;> rename_i hcreated
    · grind [createTable_slots, putTable]
    · grind [createTable_slots, putTable, putFile, removeTable]
  | shift written fromBackend toBackend db partitionTable found =>
    simp only [Router.step, Router.partitionRuleShift]
    split
    · rfl
    rename_i hchange
    obtain ⟨-, -, S, moved, -, rfl, -, rfl⟩ := Router.changeTheRuleBackend_ok hchange
    grind [addTable_slots, refreshTable, putFile, putTable, removeTable]

theorem ConfOk.of_confOf (h : r.Ok) {op : RouterOp} (hconf : r.ConfOf op conf) : ConfOk conf := by
  cases hconf with
  | hash h => exact .of_hashUniform h
  | list h => exact .of_listUniform h
  | global h => exact .of_globalUniform h
  | single h => exact .of_singleUniform h
  | rename hT => exact (h _ _ _ hT).2.conf.rename _ _
  | @shift _ _ _ _ _ _ T moved hT hmoved =>
    have hok := (h _ _ _ hT).2.conf
    by_cases hglobal : T.tableConfig.shardType = .global
    · constructor <;> simp [Table.shifted, hglobal, hok.noKey]
    · rw [Table.shifted, if_neg hglobal]
      exact hok.move (movePartition_map hmoved fun _ => rfl)

theorem Router.Ok.step (h : r.Ok) (op : RouterOp) : (r.step op).2.Ok := by
  intro d n T hT
  rw [Router.step_slots]
  obtain hT | ⟨_, _, S, toTable, -, hS, -, rfl⟩ | ⟨conf, hconf, rfl, rfl⟩ :=
    Router.step_tables (fun d n S hS => (h d n S hS).1) hT
  · exact h d n T hT
  · obtain ⟨hname, hok⟩ := h d n S hS
    refine ⟨hname, hok.conf.rename _ _, fun p hp => ?_⟩
    grind [TableOk.built, TableConfig.shape_rename]
  · exact ⟨rfl, .of_confOf h hconf, fun p hp => ⟨conf, TableConfig.build_of_entry hp, rfl⟩⟩

theorem Router.Ok.run (h : r.Ok) (ops : List RouterOp) : (r.run ops).Ok := by
  induction ops generalizing r with
  | nil => exact h
  | cons op ops ih => exact ih (h.step op)

theorem Router.Ok.init (slots blocks : ℕ) : (Router.init slots blocks).Ok :=
  fun _ _ _ h => nomatch h


/-! ## The segments of a table -/

/-- A slot that has a segment has one of the segments of the table. -/
theorem Hash.build_mem {slots : ℕ} {h : Hash} (hb : Hash.build slots conf = .ok h)
    {i : ℕ} {s : Segment} (hs : h.partitions.find i = some s) : s ∈ h.segments := by
  obtain ⟨h₀, hh₀, -, rfl⟩ := Hash.build_ok hb
  obtain ⟨segs, hsegs, -, hfind⟩ := Hash.buildFrom_segments hh₀
  obtain hempty | hmem := hfind i s hs
  · cases hempty
  · simp_all

theorem TableConfig.within_of_shape {conf' : TableConfig} (h : conf.shape = conf'.shape)
    (hwithin : SegmentsWithin conf'.partitions conf'.slots) : SegmentsWithin conf.partitions conf.slots := by
  have hslots : conf.slots = conf'.slots := congrArg (fun s => s.2.1) h
  have hparts : conf.partitions.map PartitionConfig.shape = conf'.partitions.map PartitionConfig.shape :=
    congrArg (fun s => s.2.2) h
  intro part hpart bounds hbounds
  obtain ⟨part', hpart', heq⟩ := mem_map.1 (hparts ▸ mem_map_of_mem hpart)
  have hsegment : part'.segment = part.segment := congrArg Prod.fst heq
  rw [hslots]
  exact hwithin part' hpart' bounds (hsegment ▸ hbounds)

section TableOk

variable {slots : ℕ} {t : Table} (h : TableOk slots t) {p : Partition} (hp : t.partition = some p)
include h hp

theorem TableOk.type : p.type = t.tableConfig.shardType := by
  obtain ⟨conf, hb, hshape⟩ := h.built p hp
  have htype : conf.shardType = t.tableConfig.shardType := congrArg Prod.fst hshape
  rw [← htype]
  unfold Partition.build at hb
  split at hb
  case h_1 heq =>
    obtain ⟨k, -, rfl⟩ := except_map_ok hb
    exact heq.symm
  all_goals
    rename_i heq
    cases hb
    exact heq.symm

/-- Every index that a table has leads to one of its segments. -/
theorem TableOk.getSegment_mem {idx : ℕ} (hseg : p.getSegment idx = .ok seg) : seg ∈ p.getSegments := by
  cases p with
  | hash k =>
    obtain ⟨conf, hb, hshape⟩ := h.built _ hp
    have htype : t.tableConfig.shardType = .hash := (h.type hp).symm
    have hconf : conf.shardType = .hash := (congrArg Prod.fst hshape).trans htype
    have hslots : conf.slots = t.tableConfig.slots := congrArg (fun s => s.2.1) hshape
    have hpos := h.conf.hash htype
    rw [Partition.build, hconf] at hb
    simp only at hb
    rw [if_neg (by omega)] at hb
    obtain ⟨k', hk, heq⟩ := except_map_ok hb
    cases heq
    have htotal := Hash.build_total hk (TableConfig.within_of_shape hshape (h.conf.hashWithin htype)) (i := idx)
    simp only [Partition.getSegment, Hash.getSegment] at hseg
    split at hseg
    · cases hseg
    · rename_i hlt
      obtain ⟨s, hs⟩ := Option.ne_none_iff_exists'.1 (htotal (by omega))
      rw [hs] at hseg
      cases hseg
      exact Hash.build_mem hk hs
  | list l =>
    simp only [Partition.getSegment, ListPartition.getSegment] at hseg
    grind [Partition.getSegments]
  | global segs | single segs =>
    simp only [Partition.getSegment] at hseg
    grind [Partition.getSegments]

theorem TableOk.pickSegments_subset {indexes : List ℕ} {segs out : List Segment}
    (hsegs : segs ⊆ p.getSegments) (hout : p.pickSegments indexes segs = .ok out) : out ⊆ p.getSegments := by
  induction indexes generalizing segs with
  | nil =>
    cases hout
    exact hsegs
  | cons idx indexes ih =>
    obtain ⟨seg, hseg, hout⟩ := except_bind_ok hout
    refine ih ?_ hout
    split
    · exact hsegs
    · grind [getSegment_mem]

/-- `GetSegments` yields segments of the table. -/
theorem TableOk.segmentsOf_subset {indexes : List ℕ} {segs : List Segment}
    (hsegs : p.segmentsOf indexes = .ok segs) : segs ⊆ p.getSegments := by
  unfold Partition.segmentsOf at hsegs
  split at hsegs
  · cases hsegs
    exact List.Subset.refl _
  · exact h.pickSegments_subset hp (nil_subset _) hsegs

theorem TableOk.range_ne (htype : t.tableConfig.shardType = .hash ∨ t.tableConfig.shardType = .list)
    (hseg : seg ∈ p.getSegments) : seg.range ≠ .nil := by
  obtain ⟨conf, hb, hshape⟩ := h.built p hp
  have hconf : conf.shardType = t.tableConfig.shardType := congrArg Prod.fst hshape
  have hslots : conf.slots = t.tableConfig.slots := congrArg (fun s => s.2.1) hshape
  have hbuilt : p.Built conf := Partition.built_of_build
    (htype.imp (fun hhash => ⟨hconf.trans hhash, hslots ▸ h.conf.hash hhash⟩) hconf.trans) hb
  exact hbuilt.range_ne hseg

/-- A single table has one segment. -/
theorem TableOk.single (hsingle : t.tableConfig.shardType = .single) : ∃ seg, p = .single [seg] := by
  obtain ⟨conf, hb, hshape⟩ := h.built p hp
  have htype : conf.shardType = .single := (congrArg Prod.fst hshape).trans hsingle
  have hparts := congrArg (fun s => s.2.2.length) hshape
  simp only [TableConfig.shape, length_map, h.conf.single hsingle] at hparts
  obtain ⟨part, hpart⟩ := length_eq_one_iff.1 hparts
  rw [Partition.build, htype, hpart] at hb
  cases hb
  exact ⟨_, rfl⟩

end TableOk

/-- However often an index occurs, the segment of a single table is picked once. -/
theorem pickSegments_single {indexes : List ℕ} {segs out : List Segment} (hsegs : segs = [] ∨ segs = [seg])
    (hout : (Partition.single [seg]).pickSegments indexes segs = .ok out) : out = [] ∨ out = [seg] := by
  induction indexes generalizing segs with
  | nil =>
    cases hout
    exact hsegs
  | cons idx indexes ih =>
    obtain ⟨s, hs, hout⟩ := except_bind_ok hout
    grind [Partition.getSegment]

theorem segmentsOf_single {indexes : List ℕ} {segs : List Segment}
    (hsegs : (Partition.single [seg]).segmentsOf indexes = .ok segs) : segs.length ≤ 1 := by
  unfold Partition.segmentsOf at hsegs
  split at hsegs
  · cases hsegs
    exact le_rfl
  · grind [pickSegments_single]

end Radon
