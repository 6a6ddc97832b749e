import Mathlib.Data.Nat.Digits.Lemmas
import Radon.Router.Router

/-!
# Segments of a built table

A configuration that the router computes gives different names to the physical tables. The segments of a
built partition are those of its configuration, so that a segment is known by its name as well as by its
range, and every index of a key leads to one of them.
-/

namespace Radon

open List

variable {ε α β : Type} {f : α → Except ε β} {xs : List α} {conf : TableConfig}
    {parts : List PartitionConfig} {r : Router} {table shardKey : String} {n : ℕ} {segs : List Segment}
    {seg seg' : Segment} {h : Hash} {p : Partition} {H : Hasher} {key : SQLVal} {indexes : List ℕ}

theorem except_bind_ok {x : Except ε α} {b : β}
    (h : (x >>= f) = .ok b) : ∃ a, x = .ok a ∧ f a = .ok b := by
  cases x with
  | error e => cases h
  | ok a => exact ⟨a, rfl, h⟩

theorem except_map_ok {x : Except ε α} {f : α → β} {b : β}
    (h : x.map f = .ok b) : ∃ a, x = .ok a ∧ f a = b := by
  cases x with
  | error e => cases h
  | ok a => exact ⟨a, rfl, Except.ok.inj h⟩

theorem mem_mapM_ok {ys : List β}
    (h : xs.mapM f = .ok ys) {x : α} (hx : x ∈ xs) : ∃ y ∈ ys, f x = .ok y := by
  induction xs generalizing ys with
  | nil => cases hx
  | cons a xs ih =>
    rw [mapM_cons] at h
    obtain ⟨b, hb, h⟩ := except_bind_ok h
    obtain ⟨bs, hbs, h⟩ := except_bind_ok h
    cases h
    grind

/-- Every result of a successful `mapM` comes from an element. -/
theorem of_mem_mapM_ok {ys : List β}
    (h : xs.mapM f = .ok ys) {y : β} (hy : y ∈ ys) : ∃ x ∈ xs, f x = .ok y := by
  induction xs generalizing ys with
  | nil =>
    cases h
    cases hy
  | cons a xs ih =>
    rw [mapM_cons] at h
    obtain ⟨b, hb, h⟩ := except_bind_ok h
    obtain ⟨bs, hbs, h⟩ := except_bind_ok h
    cases h
    grind

theorem exists_mapM_ok
    (h : ∀ x ∈ xs, ∃ y, f x = .ok y) : ∃ ys, xs.mapM f = .ok ys := by
  induction xs with
  | nil => exact ⟨[], rfl⟩
  | cons a xs ih =>
    obtain ⟨⟨b, hb⟩, hxs⟩ := forall_mem_cons.1 h
    obtain ⟨bs, hbs⟩ := ih hxs
    exact ⟨b :: bs, by rw [mapM_cons, hb, hbs]; rfl⟩

/-! ## Names of the physical tables -/

/-- The part of a physical name behind the name of the table. -/
def nameSuffix (n : ℕ) : List Char :=
  '_' :: (List.replicate (4 - (Nat.toDigits 10 n).length) '0' ++ Nat.toDigits 10 n)

theorem partitionName_toList (table : String) (n : ℕ) :
    (partitionName table n).toList = table.toList ++ nameSuffix n := by
  simp [partitionName, nameSuffix, Nat.toList_repr, toString]

theorem ofDigitChars_zeros (k init : ℕ) (h : init = 0) :
    Nat.ofDigitChars 10 (List.replicate k '0') init = 0 := by simp_all

theorem nameSuffix_injective : Function.Injective nameSuffix := by
  intro m n h
  have hvalue : ∀ k, Nat.ofDigitChars 10 (nameSuffix k).tail 0 = k := fun k => by
    rw [nameSuffix, tail_cons, Nat.ofDigitChars_append, ofDigitChars_zeros _ _ rfl,
      Nat.ofDigitChars_toDigits (by norm_num) (by norm_num)]
  rw [← hvalue m, h, hvalue n]

theorem replaceFirst_append (old new rest : List Char) :
    replaceFirst old new (old ++ rest) = new ++ rest := by
  cases h : old ++ rest with
  | nil =>
    obtain ⟨rfl, rfl⟩ := append_eq_nil_iff.1 h
    simp [replaceFirst]
  | cons c cs =>
    rw [replaceFirst, ← h, if_pos (by simp), drop_left]

/-- The physical names are the name of the table with different endings. -/
def DistinctNames (conf : TableConfig) : Prop :=
  ∃ suffixes : List (List Char), suffixes.Nodup ∧
    conf.partitions.map (fun part => part.table.toList) = suffixes.map (conf.name.toList ++ ·)

theorem DistinctNames.nodup (h : DistinctNames conf) :
    (conf.partitions.map PartitionConfig.table).Nodup := by
  obtain ⟨suffixes, hnodup, heq⟩ := h
  have hnames : (conf.partitions.map fun part => part.table.toList).Nodup := by
    rw [heq]
    exact hnodup.map fun a b hab => append_cancel_left hab
  grind

/-- The configurations that the operations of the router lead to. -/
inductive Configured (r : Router) : TableConfig → Prop
  | hash {table shardKey : String} {backends : List String} {partitionNum : Option SQLVal}
      {conf : TableConfig} (h : r.hashUniform table shardKey backends partitionNum = .ok conf) :
      Configured r conf
  | list {order : ListOrder} {table shardKey : String} {defs : List PartitionDefinition}
      {conf : TableConfig} (h : listUniform order table shardKey defs = .ok conf) : Configured r conf
  | rename {conf : TableConfig} (h : Configured r conf) (toTable : String) :
      Configured r (conf.rename conf.name toTable)
  | shift {conf : TableConfig} (h : Configured r conf) {fromBackend toBackend partitionTable : String}
      {moved : List PartitionConfig}
      (hmoved : movePartition fromBackend toBackend partitionTable conf.partitions = some moved) :
      Configured r { conf with partitions := moved }

/-- The numbers of the physical tables of `hashPartitions`. -/
theorem hashPartitions_names (table : String) (slots blocks slotsPerShard tablesPerShard : ℕ)
    (backends : List String) :
    (hashPartitions table slots blocks slotsPerShard tablesPerShard backends).map
        (fun part => part.table.toList) =
      (backends.zipIdx.flatMap fun e => (List.range tablesPerShard).map fun i =>
        e.2 * tablesPerShard + i).map fun n => table.toList ++ nameSuffix n := by
  simp only [hashPartitions, map_flatMap, map_map, Function.comp_def, partitionName_toList]

theorem tableNumbers_nodup (tablesPerShard : ℕ) (backends : List String) :
    (backends.zipIdx.flatMap fun e => (List.range tablesPerShard).map fun i =>
      e.2 * tablesPerShard + i).Nodup := by
  rw [nodup_flatMap]
  refine ⟨fun e _ => nodup_range.map fun a b h => Nat.add_left_cancel h, ?_⟩
  have hidx : (backends.zipIdx.map Prod.snd).Nodup := by
    rw [zipIdx_map_snd]
    exact nodup_range'
  rw [List.Nodup, pairwise_map] at hidx
  refine hidx.imp fun {e f} hne => ?_
  intro n hn hn'
  obtain ⟨i, hi, rfl⟩ := mem_map.1 hn
  obtain ⟨k, hk, heq⟩ := mem_map.1 hn'
  rw [mem_range] at hi hk
  have hdiv := congrArg (· / tablesPerShard) heq
  simp only [Nat.mul_comm _ tablesPerShard, Nat.mul_add_div (Nat.zero_lt_of_lt hi), Nat.div_eq_of_lt hi,
    Nat.div_eq_of_lt hk] at hdiv
  exact hne (by simpa using hdiv.symm)

theorem listPartitions_eq (table : String) (n : ℕ) (entries : List (String × String)) :
    listPartitions table n entries =
      (entries.zipIdx n).map fun e => ⟨partitionName table e.2, "", e.1.2, e.1.1⟩ := by
  induction entries generalizing n with
  | nil => rfl
  | cons e entries ih => rw [listPartitions, ih, zipIdx_cons, map_cons]

theorem listPartitions_names (table : String) (n : ℕ) (entries : List (String × String)) :
    (listPartitions table n entries).map (fun part => part.table.toList) =
      (List.range' n entries.length).map fun k => table.toList ++ nameSuffix k := by
  simp only [listPartitions_eq, map_map, ← zipIdx_map_snd n entries, Function.comp_def, partitionName_toList]

/-- One partition moves, and the others stay. -/
theorem movePartition_split {fromBackend toBackend partitionTable : String} {moved : List PartitionConfig}
    (h : movePartition fromBackend toBackend partitionTable parts = some moved) :
    ∃ pre part post, parts = pre ++ part :: post ∧ part.backend = fromBackend ∧ part.table = partitionTable ∧
      moved = pre ++ { part with backend := toBackend } :: post := by
  induction parts generalizing moved with
  | nil => cases h
  | cons part parts ih =>
    rw [movePartition] at h
    split at h
    · rename_i hmatch
      cases h
      exact ⟨[], part, parts, rfl, hmatch.1, hmatch.2, rfl⟩
    · obtain ⟨rest, hrest, rfl⟩ := Option.map_eq_some_iff.1 h
      obtain ⟨pre, found, post, rfl, hback, htable, rfl⟩ := ih hrest
      exact ⟨part :: pre, found, post, rfl, hback, htable, rfl⟩

/-- A shift keeps all that does not depend on the backend. -/
theorem movePartition_map {α : Type} {f : PartitionConfig → α} {fromBackend toBackend partitionTable : String}
    {moved : List PartitionConfig} (h : movePartition fromBackend toBackend partitionTable parts = some moved)
    (hf : ∀ part, f { part with backend := toBackend } = f part) : moved.map f = parts.map f := by
  obtain ⟨pre, part, post, rfl, -, -, rfl⟩ := movePartition_split h
  rw [map_append, map_cons, hf, ← map_cons, ← map_append]

/-- The slots of one physical table of a new hash table. -/
def Router.tableBlocks (r : Router) : Option SQLVal → ℕ
  | none => r.blocks
  | some num => r.slots / (atoi num.val.toList).getD 0

/-- What `HashUniform` computes. -/
theorem hashUniform_eq {backends : List String}
    {partitionNum : Option SQLVal}
    (h : r.hashUniform table shardKey backends partitionNum = .ok conf) :
    shardKey ≠ "" ∧ backends ≠ [] ∧ backends.length < r.slots ∧ 0 < r.tableBlocks partitionNum ∧
      conf = { name := table, slots := r.slots, blocks := r.tableBlocks partitionNum, shardType := .hash
               shardKey := shardKey
               partitions := hashPartitions table r.slots (r.tableBlocks partitionNum)
                 (r.slots / backends.length) (r.slots / backends.length / r.tableBlocks partitionNum)
                 (backends.insertionSort (· ≤ ·)) } := by
  unfold Router.hashUniform at h
  split at h
  · cases h
  split at h
  · cases h
  rename_i hkey
  simp only at h
  split at h
  · cases h
  rename_i blocks hblocks
  have hblocks : blocks = r.tableBlocks partitionNum := by grind [Router.tableBlocks]
  subst hblocks
  split at h
  · cases h
  rename_i hne
  split at h
  · cases h
  rename_i hslots
  split at h
  · cases h
  rename_i hpos
  cases h
  exact ⟨hkey, fun hnil => hne (by rw [hnil, length_nil]), Nat.lt_of_not_le hslots, Nat.pos_of_ne_zero hpos, rfl⟩

/-- What `ListUniform` computes. -/
theorem listUniform_ok {order : ListOrder} {defs : List PartitionDefinition}
    (h : listUniform order table shardKey defs = .ok conf) :
    ∃ m : ListMap, shardKey ≠ "" ∧ m.entries ≠ [] ∧
      conf = { name := table, slots := 0, blocks := 0, shardType := .list, shardKey := shardKey
               partitions := listPartitions table 0 (order.arrange m.entries) } := by
  unfold listUniform at h
  split at h
  · cases h
  split at h
  · cases h
  rename_i hkey
  split at h
  · cases h
  rename_i m _
  split at h
  · cases h
  rename_i hne
  cases h
  exact ⟨m, hkey, hne, rfl⟩

/-- What `GlobalUniform` computes. -/
theorem globalUniform_eq {backends : List String} (h : globalUniform table backends = .ok conf) : backends ≠ [] ∧
    conf = { name := table, slots := 0, blocks := 0, shardType := .global, shardKey := ""
             partitions := backends.map fun backend => ⟨table, "", backend, ""⟩ } := by
  unfold globalUniform at h
  split_ifs at h with _ hne
  cases h
  exact ⟨hne, rfl⟩

/-- What `SingleUniform` computes. -/
theorem singleUniform_eq {backends : List String} (h : singleUniform table backends = .ok conf) :
    ∃ backend, backends.head? = some backend ∧ conf = { name := table, slots := 0, blocks := 0, shardType := .single
                                                        shardKey := "", partitions := [⟨table, "", backend, ""⟩] } := by
  unfold singleUniform at h
  split_ifs at h
  split at h
  · cases h
  · cases h
    exact ⟨_, rfl, rfl⟩

/-- A configured table is a hash table with slots or a list table. -/
theorem Configured.typed (h : Configured r conf) :
    (conf.shardType = .hash ∧ 0 < conf.slots) ∨ conf.shardType = .list := by
  induction h with
  | hash h =>
    obtain ⟨-, -, hslots, -, rfl⟩ := hashUniform_eq h
    exact .inl ⟨rfl, Nat.zero_lt_of_lt hslots⟩
  | list h =>
    obtain ⟨_, -, -, rfl⟩ := listUniform_ok h
    exact .inr rfl
  | rename _ _ ih => exact ih
  | shift _ _ ih => exact ih

theorem Configured.shardKey_ne (h : Configured r conf) :
    conf.shardKey ≠ "" := by
  induction h with
  | hash h =>
    obtain ⟨hkey, -, -, -, rfl⟩ := hashUniform_eq h
    exact hkey
  | list h =>
    obtain ⟨_, hkey, -, rfl⟩ := listUniform_ok h
    exact hkey
  | rename _ _ ih => exact ih
  | shift _ _ ih => exact ih

theorem Configured.distinctNames (h : Configured r conf) :
    DistinctNames conf := by
  induction h with
  | hash h =>
    obtain ⟨-, -, -, -, rfl⟩ := hashUniform_eq h
    refine ⟨_, ?_, (hashPartitions_names _ _ _ _ _ _).trans (map_map ..).symm⟩
    exact (tableNumbers_nodup _ _).map nameSuffix_injective
  | @list order _ _ _ _ h =>
    obtain ⟨m, -, -, rfl⟩ := listUniform_ok h
    refine ⟨(List.range' 0 (order.arrange m.entries).length).map nameSuffix,
      List.Nodup.map nameSuffix_injective nodup_range', ?_⟩
    rw [map_map]
    exact listPartitions_names _ 0 (order.arrange m.entries)
  | @rename conf _ toTable ih =>
    obtain ⟨suffixes, hnodup, heq⟩ := ih
    refine ⟨suffixes, hnodup, ?_⟩
    have hreplace := congrArg (List.map (replaceFirst conf.name.toList toTable.toList)) heq
    rw [map_map, map_map] at hreplace
    simp only [TableConfig.rename, map_map, Function.comp_def, String.toList_ofList,
      replaceFirst_append] at hreplace ⊢
    exact hreplace
  | shift _ hmoved ih =>
    obtain ⟨suffixes, hnodup, heq⟩ := ih
    refine ⟨suffixes, hnodup, ?_⟩
    have htables := congrArg (List.map String.toList) (movePartition_map (f := PartitionConfig.table) hmoved fun _ => rfl)
    rw [map_map, map_map] at htables
    exact htables.trans heq

/-! ## Segments -/

/-- The partition configuration for which a range was allocated. -/
def KeyRange.origin : KeyRange → Option ℕ
  | .nil => none
  | .hash origin _ _ => some origin
  | .list origin => some origin
  | .global origin => some origin
  | .single origin => some origin

/-- What the segments of a built table have from their configuration. -/
structure SegmentsOf (n : ℕ) (parts : List PartitionConfig) (segs : List Segment) : Prop where
  tables : segs.map Segment.table = parts.map PartitionConfig.table
  origins : segs.map (fun seg => seg.range.origin) = (List.range' n parts.length).map some

theorem SegmentsOf.origin_ne
    (h : SegmentsOf n parts segs) (hseg : seg ∈ segs) : seg.range ≠ .nil := by
  intro hnil
  have hmem : seg.range.origin ∈ segs.map fun seg => seg.range.origin := mem_map_of_mem hseg
  rw [h.origins, hnil, KeyRange.origin] at hmem
  simp at hmem

theorem SegmentsOf.range_inj
    (h : SegmentsOf n parts segs) (hseg : seg ∈ segs) (hseg' : seg' ∈ segs)
    (heq : seg.range = seg'.range) : seg = seg' := by
  have hnodup : (segs.map fun seg => seg.range.origin).Nodup := by
    rw [h.origins]
    exact List.Nodup.map (Option.some_injective _) nodup_range'
  exact inj_on_of_nodup_map hnodup hseg hseg' (congrArg KeyRange.origin heq)

theorem SegmentsOf.table_inj
    (h : SegmentsOf n parts segs) (hnames : (parts.map PartitionConfig.table).Nodup)
    (hseg : seg ∈ segs) (hseg' : seg' ∈ segs) (heq : seg.table = seg'.table) : seg = seg' :=
  inj_on_of_nodup_map (h.tables ▸ hnames) hseg hseg' heq

theorem SlotMap.fill_find {text : String} {slots : List ℕ} {m m' : SlotMap}
    (h : m.fill text seg slots = .ok m') {i : ℕ} {s : Segment} (hs : m'.find i = some s) :
    m.find i = some s ∨ s = seg := by
  induction slots generalizing m with
  | nil =>
    cases h
    exact .inl hs
  | cons k slots ih => grind [fill]

theorem Hash.buildFrom_segments {k : Hash}
    (hk : Hash.buildFrom n parts h = .ok k) : ∃ segs, k.segments = h.segments ++ segs ∧
      SegmentsOf n parts segs ∧
      ∀ i s, k.partitions.find i = some s → h.partitions.find i = some s ∨ s ∈ segs := by
  induction parts generalizing n h with
  | nil =>
    cases hk
    exact ⟨[], by simp, ⟨rfl, rfl⟩, fun i s hs => .inl hs⟩
  | cons part parts ih =>
    obtain ⟨bounds, -, hk⟩ := except_bind_ok hk
    obtain ⟨filled, hfilled, hk⟩ := except_bind_ok hk
    obtain ⟨segs, hsegs, hof, hfind⟩ := ih hk
    refine ⟨_ :: segs, by rw [hsegs, append_assoc, singleton_append], ⟨?_, ?_⟩, ?_⟩
    · simp [hof.tables]
    · rw [map_cons, hof.origins, length_cons, range'_succ, map_cons]
      rfl
    · grind [SlotMap.fill_find]

theorem Hash.buildFrom_slots {k : Hash}
    (hk : Hash.buildFrom n parts h = .ok k) : k.slots = h.slots := by
  induction parts generalizing n h with
  | nil =>
    cases hk
    rfl
  | cons part parts ih =>
    obtain ⟨bounds, -, hk⟩ := except_bind_ok hk
    obtain ⟨filled, -, hk⟩ := except_bind_ok hk
    have := ih hk
    exact this

/-- A built hash partition: as many slots as its map has. -/
theorem Hash.build_ok {slots : ℕ} (hb : Hash.build slots conf = .ok h) :
    ∃ h₀, Hash.buildFrom 0 conf.partitions ⟨slots, .empty, []⟩ = .ok h₀ ∧ h₀.partitions.size = slots ∧
      h = { h₀ with segments := h₀.segments.insertionSort fun a b => a.range.start ≤ b.range.start } := by
  obtain ⟨h₀, hh₀, hb⟩ := except_bind_ok hb
  split at hb
  · cases hb
  · grind

theorem listSegments_segmentsOf (n : ℕ) (parts : List PartitionConfig) :
    SegmentsOf n parts (ListPartition.buildFrom n parts) := by
  induction parts generalizing n with
  | nil => exact ⟨rfl, rfl⟩
  | cons part parts ih =>
    obtain ⟨htables, horigins⟩ := ih (n + 1)
    refine ⟨by simp [ListPartition.buildFrom, htables], ?_⟩
    rw [ListPartition.buildFrom, map_cons, horigins, length_cons, range'_succ, map_cons]
    rfl

/-- The segments of a built hash or list table, up to their order. -/
structure Partition.Built (p : Partition) (conf : TableConfig) : Prop where
  segments : ∃ segs, SegmentsOf 0 conf.partitions segs ∧ p.getSegments.Perm segs
  getSegment : ∀ idx seg, p.getSegment idx = .ok seg → seg ∈ p.getSegments ∨ seg.range = .nil
  type : (∃ h, p = .hash h ∧ 0 < h.slots) ∨ ∃ l, p = .list l

theorem Partition.built_of_build {slots : ℕ}
    (htype : (conf.shardType = .hash ∧ 0 < conf.slots) ∨ conf.shardType = .list)
    (hb : Partition.build slots conf = .ok p) : p.Built conf := by
  obtain ⟨htype, hslots⟩ | htype := htype
  · rw [Partition.build, htype] at hb
    simp only [if_neg hslots.ne'] at hb
    obtain ⟨h, hh, rfl⟩ := except_map_ok hb
    obtain ⟨h₀, hh₀, -, rfl⟩ := Hash.build_ok hh
    obtain ⟨segs, hsegs, hof, hfind⟩ := Hash.buildFrom_segments hh₀
    rw [nil_append] at hsegs
    have hperm : (h₀.segments.insertionSort fun a b => a.range.start ≤ b.range.start).Perm segs :=
      hsegs ▸ perm_insertionSort _ _
    have hpos : 0 < h₀.slots := (Hash.buildFrom_slots hh₀).symm ▸ hslots
    refine ⟨⟨segs, hof, hperm⟩, fun idx seg hseg => ?_, .inl ⟨_, rfl, hpos⟩⟩
    simp only [Partition.getSegment, Hash.getSegment] at hseg
    split at hseg
    · cases hseg
    · cases hf : h₀.partitions.find idx with
      | none =>
        rw [hf] at hseg
        cases hseg
        exact .inr rfl
      | some s => grind [getSegments, SlotMap.empty]
  · rw [Partition.build, htype] at hb
    cases hb
    refine ⟨⟨_, listSegments_segmentsOf 0 conf.partitions, .refl _⟩, fun idx seg hseg => ?_,
      .inr ⟨_, rfl⟩⟩
    simp only [Partition.getSegment, ListPartition.getSegment] at hseg
    split at hseg
    · grind [getSegments]
    · cases hseg

section Built

variable {p : Partition} {conf : TableConfig} (hp : p.Built conf)
include hp

theorem Partition.Built.range_ne (hseg : seg ∈ p.getSegments) : seg.range ≠ .nil := by
  grind [segments, SegmentsOf.origin_ne]

theorem Partition.Built.range_inj (hseg : seg ∈ p.getSegments)
    (hseg' : seg' ∈ p.getSegments) (heq : seg.range = seg'.range) : seg = seg' := by
  grind [segments, SegmentsOf.range_inj]

theorem Partition.Built.table_inj (hnames : DistinctNames conf)
    (hseg : seg ∈ p.getSegments) (hseg' : seg' ∈ p.getSegments) (heq : seg.table = seg'.table) :
    seg = seg' := by grind [segments, SegmentsOf.table_inj, DistinctNames.nodup]

end Built

/-! ## The segment of a key -/

/-- The physical table that `GetIndex` assigns to a key. -/
def Partition.Holds (p : Partition) (H : Hasher) (key : SQLVal) (seg : Segment) : Prop :=
  ∃ idx, p.getIndex H key = .ok (some idx) ∧ p.getSegment idx = .ok seg ∧ seg ∈ p.getSegments

theorem Hash.getIndex_lt {idx : ℕ}
    (hidx : h.getIndex H key = .ok idx) : idx < max h.slots 1 := by
  unfold Hash.getIndex at hidx
  repeat' split at hidx
  all_goals cases hidx
  all_goals exact H.jump_lt _ _

/-- The first segment that `Lookup` finds for a key is the one of the key. -/
theorem Partition.Built.holds_of_lookup (hp : p.Built conf)
        (hl : p.lookup H key = .ok (seg :: segs)) (hne : seg.range ≠ .nil) : p.Holds H key seg := by
  have hlookup : ∃ idx, p.getIndex H key = .ok (some idx) ∧ p.getSegment idx = .ok seg := by
    obtain ⟨h, rfl, hpos⟩ | ⟨l, rfl⟩ := hp.type
    · obtain ⟨idx, hidx, heq⟩ := except_map_ok hl
      obtain rfl : (h.partitions.find idx).getD {} = seg := (List.cons.inj heq).1
      refine ⟨idx, congrArg (Except.map some) hidx, ?_⟩
      have hlt := Hash.getIndex_lt hidx
      rw [Partition.getSegment, Hash.getSegment, if_neg (by omega)]
    · obtain ⟨idx, hidx, heq⟩ := except_bind_ok hl
      refine ⟨idx, congrArg (Except.map some) hidx, ?_⟩
      cases hget : l.segments[idx]? with
      | none =>
        rw [hget] at heq
        cases heq
      | some s =>
        rw [hget] at heq
        cases heq
        simp [Partition.getSegment, ListPartition.getSegment, hget]
  grind [getSegment, Holds]

end Radon
