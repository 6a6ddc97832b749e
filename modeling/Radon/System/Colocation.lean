import Radon.Planner.From
import Radon.Router.Reachable

/-!
# Tables whose partitions lie side by side

`isSameShard` compares the segments and the backends of two tables, position by position. For hash
tables this is all that decides where a key goes. The segments of a list table are empty texts: its
keys go by the values of the partitions, which the test does not look at.
-/

namespace Radon

open Planner List

/-! ## What a partition keeps of its configuration -/

/-- The backend and the range of a segment. -/
def Segment.shape (s : Segment) : String × KeyRange := (s.backend, s.range)

/-- Two slot maps send every slot to segments of one shape. -/
def SlotMap.Alike (m m' : SlotMap) : Prop :=
  m.size = m'.size ∧ ∀ i, (m.find i).map Segment.shape = (m'.find i).map Segment.shape

/-- Where a key goes: the position of its segment among the segments of the table, and the backend. -/
def Partition.route (H : Hasher) (p : Partition) (key : SQLVal) : Option (ℕ × String) :=
  match p.getIndex H key with
  | .ok (some idx) =>
    match p.getSegment idx with
    | .ok seg => (p.getSegments.findIdx? fun s => s.range = seg.range).map fun pos => (pos, seg.backend)
    | .error _ => none
  | _ => none

/-- Both partitions send every key to the same position and the same backend. -/
def SameRoute (p q : Partition) : Prop := ∀ H key, p.route H key = q.route H key

/-- Partitions that lie side by side: their segments have the same ranges and backends, at all indexes. -/
structure Partition.Alike (p p' : Partition) : Prop where
  segments : p.getSegments.map Segment.shape = p'.getSegments.map Segment.shape
  getSegment : ∀ idx, (p.getSegment idx).toOption.map Segment.shape =
    (p'.getSegment idx).toOption.map Segment.shape

/-! ## Hash tables -/

theorem SlotMap.Alike.fill {m m' : SlotMap} (h : m.Alike m') {text text' : String} {seg seg' : Segment}
    (hseg : seg.shape = seg'.shape) {slots : List ℕ} {n n' : SlotMap}
    (hn : m.fill text seg slots = .ok n) (hn' : m'.fill text' seg' slots = .ok n') : n.Alike n' := by
  induction slots generalizing m m' with
  | nil =>
    cases hn
    cases hn'
    exact h
  | cons i slots ih => grind [fill, Alike]

/-- Hash partitions under construction, side by side. -/
structure Hash.Alike (h h' : Hash) : Prop where
  partitions : h.partitions.Alike h'.partitions
  segments : h.segments.map Segment.shape = h'.segments.map Segment.shape

variable {h h' : Hash} {slots : ℕ} {conf conf' : TableConfig} {p p' : Partition} {t : Table}

theorem Hash.Alike.buildFrom {parts parts' : List PartitionConfig} {n : ℕ} {k k' : Hash}
    (hplace : parts.map PartitionConfig.place = parts'.map PartitionConfig.place) (hh : h.Alike h')
    (hk : Hash.buildFrom n parts h = .ok k) (hk' : Hash.buildFrom n parts' h' = .ok k') :
    k.Alike k' := by
  induction parts generalizing n parts' h h' with
  | nil =>
    have hnil : parts' = [] := by simpa using hplace.symm
    subst hnil
    cases hk
    cases hk'
    exact hh
  | cons part parts ih =>
    cases parts' with
    | nil => simp at hplace
    | cons part' parts' =>
      simp only [map_cons, List.cons.injEq] at hplace
      obtain ⟨hhead, htail⟩ := hplace
      simp only [PartitionConfig.place, Prod.mk.injEq] at hhead
      simp only [Hash.buildFrom] at hk hk'
      obtain ⟨bounds, hbounds, hk⟩ := except_bind_ok hk
      obtain ⟨bounds', hbounds', hk'⟩ := except_bind_ok hk'
      obtain ⟨filled, hfilled, hk⟩ := except_bind_ok hk
      obtain ⟨filled', hfilled', hk'⟩ := except_bind_ok hk'
      obtain rfl : bounds = bounds' := by grind
      refine ih htail ⟨hh.partitions.fill ?_ hfilled hfilled', ?_⟩ hk hk'
      · simp [Segment.shape, hhead.2]
      · simp [hh.segments, Segment.shape, hhead.2]

theorem map_insertionSort_shape (l : List Segment) :
    (l.insertionSort fun a b => a.range.start ≤ b.range.start).map Segment.shape =
      (l.map Segment.shape).insertionSort fun a b => a.2.start ≤ b.2.start :=
  map_insertionSort _ _ _ _ fun _ _ _ _ => Iff.rfl

/-- Hash tables with the same segments on the same backends have as many slots and lie side by side. -/
theorem alike_hash {slots' : ℕ}
    (hplace : conf.partitions.map PartitionConfig.place = conf'.partitions.map PartitionConfig.place)
    (hb : Hash.build slots conf = .ok h) (hb' : Hash.build slots' conf' = .ok h') :
    h.slots = h'.slots ∧ (Partition.hash h).Alike (.hash h') := by
  obtain ⟨h₀, hh₀, hsize, rfl⟩ := Hash.build_ok hb
  obtain ⟨h₀', hh₀', hsize', rfl⟩ := Hash.build_ok hb'
  have hempty : (⟨slots, .empty, []⟩ : Hash).Alike ⟨slots', .empty, []⟩ := ⟨⟨rfl, fun _ => rfl⟩, rfl⟩
  -- the number of slots does not matter while the map is filled
  have halike : h₀.Alike h₀' := Hash.Alike.buildFrom hplace hempty hh₀ hh₀'
  have hslots : h₀.slots = h₀'.slots := by
    rw [Hash.buildFrom_slots hh₀, Hash.buildFrom_slots hh₀']
    exact hsize.symm.trans (halike.partitions.1.trans hsize')
  refine ⟨hslots, ?_, fun idx => ?_⟩
  · simp only [Partition.getSegments, map_insertionSort_shape, halike.segments]
  · have hseg := halike.partitions.2 idx
    simp only [Partition.getSegment, Hash.getSegment, hslots]
    by_cases hidx : h₀'.slots ≤ idx
    · simp only [if_pos hidx]
    · simp only [if_neg hidx]
      cases hf : h₀.partitions.find idx <;> cases hf' : h₀'.partitions.find idx <;>
        simp only [hf, hf', Option.map_some, Option.map_none] at hseg
      · rfl
      · cases hseg
      · cases hseg
      · exact hseg

/-- The segments of alike partitions stand at the same positions. -/
theorem findIdx_of_shape {l l' : List Segment} (h : l.map Segment.shape = l'.map Segment.shape)
    (range : KeyRange) : (l.findIdx? fun s => s.range = range) = l'.findIdx? fun s => s.range = range := by
  have hcomp (l : List Segment) : (l.findIdx? fun s => s.range = range) =
      (l.map Segment.shape).findIdx? fun s => s.2 = range := by
    rw [List.findIdx?_map]
    rfl
  rw [hcomp, hcomp, h]

/-- Partitions that lie side by side send every index to the same place. -/
theorem Partition.Alike.route (h : p.Alike p') {H : Hasher} {key : SQLVal}
    (hindex : p.getIndex H key = p'.getIndex H key) : p.route H key = p'.route H key := by
  rw [Partition.route, Partition.route, hindex]
  split
  · rename_i idx _
    have hidx := h.getSegment idx
    generalize p.getSegment idx = seg, p'.getSegment idx = seg' at hidx
    match seg, seg', hidx with
    | .error _, .error _, _ => rfl
    | .ok seg, .ok seg', hidx =>
      have hshape := Option.some.inj hidx
      simp only [Segment.shape, Prod.mk.injEq] at hshape
      simp only [hshape.1, hshape.2, findIdx_of_shape h.segments]
  · rfl

/-- Hash tables with the same segments on the same backends send every key to the same place. -/
theorem sameRoute_hash {slots' : ℕ}
    (hplace : conf.partitions.map PartitionConfig.place = conf'.partitions.map PartitionConfig.place)
    (hb : Hash.build slots conf = .ok h) (hb' : Hash.build slots' conf' = .ok h') :
    SameRoute (.hash h) (.hash h') := by
  grind [alike_hash, Partition.Alike.route, SameRoute, Partition.getIndex, Hash.getIndex]

/-! ## List tables -/

theorem listSegments_getElem? (n i : ℕ) (parts : List PartitionConfig) :
    (ListPartition.buildFrom n parts)[i]? = (parts[i]?).map fun part =>
      { table := part.table, backend := part.backend, listValue := part.listValue
        range := .list (n + i) } := by
  induction parts generalizing n i with
  | nil => simp [ListPartition.buildFrom]
  | cons part parts ih => grind [ListPartition.buildFrom]

/-- List tables on the same backends lie side by side. -/
theorem alike_list
    (hplace : conf.partitions.map PartitionConfig.place = conf'.partitions.map PartitionConfig.place) :
    (Partition.list (ListPartition.build conf)).Alike (.list (ListPartition.build conf')) := by
  have hget (i : ℕ) : ((ListPartition.build conf).segments[i]?).map Segment.shape =
      ((ListPartition.build conf').segments[i]?).map Segment.shape := by
    have hi := congrArg (fun l => l[i]?.map Prod.snd) hplace
    simp only [List.getElem?_map, Option.map_map] at hi
    have hshape := congrArg (Option.map fun backend : String => (backend, KeyRange.list (0 + i))) hi
    simp only [Option.map_map] at hshape
    simp only [ListPartition.build, listSegments_getElem?, Option.map_map]
    exact hshape
  refine ⟨ext_getElem? fun i => ?_, fun idx => ?_⟩
  · simp only [Partition.getSegments, List.getElem?_map, hget]
  · have hidx := hget idx
    simp only [Partition.getSegment, ListPartition.getSegment]
    generalize (ListPartition.build conf).segments[idx]? = seg,
      (ListPartition.build conf').segments[idx]? = seg' at hidx
    rcases seg with _ | s <;> rcases seg' with _ | s'
    · rfl
    · cases hidx
    · cases hidx
    · exact hidx

theorem listSegments_findIdx_value (n : ℕ) (value : String) (parts : List PartitionConfig) :
    ((ListPartition.buildFrom n parts).findIdx? fun seg => seg.listValue = value) =
      parts.findIdx? fun part => part.listValue = value := by
  induction parts generalizing n with
  | nil => rfl
  | cons part parts ih => simp [ListPartition.buildFrom, List.findIdx?_cons, ih]

theorem listSegments_findIdx_range (n i : ℕ) (parts : List PartitionConfig) (hi : i < parts.length) :
    ((ListPartition.buildFrom n parts).findIdx? fun seg => seg.range = .list (n + i)) = some i := by
  induction parts generalizing n i with
  | nil => simp at hi
  | cons part parts ih =>
    rw [ListPartition.buildFrom, List.findIdx?_cons]
    cases i with
    | zero => simp
    | succ i =>
      have := ih (n + 1) i (by simpa using hi)
      rw [show n + 1 + i = n + (i + 1) by omega] at this
      simp [this]

/-- A list table sends a key to the partition with its value. -/
theorem route_list (conf : TableConfig) (H : Hasher) (key : SQLVal) :
    (Partition.list (ListPartition.build conf)).route H key =
      (conf.listValues.findIdx? fun value => value = key.val).bind fun i =>
        ((conf.partitions.map PartitionConfig.place)[i]?).map fun place => (i, place.2) := by
  have hvalue : (conf.partitions.findIdx? fun part => part.listValue = key.val) =
      conf.listValues.findIdx? fun value => value = key.val := by
    rw [TableConfig.listValues, List.findIdx?_map]
    rfl
  simp only [Partition.route, Partition.getIndex, ListPartition.getIndex, ListPartition.build,
    listSegments_findIdx_value]
  rw [← hvalue]
  cases hidx : conf.partitions.findIdx? fun part => part.listValue = key.val with
  | none => rfl
  | some i =>
    obtain ⟨hi, -⟩ := List.findIdx?_eq_some_iff_findIdx_eq.1 hidx
    have hrange := listSegments_findIdx_range 0 i conf.partitions hi
    rw [Nat.zero_add] at hrange
    simp only [Except.map, Partition.getSegment, ListPartition.getSegment, listSegments_getElem?,
      List.getElem?_eq_getElem hi, Option.map_some, Partition.getSegments, Nat.zero_add, hrange,
      List.getElem?_map, Option.bind_some, PartitionConfig.place]

theorem findIdx?_getElem_of_nodup {l : List String} (hnodup : l.Nodup) {i : ℕ} (hi : i < l.length) :
    (l.findIdx? fun value => value = l[i]) = some i := by
  rw [List.findIdx?_eq_some_iff_getElem]
  refine ⟨hi, by simp, fun j hj heq => ?_⟩
  have := hnodup.getElem_inj_iff.1 (of_decide_eq_true heq)
  omega

/-- List tables on the same backends send every key to the same place exactly when they have the same
values in the same order. -/
theorem sameRoute_list
    (hplace : conf.partitions.map PartitionConfig.place = conf'.partitions.map PartitionConfig.place)
    (hnodup : conf.listValues.Nodup) :
    SameRoute (.list (ListPartition.build conf)) (.list (ListPartition.build conf')) ↔
      conf.listValues = conf'.listValues := by
  have hlen : conf.listValues.length = conf'.listValues.length := by
    have := congrArg List.length hplace
    simpa [TableConfig.listValues] using this
  constructor
  · intro h
    refine ext_getElem hlen fun i hi hi' => ?_
    have hroute := h ⟨fun _ _ => 0, fun _ _ => by omega, fun _ => 0, fun _ => .ok 0⟩
      ⟨.strVal, conf.listValues[i]⟩
    rw [route_list, route_list] at hroute
    simp only [findIdx?_getElem_of_nodup hnodup hi, Option.bind_some] at hroute
    have hplaces : i < (conf.partitions.map PartitionConfig.place).length := by
      simpa [TableConfig.listValues] using hi
    rw [List.getElem?_eq_getElem hplaces, Option.map_some] at hroute
    -- the other table finds the value at the same position
    obtain ⟨j, hj, hroute⟩ := Option.bind_eq_some_iff.1 hroute.symm
    obtain ⟨place, -, hij⟩ := Option.map_eq_some_iff.1 hroute
    obtain rfl : j = i := congrArg Prod.fst hij
    obtain ⟨hj', hval, -⟩ := List.findIdx?_eq_some_iff_getElem.1 hj
    exact (of_decide_eq_true hval).symm
  · intro h H key
    rw [route_list, route_list, h, hplace]

/-! ## Accepted pairs -/

theorem TableConfig.places_of_shape (h : conf.shape = conf'.shape) :
    conf.partitions.map PartitionConfig.place = conf'.partitions.map PartitionConfig.place := by
  have hparts := congrArg (fun s => s.2.2.map fun p => (p.1, p.2.1)) h
  simp only [TableConfig.shape, map_map] at hparts
  exact hparts

theorem TableConfig.listValues_of_shape (h : conf.shape = conf'.shape) :
    conf.listValues = conf'.listValues := by
  have hparts := congrArg (fun s => s.2.2.map fun p => p.2.2) h
  simp only [TableConfig.shape, map_map] at hparts
  exact hparts

/-- A hash table has a partition, and its segment is not the empty text. -/
theorem Hash.build_segment (hslots : 0 < slots)
    (hb : Hash.build slots conf = .ok h) : ∃ part ∈ conf.partitions, part.segment ≠ "" := by
  obtain ⟨h₀, hh₀, hsize, -⟩ := Hash.build_ok hb
  cases hparts : conf.partitions with
  | nil =>
    rw [hparts] at hh₀
    cases hh₀
    exact absurd hsize hslots.ne
  | cons part parts =>
    refine ⟨part, mem_cons_self, fun hempty => ?_⟩
    rw [hparts] at hh₀
    obtain ⟨bounds, hbounds, -⟩ := except_bind_ok hh₀
    rw [hempty] at hbounds
    exact nomatch hbounds

/-- The test never accepts a hash table with a list table. -/
theorem not_samePlaces_hash_list (hslots : 0 < slots)
    (hb : Hash.build slots conf = .ok h) (hlist : ∀ part ∈ conf'.partitions, part.segment = "") :
    conf.partitions.map PartitionConfig.place ≠ conf'.partitions.map PartitionConfig.place := by
  intro hplace
  obtain ⟨part, hpart, hne⟩ := Hash.build_segment hslots hb
  obtain ⟨part', hpart', heq⟩ := mem_map.1 (hplace ▸ mem_map_of_mem hpart)
  exact hne ((congrArg Prod.fst heq).symm.trans (hlist part' hpart'))

/-- A table with a key is a hash table with slots or a list table, and its partition was built so. -/
theorem TableOk.keyed (h : TableOk slots t) (hkey : t.tableConfig.shardKey ≠ "")
    (hp : t.partition = some p) :
    ∃ conf, conf.shape = t.tableConfig.shape ∧
      ((t.tableConfig.shardType = .hash ∧
          ∃ n k, 0 < n ∧ Hash.build n conf = .ok k ∧ p = .hash k) ∨
        (t.tableConfig.shardType = .list ∧ p = .list (ListPartition.build conf))) := by
  obtain ⟨conf, hb, hshape⟩ := h.built p hp
  have htype : conf.shardType = t.tableConfig.shardType := congrArg Prod.fst hshape
  have hslots : conf.slots = t.tableConfig.slots := congrArg (fun s => s.2.1) hshape
  refine ⟨conf, hshape, ?_⟩
  unfold Partition.build at hb
  split at hb
  case h_1 hh =>
    have hpos := h.conf.hash (htype.symm.trans hh)
    rw [if_neg (by omega)] at hb
    cases hk : Hash.build conf.slots conf with
    | error e =>
      rw [hk] at hb
      cases hb
    | ok k =>
      rw [hk] at hb
      cases hb
      exact .inl ⟨htype.symm.trans hh, conf.slots, k, by omega, hk, rfl⟩
  case h_2 hl =>
    cases hb
    exact .inr ⟨htype.symm.trans hl, rfl⟩
  case h_3 hg => exact absurd (h.conf.noKey (.inl (htype.symm.trans hg))) hkey
  case h_4 hs => exact absurd (h.conf.noKey (.inr (htype.symm.trans hs))) hkey

section

variable {r : Router} (hr : r.Ok) {db db' name name' : String} {t' : Table} (ht : r.tables db name = some t)
    (ht' : r.tables db' name' = some t') (hp : t.partition = some p) (hp' : t'.partition = some p')
    (hkey : t.tableConfig.shardKey ≠ "") (hkey' : t'.tableConfig.shardKey ≠ "")
    (hsame : t.tableConfig.partitions.map PartitionConfig.place =
      t'.tableConfig.partitions.map PartitionConfig.place)

include hr ht ht' hp hp' hkey hkey' hsame

/-- Two tables with keys and with the same segments on the same backends are hash tables or list tables. -/
theorem built_of_samePlaces :
    ∃ conf conf', conf.shape = t.tableConfig.shape ∧ conf'.shape = t'.tableConfig.shape ∧
      conf.partitions.map PartitionConfig.place = conf'.partitions.map PartitionConfig.place ∧
      ((t.tableConfig.shardType = .hash ∧ ∃ n k n' k', Hash.build n conf = .ok k ∧
          Hash.build n' conf' = .ok k' ∧ p = .hash k ∧ p' = .hash k') ∨
        (t.tableConfig.shardType = .list ∧ p = .list (ListPartition.build conf) ∧
          p' = .list (ListPartition.build conf'))) := by
  obtain ⟨-, hok⟩ := hr db name t ht
  obtain ⟨-, hok'⟩ := hr db' name' t' ht'
  obtain ⟨conf, hshape, hbuilt⟩ := hok.keyed hkey hp
  obtain ⟨conf', hshape', hbuilt'⟩ := hok'.keyed hkey' hp'
  have hplace : conf.partitions.map PartitionConfig.place = conf'.partitions.map PartitionConfig.place :=
    (TableConfig.places_of_shape hshape).trans (hsame.trans (TableConfig.places_of_shape hshape').symm)
  have hempty : ∀ {n : ℕ} {u : Table} {c : TableConfig}, TableOk n u → c.shape = u.tableConfig.shape →
      u.tableConfig.shardType = .list → ∀ part ∈ c.partitions, part.segment = "" := by
    intro n u c hu hc hl part hpart
    obtain ⟨part', hpart', heq⟩ :=
      mem_map.1 (TableConfig.places_of_shape hc ▸ mem_map_of_mem hpart)
    exact (congrArg Prod.fst heq).symm.trans (hu.conf.listSegment hl part' hpart')
  refine ⟨conf, conf', hshape, hshape', hplace, ?_⟩
  obtain ⟨htype, n, k, hn, hk, rfl⟩ | ⟨htype, rfl⟩ := hbuilt
  · grind [not_samePlaces_hash_list]
  · grind [not_samePlaces_hash_list]

/-- The partitions of two such tables lie side by side. -/
theorem alike_of_samePlaces : p.Alike p' := by
  obtain ⟨conf, conf', -, -, hplace, ⟨-, n, k, n', k', hk, hk', rfl, rfl⟩ | ⟨-, rfl, rfl⟩⟩ :=
    built_of_samePlaces hr ht ht' hp hp' hkey hkey' hsame
  · exact (alike_hash hplace hk hk').2
  · exact alike_list hplace

end

/-- Two tables that the test accepts send every key to the same place exactly when they are hash
tables or list tables with the same values in the same order. -/
theorem isSameShard_sameRoute_iff (slots blocks : ℕ) (ops : List RouterOp)
    (db db' name name' asName asName' : String) (t t' : Table) (p p' : Partition) (lcn rcn : ColName)
    (ht : ((Router.init slots blocks).run ops).tables db name = some t)
    (ht' : ((Router.init slots blocks).run ops).tables db' name' = some t')
    (hp : t.partition = some p) (hp' : t'.partition = some p')
    (hsame : isSameShard (tableInfo db name asName t) (tableInfo db' name' asName' t') lcn rcn = true) :
    SameRoute p p' ↔
      t.tableConfig.shardType = .hash ∨ t.tableConfig.listValues = t'.tableConfig.listValues := by
  have hrun := (Router.Ok.init slots blocks).run ops
  simp only [isSameShard, tableInfo, Bool.and_eq_true] at hsame
  obtain ⟨⟨⟨⟨hkey, -⟩, hkey'⟩, -⟩, hparts⟩ := hsame
  obtain ⟨conf, conf', hshape, hshape', hplace, hbuilt⟩ := built_of_samePlaces hrun ht ht' hp hp'
    (of_decide_eq_true hkey) (of_decide_eq_true hkey') ((samePartitions_iff _ _).1 hparts)
  obtain ⟨htype, n, k, n', k', hk, hk', rfl, rfl⟩ | ⟨htype, rfl, rfl⟩ := hbuilt
  · exact ⟨fun _ => .inl htype, fun _ => sameRoute_hash hplace hk hk'⟩
  · have hnodup : conf.listValues.Nodup :=
      (TableConfig.listValues_of_shape hshape).symm ▸ (hrun db name t ht).2.conf.listNodup htype
    rw [sameRoute_list hplace hnodup, TableConfig.listValues_of_shape hshape,
      TableConfig.listValues_of_shape hshape', htype]
    simp

/-- Two hash tables of four slots on two backends. -/
def hashPairOps : List RouterOp :=
  [.createDatabase "db",
   .createHashTable true "db" "a" "id" ["backend1", "backend2"] none,
   .createHashTable true "db" "b" "id" ["backend1", "backend2"] none]

/-- The two hash tables are accepted, and they route alike. -/
theorem isSameShard_sameRoute_hashPair :
    ∃ t t' p p', ((Router.init 4 2).run hashPairOps).tables "db" "a" = some t ∧
      ((Router.init 4 2).run hashPairOps).tables "db" "b" = some t' ∧
      t.partition = some p ∧ t'.partition = some p' ∧
      isSameShard (tableInfo "db" "a" "" t) (tableInfo "db" "b" "" t') ⟨"", "a", "id"⟩ ⟨"", "b", "id"⟩ = true ∧
      SameRoute p p' := by
  refine ⟨_, _, _, _, rfl, rfl, rfl, rfl, by decide +kernel, ?_⟩
  exact (isSameShard_sameRoute_iff 4 2 hashPairOps "db" "db" "a" "b" "" "" _ _ _ _ ⟨"", "a", "id"⟩
    ⟨"", "b", "id"⟩ rfl rfl rfl rfl (by decide +kernel)).2 (.inl rfl)

/-- Two list tables with the values `1` and `2` on one backend, met in both orders. -/
def listPairOps : List RouterOp :=
  let defs : List PartitionDefinition := [⟨"backend1", [⟨.intVal, "1"⟩, ⟨.intVal, "2"⟩]⟩]
  [.createDatabase "db",
   .createListTable true default "db" "a" "id" defs,
   .createListTable true ⟨List.reverse, List.reverse_perm⟩ "db" "b" "id" defs]

/-- The two list tables are accepted, but a row with the value `1` lies in the first partition of one
and in the second partition of the other. -/
theorem isSameShard_listPair :
    ∃ t t' p p', ((Router.init 4 2).run listPairOps).tables "db" "a" = some t ∧
      ((Router.init 4 2).run listPairOps).tables "db" "b" = some t' ∧
      t.partition = some p ∧ t'.partition = some p' ∧
      isSameShard (tableInfo "db" "a" "" t) (tableInfo "db" "b" "" t') ⟨"", "a", "id"⟩ ⟨"", "b", "id"⟩ = true ∧
      ∀ H, p.route H ⟨.intVal, "1"⟩ = some (0, "backend1") ∧
        p'.route H ⟨.intVal, "1"⟩ = some (1, "backend1") := by
  exact ⟨_, _, _, _, rfl, rfl, rfl, rfl, by decide +kernel, fun H => ⟨rfl, rfl⟩⟩

end Radon
