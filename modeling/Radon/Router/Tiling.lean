import Radon.Collections.Tiling
import Radon.Router.Reachable

/-!
# The slots of a hash table

`Hash.Build` gives the slots of every segment to it, refuses a slot that is given twice, and compares the
number of slots at the end. What it accepts covers all slots exactly if no segment ends behind the last slot.
The segments of `HashUniform` follow one another from the first slot to the last.
-/

namespace Radon

open Collections List

/-! ## Filling the map -/

/-- The map with some more slots. -/
def SlotMap.put (m : SlotMap) (seg : Segment) (slots : List ℕ) : SlotMap :=
  ⟨fun i => if i ∈ slots then some seg else m.find i, m.size + slots.length⟩

theorem SlotMap.fill_eq_ok_iff {text : String} {seg : Segment} {slots : List ℕ} (hnodup : slots.Nodup) {m m' : SlotMap}
    : m.fill text seg slots = .ok m' ↔ (∀ i ∈ slots, m.find i = none) ∧ m' = m.put seg slots := by
  induction slots generalizing m with
  | nil => simp [SlotMap.fill, SlotMap.put, eq_comm]
  | cons i slots ih =>
    obtain ⟨hi, hnodup⟩ := nodup_cons.1 hnodup
    rw [SlotMap.fill, forall_mem_cons]
    cases hfind : m.find i with
    | some seg' => simp
    | none =>
      have hput : SlotMap.put ⟨fun k => if k = i then some seg else m.find k, m.size + 1⟩ seg slots =
          m.put seg (i :: slots) := by
        simp only [SlotMap.put, SlotMap.mk.injEq, length_cons, mem_cons]
        refine ⟨funext fun k => ?_, by omega⟩
        split_ifs <;> simp_all
      simp only [ih hnodup, hput, true_and]
      refine and_congr_left fun _ => forall₂_congr fun k hk => ?_
      rw [if_neg fun heq : k = i => hi (heq ▸ hk)]

/-- The segment covers the slot. -/
def Segment.Covers (seg : Segment) (i : ℕ) : Prop :=
  ∃ origin start stop, seg.range = .hash origin start stop ∧ start ≤ i ∧ i < stop

theorem covers_hash {seg : Segment} {origin start stop : ℕ} (h : seg.range = .hash origin start stop) (i : ℕ) :
    seg.Covers i ↔ i ∈ List.range' start (stop - start) := by grind [Segment.Covers]

/-- The map gives a slot to the segment that covers it. -/
def Hash.Exact (h : Hash) : Prop :=
  ∀ i seg, h.partitions.find i = some seg ↔ seg ∈ h.segments ∧ seg.Covers i

variable {parts : List PartitionConfig} {n slots lo hi : ℕ} {h : Hash} {conf : TableConfig} {e : String × ℕ}
    {backends : List String}

theorem Hash.Exact.buildFrom {k : Hash} (hh : h.Exact) (hk : Hash.buildFrom n parts h = .ok k) : k.Exact := by
  induction parts generalizing n h with
  | nil =>
    cases hk
    exact hh
  | cons part parts ih =>
    obtain ⟨bounds, -, hk⟩ := except_bind_ok hk
    obtain ⟨filled, hfilled, hk⟩ := except_bind_ok hk
    obtain ⟨hfree, rfl⟩ := (SlotMap.fill_eq_ok_iff nodup_range').1 hfilled
    refine ih (fun i seg => ?_) hk
    have hcovers : Segment.Covers ⟨part.table, part.backend, .hash n bounds.1 bounds.2, ""⟩ i ↔ _ :=
      covers_hash rfl i
    simp only [SlotMap.put, mem_append, mem_singleton]
    split_ifs with hi
    · constructor
      · rintro ⟨⟩
        exact ⟨.inr rfl, hcovers.2 hi⟩
      · rintro ⟨hmem | rfl, hseg⟩
        · have hfind := (hh i seg).2 ⟨hmem, hseg⟩
          rw [hfree i hi] at hfind
          cases hfind
        · rfl
    · rw [hh]
      grind

/-- The segments have the bounds of the partitions. -/
theorem Hash.buildFrom_bounds {k : Hash} (hk : Hash.buildFrom n parts h = .ok k) {part : PartitionConfig}
    (hpart : part ∈ parts) : ∃ bounds, parseSegment part.segment = .ok bounds ∧
      ∃ seg ∈ k.segments, ∃ origin, seg.range = .hash origin bounds.1 bounds.2 := by
  induction parts generalizing n h with
  | nil => cases hpart
  | cons part' parts ih =>
    obtain ⟨bounds, hbounds, hk⟩ := except_bind_ok hk
    obtain ⟨filled, -, hk⟩ := except_bind_ok hk
    obtain rfl | hpart := mem_cons.1 hpart
    · obtain ⟨segs, hsegs, -⟩ := Hash.buildFrom_segments hk
      refine ⟨bounds, hbounds, ⟨part.table, part.backend, .hash n bounds.1 bounds.2, ""⟩, ?_, n, rfl⟩
      grind
    · exact ih hk hpart

theorem parseSegment_lt {segment : String} {bounds : ℕ × ℕ} (h : parseSegment segment = .ok bounds) :
    bounds.1 < bounds.2 := by
  unfold parseSegment at h
  split at h
  · grind
  · cases h

theorem Hash.build_exact (hb : Hash.build slots conf = .ok h) :
    h.Exact ∧ h.slots = slots ∧ ∀ part ∈ conf.partitions, ∃ bounds, parseSegment part.segment = .ok bounds ∧
      ∃ seg ∈ h.segments, ∃ origin, seg.range = .hash origin bounds.1 bounds.2 := by
  obtain ⟨h₀, hh₀, -, rfl⟩ := Hash.build_ok hb
  have hperm := perm_insertionSort (fun a b : Segment => a.range.start ≤ b.range.start) h₀.segments
  have hexact : h₀.Exact := Hash.Exact.buildFrom (fun i seg => by simp [SlotMap.empty]) hh₀
  refine ⟨fun i seg => ?_, Hash.buildFrom_slots hh₀, fun part hpart => ?_⟩
  · rw [hexact, hperm.mem_iff]
  · obtain ⟨bounds, hbounds, seg, hseg, hrange⟩ := Hash.buildFrom_bounds hh₀ hpart
    exact ⟨bounds, hbounds, seg, hperm.mem_iff.2 hseg, hrange⟩

/-- Every slot of the table is covered by exactly one segment, no other slot is covered, and the index of a
key leads to the segment that covers it. -/
structure Hash.Sound (h : Hash) (slots : ℕ) : Prop where
  covered : ∀ i < slots, ∃! seg, seg ∈ h.segments ∧ seg.Covers i
  within : ∀ seg ∈ h.segments, ∀ i, seg.Covers i → i < slots
  found : ∀ H key idx, h.getIndex H key = .ok idx →
    ∃ seg ∈ h.segments, seg.Covers idx ∧ h.getSegment idx = .ok seg

/-- What `Hash.Build` accepts is sound exactly if no segment ends behind the last slot. -/
theorem Hash.sound_iff {slots : ℕ} (hslots : 0 < slots) {conf : TableConfig} {h : Hash}
    (hb : Hash.build slots conf = .ok h) : h.Sound slots ↔ SegmentsWithin conf.partitions slots := by
  obtain ⟨hexact, rfl, hbounds⟩ := Hash.build_exact hb
  constructor
  · intro hsound part hpart bounds hparse
    obtain ⟨bounds', hparse', seg, hseg, origin, hrange⟩ := hbounds part hpart
    obtain rfl := Except.ok.inj (hparse.symm.trans hparse')
    have hlt := parseSegment_lt hparse
    have hlast := hsound.within seg hseg (bounds.2 - 1) ⟨_, _, _, hrange, by omega, by omega⟩
    omega
  · intro hwithin
    have hfind {i : ℕ} (hi : i < h.slots) : ∃ seg, h.partitions.find i = some seg :=
      Option.ne_none_iff_exists'.1 (Hash.build_total hb hwithin hi)
    refine ⟨fun i hi => ?_, fun seg hseg i hi => ?_, fun H key idx hidx => ?_⟩
    · obtain ⟨seg, hseg⟩ := hfind hi
      refine ⟨seg, (hexact i seg).1 hseg, fun seg' hseg' => ?_⟩
      exact Option.some.inj (((hexact i seg').2 hseg').symm.trans hseg)
    · obtain ⟨h₀, hh₀, -, rfl⟩ := Hash.build_ok hb
      have hempty : SlotMap.empty.Counted h₀.slots :=
        ⟨∅, rfl, Finset.empty_subset _, fun i => by simp [SlotMap.empty]⟩
      obtain ⟨s, -, hsub, hmem⟩ := Hash.buildFrom_counted hwithin hempty hh₀
      exact Finset.mem_range.1 (hsub ((hmem i).1 (by rw [(hexact i seg).2 ⟨hseg, hi⟩]; exact Option.some_ne_none seg)))
    · have hlt : idx < h.slots := by
        have hmax := Hash.getIndex_lt hidx
        omega
      obtain ⟨seg, hseg⟩ := hfind hlt
      obtain ⟨hmem, hcovers⟩ := (hexact idx seg).1 hseg
      exact ⟨seg, hmem, hcovers, by rw [Hash.getSegment, if_neg (Nat.not_le.2 hlt), hseg]; rfl⟩

/-- A table with eight slots and the given segments, one physical table each. -/
def eightSlots (segments : List String) : TableConfig where
  name := "t"
  slots := 8
  blocks := 8
  shardType := .hash
  shardKey := "id"
  partitions := segments.map fun segment => ⟨"t_" ++ segment, segment, "b", ""⟩

theorem exists_build (conf : TableConfig) (f : Hash → Bool)
    (h : (Hash.build 8 conf).toOption.any f = true) : ∃ h, Hash.build 8 conf = .ok h ∧ f h = true := by
  cases hb : Hash.build 8 conf with
  | error e =>
    rw [hb] at h
    cases h
  | ok k =>
    rw [hb] at h
    exact ⟨k, rfl, h⟩

theorem segmentsWithin_eightSlots {segments : List String}
    (h : ∀ segment ∈ segments, ((parseSegment segment).toOption.all fun bounds => bounds.2 ≤ n) = true) :
    SegmentsWithin (eightSlots segments).partitions n := by
  intro part hpart bounds hbounds
  obtain ⟨segment, hmem, rfl⟩ := mem_map.1 hpart
  have hle := h segment hmem
  rw [show parseSegment segment = .ok bounds from hbounds] at hle
  exact of_decide_eq_true hle

/-- The segments `4-8` and `0-4`. -/
theorem two_halves_sound : ∃ h, Hash.build 8 (eightSlots ["4-8", "0-4"]) = .ok h ∧ h.Sound 8 := by
  obtain ⟨h, hb, -⟩ := exists_build (eightSlots ["4-8", "0-4"]) (fun _ => true) (by decide +kernel)
  exact ⟨h, hb, (Hash.sound_iff (by decide) hb).2 (segmentsWithin_eightSlots (by decide +kernel))⟩

/-- The segment `8-16` has eight slots, but none of the table: the index 0 leads to no segment. -/
theorem shifted_segment_accepted : ∃ h, Hash.build 8 (eightSlots ["8-16"]) = .ok h ∧
    h.getSegment 0 = .ok {} ∧ ¬ h.Sound 8 := by
  obtain ⟨h, hb, hseg⟩ := exists_build (eightSlots ["8-16"])
    (fun h => (h.getSegment 0).toOption = some {} && h.segments.all fun seg => seg.range.start = 8)
    (by decide +kernel)
  simp only [Bool.and_eq_true, decide_eq_true_eq, List.all_eq_true] at hseg
  refine ⟨h, hb, ?_, fun hsound => ?_⟩
  · cases hget : h.getSegment 0 with
    | error e =>
      rw [hget] at hseg
      cases hseg.1
    | ok seg =>
      rw [hget] at hseg
      exact congrArg _ (Option.some.inj hseg.1)
  · obtain ⟨seg, ⟨hmem, origin, start, stop, hrange, hle, -⟩, -⟩ := hsound.covered 0 (by decide)
    have hstart := hseg.2 seg hmem
    rw [hrange, KeyRange.start] at hstart
    omega

/-! ## The segments of `HashUniform` -/

theorem le_ofDigitChars (cs : List Char) (n : ℕ) : n ≤ Nat.ofDigitChars 10 cs n := by
  induction cs generalizing n with
  | nil => exact le_rfl
  | cons c cs ih =>
    rw [Nat.ofDigitChars_cons]
    exact le_trans (by omega) (ih _)

theorem parseDigits_digits {cs : List Char} (hcs : ∀ c ∈ cs, c.isDigit = true)
    (h : Nat.ofDigitChars 10 cs n < 2 ^ 64) : parseDigits 10 n cs = .ok (Nat.ofDigitChars 10 cs n) := by
  induction cs generalizing n with
  | nil => rfl
  | cons c cs ih =>
    have hc := le_of_isDigit (hcs c mem_cons_self)
    have hnine : c.toNat ≤ '9'.toNat := hc.2
    rw [Nat.ofDigitChars_cons] at h ⊢
    grind [le_ofDigitChars, parseDigits, digitVal]

theorem atoi_of_lt (h : n < 2 ^ 63) : atoi (Nat.toDigits 10 n) = some n := by
  have hvalue : Nat.ofDigitChars 10 (Nat.toDigits 10 n) 0 = n :=
    Nat.ofDigitChars_toDigits (by norm_num) (by norm_num)
  have hparse := parseDigits_digits (fun _ => isDigit_toDigits) (hvalue.trans_lt (h.trans (by norm_num)))
  unfold atoi
  split
  · rename_i heq
    exact absurd (isDigit_toDigits (heq ▸ mem_cons_self)) (by decide)
  · rw [if_neg Nat.toDigits_ne_nil, hparse, hvalue]
    exact if_pos h

theorem parseSegment_of_lt {a b : ℕ} (hab : a < b) (hb : b < 2 ^ 63) :
    parseSegment (toString a ++ "-" ++ toString b) = .ok (a, b) := by
  grind [splitOn_segment, atoi_of_lt, parseSegment]

/-- The partition covers the slot. -/
def PartitionConfig.Covers (part : PartitionConfig) (i : ℕ) : Prop :=
  ∃ bounds, parseSegment part.segment = .ok bounds ∧ bounds.1 ≤ i ∧ i < bounds.2

/-- The bounds of a partition that has them. -/
def PartitionConfig.bounds (part : PartitionConfig) : ℕ × ℕ := ((parseSegment part.segment).toOption).getD (0, 0)

/-- The partition has bounds. -/
def PartitionConfig.Bounded (part : PartitionConfig) : Prop := parseSegment part.segment = .ok part.bounds

theorem PartitionConfig.Bounded.covers_iff {part : PartitionConfig} (h : part.Bounded) (i : ℕ) :
    part.Covers i ↔ part.bounds.1 ≤ i ∧ i < part.bounds.2 := by
  constructor
  · rintro ⟨bounds, hbounds, hi⟩
    obtain rfl := Except.ok.inj (h.symm.trans hbounds)
    exact hi
  · exact fun hi => ⟨_, h, hi⟩

theorem exists_covers_iff (hparts : ∀ part ∈ parts, part.Bounded)
    (htiles : Tiles lo (parts.map PartitionConfig.bounds) hi) (i : ℕ) :
    (∃ part ∈ parts, part.Covers i) ↔ lo ≤ i ∧ i < hi := by
  rw [← htiles.mem_iff]
  constructor
  · grind [PartitionConfig.Bounded.covers_iff]
  · grind [PartitionConfig.Bounded.covers_iff]

theorem SlotMap.fill_free {m : SlotMap} (hlt : lo < hi) (hfree : ∀ i, lo ≤ i → m.find i = none)
    (text : String) (seg : Segment) : ∃ m' : SlotMap, m.fill text seg (List.range' lo (hi - lo)) = .ok m' ∧
      m'.size = m.size + (hi - lo) ∧ ∀ i, hi ≤ i → m'.find i = none := by
  refine ⟨m.put seg (List.range' lo (hi - lo)), ?_, ?_, fun i hi' => ?_⟩
  · grind [fill_eq_ok_iff]
  · rw [SlotMap.put, length_range']
  · have hnot : i ∉ List.range' lo (hi - lo) := fun hmem => by
      rw [mem_range'_1] at hmem
      omega
    exact (if_neg hnot).trans (hfree i (hlt.le.trans hi'))

/-- `Hash.Build` accepts segments that follow one another. -/
theorem Hash.buildFrom_tiles (hparts : ∀ part ∈ parts, part.Bounded)
    (htiles : Tiles lo (parts.map PartitionConfig.bounds) hi) (hfree : ∀ i, lo ≤ i → h.partitions.find i = none) :
    ∃ k, Hash.buildFrom n parts h = .ok k ∧ k.partitions.size = h.partitions.size + (hi - lo) := by
  induction parts generalizing lo n h with
  | nil =>
    cases htiles
    exact ⟨h, rfl, by omega⟩
  | cons part parts ih =>
    obtain ⟨hpart, hparts⟩ := forall_mem_cons.1 hparts
    obtain ⟨rfl, hlt, htiles⟩ := htiles
    have hle := htiles.le
    rw [Hash.buildFrom, show parseSegment part.segment = .ok part.bounds from hpart]
    obtain ⟨filled, hfilled, hsize, hrest⟩ := SlotMap.fill_free hlt hfree part.segment
      ⟨part.table, part.backend, .hash n part.bounds.1 part.bounds.2, ""⟩
    simp only [bind, Except.bind, hfilled]
    obtain ⟨k, hk, hk'⟩ := ih (n := n + 1) (h := ⟨h.slots, filled, h.segments ++ [_]⟩) hparts htiles hrest
    refine ⟨k, hk, hk'.trans ?_⟩
    rw [hsize]
    omega

theorem Hash.build_tiles (hparts : ∀ part ∈ conf.partitions, part.Bounded)
    (htiles : Tiles 0 (conf.partitions.map PartitionConfig.bounds) slots) : ∃ h, Hash.build slots conf = .ok h := by
  obtain ⟨k, hk, hsize⟩ := Hash.buildFrom_tiles (n := 0) (h := ⟨slots, .empty, []⟩) hparts htiles fun _ _ => rfl
  rw [Hash.build, hk]
  exact ⟨_, if_neg (not_not.2 (hsize.trans (by simp [SlotMap.empty])))⟩

/-- The segments are disjoint intervals, none of them empty, that make up all slots; no two physical tables
have the same name, and each of the sorted backends has its share of the slots, the last one also the rest. -/
structure TableConfig.Tiled (conf : TableConfig) (backends : List String) (slots : ℕ) : Prop where
  nonempty : ∀ part ∈ conf.partitions, ∃ i, part.Covers i
  disjoint : conf.partitions.Pairwise fun p q => ∀ i, p.Covers i → ¬ q.Covers i
  union : ∀ i, (∃ part ∈ conf.partitions, part.Covers i) ↔ i < slots
  names : (conf.partitions.map PartitionConfig.table).Nodup
  shares : ∀ k backend, backends[k]? = some backend → ∀ i,
    (∃ part ∈ conf.partitions, part.backend = backend ∧ part.Covers i) ↔
      k * (slots / backends.length) ≤ i ∧
        i < if k + 1 = backends.length then slots else (k + 1) * (slots / backends.length)

section Shares

variable {table : String} {slots blocks per : ℕ} {backends : List String}

/-- The first slot of a share, and the number of slots behind the last share. -/
def shareStart (slots per n s : ℕ) : ℕ := if s = n then slots else s * per

/-- The first slot of the i-th of the t segments of a share, and of the next share behind the last segment. -/
def segmentStart (slots blocks per n t s i : ℕ) : ℕ :=
  if i = t then shareStart slots per n (s + 1) else i * blocks + s * per

/-- The segments of a share. -/
def shareSegments (table : String) (slots blocks per n t : ℕ) (e : String × ℕ) : List PartitionConfig :=
  (List.range t).map fun i =>
    { table := partitionName table (e.2 * t + i)
      segment := toString (i * blocks + e.2 * per) ++ "-" ++
        toString (segmentStart slots blocks per n t e.2 (i + 1))
      backend := e.1
      listValue := "" }

theorem hashPartitions_eq (t : ℕ) : hashPartitions table slots blocks per t backends =
    backends.zipIdx.flatMap (shareSegments table slots blocks per backends.length t) := by
  unfold hashPartitions shareSegments segmentStart shareStart
  simp only [Nat.add_one_mul]

variable {s : ℕ}

theorem shareStart_le (hn : n * per ≤ slots) (hs : s < n) :
    s * per + per ≤ shareStart slots per n (s + 1) ∧ shareStart slots per n (s + 1) ≤ slots := by
  have hle : (s + 1) * per ≤ slots := (Nat.mul_le_mul_right per hs).trans hn
  grind [shareStart]

theorem segmentStart_lt {i : ℕ} (hblocks : 0 < blocks) (hn : n * per ≤ slots) (hs : s < n) (hi : i < per / blocks) :
    segmentStart slots blocks per n (per / blocks) s i < segmentStart slots blocks per n (per / blocks) s (i + 1) ∧
      segmentStart slots blocks per n (per / blocks) s (i + 1) ≤ slots := by
  have hshare := shareStart_le hn hs
  have hsegment : i * blocks + blocks ≤ per := by
    rw [← Nat.succ_mul]
    exact (Nat.mul_le_mul_right _ hi).trans (Nat.div_mul_le_self _ _)
  grind [segmentStart]

theorem parseSegment_share {i : ℕ} (hblocks : 0 < blocks) (hn : n * per ≤ slots) (hslots : slots < 2 ^ 63)
    (hs : s < n) (hi : i < per / blocks) : parseSegment (toString (i * blocks + s * per) ++ "-" ++
        toString (segmentStart slots blocks per n (per / blocks) s (i + 1))) =
      .ok (segmentStart slots blocks per n (per / blocks) s i,
        segmentStart slots blocks per n (per / blocks) s (i + 1)) := by
  grind [segmentStart_lt, parseSegment_of_lt, segmentStart]

theorem shareSegments_bounds (table : String) (hblocks : 0 < blocks) (hn : n * per ≤ slots) (hslots : slots < 2 ^ 63)
    (he : e.2 < n) :
    (∀ part ∈ shareSegments table slots blocks per n (per / blocks) e, part.Bounded ∧ part.backend = e.1) ∧
      (shareSegments table slots blocks per n (per / blocks) e).map PartitionConfig.bounds =
        (List.range (per / blocks)).map fun i => (segmentStart slots blocks per n (per / blocks) e.2 i,
          segmentStart slots blocks per n (per / blocks) e.2 (i + 1)) := by
  have hparse {i : ℕ} (hi : i < per / blocks) := parseSegment_share hblocks hn hslots he hi
  constructor
  · intro part hpart
    obtain ⟨i, hi, rfl⟩ := mem_map.1 hpart
    simp only [PartitionConfig.Bounded, PartitionConfig.bounds, hparse (mem_range.1 hi), and_true]
    rfl
  · rw [shareSegments, map_map]
    refine map_congr_left fun i hi => ?_
    simp only [Function.comp_apply, PartitionConfig.bounds, hparse (mem_range.1 hi)]
    rfl

theorem shareSegments_tiles (hblocks : 0 < blocks) (hper : blocks ≤ per) (hn : n * per ≤ slots)
    (hslots : slots < 2 ^ 63) (he : e.2 < n) : Tiles (shareStart slots per n e.2)
      ((shareSegments table slots blocks per n (per / blocks) e).map PartitionConfig.bounds)
      (shareStart slots per n (e.2 + 1)) := by
  have ht : 0 < per / blocks := Nat.div_pos hper hblocks
  have htiles := tiles_range (f := segmentStart slots blocks per n (per / blocks) e.2)
    fun i hi => (segmentStart_lt hblocks hn he hi).1
  grind [shareSegments_bounds, shareStart, segmentStart]

end Shares

theorem mem_zipIdx_lt (he : e ∈ backends.zipIdx) : backends[e.2]? = some e.1 ∧ e.2 < backends.length := by grind

/-- The segments of `HashUniform` if every share has one. -/
theorem hashPartitions_tiles (table : String) {blocks per : ℕ} (hblocks : 0 < blocks) (hper : blocks ≤ per)
    (hn : backends.length * per ≤ slots) (hpos : backends ≠ []) (hslots : slots < 2 ^ 63) :
    (∀ part ∈ hashPartitions table slots blocks per (per / blocks) backends, part.Bounded) ∧
      Tiles 0 ((hashPartitions table slots blocks per (per / blocks) backends).map PartitionConfig.bounds) slots := by
  have hlen : 0 < backends.length := length_pos_of_ne_nil hpos
  rw [hashPartitions_eq, map_flatMap]
  constructor
  · grind [shareSegments_bounds]
  · have htiles : Tiles (shareStart slots per backends.length 0) (backends.zipIdx.flatMap fun e =>
        (shareSegments table slots blocks per backends.length (per / blocks) e).map PartitionConfig.bounds)
        (shareStart slots per backends.length (0 + backends.length)) :=
      tiles_flatMap fun e he => shareSegments_tiles hblocks hper hn hslots (mem_zipIdx_lt he).2
    grind [shareStart]

theorem hashPartitions_shares {table : String} {blocks per : ℕ} (hblocks : 0 < blocks) (hper : blocks ≤ per)
    (hn : backends.length * per ≤ slots) (hnodup : backends.Nodup) (hslots : slots < 2 ^ 63) {k : ℕ} {backend : String}
    (hk : backends[k]? = some backend) (i : ℕ) :
    (∃ part ∈ hashPartitions table slots blocks per (per / blocks) backends, part.backend = backend ∧ part.Covers i) ↔
      shareStart slots per backends.length k ≤ i ∧ i < shareStart slots per backends.length (k + 1) := by
  have hlt : k < backends.length := (List.getElem?_eq_some_iff.1 hk).1
  have hrun := (shareSegments_bounds table hblocks hn hslots (e := (backend, k)) hlt).1
  have hcovers := exists_covers_iff (fun part hpart => (hrun part hpart).1)
    (shareSegments_tiles hblocks hper hn hslots hlt) i
  rw [← hcovers, hashPartitions_eq]
  constructor
  · rintro ⟨part, hpart, hbackend, hi⟩
    obtain ⟨e, he, hpart⟩ := mem_flatMap.1 hpart
    obtain ⟨hget, helt⟩ := mem_zipIdx_lt he
    have heq := ((shareSegments_bounds _ hblocks hn hslots helt).1 part hpart).2
    have hidx : e.2 = k := (List.getElem?_inj helt hnodup).1 (by rw [hget, hk, ← heq, hbackend])
    grind
  · grind

theorem sorted_share {r : Router} (hne : backends ≠ []) : (backends.insertionSort (· ≤ ·)).length
    * (r.slots / backends.length) ≤ r.slots ∧ backends.insertionSort (· ≤ ·) ≠ [] := by
  have hlen : (backends.insertionSort (· ≤ ·)).length = backends.length := length_insertionSort _ _
  refine ⟨hlen ▸ Nat.mul_div_le _ _, fun heq => hne (length_eq_zero_iff.1 ?_)⟩
  rw [← hlen, heq, length_nil]

/-- `Hash.Build` accepts what `HashUniform` computes exactly if a backend has slots for one block. -/
theorem hashUniform_build_iff {r : Router} (hslots : r.slots < 2 ^ 63) {table shardKey : String}
    {partitionNum : Option SQLVal} (h : r.hashUniform table shardKey backends partitionNum = .ok conf) :
    (∃ p, Hash.build r.slots conf = .ok p) ↔ r.tableBlocks partitionNum ≤ r.slots / backends.length := by
  obtain ⟨-, hne, hless, hblocks, rfl⟩ := hashUniform_eq h
  constructor
  · rintro ⟨p, hp⟩
    by_contra hper
    -- without slots for a block there is no segment
    obtain ⟨k, hk, hsize, -⟩ := Hash.build_ok hp
    have hnone : r.slots / backends.length / r.tableBlocks partitionNum = 0 :=
      Nat.div_eq_of_lt (Nat.lt_of_not_le hper)
    have hempty : hashPartitions table r.slots (r.tableBlocks partitionNum) (r.slots / backends.length) 0
        (backends.insertionSort (· ≤ ·)) = [] := flatMap_eq_nil_iff.2 fun _ _ => rfl
    grind [Hash.buildFrom, SlotMap.empty]
  · intro hper
    obtain ⟨hn, hpos⟩ := sorted_share (r := r) hne
    obtain ⟨hbounded, htiles⟩ := hashPartitions_tiles table hblocks hper hn hpos hslots
    exact Hash.build_tiles hbounded htiles

/-- `Hash.Build` accepts what `HashUniform` computes exactly if a backend has slots for one block; the
segments then tile the slots. -/
theorem hashUniform_accepted_iff {r : Router} (hslots : r.slots < 2 ^ 63) {table shardKey : String}
    {backends : List String} (hnodup : backends.Nodup) {partitionNum : Option SQLVal} {conf : TableConfig}
    (h : r.hashUniform table shardKey backends partitionNum = .ok conf) :
    ((∃ p, Hash.build r.slots conf = .ok p) ↔ conf.blocks ≤ r.slots / backends.length) ∧
      (conf.blocks ≤ r.slots / backends.length →
        conf.Tiled (backends.insertionSort (· ≤ ·)) r.slots) := by
  have haccepted := hashUniform_build_iff hslots h
  have hnames := (Configured.distinctNames (.hash h)).nodup
  obtain ⟨-, hne, -, hblocks, rfl⟩ := hashUniform_eq h
  refine ⟨haccepted, fun hper => ?_⟩
  obtain ⟨hn, hpos⟩ := sorted_share (r := r) hne
  obtain ⟨hbounded, htiles⟩ := hashPartitions_tiles table hblocks hper hn hpos hslots
  refine ⟨fun part hpart => ?_, ?_, fun i => ?_, hnames, fun k backend hk i => ?_⟩
  · refine ⟨part.bounds.1, ((hbounded part hpart).covers_iff _).2 ⟨le_rfl, ?_⟩⟩
    exact (htiles.lt (List.mem_map_of_mem hpart)).1
  · refine (List.pairwise_map.1 htiles.pairwise).imp_of_mem fun {p q} hp hq hle i hi hi' => ?_
    rw [(hbounded p hp).covers_iff] at hi
    rw [(hbounded q hq).covers_iff] at hi'
    omega
  · rw [exists_covers_iff hbounded htiles, and_iff_right (Nat.zero_le i)]
  · have hperm := List.perm_insertionSort (fun a b : String => a ≤ b) backends
    rw [hashPartitions_shares hblocks hper hn (hperm.nodup_iff.2 hnodup) hslots hk]
    have hlt := (List.getElem?_eq_some_iff.1 hk).1
    rw [shareStart, if_neg hlt.ne, shareStart, hperm.length_eq]

/-- A router without tables. -/
def emptyRouter (slots blocks : ℕ) : Router where
  slots := slots
  blocks := blocks
  databases := fun db => db = "db"
  tables := fun _ _ => none
  files := fun _ _ => none

/-- Eleven slots in blocks of two: the segments `0-2`, `2-5` and `5-7`, `7-11`. -/
theorem eleven_slots_tiled : ∃ conf, (emptyRouter 11 2).hashUniform "t" "id" ["b", "a"] none = .ok conf ∧
    conf.partitions.map PartitionConfig.segment = ["0-2", "2-5", "5-7", "7-11"] ∧
    (∃ p, Hash.build 11 conf = .ok p) ∧ conf.Tiled ["a", "b"] 11 := by
  obtain ⟨conf, hconf⟩ : ∃ conf, (emptyRouter 11 2).hashUniform "t" "id" ["b", "a"] none = .ok conf := ⟨_, rfl⟩
  have hblocks : conf.blocks = 2 := by
    obtain ⟨-, -, -, -, rfl⟩ := hashUniform_eq hconf
    rfl
  have hsegments : conf.partitions.map PartitionConfig.segment = ["0-2", "2-5", "5-7", "7-11"] := by
    obtain ⟨-, -, -, -, rfl⟩ := hashUniform_eq hconf
    decide +kernel
  obtain ⟨haccepted, htiled⟩ := hashUniform_accepted_iff (by decide) (by decide) hconf
  have hper : conf.blocks ≤ (emptyRouter 11 2).slots / 2 := hblocks.trans_le (by decide)
  exact ⟨conf, hconf, hsegments, haccepted.2 hper, htiled hper⟩

end Radon
