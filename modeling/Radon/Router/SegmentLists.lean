import Radon.Router.Ownership
import Radon.Router.Tiling

/-!
# The segments of a list of indexes

`Router.GetSegments` leaves out a segment whose range object it has already met. `Build` allocates one range
for each partition, so this removes exactly the repeated segments. Whether the physical tables differ and
whether every index has a segment depends on the configuration, which `Build` does not check.
-/

namespace Radon

open List

theorem nodup_eraseDups {α : Type} [DecidableEq α] (as : List α) : as.eraseDups.Nodup := by
  induction as using List.reverseRecOn with
  | nil => exact nodup_nil
  | append_singleton as a ih =>
    rw [eraseDups_append]
    by_cases ha : a ∈ as
    · simpa [List.removeAll, ha] using ih
    · simpa [List.removeAll, ha, nodup_append, eraseDups_cons] using ⟨ih, fun _ h => ne_of_mem_of_not_mem h ha⟩

/-- The segment that an index of a hash or list table stands for. -/
def Partition.Covering : Partition → ℕ → Segment → Prop
  | .hash h, idx, seg => seg ∈ h.segments ∧ seg.Covers idx
  | .list l, idx, seg => l.segments[idx]? = some seg
  | .global _, _, _ | .single _, _, _ => False

/-- The indexes of a hash or list table. -/
def Partition.ValidIndex : Partition → ℕ → Prop
  | .hash h, idx => idx < h.slots
  | .list l, idx => idx < l.segments.length
  | .global _, _ | .single _, _ => False

/-- `GetSegments` of a table: without indexes every segment once, otherwise the segments of the indexes in the
order of their first occurrence, and never two segments with the same physical table. -/
structure Router.SegmentsExact (r : Router) (db : String) (conf : TableConfig) (p : Partition) : Prop where
  all : ∃ segs, r.getSegments db conf.name [] = .ok segs ∧ (segs.map Segment.physical).Nodup ∧
    (segs.map Segment.physical).Perm conf.physicals
  picked : ∀ indexes ≠ [], (∀ idx ∈ indexes, p.ValidIndex idx) → ∃ covering,
    List.Forall₂ p.Covering indexes covering ∧
    r.getSegments db conf.name indexes = .ok covering.eraseDups ∧
    (covering.eraseDups.map Segment.physical).Nodup

/-- The number of slots that `addTable` hands to `NewHash`. -/
def TableConfig.hashSlots (conf : TableConfig) (slots : ℕ) : ℕ := if conf.slots = 0 then slots else conf.slots

section Accepted

variable {slots : ℕ} {conf : TableConfig} {h : Hash} {p : Partition}

/-- Segments with the same range object are the same. -/
theorem Partition.build_range_inj (htype : conf.shardType = .hash ∨ conf.shardType = .list)
    (hb : Partition.build slots conf = .ok p) {seg seg' : Segment} (hseg : seg ∈ p.getSegments)
    (hseg' : seg' ∈ p.getSegments) (heq : seg.range = seg'.range) : seg = seg' := by
  obtain htype | htype := htype
  · rw [Partition.build, htype] at hb
    obtain ⟨h, hh, rfl⟩ := except_map_ok hb
    obtain ⟨h₀, hh₀, -, rfl⟩ := Hash.build_ok hh
    obtain ⟨segs, hsegs, hof, -⟩ := Hash.buildFrom_segments hh₀
    rw [nil_append] at hsegs
    have hperm := perm_insertionSort (fun a b : Segment => a.range.start ≤ b.range.start) h₀.segments
    exact hof.range_inj (hsegs ▸ hperm.mem_iff.1 hseg) (hsegs ▸ hperm.mem_iff.1 hseg') heq
  · rw [Partition.build, htype] at hb
    cases hb
    exact (listSegments_segmentsOf 0 conf.partitions).range_inj hseg hseg' heq

/-- The loop of `GetSegments` appends the segments that it has not met. -/
theorem Partition.pickSegments_eq {all : List Segment}
    (hinj : ∀ a ∈ all, ∀ b ∈ all, a.range = b.range → a = b) {indexes : List ℕ} {covering : List Segment}
    (hget : List.Forall₂ (fun idx seg => p.getSegment idx = .ok seg ∧ seg ∈ all) indexes covering)
    {segs : List Segment} (hsegs : segs ⊆ all) :
    p.pickSegments indexes segs = .ok (List.eraseDupsBy.loop (· == ·) covering segs.reverse) := by
  induction hget generalizing segs with
  | nil => rw [Partition.pickSegments, List.eraseDupsBy.loop, reverse_reverse]
  | @cons idx seg indexes covering hhead _ ih =>
    obtain ⟨hseg, hall⟩ := hhead
    have hmet : (segs.any fun s => s.range = seg.range) = segs.reverse.any (seg == ·) := by
      rw [any_reverse, Bool.eq_iff_iff, any_eq_true, any_eq_true]
      refine exists_congr fun s => and_congr_right fun hs => ?_
      rw [decide_eq_true_eq, beq_iff_eq]
      exact ⟨fun heq => (hinj s (hsegs hs) seg hall heq).symm, fun heq => heq ▸ rfl⟩
    rw [Partition.pickSegments, hseg, List.eraseDupsBy.loop, ← hmet]
    cases hany : segs.any fun s => s.range = seg.range with
    | true => simpa [bind, Except.bind, hany] using ih hsegs
    | false =>
      have hsub : segs ++ [seg] ⊆ all := append_subset.2 ⟨hsegs, by simpa using hall⟩
      simpa [bind, Except.bind, hany] using ih hsub

/-- An index leads to the segment that covers it. -/
theorem Partition.getSegment_of_covering (htype : conf.shardType = .hash ∨ conf.shardType = .list)
    (hb : Partition.build slots conf = .ok p) {idx : ℕ} {seg : Segment} (hidx : p.ValidIndex idx)
    (hcover : p.Covering idx seg) : p.getSegment idx = .ok seg ∧ seg ∈ p.getSegments := by
  obtain htype | htype := htype
  · rw [Partition.build, htype] at hb
    obtain ⟨h, hh, rfl⟩ := except_map_ok hb
    have hfind := ((Hash.build_exact hh).1 idx seg).2 hcover
    refine ⟨?_, hcover.1⟩
    rw [Partition.getSegment, Hash.getSegment, if_neg (Nat.not_le.2 hidx), hfind]
    rfl
  · rw [Partition.build, htype] at hb
    cases hb
    have hget : (ListPartition.build conf).segments[idx]? = some seg := hcover
    exact ⟨by rw [Partition.getSegment, ListPartition.getSegment, hget], mem_of_getElem? hget⟩

theorem exists_segmentsWithin (parts : List PartitionConfig) : ∃ n, SegmentsWithin parts n := by
  induction parts with
  | nil => exact ⟨0, fun part hpart => absurd hpart not_mem_nil⟩
  | cons part parts ih =>
    obtain ⟨n, hn⟩ := ih
    refine ⟨max n part.bounds.2, forall_mem_cons.2 ⟨fun bounds hbounds => ?_, fun q hq bounds hbounds => ?_⟩⟩
    · rw [PartitionConfig.bounds, hbounds]
      exact le_max_right _ _
    · exact (hn q hq bounds hbounds).trans (le_max_left _ _)

/-- If every slot has a segment then no segment ends behind the last slot, since there are as many entries as
slots. -/
theorem Hash.within_of_covered (hb : Hash.build slots conf = .ok h)
    (hcover : ∀ i < slots, ∃ seg ∈ h.segments, seg.Covers i) : SegmentsWithin conf.partitions slots := by
  obtain ⟨hexact, -, hbounds⟩ := Hash.build_exact hb
  obtain ⟨h₀, hh₀, hsize, rfl⟩ := Hash.build_ok hb
  obtain ⟨n, hn⟩ := exists_segmentsWithin conf.partitions
  have hempty : SlotMap.empty.Counted n := ⟨∅, rfl, Finset.empty_subset _, fun i => by simp [SlotMap.empty]⟩
  obtain ⟨s, hcard, -, hfind⟩ := Hash.buildFrom_counted hn hempty hh₀
  have hsub : Finset.range slots ⊆ s := by
    intro i hi
    obtain ⟨seg, hseg, hi⟩ := hcover i (Finset.mem_range.1 hi)
    exact (hfind i).1 (by rw [(hexact i seg).2 ⟨hseg, hi⟩]; exact Option.some_ne_none seg)
  have hall : Finset.range slots = s := Finset.eq_of_subset_of_card_le hsub (by simp [hcard, hsize])
  intro part hpart bounds hparse
  obtain ⟨bounds', hparse', seg, hseg, origin, hrange⟩ := hbounds part hpart
  obtain rfl := Except.ok.inj (hparse.symm.trans hparse')
  have hlt := parseSegment_lt hparse
  -- the last slot of the segment is one of the slots of the table
  have hlast := (hexact (bounds.2 - 1) seg).2 ⟨hseg, _, _, _, hrange, by omega, by omega⟩
  have hmem := (hfind (bounds.2 - 1)).1 (by rw [hlast]; exact Option.some_ne_none seg)
  rw [← hall, Finset.mem_range] at hmem
  omega

/-- Every index has a segment exactly if no segment of a hash table ends behind the last slot. -/
theorem Partition.covered_iff (htype : conf.shardType = .hash ∨ conf.shardType = .list)
    (hb : Partition.build slots conf = .ok p) : (∀ idx, p.ValidIndex idx → ∃ seg, p.Covering idx seg) ↔
      (conf.shardType = .hash → SegmentsWithin conf.partitions (conf.hashSlots slots)) := by
  obtain htype | htype := htype
  · rw [Partition.build, htype] at hb
    obtain ⟨h, hh, rfl⟩ := except_map_ok hb
    have hh : Hash.build (conf.hashSlots slots) conf = .ok h := hh
    obtain ⟨hexact, hslots, -⟩ := Hash.build_exact hh
    constructor
    · intro hcover _
      refine Hash.within_of_covered hh fun i hi => ?_
      obtain ⟨seg, hseg⟩ := hcover i (hslots ▸ hi : i < h.slots)
      exact ⟨seg, hseg⟩
    · intro hwithin idx hidx
      obtain ⟨seg, hseg⟩ := Option.ne_none_iff_exists'.1 (Hash.build_total hh (hwithin htype) hidx)
      exact ⟨seg, (hexact idx seg).1 hseg⟩
  · rw [Partition.build, htype] at hb
    cases hb
    simp only [htype, reduceCtorEq, false_implies, iff_true]
    exact fun idx hidx => ⟨_, List.getElem?_eq_getElem hidx⟩

end Accepted

/-- The partition of a table that `addTable` accepted. -/
theorem Router.addTable_getPartition {r r' : Router} {db : String} (hdb : db ≠ "") {conf : TableConfig}
    (h : r.addTable db conf = (none, r')) :
    ∃ p, Partition.build r.slots conf = .ok p ∧ r'.getPartition db conf.name = .ok p := by
  obtain ⟨-, -, p, hbuild, rfl⟩ := Router.addTable_ok h
  exact ⟨p, hbuild, by simp [Router.getPartition, Router.getTable, hdb, Router.putTable, updateEntry, bind,
    Except.bind, pure, Except.pure]⟩

/-- The lists of segments of an accepted hash or list table are exact exactly if its physical tables differ
and no segment of a hash table ends behind the last slot. -/
theorem Router.segmentsExact_iff {r r' : Router} {db : String} (hdb : db ≠ "") {conf : TableConfig}
    (htype : conf.shardType = .hash ∨ conf.shardType = .list) (haccept : r.addTable db conf = (none, r')) :
    ∃ p, r'.getPartition db conf.name = .ok p ∧ (r'.SegmentsExact db conf p ↔ conf.physicals.Nodup ∧
      (conf.shardType = .hash → SegmentsWithin conf.partitions (conf.hashSlots r.slots))) := by
  obtain ⟨p, hb, hp⟩ := Router.addTable_getPartition hdb haccept
  refine ⟨p, hp, ?_⟩
  have hget (indexes : List ℕ) : r'.getSegments db conf.name indexes = p.segmentsOf indexes := by
    rw [Router.getSegments, hp]
    rfl
  have hperm := Partition.build_physical hb
  rw [← Partition.covered_iff htype hb]
  constructor
  · intro hexact
    obtain ⟨segs, -, hnodup, hsegs⟩ := hexact.all
    refine ⟨hsegs.nodup_iff.1 hnodup, fun idx hidx => ?_⟩
    obtain ⟨covering, hcover, -⟩ := hexact.picked [idx] (List.cons_ne_nil _ _) (by simpa using hidx)
    obtain ⟨seg, rest, hseg, -, -⟩ := List.forall₂_cons_left_iff.1 hcover
    exact ⟨seg, hseg⟩
  · rintro ⟨hnodup, hcover⟩
    have hphysical : (p.getSegments.map Segment.physical).Nodup := hperm.nodup_iff.2 hnodup
    refine ⟨⟨p.getSegments, hget [], hphysical, hperm⟩, fun indexes hne hvalid => ?_⟩
    have hseg : ∀ idx, ∃ seg, idx ∈ indexes →
        p.Covering idx seg ∧ p.getSegment idx = .ok seg ∧ seg ∈ p.getSegments := by
      intro idx
      by_cases hidx : idx ∈ indexes
      · obtain ⟨seg, hseg⟩ := hcover idx (hvalid idx hidx)
        exact ⟨seg, fun _ => ⟨hseg, Partition.getSegment_of_covering htype hb (hvalid idx hidx) hseg⟩⟩
      · exact ⟨{}, fun h => absurd h hidx⟩
    choose f hf using hseg
    have hcovering {R : ℕ → Segment → Prop} (h : ∀ idx ∈ indexes, R idx (f idx)) :
        List.Forall₂ R indexes (indexes.map f) := List.forall₂_map_right_iff.2 (List.forall₂_same.2 h)
    refine ⟨indexes.map f, hcovering fun idx hidx => (hf idx hidx).1, ?_, ?_⟩
    · rw [hget, Partition.segmentsOf, if_neg hne, Partition.pickSegments_eq
        (fun a ha b hb' heq => Partition.build_range_inj htype hb ha hb' heq)
        (hcovering fun idx hidx => (hf idx hidx).2) (List.nil_subset _)]
      rfl
    · have hmem : ∀ seg ∈ (indexes.map f).eraseDups, seg ∈ p.getSegments := by
        intro seg hseg
        obtain ⟨idx, hidx, rfl⟩ := List.mem_map.1 (List.mem_eraseDups.1 hseg)
        exact (hf idx hidx).2.2
      refine (nodup_eraseDups _).map_on fun a ha b hb' heq => ?_
      exact List.inj_on_of_nodup_map hphysical (hmem a ha) (hmem b hb') heq

/-- The configurations of the router itself meet the condition. -/
theorem Configured.segments_differ {r : Router} {conf : TableConfig} (h : Configured r conf) (slots : ℕ) :
    conf.physicals.Nodup ∧ (conf.shardType = .hash → SegmentsWithin conf.partitions (conf.hashSlots slots)) := by
  have hok : ConfOk conf := by
    induction h with
    | hash h => exact .of_hashUniform h
    | list h => exact .of_listUniform h
    | rename _ toTable ih => exact ih.rename _ toTable
    | shift _ hmoved ih => exact ih.move (movePartition_map hmoved fun _ => rfl)
  refine ⟨?_, fun hhash => ?_⟩
  · refine List.Nodup.of_map Prod.fst ?_
    rw [TableConfig.physicals, map_map]
    exact h.distinctNames.nodup
  · rw [TableConfig.hashSlots, if_neg (hok.hash hhash).ne']
    exact hok.hashWithin hhash

theorem segments_differ_two : ∃ conf, (emptyRouter 8 2).hashUniform "t" "id" ["a", "b"] none = .ok conf ∧
    conf.partitions.length = 4 ∧ conf.physicals.Nodup := by
  have h : (emptyRouter 8 2).hashUniform "t" "id" ["a", "b"] none = .ok _ := rfl
  exact ⟨_, h, by decide +kernel, ((Configured.hash h).segments_differ 8).1⟩

/-- The hash table with the segments `4-8` and `0-4`. -/
theorem two_halves_listed : ∃ p, ((emptyRouter 8 8).addTable "db" (eightSlots ["4-8", "0-4"])).2.getPartition
      "db" "t" = .ok p ∧
    ((emptyRouter 8 8).addTable "db" (eightSlots ["4-8", "0-4"])).2.SegmentsExact "db"
      (eightSlots ["4-8", "0-4"]) p := by
  have haccept : (emptyRouter 8 8).addTable "db" (eightSlots ["4-8", "0-4"]) =
      (none, ((emptyRouter 8 8).addTable "db" (eightSlots ["4-8", "0-4"])).2) :=
    Prod.ext (by decide +kernel) rfl
  obtain ⟨p, hp, hexact⟩ := Router.segmentsExact_iff (by decide) (.inl rfl) haccept
  exact ⟨p, hp, hexact.2 ⟨by decide +kernel, fun _ => segmentsWithin_eightSlots (by decide +kernel)⟩⟩

/-- Two segments with one physical table. -/
def sharedTable : TableConfig :=
  { eightSlots [] with partitions := [⟨"t_0000", "0-4", "b", ""⟩, ⟨"t_0000", "4-8", "b", ""⟩] }

/-- A configuration with the same physical table twice is accepted, and queries of the table are sent to it
twice. -/
theorem physical_table_listed_twice : ((emptyRouter 8 8).addTable "db" sharedTable).1 = none ∧
    (((emptyRouter 8 8).addTable "db" sharedTable).2.getSegments "db" "t" [0, 4, 1]).toOption.map
      (List.map Segment.physical) = some [("t_0000", "b"), ("t_0000", "b")] ∧
    ∀ p, ¬ ((emptyRouter 8 8).addTable "db" sharedTable).2.SegmentsExact "db" sharedTable p := by
  refine ⟨by decide +kernel, by decide +kernel, fun p hexact => ?_⟩
  obtain ⟨segs, -, hnodup, hperm⟩ := hexact.all
  exact absurd (hperm.nodup_iff.1 hnodup) (by decide)

end Radon
