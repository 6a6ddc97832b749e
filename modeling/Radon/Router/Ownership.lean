import Radon.Concurrency.Run
import Radon.Router.Reachable

/-!
# Which logical table owns a physical table

A hash or list table `t` has the physical tables `t_0000`, `t_0001` and so on, while a global or single
table has its own name on every backend. Two tables with suffixes never share a name, and neither do two
tables without, but nothing keeps a table without a suffix from having the name of a physical table of
another one. The operations keep the tables apart exactly as long as none of them makes such a name meet on
one backend.
-/

namespace Radon

open Concurrency List

/-! ## Physical tables -/

/-- The name and the backend of the physical table of a partition. -/
def PartitionConfig.physical (part : PartitionConfig) : String × String := (part.table, part.backend)

/-- The name and the backend of the physical table of a segment. -/
def Segment.physical (seg : Segment) : String × String := (seg.table, seg.backend)

/-- The physical tables that a configuration lists. -/
def TableConfig.physicals (conf : TableConfig) : List (String × String) :=
  conf.partitions.map PartitionConfig.physical

/-- A physical table that is in the configuration of a table or that queries of the table are sent to. -/
def Table.Owns (t : Table) (x : String × String) : Prop :=
  x ∈ t.tableConfig.physicals ∨ ∃ p, t.partition = some p ∧ x ∈ p.getSegments.map Segment.physical

/-- No two tables of a database own the same physical table. -/
def Router.Apart (r : Router) : Prop :=
  ∀ db s t S T x, r.tables db s = some S → r.tables db t = some T → S.Owns x → T.Owns x → s = t

/-- The physical tables have the name of the table, without a suffix. -/
def MethodType.plain : MethodType → Bool
  | .hash | .list => false
  | .global | .single => true

/-- No table of the other kind owns one of the physical tables. -/
def Router.Unclaimed (r : Router) (db : String) (plain : Bool) (P : String × String → Prop) : Prop :=
  ∀ s S, r.tables db s = some S → S.tableConfig.shardType.plain ≠ plain → ∀ x, P x → ¬ S.Owns x

/-- The physical name under the new name of the table, as `strings.Replace` makes it. -/
def renamed (fromTable toTable name : String) : String :=
  String.ofList (replaceFirst fromTable.toList toTable.toList name.toList)

/-- The physical tables that an operation is about to give to a table belong to no table of the other
kind. -/
def Router.Free (r : Router) : RouterOp → Prop
  | .createDatabase _ | .dropTable _ _ _ => True
  | .createHashTable _ db table shardKey backends partitionNum =>
    ∀ conf, r.hashUniform table shardKey backends partitionNum = .ok conf →
      r.Unclaimed db false (· ∈ conf.physicals)
  | .createListTable _ order db table shardKey defs =>
    ∀ conf, listUniform order table shardKey defs = .ok conf → r.Unclaimed db false (· ∈ conf.physicals)
  | .createGlobalTable _ db table backends => r.Unclaimed db true fun x => x.1 = table ∧ x.2 ∈ backends
  | .createSingleTable _ db table backends =>
    r.Unclaimed db true fun x => x.1 = table ∧ backends.head? = some x.2
  | .rename _ _ db fromTable toTable =>
    ∀ T, r.tables db fromTable = some T → r.Unclaimed db T.tableConfig.shardType.plain fun x =>
      ∃ name, T.Owns (name, x.2) ∧ x.1 = renamed fromTable toTable name
  | .shift _ _ toBackend db partitionTable found =>
    ∀ T, r.tables db found = some T →
      r.Unclaimed db T.tableConfig.shardType.plain (· = (partitionTable, toBackend))

/-! ## Names -/

/-- The names of the physical tables of a table. -/
def PhysicalName (plain : Bool) (t name : String) : Prop :=
  match plain with
  | true => name = t
  | false => ∃ k, name = partitionName t k

theorem underscore_notMem_nameSuffix_tail (k : ℕ) : '_' ∉ (nameSuffix k).tail := by simp [nameSuffix]

/-- What stands before the last underscore. -/
theorem dropWhile_reverse_append {pre ds : List Char} (hds : '_' ∉ ds) :
    (pre ++ '_' :: ds).reverse.dropWhile (· ≠ '_') = '_' :: pre.reverse := by
  have hall : ∀ c ∈ ds.reverse, decide (c ≠ '_') = true := by grind
  simp_all

variable {s t fromTable db table : String} {plain : Bool} {conf : TableConfig} {r : Router}
    {backends : List String}

theorem partitionName_inj {j k : ℕ} (h : partitionName s j = partitionName t k) : s = t := by
  have hlist := congrArg String.toList h
  rw [partitionName_toList, partitionName_toList] at hlist
  have hcons (i : ℕ) : nameSuffix i = '_' :: (nameSuffix i).tail := rfl
  rw [hcons j, hcons k] at hlist
  have hdrop := congrArg (fun l => l.reverse.dropWhile (· ≠ '_')) hlist
  rw [dropWhile_reverse_append (underscore_notMem_nameSuffix_tail j),
    dropWhile_reverse_append (underscore_notMem_nameSuffix_tail k)] at hdrop
  exact String.toList_inj.1 (reverse_injective (List.cons.inj hdrop).2)

theorem PhysicalName.inj {name : String} (hs : PhysicalName plain s name) (ht : PhysicalName plain t name) : s = t := by
  cases plain with
  | true => exact hs.symm.trans ht
  | false => grind [partitionName_inj, PhysicalName]

theorem PhysicalName.renamed {name : String} (h : PhysicalName plain fromTable name) (toTable : String) :
    PhysicalName plain toTable (renamed fromTable toTable name) := by
  cases plain with
  | true =>
    obtain rfl : name = fromTable := h
    have hreplace := replaceFirst_append name.toList toTable.toList []
    rw [append_nil, append_nil] at hreplace
    rw [PhysicalName, Radon.renamed, hreplace, String.ofList_toList]
  | false =>
    obtain ⟨k, rfl⟩ := h
    refine ⟨k, String.toList_inj.1 ?_⟩
    rw [Radon.renamed, String.toList_ofList, partitionName_toList, partitionName_toList,
      replaceFirst_append]

/-! ## Tables that are named and built after their configuration -/

theorem Hash.buildFrom_physical {parts : List PartitionConfig} {n : ℕ} {h k : Hash}
    (hk : Hash.buildFrom n parts h = .ok k) : k.segments.map Segment.physical =
      h.segments.map Segment.physical ++ parts.map PartitionConfig.physical := by
  induction parts generalizing n h with
  | nil =>
    cases hk
    simp
  | cons part parts ih =>
    obtain ⟨bounds, -, hk⟩ := except_bind_ok hk
    obtain ⟨filled, -, hk⟩ := except_bind_ok hk
    rw [ih hk]
    simp [Segment.physical, PartitionConfig.physical]

theorem listSegments_physical (n : ℕ) (parts : List PartitionConfig) :
    (ListPartition.buildFrom n parts).map Segment.physical = parts.map PartitionConfig.physical := by
  induction parts generalizing n with
  | nil => rfl
  | cons part parts ih => simp [ListPartition.buildFrom, ih, Segment.physical, PartitionConfig.physical]

theorem plainSegments_physical (range : ℕ → KeyRange) (n : ℕ) (parts : List PartitionConfig) :
    (plainSegments range n parts).map Segment.physical = parts.map PartitionConfig.physical := by
  induction parts generalizing n with
  | nil => rfl
  | cons part parts ih => simp [plainSegments, ih, Segment.physical, PartitionConfig.physical]

/-- Queries of a table are sent to the physical tables of its configuration. -/
theorem Partition.build_physical {slots : ℕ} {p : Partition} (h : Partition.build slots conf = .ok p) :
    (p.getSegments.map Segment.physical).Perm conf.physicals := by
  unfold Partition.build at h
  split at h
  · obtain ⟨k, hk, rfl⟩ := except_map_ok h
    obtain ⟨h₀, hh₀, -, rfl⟩ := Hash.build_ok hk
    have hphysical := Hash.buildFrom_physical hh₀
    rw [map_nil, nil_append] at hphysical
    exact ((perm_insertionSort _ _).map _).trans (.of_eq hphysical)
  · cases h
    exact .of_eq (listSegments_physical 0 conf.partitions)
  · cases h
    exact .of_eq (plainSegments_physical _ 0 conf.partitions)
  · cases h
    exact .of_eq (plainSegments_physical _ 0 conf.partitions)

/-- The physical tables have the names that belong to the name of the table. -/
def TableConfig.Suited (conf : TableConfig) (t : String) : Prop :=
  conf.name = t ∧ ∀ x ∈ conf.physicals, PhysicalName conf.shardType.plain t x.1

/-- A table under its own name, with the physical tables that belong to it. -/
structure Table.Named (T : Table) (t : String) : Prop where
  name : T.name = t
  suited : T.tableConfig.Suited t
  built : ∃ slots p, Partition.build slots T.tableConfig = .ok p ∧ T.partition = some p

theorem Table.Named.owns_iff {T : Table} (h : T.Named t) (x : String × String) :
    T.Owns x ↔ x ∈ T.tableConfig.physicals := by
  obtain ⟨slots, p, hp, hpart⟩ := h.built
  simp only [Table.Owns, hpart, Option.some.injEq, exists_eq_left', (Partition.build_physical hp).mem_iff,
    or_self]

/-- All tables of the router are under their own names. -/
def Router.Named (r : Router) : Prop := ∀ db t T, r.tables db t = some T → T.Named t

/-- Different tables of one kind own different physical tables. -/
theorem Table.Named.eq_of_owns {S T : Table} (hS : S.Named s) (hT : T.Named t)
    (hkind : S.tableConfig.shardType.plain = T.tableConfig.shardType.plain) {x : String × String}
    (hs : S.Owns x) (ht : T.Owns x) : s = t := by
  rw [hS.owns_iff] at hs
  rw [hT.owns_iff] at ht
  have hname := hS.suited.2 x hs
  rw [hkind] at hname
  exact hname.inj (hT.suited.2 x ht)

section Put

variable {r r' : Router} (hr : r.Named) {db t : String} {T : Table}

include hr in
theorem Router.Named.put (hT : T.Named t) (htables : r'.tables = updateEntry r.tables db t (some T)) : r'.Named := by
  intro d s S hS
  rw [htables, updateEntry] at hS
  split_ifs at hS with heq
  · cases hS
    rwa [heq.2]
  · exact hr d s S hS

include hr in
theorem Router.Named.erase (htables : r'.tables = updateEntry r.tables db t none) : r'.Named := by
  intro d s S hS
  rw [htables, updateEntry] at hS
  split_ifs at hS
  exact hr d s S hS

theorem Router.Apart.erase (ha : r.Apart) (htables : r'.tables = updateEntry r.tables db t none) : r'.Apart := by
  intro d s s' S S' x hS hS'
  simp only [htables, updateEntry] at hS hS'
  split_ifs at hS hS'
  exact ha d s s' S S' x hS hS'

include hr in
/-- A table that is put into the router stays apart from the others exactly when those of the other kind do
not own its physical tables. -/
theorem Router.Named.apart_put (ha : r.Apart) (hT : T.Named t)
    (hold : ∀ S, r.tables db t = some S → S.tableConfig.shardType.plain = T.tableConfig.shardType.plain)
    (htables : r'.tables = updateEntry r.tables db t (some T)) :
    r'.Apart ↔ r.Unclaimed db T.tableConfig.shardType.plain T.Owns := by
  have hself : r'.tables db t = some T := by simp [htables, updateEntry]
  have hother {s : String} (hne : s ≠ t) : r'.tables db s = r.tables db s := by
    simp [htables, updateEntry, hne]
  constructor
  · intro ha' s S hS hkind x hx hSx
    have hne : s ≠ t := by
      rintro rfl
      exact hkind (hold S hS)
    exact hne (ha' db s t S T x (by rw [hother hne, hS]) hself hSx hx)
  · intro hfree
    have hnew {s : String} {S : Table} {x : String × String} (hne : s ≠ t) (hS : r'.tables db s = some S)
        (hSx : S.Owns x) : ¬ T.Owns x := by
      rw [hother hne] at hS
      intro hx
      by_cases hkind : S.tableConfig.shardType.plain = T.tableConfig.shardType.plain
      · exact hne ((hr db s S hS).eq_of_owns hT hkind hSx hx)
      · exact hfree s S hS hkind x hx hSx
    intro d s s' S S' x hS hS' hSx hSx'
    by_contra hne
    by_cases hs : d = db ∧ s = t
    · grind
    · by_cases hs' : d = db ∧ s' = t
      · grind
      · simp only [htables, updateEntry, if_neg hs, if_neg hs'] at hS hS'
        exact hne (ha d s s' S S' x hS hS' hSx hSx')

end Put

theorem Router.unclaimed_congr {P Q : String × String → Prop}
    (h : ∀ x, P x ↔ Q x) : r.Unclaimed db plain P ↔ r.Unclaimed db plain Q := by
  simp only [Router.Unclaimed, h]

/-! ## Creation -/

theorem hashUniform_suited {shardKey : String} {partitionNum : Option SQLVal}
    (h : r.hashUniform table shardKey backends partitionNum = .ok conf) :
    conf.Suited table ∧ conf.shardType.plain = false := by
  obtain ⟨-, -, -, -, rfl⟩ := hashUniform_eq h
  refine ⟨⟨rfl, fun x hx => ?_⟩, rfl⟩
  grind [PartitionConfig.physical, PhysicalName, MethodType.plain, hashPartitions, TableConfig.physicals]

theorem listUniform_suited {order : ListOrder} {shardKey : String} {defs : List PartitionDefinition}
    (h : listUniform order table shardKey defs = .ok conf) : conf.Suited table ∧ conf.shardType.plain = false := by
  obtain ⟨m, -, -, rfl⟩ := listUniform_ok h
  refine ⟨⟨rfl, fun x hx => ?_⟩, rfl⟩
  obtain ⟨part, hpart, rfl⟩ := mem_map.1 hx
  rw [listPartitions_eq] at hpart
  obtain ⟨e, -, rfl⟩ := mem_map.1 hpart
  exact ⟨e.2, rfl⟩

theorem globalUniform_ok (h : globalUniform table backends = .ok conf) : conf.name = table ∧ conf.shardType = .global ∧
      ∀ x, x ∈ conf.physicals ↔ x.1 = table ∧ x.2 ∈ backends := by
  obtain ⟨-, rfl⟩ := globalUniform_eq h
  grind [TableConfig.physicals, PartitionConfig.physical]

theorem singleUniform_ok (h : singleUniform table backends = .ok conf) : conf.name = table ∧ conf.shardType = .single ∧
      ∀ x, x ∈ conf.physicals ↔ x.1 = table ∧ backends.head? = some x.2 := by
  obtain ⟨backend, hhead, rfl⟩ := singleUniform_eq h
  grind [TableConfig.physicals, PartitionConfig.physical]

theorem suited_of_plain {P : String × String → Prop} (hname : conf.name = table) (htype : conf.shardType.plain = true)
    (h : ∀ x, x ∈ conf.physicals ↔ x.1 = table ∧ P x) : conf.Suited table := by
  refine ⟨hname, fun x hx => ?_⟩
  rw [htype]
  exact ((h x).1 hx).1

section Step

variable {r r' : Router} (hr : r.Named)

variable {written : Bool} {fromBackend toBackend partitionTable : String}

theorem Router.createTable_ok (h : r.createTable written db table conf = (none, r')) :
    r.tables db conf.name = none ∧ ∃ p, Partition.build r.slots conf = .ok p ∧
      r'.tables = updateEntry r.tables db conf.name (some ⟨conf.name, conf.shardKey, some p, conf⟩) := by
  unfold Router.createTable at h
  split at h
  · cases h
  grind [addTable, putFile, putTable]

/-- A table that is renamed is removed under the old name and built under the new one. -/
theorem Router.renameTable_ok {removed : Bool} {toTable : String}
    (h : r.renameTable written removed db fromTable toTable = (none, r')) :
    ∃ T p, r.tables db fromTable = some T ∧ r.tables db toTable = none ∧
      Partition.build r.slots (T.tableConfig.rename fromTable toTable) = .ok p ∧
      r'.tables = updateEntry (updateEntry r.tables db fromTable none) db toTable
        (some ⟨toTable, T.tableConfig.shardKey, some p, T.tableConfig.rename fromTable toTable⟩) := by
  unfold Router.renameTable at h
  split at h
  · cases h
  split at h
  · cases h
  rename_i T hT
  split at h
  · cases h
  rename_i hnone
  have hne : fromTable ≠ toTable := by
    rintro rfl
    cases hT.symm.trans hnone
  dsimp only at h
  split at h
  · cases h
  rename_i r₁ hcreate
  obtain ⟨-, p, hbuild, htables⟩ := Router.createTable_ok hcreate
  refine ⟨T, p, hT, hnone, hbuild, ?_⟩
  have hr' : r'.tables = updateEntry r₁.tables db fromTable none := by
    split at h
    · cases h
      rfl
    · cases h
  rw [hr', htables]
  funext d s
  simp only [Router.putTable, updateEntry, TableConfig.rename]
  grind

theorem movePartition_physical {parts moved : List PartitionConfig}
    (h : movePartition fromBackend toBackend partitionTable parts = some moved) :
    (∃ part ∈ parts, part.table = partitionTable) ∧ (partitionTable, toBackend) ∈ moved.map PartitionConfig.physical ∧
      ∀ x ∈ moved.map PartitionConfig.physical,
        x = (partitionTable, toBackend) ∨ x ∈ parts.map PartitionConfig.physical := by
  obtain ⟨pre, part, post, rfl, -, rfl, rfl⟩ := movePartition_split h
  simp only [map_append, map_cons, mem_append, mem_cons]
  exact ⟨⟨part, .inr (.inl rfl), rfl⟩, .inr (.inl rfl), fun x hx => by tauto⟩

/-- A shift changes the partitions of one table, which is built again. -/
theorem Router.partitionRuleShift_ok {found : String}
    (hname : ∀ T, r.tables db found = some T → T.name = found ∧ T.tableConfig.name = found)
    (h : r.partitionRuleShift written fromBackend toBackend db partitionTable found = (none, r')) :
    ∃ T moved parts p, r.tables db found = some T ∧
      movePartition fromBackend toBackend partitionTable T.tableConfig.partitions = some moved ∧
      (parts = if T.tableConfig.shardType = .global then
        T.tableConfig.partitions ++ [⟨T.name, "", toBackend, ""⟩] else moved) ∧
      Partition.build r.slots { T.tableConfig with partitions := parts } = .ok p ∧
      r'.tables = updateEntry r.tables db found
        (some ⟨found, T.tableConfig.shardKey, some p, { T.tableConfig with partitions := parts }⟩) := by
  unfold Router.partitionRuleShift at h
  split at h
  · cases h
  rename_i hchange
  obtain ⟨-, -, T, moved, hT, rfl, hmoved, rfl⟩ := Router.changeTheRuleBackend_ok hchange
  obtain ⟨rfl, hconf⟩ := hname T hT
  rw [Router.refreshTable_changed] at h
  obtain ⟨-, -, p, hbuild, rfl⟩ := Router.addTable_ok h
  refine ⟨T, moved, _, p, hT, hmoved, rfl, hbuild, ?_⟩
  funext d s
  simp only [Router.putTable, Router.removeTable, Router.putFile, updateEntry, Table.shifted, hconf]
  split_ifs <;> rfl

include hr

theorem Router.Named.rename {removed : Bool} {toTable : String}
    (h : r.renameTable written removed db fromTable toTable = (none, r')) :
    r'.Named ∧ (r.Apart → (r'.Apart ↔ r.Free (.rename written removed db fromTable toTable))) := by
  obtain ⟨T, p, hT, hnone, hbuild, htables⟩ := Router.renameTable_ok h
  obtain ⟨hTname, ⟨hTconf, hphysical⟩, hTbuilt⟩ := hr db fromTable T hT
  have hmem (x : String × String) : x ∈ (T.tableConfig.rename fromTable toTable).physicals ↔
      ∃ name, T.Owns (name, x.2) ∧ x.1 = renamed fromTable toTable name := by
    simp only [(hr db fromTable T hT).owns_iff, TableConfig.physicals, TableConfig.rename, map_map,
      mem_map, Function.comp_apply, PartitionConfig.physical, Prod.ext_iff]
    constructor
    · grind [renamed]
    · grind [renamed]
  have hT' : (⟨toTable, T.tableConfig.shardKey, some p,
      T.tableConfig.rename fromTable toTable⟩ : Table).Named toTable := by
    refine ⟨rfl, ⟨rfl, fun x hx => ?_⟩, _, p, hbuild, rfl⟩
    obtain ⟨name, hname, heq⟩ := (hmem x).1 hx
    rw [heq]
    exact (hphysical _ (((hr db fromTable T hT).owns_iff _).1 hname)).renamed toTable
  -- the table is removed under its old name before it is added under the new one
  have hr₁ : (r.removeTable db fromTable).Named := hr.erase rfl
  have hnone₁ : (r.removeTable db fromTable).tables db toTable = none := by
    simp only [Router.removeTable, Router.putTable, updateEntry, hnone, ite_self]
  refine ⟨hr₁.put hT' htables, fun ha => ?_⟩
  have ha₁ : (r.removeTable db fromTable).Apart := ha.erase rfl
  rw [hr₁.apart_put ha₁ hT' (by simp [hnone₁]) htables, Router.unclaimed_congr hT'.owns_iff,
    Router.unclaimed_congr hmem]
  have hfree : r.Free (.rename written removed db fromTable toTable) ↔
      r.Unclaimed db T.tableConfig.shardType.plain fun x =>
        ∃ name, T.Owns (name, x.2) ∧ x.1 = renamed fromTable toTable name := by
    simp only [Router.Free, hT, Option.some.injEq, forall_eq']
  rw [hfree]
  constructor
  · intro hclaim s S hS hkind
    refine hclaim s S ?_ hkind
    have hne : s ≠ fromTable := by
      rintro rfl
      cases hT.symm.trans hS
      exact hkind rfl
    simpa [Router.removeTable, Router.putTable, updateEntry, hne] using hS
  · intro hclaim s S hS hkind
    refine hclaim s S ?_ hkind
    simp only [Router.removeTable, Router.putTable, updateEntry] at hS
    split_ifs at hS
    exact hS

theorem Router.Named.shift {found : String}
    (h : r.partitionRuleShift written fromBackend toBackend db partitionTable found = (none, r')) :
    r'.Named ∧ (r.Apart → (r'.Apart ↔ r.Free (.shift written fromBackend toBackend db partitionTable found))) := by
  obtain ⟨T, moved, parts, p, hT, hmoved, hparts, hbuild, htables⟩ :=
    Router.partitionRuleShift_ok (fun T hT => ⟨(hr db found T hT).name, (hr db found T hT).suited.1⟩) h
  have hnamed := hr db found T hT
  obtain ⟨⟨part, hpart, htable⟩, hin, hsub⟩ := movePartition_physical hmoved
  have hpartName : PhysicalName T.tableConfig.shardType.plain found partitionTable :=
    htable ▸ hnamed.suited.2 _ (mem_map_of_mem hpart)
  have hmem : (partitionTable, toBackend) ∈ parts.map PartitionConfig.physical ∧
      ∀ x ∈ parts.map PartitionConfig.physical,
        x = (partitionTable, toBackend) ∨ x ∈ T.tableConfig.physicals := by
    rw [hparts]
    split_ifs with hglobal
    · grind [Table.Named.name, PartitionConfig.physical, TableConfig.physicals, PhysicalName,
        MethodType.plain]
    · exact ⟨hin, hsub⟩
  have hT' : (⟨found, T.tableConfig.shardKey, some p,
      { T.tableConfig with partitions := parts }⟩ : Table).Named found := by
    refine ⟨rfl, ⟨hnamed.suited.1, fun x hx => ?_⟩, _, p, hbuild, rfl⟩
    rcases hmem.2 x hx with rfl | hx
    · exact hpartName
    · exact hnamed.suited.2 x hx
  refine ⟨hr.put hT' htables, fun ha => ?_⟩
  have hold : ∀ S, r.tables db found = some S →
      S.tableConfig.shardType.plain = T.tableConfig.shardType.plain := by
    intro S hS
    cases hT.symm.trans hS
    rfl
  rw [hr.apart_put ha hT' hold htables, Router.unclaimed_congr hT'.owns_iff]
  simp only [Router.Free, hT, Option.some.injEq, forall_eq']
  constructor
  · rintro hclaim s S hS hkind x rfl
    exact hclaim s S hS hkind _ hmem.1
  · intro hclaim s S hS hkind x hx
    rcases hmem.2 x hx with rfl | hx
    · exact hclaim s S hS hkind _ rfl
    · intro hSx
      obtain rfl := ha db s found S T x hS hT hSx ((hnamed.owns_iff x).2 hx)
      exact hkind (hold S hS)

theorem Router.Named.create {conf : Except String TableConfig}
    (plain : Bool) (hconf : ∀ c, conf = .ok c → c.Suited table ∧ c.shardType.plain = plain)
    (h : r.create written db table conf = (none, r')) :
    r'.Named ∧ ∃ c, conf = .ok c ∧ (r.Apart → (r'.Apart ↔ r.Unclaimed db plain (· ∈ c.physicals))) := by
  cases conf with
  | error e => cases h
  | ok c =>
    obtain ⟨hsuited, rfl⟩ := hconf c rfl
    obtain ⟨hnone, p, hbuild, htables⟩ := Router.createTable_ok h
    obtain rfl := hsuited.1
    have hT : (⟨c.name, c.shardKey, some p, c⟩ : Table).Named c.name := ⟨rfl, hsuited, _, p, hbuild, rfl⟩
    refine ⟨hr.put hT htables, c, rfl, fun ha => ?_⟩
    rw [hr.apart_put ha hT (by simp [hnone]) htables]
    exact Router.unclaimed_congr hT.owns_iff

/-- An accepted operation keeps the tables apart exactly when the physical tables it needs are free, and under
their own names in any case. -/
theorem Router.Named.step {op : RouterOp} (h : r.step op = (none, r')) :
    r'.Named ∧ (r.Apart → (r'.Apart ↔ r.Free op)) := by
  cases op with
  | createDatabase db =>
    cases h
    exact ⟨hr, fun ha => iff_of_true ha trivial⟩
  | createHashTable written db table shardKey backends partitionNum =>
    obtain ⟨hr', c, hc, hiff⟩ := hr.create false (fun c hc => hashUniform_suited hc) h
    grind [Free]
  | createListTable written order db table shardKey defs =>
    obtain ⟨hr', c, hc, hiff⟩ := hr.create false (fun c hc => listUniform_suited hc) h
    grind [Free]
  | createGlobalTable written db table backends =>
    obtain ⟨hr', c, hc, hiff⟩ := hr.create true (fun c hc => by
      obtain ⟨hname, htype, hmem⟩ := globalUniform_ok hc
      exact ⟨suited_of_plain hname (by rw [htype]; rfl) hmem, by rw [htype]; rfl⟩) h
    exact ⟨hr', fun ha => (hiff ha).trans (Router.unclaimed_congr (globalUniform_ok hc).2.2)⟩
  | createSingleTable written db table backends =>
    obtain ⟨hr', c, hc, hiff⟩ := hr.create true (fun c hc => by
      obtain ⟨hname, htype, hmem⟩ := singleUniform_ok hc
      exact ⟨suited_of_plain hname (by rw [htype]; rfl) hmem, by rw [htype]; rfl⟩) h
    exact ⟨hr', fun ha => (hiff ha).trans (Router.unclaimed_congr (singleUniform_ok hc).2.2)⟩
  | rename written removed db fromTable toTable => exact hr.rename h
  | shift written fromBackend toBackend db partitionTable found => exact hr.shift h
  | dropTable removed db table =>
    simp only [Router.step] at h
    split at h
    · cases h
    split at h
    · cases h
      exact ⟨hr.erase rfl, fun ha => iff_of_true (ha.erase rfl) trivial⟩
    · cases h

end Step

/-! ## Runs -/

/-- An operation that is accepted. -/
def Router.accept (r : Router) (op : RouterOp) : Option Router :=
  match r.step op with
  | (none, r) => some r
  | (some _, _) => none

theorem Router.step_of_accept {r' : Router} {op : RouterOp} (h : r.accept op = some r') : r.step op = (none, r') := by
  unfold Router.accept at h
  split at h
  · rename_i heq
    cases h
    exact heq
  · cases h

theorem Router.named_init (slots blocks : ℕ) : (Router.init slots blocks).Named :=
  fun _ _ _ h => nomatch h

theorem Router.apart_init (slots blocks : ℕ) : (Router.init slots blocks).Apart :=
  fun _ _ _ _ _ _ h => nomatch h

/-- Along a run of accepted operations the logical tables own different physical tables exactly when every
operation finds the physical tables that it needs free of tables of the other kind. -/
theorem apart_iff_free (slots blocks : ℕ) {ops : List RouterOp} {r : Router}
    (h : runSteps Router.accept (Router.init slots blocks) ops = some r) :
    Always Router.accept (Router.init slots blocks) ops Router.Apart ↔
      EachStep Router.accept (Router.init slots blocks) ops Router.Free :=
  always_iff_eachStep (Router.named_init slots blocks) (Router.apart_init slots blocks)
    (fun _ _ _ _ hr ha huv => (hr.step (Router.step_of_accept huv)).imp_right fun hstep => hstep ha) h

/-- A list table and a single table beside it. -/
def shopRun (single : String) : List RouterOp :=
  [.createDatabase "shop",
    .createListTable true default "shop" "t" "a" [⟨"backend1", [⟨.intVal, "1"⟩]⟩],
    .createSingleTable true "shop" single ["backend1"]]

/-- A single table under a name of its own stays apart. -/
theorem apart_shop : (∃ r, runSteps Router.accept (Router.init 4096 128) (shopRun "u") = some r) ∧
    Always Router.accept (Router.init 4096 128) (shopRun "u") Router.Apart := by
  refine ⟨⟨_, rfl⟩, (apart_iff_free 4096 128 rfl).2 (eachStep_cons rfl trivial
    (eachStep_cons rfl ?_ (eachStep_cons rfl ?_ (eachStep_nil _ _))))⟩
  · intro conf _ s S hS
    cases hS
  · rintro s S hS - x ⟨hx, -⟩ hown
    -- the list table is the only one so far
    have howns : ∀ y, S.Owns y → y = ("t_0000", "backend1") := by
      change updateEntry (fun _ _ => none) "shop" "t" _ "shop" s = some S at hS
      rw [updateEntry] at hS
      split_ifs at hS
      cases hS
      rintro y (hy | ⟨p, ⟨⟩, hy⟩)
      · exact List.mem_singleton.1 hy
      · exact List.mem_singleton.1 hy
    rw [howns x hown] at hx
    exact absurd hx (by decide)

/-- A single table with the name of a physical table of the list table shares it. -/
theorem not_apart_suffixName : ∃ r,
    runSteps Router.accept (Router.init 4096 128) (shopRun "t_0000") = some r ∧ ¬ r.Apart := by
  refine ⟨_, rfl, fun h => ?_⟩
  have heq := h "shop" "t" "t_0000" _ _ ("t_0000", "backend1") rfl rfl (.inl (by decide)) (.inl (by decide))
  exact absurd heq (by decide)

end Radon
