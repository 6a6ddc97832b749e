import Mathlib.Algebra.Order.BigOperators.Group.List
import Radon.Concurrency.Run
import Radon.Proxy.Ddl
import Radon.Router.PartitionSpec

/-!
# Unique keys of partitioned tables

A backend checks a unique key within one physical table. This is a check of the whole table exactly when the
key has the sharding key among its columns, and not only a prefix of it. `CREATE TABLE` and `ALTER TABLE`
check the names of the columns; `CREATE UNIQUE INDEX` is not checked.
-/

namespace Radon.Proxy

open Concurrency List Function

/-! ## Statements on a table -/

/-- `sqlparser.IndexColumn`. -/
structure IndexColumn where
  column : String
  length : Option ℕ

/-- `sqlparser.IndexDefinition` with the lengths of its columns. -/
structure FullIndex where
  unique : Bool
  primary : Bool
  columns : List IndexColumn

/-- The index as the checks read it. -/
def FullIndex.definition (i : FullIndex) : IndexDefinition :=
  ⟨i.unique, i.primary, i.columns.map IndexColumn.column⟩

/-- The statements of `handleDDL` on one table. Which keys have the name of a dropped index is for the
backends to say. -/
inductive TableDDL
  | createTable (ifNotExists : Bool) (columns : List ColumnDefinition) (indexes : List FullIndex)
      (engine : String) (option : PartitionOption)
  | dropTable (ifExists : Bool)
  | createIndex (unique : Bool) (columns : List IndexColumn)
  | dropIndex (named : List IndexColumn → Bool)
  | alterAddColumn (columns : List ColumnDefinition) (indexes : List FullIndex)
  | alterDropColumn (column : String)
  | alterModifyColumn (column : ColumnDefinition)
  | alterEngine | alterCharset | truncateTable
  | rename (newName : String)

/-- `DDLPlan.checkUnsupportedOperations`. -/
def checkUnsupportedOperations (shardKey : String) (stmt : TableDDL) : Option String :=
  if shardKey = "" then none
  else
    match stmt with
    | .alterDropColumn column =>
      if shardKey.toLower = column.toLower then
        some "unsupported: cannot.drop.the.column.on.shard.key"
      else none
    | .alterModifyColumn column =>
      if column.name.toLower = shardKey.toLower then
        some "unsupported: cannot.modify.the.column.on.shard.key"
      else if column.constrained then some (constraintError shardKey)
      else none
    | .alterAddColumn columns indexes =>
      if columns.any ColumnDefinition.constrained then some (constraintError shardKey)
      else if indexes.any fun i => i.definition.constrained then some (constraintError shardKey)
      else none
    | _ => none

/-! ## Tables with their keys -/

/-- A table with its sharding key in the router and its primary and unique keys on the backends. -/
structure KeyedTable where
  shardKey : String
  keys : List (List IndexColumn)

/-- The keys of columns and indexes with a constraint. -/
def constrainedKeys (columns : List ColumnDefinition) (indexes : List FullIndex) :
    List (List IndexColumn) :=
  (columns.filter ColumnDefinition.constrained).map (fun c => [⟨c.name, none⟩]) ++
    (indexes.filter fun i => i.definition.constrained).map FullIndex.columns

/-- What a statement that the backends execute does to the keys; a dropped column leaves the indexes it is
in. -/
def KeyedTable.alter (t : KeyedTable) : TableDDL → List (List IndexColumn)
  | .createIndex unique columns => if unique then t.keys ++ [columns] else t.keys
  | .dropIndex named => t.keys.filter fun key => !named key
  | .alterAddColumn columns indexes => t.keys ++ constrainedKeys columns indexes
  | .alterDropColumn column =>
    (t.keys.map fun key => key.filter fun part => part.column.toLower ≠ column.toLower).filter
      fun key => !key.isEmpty
  | .alterModifyColumn column => t.keys ++ constrainedKeys [column] []
  | _ => t.keys

/-- The tables of a database. -/
abbrev Catalog := String → Option KeyedTable

/-- The statement of a new table as `newTable` reads it. -/
def creation (table : String) (columns : List ColumnDefinition) (indexes : List FullIndex)
    (engine : String) (option : PartitionOption) : DDL where
  action := .createTable
  table := ⟨"", table⟩
  tableSpec := ⟨columns, indexes.map FullIndex.definition, engine⟩
  partitionOption := option

/-- The sharding key that `handleDDL` gives to the router; the router refuses an empty one for a partitioned
table. -/
def creationKey (table : String) (columns : List ColumnDefinition) (indexes : List FullIndex)
    (engine : String) (option : PartitionOption) : Except String String := do
  let new ← newTable (creation table columns indexes engine option)
  match option with
  | .global | .single _ => return new.shardKey
  | .hash _ _ | .list _ _ | .normal =>
    if new.shardKey = "" then throw "shard.key.cant.be.null" else return new.shardKey

/-- A statement that `handleDDL` accepts on a table, unless the session, the router or the backends refuse
it for other reasons. -/
def Catalog.accept (cat : Catalog) (e : String × TableDDL) : Option Catalog :=
  match e.2 with
  | .createTable ifNotExists columns indexes engine option =>
    match cat e.1 with
    | some _ => if ifNotExists then some cat else none
    | none =>
      match creationKey e.1 columns indexes engine option with
      | .ok shardKey => some (Function.update cat e.1 (some ⟨shardKey, constrainedKeys columns indexes⟩))
      | .error _ => none
  | .dropTable ifExists =>
    match cat e.1 with
    | some _ => some (Function.update cat e.1 none)
    | none => if ifExists then some cat else none
  | .rename newName =>
    match cat e.1, cat newName with
    | some t, none => some (Function.update (Function.update cat e.1 none) newName (some t))
    | _, _ => none
  | stmt =>
    match cat e.1 with
    | none => none
    | some t =>
      match checkUnsupportedOperations t.shardKey stmt with
      | some _ => none
      | none => some (Function.update cat e.1 (some ⟨t.shardKey, t.alter stmt⟩))

/-! ## Uniqueness in a partition and in the whole table -/

/-- A row: the values of its columns by their names in lower case, `none` for NULL. -/
abbrev Row := String → Option String

/-- What a key sees of the value of a column. -/
def IndexColumn.read (part : IndexColumn) (row : Row) : Option String :=
  (row part.column.toLower).map fun v =>
    match part.length with
    | none => v
    | some n => String.ofList (v.toList.take n)

/-- Two rows violate a unique key; NULL equals nothing. -/
def Collide (key : List IndexColumn) (row row' : Row) : Prop :=
  ∀ part ∈ key, ∃ v, part.read row = some v ∧ part.read row' = some v

/-- Wherever the rows are placed by the stored values of their sharding keys, a key that is unique in every
partition is unique in the whole table. -/
def GloballyUnique (shardKey : String) (key : List IndexColumn) : Prop :=
  ∀ (place : Option String → ℕ) (rows : List Row),
    (∀ i, (rows.filter fun row => place (row shardKey.toLower) = i).Pairwise fun r r' => ¬ Collide key r r') →
      rows.Pairwise fun r r' => ¬ Collide key r r'

/-- The key has the whole sharding key among its columns. -/
def HasWhole (shardKey : String) (key : List IndexColumn) : Prop :=
  ∃ part ∈ key, part.column.toLower = shardKey.toLower ∧ part.length = none

/-- What holds within every block and across blocks holds in the whole list. -/
theorem pairwise_of_blocks {α ι : Type} [DecidableEq ι] {R : α → α → Prop} {f : α → ι} {l : List α}
    (hblocks : ∀ i, (l.filter fun a => f a = i).Pairwise R) (hacross : ∀ a b, f a ≠ f b → R a b) : l.Pairwise R := by
  induction l with
  | nil => exact .nil
  | cons a l ih =>
    refine pairwise_cons.2 ⟨fun b hb => ?_, ih fun i => ?_⟩
    · by_cases hab : f a = f b
      · have hblock := hblocks (f a)
        simp_all
      · exact hacross a b hab
    · exact (hblocks i).sublist ((sublist_cons_self a l).filter _)

variable {shardKey : String} {key : List IndexColumn} {t : KeyedTable} {columns : List ColumnDefinition}
    {indexes : List FullIndex}

theorem HasWhole.globallyUnique (h : HasWhole shardKey key) : GloballyUnique shardKey key := by
  obtain ⟨part, hpart, hcolumn, hlength⟩ := h
  intro place rows hrows
  refine pairwise_of_blocks hrows fun row row' hne hcollide => hne ?_
  obtain ⟨v, hv, hv'⟩ := hcollide part hpart
  have hread (r : Row) (hr : part.read r = some v) : r shardKey.toLower = some v := by
    rw [IndexColumn.read, hcolumn, hlength] at hr
    simpa using hr
  rw [hread row hv, hread row' hv']

/-- Two rows that differ behind a common prefix of their sharding keys. -/
def longRow (shardKey : String) (n : ℕ) (last : Char) : Row := fun column =>
  if column = shardKey.toLower then some (String.ofList (List.replicate n 'a' ++ [last])) else some ""

theorem read_longRow {part : IndexColumn} {n : ℕ}
    (hpart : part.column.toLower = shardKey.toLower → ∃ k ≤ n, part.length = some k) (last last' : Char) :
    part.read (longRow shardKey n last) = part.read (longRow shardKey n last') := by
  by_cases hcolumn : part.column.toLower = shardKey.toLower
  · obtain ⟨k, hk, hlength⟩ := hpart hcolumn
    have htake (c : Char) : (List.replicate n 'a' ++ [c]).take k = (List.replicate n 'a').take k :=
      take_append_of_le_length (by simpa using hk)
    simp only [IndexColumn.read, longRow, if_pos hcolumn, hlength, Option.map_some, String.toList_ofList, htake]
  · simp only [IndexColumn.read, longRow, if_neg hcolumn]

/-- Without the whole sharding key two rows of different partitions can agree in the key. -/
theorem GloballyUnique.hasWhole (h : GloballyUnique shardKey key) : HasWhole shardKey key := by
  by_contra hwhole
  let n := (key.map fun part => part.length.getD 0).sum
  let first := longRow shardKey n '0'
  let second := longRow shardKey n '1'
  have hne : first shardKey.toLower ≠ second shardKey.toLower := by
    intro heq
    simp only [first, second, longRow, if_true, Option.some.injEq] at heq
    simp_all
  have hpart {part : IndexColumn} (hmem : part ∈ key) (hcolumn : part.column.toLower = shardKey.toLower) :
      ∃ k ≤ n, part.length = some k := by
    cases hlength : part.length with
    | none => exact absurd ⟨part, hmem, hcolumn, hlength⟩ hwhole
    | some k =>
      exact ⟨k, le_sum_of_mem (mem_map.2 ⟨part, hmem, by rw [hlength]; rfl⟩), rfl⟩
  have hcollide : Collide key first second := by
    intro part hmem
    grind [read_longRow, IndexColumn.read, longRow]
  have hrows := h (fun v => if v = first shardKey.toLower then 0 else 1) [first, second] fun i => by grind
  exact pairwise_pair.1 hrows hcollide

/-! ## Statements -/

/-- All keys of the partitioned tables are unique in the whole tables. -/
def Catalog.Guarded (cat : Catalog) : Prop :=
  ∀ name t, cat name = some t → t.shardKey ≠ "" → ∀ key ∈ t.keys, GloballyUnique t.shardKey key

/-- A statement that creates indexes has the whole sharding key in each one with a constraint. -/
def Catalog.Whole (cat : Catalog) (e : String × TableDDL) : Prop :=
  match e.2 with
  | .createTable _ columns indexes engine option =>
    cat e.1 = none → ∀ shardKey, creationKey e.1 columns indexes engine option = .ok shardKey →
      shardKey ≠ "" → ∀ i ∈ indexes, i.definition.constrained = true → HasWhole shardKey i.columns
  | .createIndex unique columns =>
    ∀ t, cat e.1 = some t → t.shardKey ≠ "" → unique = true → HasWhole t.shardKey columns
  | _ => True

section Guarded

variable {cat : Catalog} (hcat : cat.Guarded) {name : String}

include hcat

theorem Catalog.Guarded.update_iff : Catalog.Guarded (update cat name (some t)) ↔
      (t.shardKey ≠ "" → ∀ key ∈ t.keys, HasWhole t.shardKey key) := by
  constructor
  · intro h hkey key hmem
    exact (h name t (update_self ..) hkey key hmem).hasWhole
  · intro h other t' ht'
    by_cases heq : other = name
    · grind [HasWhole.globallyUnique]
    · rw [update_of_ne heq] at ht'
      exact hcat other t' ht'

theorem Catalog.Guarded.erase : Catalog.Guarded (update cat name none) := by
  intro other t ht
  by_cases heq : other = name
  · rw [heq, update_self] at ht
    cases ht
  · rw [update_of_ne heq] at ht
    exact hcat other t ht

theorem Catalog.Guarded.hasWhole (ht : cat name = some t) (hkey : t.shardKey ≠ "")
    (hmem : key ∈ t.keys) : HasWhole t.shardKey key :=
  (hcat name t ht hkey key hmem).hasWhole

end Guarded

/-- A sharding key that passes its check is in every column with a constraint. -/
theorem checkShardKey_ok {d : DDL} (h : checkShardKey d shardKey = .ok ()) :
    ∀ c ∈ d.tableSpec.columns, c.constrained = true → c.name.toLower = shardKey.toLower := by
  intro c hc hconstrained
  unfold checkShardKey at h
  grind

theorem tryGetShardKey_ok {d : DDL} (h : tryGetShardKey d = .ok shardKey)
    (hkey : shardKey ≠ "") : checkShardKey d shardKey = .ok () := by
  have hchecked {key : String} (hc : (do checkShardKey d key; return key : Except String String) =
      .ok shardKey) : checkShardKey d shardKey = .ok () := by
    obtain ⟨⟨⟩, hcheck, heq⟩ := except_bind_ok hc
    cases heq
    exact hcheck
  unfold tryGetShardKey at h
  by_cases hdual : d.table.name = "dual"
  · simp only [if_pos hdual] at h
    cases h
  simp only [if_neg hdual] at h
  split at h
  · exact hchecked h
  · exact hchecked h
  · obtain ⟨key, -, hc⟩ := except_bind_ok h
    exact hchecked hc
  · cases h
    exact absurd rfl hkey
  · cases h
    exact absurd rfl hkey

theorem creationKey_ok {table : String} {engine : String} {option : PartitionOption}
    (h : creationKey table columns indexes engine option = .ok shardKey) (hkey : shardKey ≠ "") :
    ∀ c ∈ columns, c.constrained = true → c.name.toLower = shardKey.toLower := by
  obtain ⟨new, hnew, h⟩ := except_bind_ok h
  obtain ⟨d, hengine, hnew⟩ := except_bind_ok hnew
  obtain ⟨key, hget, hnew⟩ := except_bind_ok hnew
  obtain ⟨autoIncrement, -, hnew⟩ := except_bind_ok hnew
  cases hnew
  have hcolumns : d.tableSpec.columns = columns := by
    unfold checkEngine at hengine
    grind [creation]
  have hshardKey : key = shardKey := by
    cases option
    all_goals dsimp only at h
    all_goals first | (split_ifs at h; cases h; rfl) | (cases h; rfl)
  rw [← hcolumns]
  subst hshardKey
  exact checkShardKey_ok (tryGetShardKey_ok hget hkey)

theorem mem_constrainedKeys : key ∈ constrainedKeys columns indexes ↔
      (∃ c ∈ columns, c.constrained = true ∧ key = [⟨c.name, none⟩]) ∨
        ∃ i ∈ indexes, i.definition.constrained = true ∧ key = i.columns := by grind [constrainedKeys]

/-- The keys of a new table have the whole sharding key exactly when its indexes have. -/
theorem constrainedKeys_hasWhole_iff {table : String} {engine : String} {option : PartitionOption}
    (h : creationKey table columns indexes engine option = .ok shardKey) (hkey : shardKey ≠ "") :
    (∀ key ∈ constrainedKeys columns indexes, HasWhole shardKey key) ↔
      ∀ i ∈ indexes, i.definition.constrained = true → HasWhole shardKey i.columns := by
  constructor
  · grind [mem_constrainedKeys]
  · intro hall key hmem
    rcases mem_constrainedKeys.1 hmem with ⟨c, hc, hconstrained, rfl⟩ | ⟨i, hi, hconstrained, rfl⟩
    · exact ⟨_, mem_singleton.2 rfl, creationKey_ok h hkey c hc hconstrained, rfl⟩
    · exact hall i hi hconstrained

/-- A statement that passes the check of the plan leaves the whole sharding key in every key, except that a
new unique index has the columns it is given. -/
theorem alter_hasWhole_iff {stmt : TableDDL} (hcheck : checkUnsupportedOperations t.shardKey stmt = none)
    (hkey : t.shardKey ≠ "") (ht : ∀ key ∈ t.keys, HasWhole t.shardKey key) :
    (∀ key ∈ t.alter stmt, HasWhole t.shardKey key) ↔
      ∀ columns, stmt = .createIndex true columns → HasWhole t.shardKey columns := by
  unfold checkUnsupportedOperations at hcheck
  rw [if_neg hkey] at hcheck
  cases stmt with
  | createIndex unique columns => grind [KeyedTable.alter]
  | dropIndex named => grind [KeyedTable.alter]
  | alterAddColumn columns indexes => grind [KeyedTable.alter, constrainedKeys]
  | alterDropColumn column => grind [KeyedTable.alter, HasWhole]
  | alterModifyColumn column => grind [KeyedTable.alter, constrainedKeys]
  | createTable | dropTable | alterEngine | alterCharset | truncateTable | rename =>
    exact iff_of_true ht nofun

/-- A statement that is accepted keeps all keys globally unique exactly when the indexes it creates have the
whole sharding key. -/
theorem Catalog.Guarded.accept {cat cat' : Catalog} (hcat : cat.Guarded) {e : String × TableDDL}
    (h : cat.accept e = some cat') : cat'.Guarded ↔ cat.Whole e := by
  obtain ⟨name, stmt⟩ := e
  cases stmt with
  | createTable ifNotExists columns indexes engine option =>
    simp only [Catalog.accept] at h
    split at h
    · grind [Whole]
    · rename_i hnone
      split at h
      · rename_i shardKey hkey
        cases h
        rw [hcat.update_iff]
        grind [constrainedKeys_hasWhole_iff, Whole]
      · cases h
  | dropTable ifExists =>
    simp only [Catalog.accept] at h
    grind [erase, Whole]
  | rename newName =>
    simp only [Catalog.accept] at h
    split at h
    · rename_i t ht hnone
      cases h
      grind [Guarded, Whole]
    · cases h
  | createIndex | dropIndex | alterAddColumn | alterDropColumn | alterModifyColumn | alterEngine
  | alterCharset | truncateTable =>
    simp only [Catalog.accept] at h
    split at h
    · cases h
    rename_i t ht
    split at h
    · cases h
    rename_i hcheck
    cases h
    rw [hcat.update_iff]
    refine (forall_congr' fun hkey : t.shardKey ≠ "" =>
      alter_hasWhole_iff hcheck hkey fun key hmem => hcat.hasWhole ht hkey hmem).trans ?_
    simp [Catalog.Whole, ht]

/-- Along a run of accepted statements every primary and unique key of a partitioned table is unique in the
whole table exactly when each statement that creates indexes has the whole sharding key in those with a
constraint. -/
theorem guarded_iff_whole {stmts : List (String × TableDDL)} {cat : Catalog}
    (h : runSteps Catalog.accept (fun _ => none) stmts = some cat) :
    Always Catalog.accept (fun _ => none) stmts Catalog.Guarded ↔
      EachStep Catalog.accept (fun _ => none) stmts Catalog.Whole :=
  always_iff_eachStep (I := fun _ => True) trivial (fun _ _ h => nomatch h)
    (fun _ _ _ _ _ hcat huv => ⟨trivial, hcat.accept huv⟩) h

/-- The columns `id` and `a`. -/
def idAndA : List ColumnDefinition := [{ name := "id", type := "int" }, { name := "a", type := "int" }]

/-- A hash table on `id`, and then a unique index on it. -/
def indexRun (columns : List IndexColumn) : List (String × TableDDL) :=
  [("t", .createTable false idAndA [⟨true, true, [⟨"id", none⟩]⟩] "" (.hash "id" none)),
    ("t", .createIndex true columns)]

theorem creationKey_idAndA : creationKey "t" idAndA [⟨true, true, [⟨"id", none⟩]⟩] "" (.hash "id" none) = .ok "id" := by
  decide +kernel

/-- The table with its primary key. -/
def indexedTable : Catalog := Function.update (fun _ => none) "t" (some ⟨"id", [[⟨"id", none⟩]]⟩)

theorem accept_idAndA : Catalog.accept (fun _ => none)
    ("t", .createTable false idAndA [⟨true, true, [⟨"id", none⟩]⟩] "" (.hash "id" none)) = some indexedTable := by
  simp only [Catalog.accept, creationKey_idAndA]
  rfl

theorem run_indexRun (columns : List IndexColumn) : runSteps Catalog.accept (fun _ => none) (indexRun columns) =
      some (update indexedTable "t" (some ⟨"id", [[⟨"id", none⟩], columns]⟩)) := by
  rw [indexRun, runSteps, accept_idAndA]
  rfl

/-- A unique index on the sharding key and another column. -/
theorem guarded_idAndA :
    (∃ cat, runSteps Catalog.accept (fun _ => none) (indexRun [⟨"id", none⟩, ⟨"a", none⟩]) = some cat) ∧
      Always Catalog.accept (fun _ => none) (indexRun [⟨"id", none⟩, ⟨"a", none⟩]) Catalog.Guarded := by
  refine ⟨⟨_, run_indexRun _⟩, (guarded_iff_whole (run_indexRun _)).2
    (eachStep_cons accept_idAndA ?_ (eachStep_cons rfl ?_ (eachStep_nil _ _)))⟩
  · intro _ shardKey hkey _ i hi _
    cases creationKey_idAndA.symm.trans hkey
    rw [List.mem_singleton.1 hi]
    exact ⟨_, List.mem_singleton.2 rfl, rfl, rfl⟩
  · rintro t ⟨⟩ - -
    exact ⟨_, List.mem_cons_self, rfl, rfl⟩

/-- A unique index on a column that is not the sharding key is accepted. -/
theorem not_guarded_uniqueIndex : ∃ cat,
    runSteps Catalog.accept (fun _ => none) (indexRun [⟨"a", none⟩]) = some cat ∧ ¬ cat.Guarded := by
  refine ⟨_, run_indexRun _, fun h => ?_⟩
  obtain ⟨part, hpart, hcolumn, -⟩ :=
    (h "t" _ rfl (by decide) [⟨"a", none⟩] (List.mem_cons_of_mem _ (List.mem_singleton.2 rfl))).hasWhole
  rw [List.mem_singleton.1 hpart] at hcolumn
  exact absurd hcolumn (by decide +kernel)

end Radon.Proxy
