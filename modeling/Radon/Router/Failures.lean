import Radon.Router.Ownership
import Radon.Router.Tiling

/-!
# Operations of the router that fail

`addTable` enters a table before its partition is built and leaves it there if that fails. `RenameTable`
changes the configuration of the old table before the new name is checked and its file is written.
-/

namespace Radon

/-- The operation creates a table. -/
def RouterOp.Creates : RouterOp → Prop
  | .createHashTable .. | .createListTable .. | .createGlobalTable .. | .createSingleTable .. => True
  | _ => False

/-- The databases and their tables are the same. -/
def Router.SameSchemas (r r' : Router) : Prop := r'.databases = r.databases ∧ r'.tables = r.tables

/-- The table is new, but `HashUniform` finds no slots for a block on a backend. -/
def Router.Stuck (r : Router) : RouterOp → Prop
  | .createHashTable _ db table shardKey backends partitionNum =>
    nameInvalid table = false ∧ r.databases db = true ∧ r.tables db table = none ∧
      (∃ conf, r.hashUniform table shardKey backends partitionNum = .ok conf) ∧
      r.slots / backends.length < r.tableBlocks partitionNum
  | _ => False

/-- The table has a name of its own, but `Build` refuses its configuration. -/
def Router.Unbuilt (r : Router) (db : String) (conf : TableConfig) : Prop :=
  nameInvalid conf.name = false ∧ r.databases db = true ∧ r.tables db conf.name = none ∧
    ¬ ∃ p, Partition.build r.slots conf = .ok p

variable {r : Router} {db table : String} {conf : TableConfig}

theorem Router.putTable_remove {name : String} (h : r.tables db name = none) (t : Table) :
    ((r.putTable db name (some t)).removeTable db name).tables = r.tables := by
  funext d n
  simp only [Router.removeTable, Router.putTable, updateEntry]
  split_ifs with heq
  · rw [heq.1, heq.2, h]
  · rfl

/-- A table that is not built stays in the router. -/
theorem Router.createTable_unbuilt (h : r.Unbuilt db conf)
    (written : Bool) : (r.createTable written db conf.name conf).2 =
      r.putTable db conf.name (some ⟨conf.name, conf.shardKey, none, conf⟩) := by
  obtain ⟨hname, hdb, hnone, hbuild⟩ := h
  unfold Router.createTable Router.addTable
  grind

/-- A failing `createTable` leaves the table behind exactly if its partition is not built. -/
theorem Router.createTable_same_iff {written : Bool} (herror : (r.createTable written db conf.name conf).1 ≠ none) :
    r.SameSchemas (r.createTable written db conf.name conf).2 ↔ ¬ r.Unbuilt db conf := by
  constructor
  · intro hsame hunbuilt
    have hentry := congrFun (congrFun hsame.2 db) conf.name
    rw [Router.createTable_unbuilt hunbuilt, hunbuilt.2.2.1] at hentry
    exact absurd ((if_pos ⟨rfl, rfl⟩).symm.trans hentry) nofun
  · intro hbuilt
    unfold Router.createTable Router.addTable at *
    by_cases hname : nameInvalid conf.name = true
    · rw [if_pos hname]
      exact ⟨rfl, rfl⟩
    by_cases hdb : r.databases db = false
    · rw [if_neg hname, if_pos hdb]
      exact ⟨rfl, rfl⟩
    rw [if_neg hname, if_neg hdb] at herror ⊢
    cases htable : r.tables db conf.name with
    | some t => exact ⟨rfl, rfl⟩
    | none =>
      cases hbuild : Partition.build r.slots conf with
      | error e =>
        exact absurd ⟨by simpa using hname, by simpa using hdb, htable, by simp [hbuild]⟩ hbuilt
      | ok p => grind [putTable_remove, SameSchemas, putTable, removeTable]

theorem Router.create_same_iff {written : Bool} {conf : Except String TableConfig}
    (hname : ∀ c, conf = .ok c → c.name = table) (herror : (r.create written db table conf).1 ≠ none) :
    r.SameSchemas (r.create written db table conf).2 ↔ ¬ ∃ c, conf = .ok c ∧ r.Unbuilt db c := by
  cases conf with
  | error e => exact iff_of_true ⟨rfl, rfl⟩ nofun
  | ok c => grind [createTable_same_iff, create]

theorem unbuilt_hash (h : r.Unbuilt db conf) : conf.shardType = .hash := by
  have hbuild := h.2.2.2
  cases hty : conf.shardType with
  | hash => rfl
  | list | global | single => exact absurd ⟨_, by rw [Partition.build, hty]⟩ hbuild

/-- The configuration has the name of the table, and is built by another method than `Hash.Build`. -/
theorem plain_uniform (r : Router) (db : String) {conf : Except String TableConfig}
    (h : ∀ c, conf = .ok c → c.name = table ∧ c.shardType ≠ .hash) :
    (∀ c, conf = .ok c → c.name = table) ∧ ¬ ∃ c, conf = .ok c ∧ r.Unbuilt db c :=
  ⟨fun c hc => (h c hc).1, fun ⟨c, hc, hunbuilt⟩ => (h c hc).2 (unbuilt_hash hunbuilt)⟩

theorem Partition.exists_build_hash {shardKey : String} {backends : List String}
    {partitionNum : Option SQLVal} (h : r.hashUniform table shardKey backends partitionNum = .ok conf) :
    (∃ p, Partition.build r.slots conf = .ok p) ↔ ∃ p, Hash.build r.slots conf = .ok p := by
  have hty : conf.shardType = .hash ∧ conf.slots = r.slots := by
    obtain ⟨-, -, -, -, rfl⟩ := hashUniform_eq h
    exact ⟨rfl, rfl⟩
  rw [Partition.build, hty.1, hty.2]
  simp only [ite_self]
  cases hb : Hash.build r.slots conf <;> simp [Except.map]

/-- A creation that fails leaves the schemas as they were exactly if the table does not get stuck. -/
theorem Router.create_failure_iff {r : Router} (hslots : r.slots < 2 ^ 63) {op : RouterOp} (hop : op.Creates)
    (herror : (r.step op).1 ≠ none) : r.SameSchemas (r.step op).2 ↔ ¬ r.Stuck op := by
  cases op with
  | createHashTable written db table shardKey backends partitionNum =>
    refine (Router.create_same_iff (fun c hc => ?_) herror).trans (not_congr ⟨?_, ?_⟩)
    · obtain ⟨-, -, -, -, rfl⟩ := hashUniform_eq hc
      rfl
    · rintro ⟨c, hc, hname, hdb, hnone, hbuild⟩
      rw [Partition.exists_build_hash hc, hashUniform_build_iff hslots hc, Nat.not_le] at hbuild
      obtain ⟨-, -, -, -, rfl⟩ := hashUniform_eq hc
      exact ⟨hname, hdb, hnone, ⟨_, hc⟩, hbuild⟩
    · rintro ⟨hname, hdb, hnone, ⟨c, hc⟩, hlt⟩
      have hbuild : ¬ ∃ p, Partition.build r.slots c = .ok p := by
        rw [Partition.exists_build_hash hc, hashUniform_build_iff hslots hc, Nat.not_le]
        exact hlt
      obtain ⟨-, -, -, -, rfl⟩ := hashUniform_eq hc
      exact ⟨_, hc, hname, hdb, hnone, hbuild⟩
  | createListTable written order db table shardKey defs =>
    obtain ⟨hname, hbuilt⟩ := plain_uniform r db fun c (hc : listUniform _ _ _ _ = .ok c) => by
      obtain ⟨m, -, -, rfl⟩ := listUniform_ok hc
      exact ⟨rfl, nofun⟩
    exact (Router.create_same_iff hname herror).trans (iff_of_true hbuilt nofun)
  | createGlobalTable written db table backends =>
    obtain ⟨hname, hbuilt⟩ := plain_uniform r db fun c (hc : globalUniform _ _ = .ok c) => by
      obtain ⟨hname, htype, -⟩ := globalUniform_ok hc
      exact ⟨hname, by rw [htype]; exact nofun⟩
    exact (Router.create_same_iff hname herror).trans (iff_of_true hbuilt nofun)
  | createSingleTable written db table backends =>
    obtain ⟨hname, hbuilt⟩ := plain_uniform r db fun c (hc : singleUniform _ _ = .ok c) => by
      obtain ⟨hname, htype, -⟩ := singleUniform_ok hc
      exact ⟨hname, by rw [htype]; exact nofun⟩
    exact (Router.create_same_iff hname herror).trans (iff_of_true hbuilt nofun)
  | createDatabase | rename | shift | dropTable => exact hop.elim

/-- The default router of 4096 slots, eight partitions on nine backends. -/
def nineBackends : RouterOp :=
  .createHashTable true "db" "t" "id" ["b1", "b2", "b3", "b4", "b5", "b6", "b7", "b8", "b9"]
    (some ⟨.intVal, "8"⟩)

/-- The statement fails, and the table is there without a partition. -/
theorem nine_backends_stuck :
    ((emptyRouter 4096 128).step nineBackends).1 =
        some "hash.partition.last.segment[0].upper.bound.must.be[4096]" ∧
      (emptyRouter 4096 128).tables "db" "t" = none ∧
      ((emptyRouter 4096 128).step nineBackends).2.lookupAll "db" "t" =
        .error "runtime error: nil pointer dereference" ∧
      ¬ (emptyRouter 4096 128).SameSchemas ((emptyRouter 4096 128).step nineBackends).2 := by
  refine ⟨by decide +kernel, rfl, by decide +kernel, fun hsame => ?_⟩
  have hentry := congrArg Option.isSome (congrFun (congrFun hsame.2 "db") "t")
  exact absurd hentry (by decide +kernel)

/-- A name with a space is refused before the table enters the router. -/
theorem invalid_name_unchanged :
    (emptyRouter 8 2).SameSchemas
      ((emptyRouter 8 2).step (.createSingleTable true "db" "a b" ["b"])).2 := by
  have hop : (RouterOp.createSingleTable true "db" "a b" ["b"]).Creates := trivial
  exact (Router.create_failure_iff (by decide) hop (by decide +kernel)).2 nofun

/-! ## Renaming -/

/-- The entry of a table and its file are the same. -/
def Router.SameEntry (r r' : Router) (db table : String) : Prop :=
  r'.tables db table = r.tables db table ∧ r'.files db table = r.files db table

theorem Router.createTable_sameEntry (r : Router) (written : Bool) (db : String) (conf : TableConfig)
    (hne : table ≠ conf.name) : r.SameEntry (r.createTable written db conf.name conf).2 db table := by
  have hother (x : Option Table) : (r.putTable db conf.name x).tables db table = r.tables db table :=
    if_neg fun h => hne h.2
  unfold Router.createTable Router.addTable
  by_cases hname : nameInvalid conf.name = true
  · rw [if_pos hname]
    exact ⟨rfl, rfl⟩
  by_cases hdb : r.databases db = false
  · rw [if_neg hname, if_pos hdb]
    exact ⟨rfl, rfl⟩
  rw [if_neg hname, if_neg hdb]
  cases r.tables db conf.name with
  | some t => exact ⟨rfl, rfl⟩
  | none =>
    cases Partition.build r.slots conf with
    | error e => exact ⟨hother _, rfl⟩
    | ok p =>
      cases written with
      | true => exact ⟨hother _, if_neg fun h => hne h.2⟩
      | false => exact ⟨(if_neg fun h => hne h.2).trans (hother _), rfl⟩

theorem Router.createTable_eq_none_iff (r : Router) (written : Bool) (conf : TableConfig) (hdb : r.databases db ≠ false)
    (hnone : r.tables db conf.name = none) : (r.createTable written db conf.name conf).1 = none ↔
      nameInvalid conf.name = false ∧ (∃ p, Partition.build r.slots conf = .ok p) ∧ written = true := by
  unfold Router.createTable Router.addTable
  grind

/-- The rename fails before it touches the configuration, or an earlier rename to the same name that failed
has left the configuration as this one does. -/
def Router.RenameKept (r : Router) (written : Bool) (db fromTable toTable : String) : Prop :=
  r.databases db = false ∨ r.tables db fromTable = none ∨ r.tables db toTable ≠ none ∨
    ∃ t, r.tables db fromTable = some t ∧ t.tableConfig.rename fromTable toTable = t.tableConfig ∧
      ¬ (nameInvalid toTable = false ∧ (∃ p, Partition.build r.slots t.tableConfig = .ok p) ∧ written = true)

/-- The creation of the new table leaves the changed configuration of the old one in place. -/
theorem Router.renamed_create (r : Router) (written : Bool) {fromTable toTable : String} {t : Table}
    (hdb : r.databases db ≠ false) (hto : r.tables db toTable = none) (hne : fromTable ≠ toTable) :
    let conf := t.tableConfig.rename fromTable toTable
    let changed := r.putTable db fromTable (some { t with tableConfig := conf })
    let result := changed.createTable written db toTable conf
    result.2.tables db fromTable = some { t with tableConfig := conf } ∧
      result.2.files db fromTable = r.files db fromTable ∧
      (result.1 = none ↔
        nameInvalid toTable = false ∧ (∃ p, Partition.build r.slots conf = .ok p) ∧ written = true) := by
  intro conf changed result
  have hsame := changed.createTable_sameEntry written db conf hne
  have hnone : changed.tables db toTable = none := (if_neg fun h => hne h.2.symm).trans hto
  exact ⟨hsame.1.trans (if_pos ⟨rfl, rfl⟩), hsame.2, changed.createTable_eq_none_iff written conf hdb hnone⟩

/-- A rename leaves the entry of the table and its file as they were exactly in these cases. -/
theorem Router.rename_same_iff (r : Router) (written removed : Bool) (db fromTable toTable : String) :
    r.SameEntry (r.renameTable written removed db fromTable toTable).2 db fromTable ↔
      r.RenameKept written db fromTable toTable := by
  by_cases hdb : r.databases db = false
  · rw [Router.renameTable, if_pos hdb]
    exact iff_of_true ⟨rfl, rfl⟩ (.inl hdb)
  cases hfrom : r.tables db fromTable with
  | none =>
    rw [Router.renameTable, if_neg hdb, hfrom]
    exact iff_of_true ⟨rfl, rfl⟩ (.inr (.inl hfrom))
  | some t =>
    cases hto : r.tables db toTable with
    | some t' =>
      rw [Router.renameTable, if_neg hdb, hfrom, hto]
      exact iff_of_true ⟨rfl, rfl⟩ (.inr (.inr (.inl (by rw [hto]; exact Option.some_ne_none t'))))
    | none =>
      have hne : fromTable ≠ toTable := fun heq => by rw [heq, hto] at hfrom; cases hfrom
      have hkept : r.RenameKept written db fromTable toTable ↔
          t.tableConfig.rename fromTable toTable = t.tableConfig ∧ ¬ (nameInvalid toTable = false ∧
            (∃ p, Partition.build r.slots t.tableConfig = .ok p) ∧ written = true) := by
        simp [Router.RenameKept, hdb, hfrom, hto]
      obtain ⟨hentry, hfile, hiff⟩ := r.renamed_create written (t := t) hdb hto hne
      rw [hkept, Router.renameTable, if_neg hdb, hfrom, hto]
      simp only
      split
      · rename_i e r' hres
        rw [hres] at hentry hfile hiff
        have hentry_iff : r.SameEntry r' db fromTable ↔
            t.tableConfig.rename fromTable toTable = t.tableConfig := by
          rw [Router.SameEntry, hentry, hfile, hfrom, and_iff_left rfl, Option.some_inj]
          exact ⟨fun h => congrArg Table.tableConfig h, fun h => by rw [h]⟩
        rw [hentry_iff]
        refine ⟨fun h => ⟨h, fun hall => ?_⟩, And.left⟩
        rw [h] at hiff
        exact absurd (hiff.2 hall) (Option.some_ne_none e)
      · rename_i r' hres
        rw [hres] at hiff
        refine iff_of_false (fun hsame => ?_) fun hkept => hkept.2 ?_
        · have hgone : (r'.removeTable db fromTable).tables db fromTable = none := if_pos ⟨rfl, rfl⟩
          have hentry := hsame.1
          rw [hfrom] at hentry
          cases removed <;> exact absurd (hgone.symm.trans hentry) (Option.some_ne_none t).symm
        · have hall := hiff.1 rfl
          rwa [hkept.1] at hall

/-- A router with one table. -/
def oneTable : Router :=
  (Router.init 8 2).run [.createDatabase "db", .createSingleTable true "db" "t" ["b"]]

/-- The rename to a name with a space is refused, but the configuration of the table has the new name. -/
theorem refused_rename_changes :
    (oneTable.renameTable true true "db" "t" "a b").1 = some "invalid.table.name[a b]" ∧
      ((oneTable.renameTable true true "db" "t" "a b").2.tables "db" "t").map
          (fun t => (t.tableConfig.name, t.tableConfig.partitions.map PartitionConfig.table)) =
        some ("a b", ["a b"]) ∧
      ¬ oneTable.SameEntry (oneTable.renameTable true true "db" "t" "a b").2 "db" "t" := by
  refine ⟨by decide +kernel, by decide +kernel, fun hsame => ?_⟩
  have hname := congrArg (Option.map fun t => t.tableConfig.name) hsame.1
  exact absurd hname (by decide +kernel)

end Radon
