import Radon.Concurrency.Run
import Radon.Metadata.Disk

/-!
# The router that is loaded again

The shift of a partition and the refresh of a table are performed on the metadata directory as well. After
any sequence of successful operations a router that loads the directory has the same databases and tables,
and routes every key to the same place, unless a database was created in the place of a file: whatever is
there is taken for the directory of the database.
-/

namespace Radon.Metadata

open Concurrency FileSystem FileSystem.Location Option

/-! ## Shift and refresh -/

/-- `Router.changeTheRuleBackend` on the table that its loop over the map finds, with the name of this
table. -/
def changeTheRuleBackend (metadir : List Char) (fromBackend toBackend db partitionTable found : String)
    (r : Router) : Frm (Except String String × Router) :=
  if fromBackend = toBackend then
    return (.error ("router.rule.change.from[" ++ fromBackend ++ "].cant.equal.to[" ++ toBackend ++ "]"), r)
  else if r.databases db = false then
    return (.error ("router.rule.change.cant.found.database:" ++ db), r)
  else
    let notFound := "router.rule.change.cant.found.backend[" ++ fromBackend ++ "]+table:[" ++
      partitionTable ++ "]"
    match r.tables db found with
    | none => return (.error notFound, r)
    | some table =>
      match movePartition fromBackend toBackend partitionTable table.tableConfig.partitions with
      | none => return (.error notFound, r)
      | some moved =>
        let global := table.tableConfig.shardType = .global
        if global ∧ table.tableConfig.partitions.any (fun part => part.backend = toBackend) then
          return (.error ("the.table:[" ++ partitionTable ++ "].already.exists.in.the.backend[" ++
            toBackend ++ "]"), r)
        else
          let parts := if global then
            table.tableConfig.partitions ++ [⟨table.name, "", toBackend, ""⟩] else moved
          let conf := { table.tableConfig with partitions := parts }
          let changed := r.putTable db found (some { table with tableConfig := conf })
          do
            let err ← writeTableFrmData metadir db table.name conf
            let out ← finish metadir err r changed
            match out with
            | (some e, r) => return (.error e, r)
            | (none, r) => return (.ok table.name, r)

/-- `Router.loadTable`: the table of a file is added. There is no reply for a path out of the metadata
directory. -/
def Node.loadTable (n : Node) (db table : String) : Option (Option String × Node) :=
  (locate n.metadir (join (join n.metadir db.toList) (jsonFile table))).map fun p =>
    match n.disk.get p with
    | some (.file content) =>
      match Metadata.loadTable n.router db content with
      | .ok r => (none, { n with router := r })
      | .error e => (some e, n)
    | some .dir => (some "is a directory", n)
    | none => (some "no such file or directory", n)

/-- `Router.RefreshTable`. -/
def Node.refreshTable (n : Node) (db table : String) : Option (Option String × Node) :=
  if n.router.databases db then
    match n.router.tables db table with
    | none => some (some ("router.can.not.find.table[" ++ table ++ "]"), n)
    | some _ => { n with router := n.router.removeTable db table }.loadTable db table
  else some (some ("router.can.not.find.db[" ++ db ++ "]"), n)

/-- `Router.PartitionRuleShift`; an error of the refresh is a panic. -/
def Node.partitionRuleShift (n : Node) (now : ℤ)
    (fromBackend toBackend db partitionTable found : String) : Option (Option String × Node) :=
  (runFrm n.metadir now (changeTheRuleBackend n.metadir fromBackend toBackend db partitionTable found
    n.router) n.disk).bind fun ((out, r), disk) =>
      match out with
      | .error e => some (some e, { n with router := r, disk := disk })
      | .ok table => { n with router := r, disk := disk }.refreshTable db table

/-- An operation of the router that reads or writes its metadata directory. -/
inductive NodeOp
  | frm (op : FrmOp)
  | refreshTable (db table : String)
  | partitionRuleShift (fromBackend toBackend db partitionTable found : String)

/-- An operation at a time, with its error. -/
def Node.step (n : Node) (now : ℤ) : NodeOp → Option (Option String × Node)
  | .frm op => (runFrm n.metadir now (op.frm n.metadir n.router) n.disk).map fun ((err, r), disk) =>
    (err, { n with router := r, disk := disk })
  | .refreshTable db table => n.refreshTable db table
  | .partitionRuleShift fromBackend toBackend db partitionTable found =>
    n.partitionRuleShift now fromBackend toBackend db partitionTable found

/-- An operation at its time, if it succeeds. -/
def Node.succeed (n : Node) (e : NodeOp × ℤ) : Option Node :=
  match n.step e.2 e.1 with
  | some (none, n) => some n
  | _ => none

/-! ## What is loaded -/

/-- Two routers have the same databases and tables, and find the same segments for every key and every
index. -/
structure SameRouting (r r' : Router) : Prop where
  databases : ∀ db, r.databases db = r'.databases db
  tables : ∀ db t, r.tables db t = r'.tables db t
  lookup : ∀ H db t startKey endKey,
    r.lookupRange H db t startKey endKey = r'.lookupRange H db t startKey endKey
  getIndex : ∀ H db t key, r.getIndex H db t key = r'.getIndex H db t key
  getSegments : ∀ db t indexes, r.getSegments db t indexes = r'.getSegments db t indexes

/-- Every router that loads the metadata directory of the node becomes the same as that of the node. -/
def Reloads (n : Node) : Prop :=
  ∀ (order : MapOrder (String × List Content)) (r₀ : Router),
    ∃ r, loadRouter order n.disk r₀ = .ok r ∧ SameRouting r n.router

/-- There is a file in the place of a database. -/
def Node.FileAt (n : Node) (db : String) : Prop :=
  ∃ d c, nameText d = db ∧ n.disk.get [d] = some (.file c)

/-- The directories of a node are its databases and their files its tables; a database may also lie in the
place of a file. -/
structure Mirrored (n : Node) : Prop where
  filed : Filed n.router n.disk
  directory : ∀ {d : Name}, n.disk.get [d] = some .dir → n.router.databases (nameText d) = true
  place : ∀ {d : Name}, n.router.databases (nameText d) = true → n.disk.get [d] ≠ none

variable {r : Router} {n n' : Node} {d : Name} {metadir : List Char}

theorem sameRouting_of_eq {r' : Router} (hdatabases : r.databases = r'.databases)
    (htables : r.tables = r'.tables) : SameRouting r r' := by
  have hpartition (db t : String) : r.getPartition db t = r'.getPartition db t := by
    simp only [Router.getPartition, Router.getTable, htables]
  refine ⟨congrFun hdatabases, fun db t => by rw [htables], fun H db t startKey endKey => ?_,
    fun H db t key => ?_, fun db t indexes => ?_⟩
  · simp only [Router.lookupRange, hdatabases, hpartition]
  · simp only [Router.getIndex, hpartition]
  · simp only [Router.getSegments, hpartition]

/-- What is on disk is loaded, so that only a database in the place of a file is missing. -/
theorem Mirrored.reloads_iff (hm : Mirrored n) :
    Reloads n ↔ ∀ {d : Name}, n.router.databases (nameText d) = true → n.disk.get [d] = some .dir := by
  constructor
  · intro h d hdb
    obtain ⟨r, hload, hsame⟩ := h ⟨id, fun _ => .refl _⟩ n.router
    obtain ⟨r', hload', -, hdatabases⟩ := hm.filed.loadRouter_ok ⟨id, fun _ => .refl _⟩ n.router
    cases hload.symm.trans hload'
    rw [← hsame.databases] at hdb
    grind [nameText_injective]
  · intro h order r₀
    obtain ⟨r, hload, htables, hdatabases⟩ := hm.filed.loadRouter_ok order r₀
    refine ⟨r, hload, sameRouting_of_eq (funext fun db => ?_) htables⟩
    rw [Bool.eq_iff_iff, hdatabases]
    constructor
    · rintro ⟨d, rfl, hdir⟩
      exact hm.directory hdir
    · intro hdb
      obtain ⟨d, rfl⟩ : ∃ d : Name, nameText d = db := ⟨⟨_, hm.filed.name hdb⟩, nameText_mk _⟩
      exact ⟨d, rfl, h hdb⟩

/-! ## Properties that the operations keep -/

theorem of_deleteDatabase {e : Name}
    (h : (deleteDatabase r (nameText d)).databases (nameText e) = true) :
    ¬ [d] <+: [e] ∧ r.databases (nameText e) = true := by
  have hne : nameText e ≠ nameText d := by
    intro heq
    simp [deleteDatabase, heq] at h
  refine ⟨fun hprefix => ?_, by simpa [deleteDatabase, hne] using h⟩
  obtain rfl : d = e := by simpa using hprefix
  exact hne rfl

theorem stable_mirrored : Stable Mirrored where
  filed hm := hm.filed
  putVersion {n disk ts} hm hdir hdisk := by
    refine ⟨hm.filed.congr fun d f => by simp [hdisk], fun {d} h => ?_, fun {d} h => ?_⟩
    · grind [Mirrored.directory]
    · rw [hdisk]
      split_ifs
      · simp
      · exact hm.place h
  putFile {n disk d f x r} hm _ hdisk hdatabases hf := by
    refine ⟨hf, fun {e} h => ?_, fun {e} h => ?_⟩
    · rw [hdisk, if_neg (by simp)] at h
      rw [hdatabases]
      exact hm.directory h
    · grind [Mirrored.place]
  deleteDatabase {n disk d} hm _ hdisk := by
    refine ⟨hm.filed.deleteDatabase hdisk, fun {e} h => ?_, fun {e} h => ?_⟩
    · rw [hdisk] at h
      split_ifs at h with hprefix
      have hne : nameText e ≠ nameText d := fun heq => hprefix (by simp [nameText_injective heq])
      simpa [deleteDatabase, hne] using hm.directory h
    · grind [of_deleteDatabase, Mirrored.place]

/-- The databases of a node are the directories on disk. -/
structure Clean (n : Node) : Prop extends Mirrored n where
  dir : ∀ {d : Name}, n.router.databases (nameText d) = true → n.disk.get [d] = some .dir

theorem stable_clean : Stable Clean where
  filed hc := hc.filed
  putVersion {n disk ts} hc hdir hdisk := by
    refine ⟨stable_mirrored.putVersion hc.toMirrored hdir hdisk, fun {d} hdb => ?_⟩
    have hd := hc.dir hdb
    rw [hdisk, if_neg]
    · exact hd
    · rintro ⟨⟩
      exact hdir hd
  putFile {n disk d f x r} hc hx hdisk hdatabases hf := by
    refine ⟨stable_mirrored.putFile hc.toMirrored hx hdisk hdatabases hf, fun {e} hdb => ?_⟩
    rw [hdisk, if_neg (by simp)]
    rw [hdatabases] at hdb
    exact hc.dir hdb
  deleteDatabase {n disk d} hc hdb hdisk := by
    refine ⟨stable_mirrored.deleteDatabase hc.toMirrored hdb hdisk, fun {e} h => ?_⟩
    obtain ⟨hne, he⟩ := of_deleteDatabase h
    rw [hdisk, if_neg hne]
    exact hc.dir he

/-! ## Operations -/

section Step

variable {n n' : Node} {now : ℤ}

theorem locate_join_join (d f : Name) :
    locate metadir (join (join metadir d.1) f.1) = some [d, f] := by
  rw [locate, resolve_join_name, resolve_join_name, down_down, below?_down]
  rfl

theorem putTable_putTable (r : Router) (db t : String) (x y : Option Table) :
    (r.putTable db t x).putTable db t y = r.putTable db t y := by
  simp only [Router.putTable, Router.mk.injEq, true_and, and_true]
  funext d name
  simp only [updateEntry]
  split_ifs <;> rfl

/-- A table is read from its file again. -/
theorem refreshTable_ok {f : Name} (conf : TableConfig) (hf : f.1 = jsonFile conf.name)
    (hget : n.disk.get [d, f] = some (.file (.table conf)))
    (hslots : conf.shardType = .hash → conf.slots ≠ 0)
    (h : n.refreshTable (nameText d) conf.name = some (none, n')) :
    n.router.databases (nameText d) = true ∧ ∃ T, T.name = conf.name ∧ T.tableConfig = conf ∧
      Loaded n.router.slots T ∧
      n' = { n with router := n.router.putTable (nameText d) conf.name (some T) } := by
  unfold Node.refreshTable at h
  split_ifs at h with hdb
  · refine ⟨hdb, ?_⟩
    split at h
    · cases h
    · rw [Node.loadTable, toList_nameText, ← hf, locate_join_join, map_some] at h
      simp only [hget] at h
      split at h
      · rename_i r hload
        cases h
        simp only [Metadata.loadTable, readTableConfig, bind, Except.bind] at hload
        split at hload
        · cases hload
        · grind [loaded_of_addTable, putTable_putTable, Router.putTable, Router.addTable, Router.removeTable]
      · cases h
  · cases h

variable {db : String}

/-- What the change of the backend of a partition does: the configuration of the table gets other
partitions, in the router and on disk. -/
theorem changeTheRuleBackend_ok {r' : Router} {disk disk' : FileTree Content}
    {fromBackend toBackend partitionTable found table : String}
    (h : runFrm metadir now (changeTheRuleBackend metadir fromBackend toBackend db partitionTable found r)
      disk = some ((.ok table, r'), disk')) :
    ∃ T parts u, r.tables db found = some T ∧ T.name = table ∧
      r' = r.putTable db found
        (some { T with tableConfig := { T.tableConfig with partitions := parts } }) ∧
      runFrm metadir now (writeTableFrmData metadir db table
        { T.tableConfig with partitions := parts }) disk = some (none, u) ∧
      u.writeFile [] versionJSON (.version now) = .ok disk' := by
  unfold changeTheRuleBackend at h
  split_ifs at h with hsame hdb
  · cases h
  · cases h
  · dsimp only at h
    split at h
    · cases h
    · rename_i T hT
      split at h
      · cases h
      · split at h
        · cases h
        · rw [runFrm_bind] at h
          obtain ⟨⟨err, u⟩, hwrite, h⟩ := bind_eq_some_iff.1 h
          rw [runFrm_bind] at h
          obtain ⟨⟨⟨err', r₁⟩, disk₁⟩, hfinish, h⟩ := bind_eq_some_iff.1 h
          cases err' with
          | some e => cases h
          | none =>
            cases h
            obtain ⟨rfl, rfl, hversion⟩ := runFrm_finish hfinish
            exact ⟨T, _, u, hT, rfl, rfl, hwrite, hversion⟩

variable {P : Node → Prop} (hP : Stable P)

include hP

theorem Stable.refreshTable (hn : P n) {table : String}
    (h : n.refreshTable db table = some (none, n')) : P n' := by
  cases hT : n.router.tables db table with
  | none =>
    simp only [Node.refreshTable, hT] at h
    split_ifs at h <;> cases h
  | some T =>
    obtain ⟨d, f, rfl, hf, hget⟩ := (hP.filed hn).exists_file hT
    obtain ⟨-, rfl, -, hloaded⟩ := (hP.filed hn).table hT
    grind [refreshTable_ok, Loaded.name, Loaded.slots_ne_zero, putTable, Node.refreshTable]

theorem Stable.partitionRuleShift (hn : P n) {fromBackend toBackend partitionTable found : String}
    (h : n.partitionRuleShift now fromBackend toBackend db partitionTable found = some (none, n')) :
    P n' := by
  obtain ⟨⟨⟨out, r⟩, disk⟩, hchange, h⟩ := bind_eq_some_iff.1 h
  cases out with
  | error e => cases h
  | ok table =>
    obtain ⟨T, parts, u, hT, rfl, rfl, hwrite, hversion⟩ := changeTheRuleBackend_ok hchange
    obtain ⟨hdb, rfl, hfile, hloaded⟩ := (hP.filed hn).table hT
    obtain ⟨d, rfl⟩ : ∃ d : Name, nameText d = db := ⟨⟨_, (hP.filed hn).name hdb⟩, nameText_mk _⟩
    obtain ⟨f, hf⟩ : ∃ f : Name, f.1 = jsonFile T.name := ⟨⟨_, hfile⟩, rfl⟩
    rw [runFrm_writeTableFrmData (toList_nameText d) hf.symm] at hwrite
    obtain ⟨-, hget⟩ := writeFile_ok (reply_none (Option.some.inj hwrite))
    obtain ⟨-, hget'⟩ := writeFile_ok hversion
    simp only [hloaded.name] at h hf
    obtain ⟨-, T', hname, hconf, hT', rfl⟩ :=
      refreshTable_ok { T.tableConfig with partitions := parts } hf (by simp [hget', hget])
        hloaded.slots_ne_zero h
    rw [putTable_putTable, ← hname]
    refine hP.version (hP.putTable hn hdb (hf.trans ?_) hT' ?_) hversion
    · rw [hname]
    · rw [hconf]
      exact hget

/-- An operation that succeeds keeps a stable property, unless it creates a database. -/
theorem Stable.nodeStep (hn : P n) {op : NodeOp} (hop : ∀ db, op ≠ .frm (.createDatabase db))
    (h : n.step now op = some (none, n')) : P n' := by
  cases op with
  | frm op =>
    obtain ⟨⟨⟨err, r⟩, disk⟩, hrun, heq⟩ := map_eq_some_iff.1 h
    grind [step]
  | refreshTable db table => exact hP.refreshTable hn h
  | partitionRuleShift fromBackend toBackend db partitionTable found => exact hP.partitionRuleShift hn h

end Step

section CreateDatabase

variable {n n' : Node} {now : ℤ} {db : String} (hdots : db ≠ "." ∧ db ≠ "..")
  (h : n.step now (.frm (.createDatabase db)) = some (none, n'))

/-- Whatever is in the place of a database is taken for its directory. -/
theorem runFrm_writeDatabaseFrmData_of_ne_none {disk : FileTree Content}
    (hthere : disk.get [d] ≠ none) :
    runFrm metadir now (writeDatabaseFrmData metadir (nameText d)) disk = some (none, disk) := by
  have heq : runFrm metadir now (writeDatabaseFrmData metadir (nameText d)) disk =
      ((locate metadir (join metadir (nameText d).toList)).map fun p =>
        ((disk.get p).isSome, disk)).bind fun out =>
          runFrm metadir now
            (if out.1 then return none else mkdirAll (join metadir (nameText d).toList)) out.2 := rfl
  rw [heq, toList_nameText, locate_join, map_some, bind_some, isSome_iff_ne_none.2 hthere]
  rfl

/-- A database is added to the router, with something in its place. -/
theorem Mirrored.addDatabase (hm : Mirrored n) {u : FileTree Content}
    (hget : ∀ {q}, q ≠ [d] → u.get q = n.disk.get q) (hplace : u.get [d] ≠ none) :
    Mirrored { n with
      router := { n.router with databases := Function.update n.router.databases (nameText d) true }
      disk := u } := by
  refine ⟨(hm.filed.congr fun e f => hget (by simp)).addDatabase d, fun {e} he => ?_, fun {e} he => ?_⟩
  · grind [directory]
  · grind [nameText_injective, place]

theorem Clean.addDatabase (hc : Clean n) {u : FileTree Content}
    (hget : ∀ {q}, q ≠ [d] → u.get q = n.disk.get q) (hdir : u.get [d] = some .dir) :
    Clean { n with
      router := { n.router with databases := Function.update n.router.databases (nameText d) true }
      disk := u } := by
  refine ⟨hc.toMirrored.addDatabase hget (by simp [hdir]), fun {e} he => ?_⟩
  by_cases hed : e = d
  · rwa [hed]
  · grind [nameText_injective, dir]

include hdots h

/-- A database that is created: when its place is free a directory is made there, otherwise nothing is
changed but the version. -/
theorem createDatabase_ok : ∃ d u, db = nameText d ∧ n.router.databases db = false ∧
    u.writeFile [] versionJSON (.version now) = .ok n'.disk ∧
    n' = { n with
      router := { n.router with databases := Function.update n.router.databases db true }
      disk := n'.disk } ∧
    (n.disk.get [d] = none ∧ (∀ q, u.get q = if q = [d] then some .dir else n.disk.get q) ∨
      n.disk.get [d] ≠ none ∧ u = n.disk) := by
  obtain ⟨⟨⟨err, r⟩, disk⟩, hrun, heq⟩ := map_eq_some_iff.1 h
  cases heq
  obtain ⟨d, u, rfl, hthere, rfl, hwrite, hversion⟩ := runFrm_createDatabase hdots hrun
  refine ⟨d, u, rfl, hthere, hversion, rfl, ?_⟩
  by_cases hnew : n.disk.get [d] = none
  · rw [runFrm_writeDatabaseFrmData (toList_nameText d) hnew] at hwrite
    grind [mkdirAll_singleton, reply]
  · grind [runFrm_writeDatabaseFrmData_of_ne_none]

theorem Mirrored.createDatabase (hm : Mirrored n) : Mirrored n' := by
  obtain ⟨d, u, rfl, -, hversion, heq, hu⟩ := createDatabase_ok hdots h
  have hget {q : List Name} (hq : q ≠ [d]) : u.get q = n.disk.get q := by grind
  have hplace : u.get [d] ≠ none := by grind
  rw [heq]
  exact stable_mirrored.version (hm.addDatabase hget hplace) hversion

theorem Clean.createDatabase (hc : Clean n) (hfile : ¬ n.FileAt db) : Clean n' := by
  obtain ⟨d, u, rfl, hnew, hversion, heq, hu⟩ := createDatabase_ok hdots h
  rw [heq]
  rcases hu with ⟨-, hget⟩ | ⟨hne, -⟩
  · refine stable_clean.version (hc.addDatabase (fun {q} hq => ?_) ?_) hversion
    · rw [hget, if_neg hq]
    · simp [hget]
  · obtain ⟨x, hx⟩ := ne_none_iff_exists'.1 hne
    cases x with
    | dir => simp [hc.directory hx] at hnew
    | file c => exact absurd ⟨d, c, rfl, hx⟩ hfile

/-- A database in the place of a file stays there. -/
theorem fileAt_createDatabase (hfile : n.FileAt db) : n'.router.databases db = true ∧ n'.FileAt db := by
  obtain ⟨d, u, rfl, -, hversion, heq, hu⟩ := createDatabase_ok hdots h
  obtain ⟨d', c, hd', hfile⟩ := hfile
  obtain rfl := nameText_injective hd'
  rcases hu with ⟨hnone, -⟩ | ⟨-, rfl⟩
  · cases hfile.symm.trans hnone
  · refine ⟨by rw [heq]; simp, d', ?_⟩
    obtain ⟨-, hget⟩ := writeFile_ok hversion
    grind

end CreateDatabase

/-! ## Runs -/

theorem Node.step_of_succeed {op : NodeOp} {now : ℤ} (h : n.succeed (op, now) = some n') :
    n.step now op = some (none, n') := by
  unfold Node.succeed at h
  split at h
  · rename_i heq
    cases h
    exact heq
  · cases h

/-- The operations create no database that is named after a directory itself or the one above. -/
def NoDots (ops : List (NodeOp × ℤ)) : Prop :=
  ∀ e ∈ ops, ∀ db, e.1 = .frm (.createDatabase db) → db ≠ "." ∧ db ≠ ".."

/-- A router without databases, in a metadata directory with nothing but files. -/
structure Node.Fresh (n : Node) : Prop where
  databases : ∀ db, n.router.databases db = false
  tables : ∀ db t, n.router.tables db t = none
  disk : ∀ d, n.disk.get [d] ≠ some .dir

theorem Node.Fresh.clean (hn : n.Fresh) : Clean n where
  filed := by
    refine ⟨fun {db} h => ?_, fun {db t T} h => ?_, fun d f c => ?_⟩
    · simp [hn.databases] at h
    · simp [hn.tables] at h
    · simp only [hn.tables, reduceCtorEq, false_and, exists_false, iff_false]
      intro hget
      exact hn.disk d (FileTree.get_of_get_append (p := [d]) (q := [f]) (by simp [hget]) (by simp))
  directory h := absurd h (hn.disk _)
  place h := by simp [hn.databases] at h
  dir h := by simp [hn.databases] at h

/-- The operation does not create a database in the place of a file. -/
def Node.Unshadowed (n : Node) (e : NodeOp × ℤ) : Prop :=
  ∀ db, e.1 = .frm (.createDatabase db) → ¬ n.FileAt db

theorem Mirrored.succeed {e : NodeOp × ℤ} (hm : Mirrored n) (hdots : NoDots [e])
    (h : n.succeed e = some n') : Mirrored n' := by
  grind [createDatabase, Stable.nodeStep, stable_mirrored, NoDots, Node.succeed]

/-- A node that can be loaded again stays so exactly when no database is created in the place of a
file. -/
theorem Mirrored.reloads_succeed_iff {e : NodeOp × ℤ} (hm : Mirrored n) (hn : Reloads n)
    (hdots : NoDots [e]) (h : n.succeed e = some n') : Reloads n' ↔ n.Unshadowed e := by
  obtain ⟨op, now⟩ := e
  have hstep := Node.step_of_succeed h
  have hc : Clean n := ⟨hm, hm.reloads_iff.1 hn⟩
  by_cases hop : ∃ db, op = .frm (.createDatabase db)
  · obtain ⟨db, rfl⟩ := hop
    have hdb := hdots _ (List.mem_singleton.2 rfl) db rfl
    constructor
    · rintro hn' _ ⟨⟩ hfile
      obtain ⟨hthere, d, c, rfl, hget⟩ := fileAt_createDatabase hdb hstep hfile
      cases hget.symm.trans ((hm.createDatabase hdb hstep).reloads_iff.1 hn' hthere)
    · intro hfile
      have hc' := hc.createDatabase hdb hstep (hfile db rfl)
      exact hc'.reloads_iff.2 hc'.dir
  · grind [Stable.nodeStep, stable_clean, reloads_iff, Clean.toMirrored, Clean.dir, Node.Unshadowed]

/-- Along a run of successful operations the metadata directory can be loaded again at any time exactly
when no database is created in the place of a file. -/
theorem reloads_iff_unshadowed {n n' : Node} {ops : List (NodeOp × ℤ)} (hn : n.Fresh) (hdots : NoDots ops)
    (h : runSteps Node.succeed n ops = some n') :
    Always Node.succeed n ops Reloads ↔ EachStep Node.succeed n ops Node.Unshadowed := by
  have hc := hn.clean
  refine always_iff_eachStep hc.toMirrored (hc.reloads_iff.2 hc.dir) (fun e he u v hm hu huv => ?_) h
  have hdot : NoDots [e] := by
    intro e' he'
    rw [List.mem_singleton.1 he']
    exact hdots e he
  exact ⟨hm.succeed hdot huv, hm.reloads_succeed_iff hu hdot huv⟩

theorem fresh_shopNode : shopNode.Fresh where
  databases _ := rfl
  tables _ _ := rfl
  disk d := by
    rw [shopNode, Node.start_get]
    split_ifs <;> simp_all

/-- A table is created, moved to another backend, renamed and refreshed. -/
def shopOps : List (NodeOp × ℤ) :=
  [(.frm (.createDatabase "shop"), 1), (.frm (.createSingleTable "shop" "t" ["backend1"]), 2),
    (.partitionRuleShift "backend1" "backend2" "shop" "t" "t", 3), (.frm (.renameTable "shop" "t" "u"), 4),
    (.refreshTable "shop" "u", 5)]

theorem reloads_shop : ∃ n', runSteps Node.succeed shopNode shopOps = some n' ∧
    Always Node.succeed shopNode shopOps Reloads := by
  have hdots : NoDots shopOps := by
    simp only [NoDots, shopOps, List.forall_mem_cons, NodeOp.frm.injEq, FrmOp.createDatabase.injEq,
      reduceCtorEq, false_implies, implies_true, List.not_mem_nil, and_true, forall_eq']
    decide
  refine ⟨_, rfl, (reloads_iff_unshadowed fresh_shopNode hdots rfl).2 ?_⟩
  refine eachStep_cons rfl ?_ (eachStep_cons rfl nofun (eachStep_cons rfl nofun (eachStep_cons rfl nofun
    (eachStep_cons rfl nofun (eachStep_nil _ _)))))
  rintro _ ⟨⟩ ⟨d, c, hd, hget⟩
  rw [shopNode, Node.start_get, if_neg, if_neg (by simp)] at hget
  · cases hget
  · rintro ⟨⟩
    exact absurd hd (by decide)

/-- A database with the name of the version file is gone after the metadata directory is loaded again. -/
theorem not_reloads_versionDatabase : ∃ n', runSteps Node.succeed shopNode
    [(.frm (.createDatabase "shop"), 1), (.frm (.createDatabase "version.json"), 2)] = some n' ∧
    n'.router.databases "version.json" = true ∧ ¬ Reloads n' := by
  obtain ⟨m, n', hm, hn', hdb, hget⟩ : ∃ m n',
      shopNode.succeed (.frm (.createDatabase "shop"), 1) = some m ∧
      m.succeed (.frm (.createDatabase "version.json"), 2) = some n' ∧
      n'.router.databases "version.json" = true ∧
      n'.disk.get [versionJSON] = some (.file (.version 2)) := ⟨_, _, rfl, rfl, rfl, rfl⟩
  have hmirrored : Mirrored n' := by
    refine (fresh_shopNode.clean.toMirrored.succeed ?_ hm).succeed ?_ hn'
    all_goals
      simp only [NoDots, List.forall_mem_singleton, NodeOp.frm.injEq, FrmOp.createDatabase.injEq, forall_eq']
      decide
  refine ⟨n', by simp [runSteps, hm, hn'], hdb, fun h => ?_⟩
  cases hget.symm.trans (hmirrored.reloads_iff.1 h hdb)

end Radon.Metadata
