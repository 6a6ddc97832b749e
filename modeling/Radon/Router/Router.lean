import Mathlib.Logic.Function.Basic
import Radon.Router.Partition

/-!
# The router

The router keeps a configuration and a built partition for every table, and the configuration on
disk. `CREATE TABLE` computes a configuration and adds the table, `RENAME TABLE` changes the
configuration in place and adds it under the new name, and a shift moves one physical table to
another backend and reloads the table from its file.

An operation that writes a file takes the outcome of the write. A loop over a Go map takes the order
in which it meets the entries.
-/

namespace Radon

/-- `router.Table`; a table whose partition could not be built stays in the map without one. -/
structure Table where
  name : String
  shardKey : String
  partition : Option Partition
  tableConfig : TableConfig

/-- `router.Router`, with the files of its metadata directory. -/
structure Router where
  slots : ℕ
  blocks : ℕ
  databases : String → Bool
  tables : String → String → Option Table
  files : String → String → Option TableConfig

/-- A map of databases and tables with one entry replaced. -/
def updateEntry {α : Type} (m : String → String → Option α) (db name : String) (x : Option α) :
    String → String → Option α :=
  fun d n => if d = db ∧ n = name then x else m d n

/-- Replace the entry of a table in memory. -/
def Router.putTable (r : Router) (db name : String) (x : Option Table) : Router :=
  { r with tables := updateEntry r.tables db name x }

/-- Replace the file of a table. -/
def Router.putFile (r : Router) (db name : String) (x : Option TableConfig) : Router :=
  { r with files := updateEntry r.files db name x }

/-- `strings.Replace(s, old, new, 1)`. -/
def replaceFirst (old new : List Char) : List Char → List Char
  | [] => if old = [] then new else []
  | c :: cs =>
    if old.isPrefixOf (c :: cs) then new ++ (c :: cs).drop old.length
    else c :: replaceFirst old new cs

/-- The name `table_0000` of a physical table. -/
def partitionName (table : String) (n : ℕ) : String :=
  table ++ "_" ++ String.ofList (List.replicate (4 - (Nat.toDigits 10 n).length) '0') ++ toString n

/-- `partitionNums`. -/
def partitionNums : List ℕ := [8, 16, 32, 64]

/-- The physical tables of `HashUniform`, backend by backend. -/
def hashPartitions (table : String) (slots blocks slotsPerShard tablesPerShard : ℕ)
    (backends : List String) : List PartitionConfig :=
  backends.zipIdx.flatMap fun (backend, s) =>
    (List.range tablesPerShard).map fun i =>
      let step := s * slotsPerShard
      let max :=
        if i + 1 = tablesPerShard then
          if s + 1 = backends.length then slots else step + slotsPerShard
        else (i + 1) * blocks + step
      { table := partitionName table (s * tablesPerShard + i)
        segment := toString (i * blocks + step) ++ "-" ++ toString max
        backend := backend
        listValue := "" }

/-- `Router.HashUniform`; dividing by zero blocks panics. -/
def Router.hashUniform (r : Router) (table shardkey : String) (backends : List String)
    (partitionNum : Option SQLVal) : Except String TableConfig :=
  if table = "" then .error "table.cant.be.null"
  else if shardkey = "" then .error "shard.key.cant.be.null"
  else
    let blocks : Except String ℕ :=
      match partitionNum with
      | none => .ok r.blocks
      | some num =>
        match atoi num.val.toList with
        | none => .error "invalid syntax"
        | some n =>
          if n ∈ partitionNums then .ok (r.slots / n)
          else .error "number.of.partitions.must.be.one.of.the.list.[8, 16, 32, 64]"
    match blocks with
    | .error e => .error e
    | .ok blocks =>
      let nums := backends.length
      if nums = 0 then .error "router.compute.backends.is.null"
      else if r.slots ≤ nums then .error ("router.compute.backends[" ++ toString nums ++
        "].too.many:[max:" ++ toString r.slots ++ "]")
      else if blocks = 0 then .error "runtime error: integer divide by zero"
      else
        let sorted := backends.insertionSort (· ≤ ·)
        let slotsPerShard := r.slots / nums
        .ok { name := table, slots := r.slots, blocks := blocks, shardType := .hash
              shardKey := shardkey
              partitions := hashPartitions table r.slots blocks slotsPerShard
                (slotsPerShard / blocks) sorted }

/-- `Router.GlobalUniform`. -/
def globalUniform (table : String) (backends : List String) : Except String TableConfig :=
  if table = "" then .error "table.cant.be.null"
  else if backends = [] then .error "router.compute.backends.is.null"
  else .ok { name := table, slots := 0, blocks := 0, shardType := .global, shardKey := ""
             partitions := backends.map fun backend => ⟨table, "", backend, ""⟩ }

/-- `Router.SingleUniform`. -/
def singleUniform (table : String) (backends : List String) : Except String TableConfig :=
  if table = "" then .error "table.cant.be.null"
  else
    match backends with
    | [] => .error "router.compute.backends.is.null"
    | backend :: _ =>
      .ok { name := table, slots := 0, blocks := 0, shardType := .single, shardKey := ""
            partitions := [⟨table, "", backend, ""⟩] }

/-- `sqlparser.PartitionDefinition`: a backend and its values. -/
structure PartitionDefinition where
  backend : String
  row : List SQLVal

/-- The map of `listMergePartition`: every value once, with its backend. -/
structure ListMap where
  entries : List (String × String)
  nodup : (entries.map Prod.fst).Nodup

/-- One value of a definition in `listMergePartition`. -/
def ListMap.add (m : ListMap) (backend key : String) : Except String ListMap :=
  match hfind : m.entries.find? fun e => e.1 = key with
  | some e =>
    if e.2 = backend then .ok m else .error "partition.list.different.backend.with.same.values"
  | none => .ok ⟨m.entries ++ [(key, backend)], by
      rw [List.map_append, List.nodup_append]
      refine ⟨m.nodup, List.nodup_singleton _, ?_⟩
      rintro a ha b hb rfl
      obtain ⟨e, he, rfl⟩ := List.mem_map.1 ha
      simp only [List.find?_eq_none, decide_eq_true_eq] at hfind
      exact hfind e he (List.mem_singleton.1 hb)⟩

/-- `listMergePartition`. -/
def listMergePartition : List PartitionDefinition → ListMap → Except String ListMap
  | [], m => .ok m
  | part :: parts, m => do
    let m ← part.row.foldlM (fun m val => m.add part.backend val.val) m
    listMergePartition parts m

/-- The order in which the loop of `ListUniform` meets the values. -/
structure ListOrder where
  arrange : List (String × String) → List (String × String)
  perm : ∀ l, (arrange l).Perm l

instance : Inhabited ListOrder := ⟨⟨id, .refl⟩⟩

/-- The physical tables of `ListUniform` from the n-th value on. -/
def listPartitions (table : String) : ℕ → List (String × String) → List PartitionConfig
  | _, [] => []
  | n, (listValue, backend) :: rest =>
    ⟨partitionName table n, "", backend, listValue⟩ :: listPartitions table (n + 1) rest

/-- `Router.ListUniform`. -/
def listUniform (order : ListOrder) (table shardkey : String) (defs : List PartitionDefinition) :
    Except String TableConfig :=
  if table = "" then .error "table.cant.be.null"
  else if shardkey = "" then .error "shard.key.cant.be.null"
  else
    match listMergePartition defs ⟨[], List.nodup_nil⟩ with
    | .error e => .error e
    | .ok m =>
      if m.entries = [] then .error "router.compute.partition.list.is.null"
      else .ok { name := table, slots := 0, blocks := 0, shardType := .list, shardKey := shardkey
                 partitions := listPartitions table 0 (order.arrange m.entries) }

/-- `Router.addTable`. The table enters the map before its partition is built. -/
def Router.addTable (r : Router) (db : String) (tbl : TableConfig) : Option String × Router :=
  if r.databases db = false then (some ("Unknown database '" ++ db ++ "'"), r)
  else
    match r.tables db tbl.name with
    | some _ => (some ("router.add.db[" ++ db ++ "].table[" ++ tbl.name ++ "].exists"), r)
    | none =>
      let table : Table :=
        { name := tbl.name, shardKey := tbl.shardKey, partition := none, tableConfig := tbl }
      match Partition.build r.slots tbl with
      | .error e => (some e, r.putTable db tbl.name (some table))
      | .ok p => (none, r.putTable db tbl.name (some { table with partition := some p }))

/-- `Router.removeTable`, for a table that is there. -/
def Router.removeTable (r : Router) (db table : String) : Router := r.putTable db table none

/-- `checkNameInvalid` and the limit on the length of a name. -/
def nameInvalid (table : String) : Bool :=
  64 < table.utf8ByteSize + 5 || table.toList.any fun c => c = ' ' || c = '/'

/-- `Router.createTable`. -/
def Router.createTable (r : Router) (written : Bool) (db table : String) (conf : TableConfig) :
    Option String × Router :=
  if nameInvalid table then (some ("invalid.table.name[" ++ table ++ "]"), r)
  else
    match r.addTable db conf with
    | (some e, r) => (some e, r)
    | (none, r) =>
      if written then (none, r.putFile db table (some conf))
      else (some "write.error", r.removeTable db table)

/-- The configuration under a new name, as `getRenameTableConfig` leaves it. -/
def TableConfig.rename (conf : TableConfig) (fromTable toTable : String) : TableConfig :=
  { conf with
    name := toTable
    partitions := conf.partitions.map fun part =>
      { part with
        table := String.ofList (replaceFirst fromTable.toList toTable.toList part.table.toList) } }

/-- `Router.RenameTable`: the configuration of the old table is changed before the new one is
created. -/
def Router.renameTable (r : Router) (written removed : Bool) (db fromTable toTable : String) :
    Option String × Router :=
  if r.databases db = false then (some ("router.can.not.find.db[" ++ db ++ "]"), r)
  else
    match r.tables db fromTable with
    | none => (some ("router.can.not.find.table[" ++ fromTable ++ "]"), r)
    | some table =>
      match r.tables db toTable with
      | some _ => (some ("router.find.table[" ++ toTable ++ "].exists"), r)
      | none =>
        let conf := table.tableConfig.rename fromTable toTable
        let r := r.putTable db fromTable (some { table with tableConfig := conf })
        match r.createTable written db toTable conf with
        | (some e, r) => (some e, r)
        | (none, r) =>
          let r := r.removeTable db fromTable
          if removed then (none, r.putFile db fromTable none)
          else (some "remove.error", r)

/-- Give the first physical table that matches to another backend. -/
def movePartition (fromBackend toBackend partitionTable : String) :
    List PartitionConfig → Option (List PartitionConfig)
  | [] => none
  | part :: parts =>
    if part.backend = fromBackend ∧ part.table = partitionTable then
      some ({ part with backend := toBackend } :: parts)
    else (movePartition fromBackend toBackend partitionTable parts).map (part :: ·)

/-- `Router.changeTheRuleBackend` on the table that its loop over the map finds. -/
def Router.changeTheRuleBackend (r : Router) (written : Bool)
    (fromBackend toBackend db partitionTable found : String) : Except String (String × Router) :=
  if fromBackend = toBackend then
    .error ("router.rule.change.from[" ++ fromBackend ++ "].cant.equal.to[" ++ toBackend ++ "]")
  else if r.databases db = false then
    .error ("router.rule.change.cant.found.database:" ++ db)
  else
    let notFound := "router.rule.change.cant.found.backend[" ++ fromBackend ++ "]+table:[" ++
      partitionTable ++ "]"
    match r.tables db found with
    | none => .error notFound
    | some table =>
      match movePartition fromBackend toBackend partitionTable table.tableConfig.partitions with
      | none => .error notFound
      | some moved =>
        let global := table.tableConfig.shardType = .global
        if global ∧ table.tableConfig.partitions.any (fun part => part.backend = toBackend) then
          .error ("the.table:[" ++ partitionTable ++ "].already.exists.in.the.backend[" ++
            toBackend ++ "]")
        else if written = false then .error "write.error"
        else
          let parts := if global then
            table.tableConfig.partitions ++ [⟨table.name, "", toBackend, ""⟩] else moved
          let conf := { table.tableConfig with partitions := parts }
          .ok (table.name, (r.putTable db found (some { table with tableConfig := conf })).putFile
            db table.name (some conf))

/-- `Router.RefreshTable`. -/
def Router.refreshTable (r : Router) (db table : String) : Option String × Router :=
  match r.tables db table with
  | none => (some ("router.can.not.find.table[" ++ table ++ "]"), r)
  | some _ =>
    let r := r.removeTable db table
    match r.files db table with
    | none => (some "read.error", r)
    | some conf => r.addTable db conf

/-- `Router.PartitionRuleShift`. When the reload fails it panics; the server of the request recovers, and the router
stays as the reload left it. -/
def Router.partitionRuleShift (r : Router) (written : Bool)
    (fromBackend toBackend db partitionTable found : String) : Option String × Router :=
  match r.changeTheRuleBackend written fromBackend toBackend db partitionTable found with
  | .error e => (some e, r)
  | .ok (table, changed) => changed.refreshTable db table

/-! ## Reading the router -/

/-- `Router.getTable`. -/
def Router.getTable (r : Router) (database tableName : String) : Except String Table :=
  if database = "" then .error "No database selected"
  else
    match r.tables database tableName with
    | some table => .ok table
    | none => .error ("Table '" ++ tableName ++ "' doesn't exist")

/-- The partition of a table; calling a method of the missing one panics. -/
def Router.getPartition (r : Router) (database tableName : String) : Except String Partition := do
  let table ← r.getTable database tableName
  match table.partition with
  | some p => return p
  | none => .error "runtime error: nil pointer dereference"

/-- `Router.Lookup` without keys: all segments. -/
def Router.lookupAll (r : Router) (database tableName : String) : Except String (List Segment) := do
  let p ← r.getPartition database tableName
  return p.getSegments

/-- `Router.Lookup` from a key to the same key. -/
def Router.lookup (r : Router) (H : Hasher) (database tableName : String) (key : SQLVal) :
    Except String (List Segment) := do
  let p ← r.getPartition database tableName
  p.lookup H key

/-- `Router.Lookup` for a key range, which may be open. -/
def Router.lookupRange (r : Router) (H : Hasher) (database tableName : String)
    (startKey endKey : Option SQLVal) : Except String (List Segment) :=
  if database = "" then .error "No database selected"
  else if tableName = "" then .error ("Table '" ++ tableName ++ "' doesn't exist")
  else if r.databases database = false then .error ("Unknown database '" ++ database ++ "'")
  else do
    let p ← r.getPartition database tableName
    p.lookupRange H startKey endKey

/-- `Router.GetIndex`. -/
def Router.getIndex (r : Router) (H : Hasher) (database tableName : String) (sqlval : SQLVal) :
    Except String (Option ℕ) := do
  let p ← r.getPartition database tableName
  p.getIndex H sqlval

/-- `Router.GetSegments`. -/
def Router.getSegments (r : Router) (database tableName : String) (indexes : List ℕ) :
    Except String (List Segment) := do
  let p ← r.getPartition database tableName
  p.segmentsOf indexes

/-! ## Runs of the router -/

/-- An operation on the router. -/
inductive RouterOp
  | createDatabase (db : String)
  | createHashTable (written : Bool) (db table shardKey : String) (backends : List String)
      (partitionNum : Option SQLVal)
  | createListTable (written : Bool) (order : ListOrder) (db table shardKey : String)
      (defs : List PartitionDefinition)
  | createGlobalTable (written : Bool) (db table : String) (backends : List String)
  | createSingleTable (written : Bool) (db table : String) (backends : List String)
  | rename (written removed : Bool) (db fromTable toTable : String)
  | shift (written : Bool) (fromBackend toBackend db partitionTable found : String)
  | dropTable (removed : Bool) (db table : String)

/-- Create a table from the configuration that one of the `Uniform` functions computes. -/
def Router.create (r : Router) (written : Bool) (db table : String)
    (conf : Except String TableConfig) : Option String × Router :=
  match conf with
  | .error e => (some e, r)
  | .ok conf => r.createTable written db table conf

/-- An operation with the error it returns. -/
def Router.step (r : Router) : RouterOp → Option String × Router
  | .createDatabase db => (none, { r with databases := Function.update r.databases db true })
  | .createHashTable written db table shardKey backends partitionNum =>
    r.create written db table (r.hashUniform table shardKey backends partitionNum)
  | .createListTable written order db table shardKey defs =>
    r.create written db table (listUniform order table shardKey defs)
  | .createGlobalTable written db table backends =>
    r.create written db table (globalUniform table backends)
  | .createSingleTable written db table backends =>
    r.create written db table (singleUniform table backends)
  | .rename written removed db fromTable toTable =>
    r.renameTable written removed db fromTable toTable
  | .shift written fromBackend toBackend db partitionTable found =>
    r.partitionRuleShift written fromBackend toBackend db partitionTable found
  | .dropTable removed db table =>
    match r.tables db table with
    | none => (some ("router.can.not.find.table[" ++ table ++ "]"), r)
    | some _ =>
      if removed then (none, (r.removeTable db table).putFile db table none)
      else (some "remove.error", r.removeTable db table)

/-- The router after a sequence of operations. -/
def Router.run (r : Router) : List RouterOp → Router
  | [] => r
  | op :: ops => Router.run (r.step op).2 ops

/-- A router without databases. -/
def Router.init (slots blocks : ℕ) : Router :=
  ⟨slots, blocks, fun _ => false, fun _ _ => none, fun _ _ => none⟩

end Radon
