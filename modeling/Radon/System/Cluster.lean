import Mathlib.Data.List.AList
import Radon.Metadata.Sync
import Radon.Proxy.Statement
import Radon.Router.Reachable

/-!
# The router and its backends

A new table is distributed over the backends of the moment: `CREATE TABLE` reads them once, and a backend
that is added later gets the databases of the router but none of its tables. An attached backend brings
tables of its own, which the router registers as single tables.

What the other side answers is given with the operation: the outcome of a write, what a backend shows.
-/

namespace Radon

open Metadata Proxy Relation

/-- The router and the scatter of a proxy. -/
structure Cluster where
  router : Router
  scatter : Metadata.Backends

/-- `Scatter.Backends`: the backends that are not attached. -/
def Cluster.backends (c : Cluster) : List String :=
  ((c.scatter.confs.filter fun conf => conf.role = 0).map BackendConfig.name).insertionSort (· ≤ ·)

/-! ## Attaching a backend -/

/-- A table on the new backend: whether `checkTableValid` accepts it and its file can be written. -/
structure FoundTable where
  name : String
  valid : Bool
  written : Bool

/-- A database on the new backend that is not a system database: whether it can be created on the other
backends and in the metadata directory, and whether its tables can be listed. -/
structure FoundDatabase where
  name : String
  created : Bool
  listed : Bool
  tables : List FoundTable

/-- The router during `addAttachHandler`, with what is to be undone. -/
structure AttachRun where
  router : Router
  routeDBs : List String
  attachTableList : AList fun _ : String => List String

namespace AttachRun

/-- The loop over the tables of a database, which become single tables. `tables` has those that were added in
this loop, and the entry of the database is overwritten with it. The result says whether to go on. -/
def addTables (backend db : String) : List FoundTable → List String → AttachRun → Bool × AttachRun
  | [], _, run => (true, run)
  | t :: ts, tables, run =>
    if t.valid then
      match run.router.step (.createSingleTable t.written db t.name [backend]) with
      | (none, r) => addTables backend db ts (tables ++ [t.name])
          { run with
            router := r
            attachTableList := run.attachTableList.insert db (tables ++ [t.name]) }
      | (some _, r) => (false, { run with router := r })
    else (false, run)

/-- A database that was not in the router when the handler began. -/
def addDatabase (tblList : String → Bool) (d : FoundDatabase) (run : AttachRun) : Bool × AttachRun :=
  if tblList d.name then (true, run)
  else if d.created then
    match Metadata.addDatabase run.router d.name with
    | .ok r => (true, { run with router := r, routeDBs := run.routeDBs ++ [d.name] })
    | .error _ => (false, run)
  else (false, run)

/-- The loop over the databases. -/
def addDatabases (tblList : String → Bool) (backend : String) : List FoundDatabase → AttachRun → Bool × AttachRun
  | [], run => (true, run)
  | d :: ds, run =>
    match run.addDatabase tblList d with
    | (false, run) => (false, run)
    | (true, run) =>
      if d.listed then
        match run.addTables backend d.name d.tables [] with
        | (false, run) => (false, run)
        | (true, run) => addDatabases tblList backend ds run
      else (false, run)

/-- The tables of a database that are dropped after an error. -/
def dropTables (removed : String × String → Bool) (db : String) (r : Router) (tables : List String) : Router :=
  tables.foldl (fun r table => (r.step (.dropTable (removed (db, table)) db table)).2) r

/-- What `addAttachHandler` undoes after an error. -/
def rollback (removed : String × String → Bool) (run : AttachRun) : Router :=
  run.routeDBs.foldl deleteDatabase
    ((run.attachTableList.entries.filter fun e => e.1 ∉ run.routeDBs).foldl
      (fun r e => dropTables removed e.1 r e.2) run.router)

end AttachRun

/-- `Attach.addAttachHandler`; after an error the backend is removed again. -/
def Cluster.attach (c : Cluster) (conf : BackendConfig) (found : List FoundDatabase)
    (removed : String × String → Bool) : Cluster :=
  match c.scatter.add { conf with role := 1 } with
  | .error _ => c
  | .ok scatter =>
    match AttachRun.addDatabases c.router.databases conf.name found ⟨c.router, [], ∅⟩ with
    | (true, run) => ⟨run.router, scatter⟩
    | (false, run) => ⟨run.rollback removed, c.scatter⟩

/-! ## Runs -/

/-- The operation of the router for a new table, with the backends of the moment. -/
def Cluster.tableOp (c : Cluster) (written : Bool) (order : ListOrder) (db table shardKey : String) :
    PartitionOption → Option RouterOp
  | .hash _ partitionNum => some (.createHashTable written db table shardKey c.backends partitionNum)
  | .normal => some (.createHashTable written db table shardKey c.backends none)
  | .list _ partDefs => some (.createListTable written order db table shardKey partDefs)
  | .global => some (.createGlobalTable written db table c.backends)
  | .single backendName =>
    if backendName = "" then some (.createSingleTable written db table c.backends)
    else if backendName ∈ c.backends then some (.createSingleTable written db table [backendName])
    else none

/-- An operation on the proxy. -/
inductive ClusterOp
  | addBackend (conf : BackendConfig)
  | attach (conf : BackendConfig) (found : List FoundDatabase) (removed : String × String → Bool)
  | createDatabase (db : String)
  | createTable (written : Bool) (order : ListOrder) (db table shardKey : String)
      (option : PartitionOption)
  | dropTable (removed : Bool) (db table : String)
  | rename (written removed : Bool) (db fromTable toTable : String)
  | shift (written : Bool) (fromBackend toBackend db partitionTable found : String)

/-- The proxy after an operation. `addBackendHandler` makes the databases on the new backend and leaves the
router as it is. -/
def Cluster.step (c : Cluster) : ClusterOp → Cluster
  | .addBackend conf =>
    match c.scatter.add { conf with role := 0 } with
    | .ok scatter => { c with scatter := scatter }
    | .error _ => c
  | .attach conf found removed => c.attach conf found removed
  | .createDatabase db =>
    match addDatabase c.router db with
    | .ok r => { c with router := r }
    | .error _ => c
  | .createTable written order db table shardKey option =>
    match c.tableOp written order db table shardKey option with
    | some op => { c with router := (c.router.step op).2 }
    | none => c
  | .dropTable removed db table => { c with router := (c.router.step (.dropTable removed db table)).2 }
  | .rename written removed db fromTable toTable =>
    { c with router := (c.router.step (.rename written removed db fromTable toTable)).2 }
  | .shift written fromBackend toBackend db partitionTable found =>
    { c with router :=
        (c.router.step (.shift written fromBackend toBackend db partitionTable found)).2 }

/-- The proxy after a sequence of operations. -/
def Cluster.run (c : Cluster) : List ClusterOp → Cluster
  | [] => c
  | op :: ops => Cluster.run (c.step op) ops

/-- A proxy without backends and databases. -/
def Cluster.init (slots blocks : ℕ) : Cluster := ⟨Router.init slots blocks, .clear⟩

/-! ## The router of a run -/

theorem Router.Ok.addDatabase {r r' : Router} (h : r.Ok) {db : String}
    (hr : Metadata.addDatabase r db = .ok r') : r'.Ok := by
  unfold Metadata.addDatabase at hr
  split_ifs at hr
  cases hr
  exact h

theorem Router.Ok.deleteDatabase {r : Router} (h : r.Ok) (db : String) : (deleteDatabase r db).Ok := by
  intro d n t ht
  by_cases hd : d = db
  · subst hd
    simp [Metadata.deleteDatabase] at ht
  · exact h d n t (by simpa [Metadata.deleteDatabase, hd] using ht)

section Attach

variable (backend : String)

/-- A step of `addAttachHandler` on the router. -/
inductive AttachRun.Adds : AttachRun → AttachRun → Prop
  | table {run : AttachRun} {written : Bool} {db table : String} {r : Router} (tables : List String)
      (h : run.router.step (.createSingleTable written db table [backend]) = (none, r)) :
      Adds run { run with router := r, attachTableList := run.attachTableList.insert db tables }
  | failed {run : AttachRun} {written : Bool} {db table e : String} {r : Router}
      (h : run.router.step (.createSingleTable written db table [backend]) = (some e, r)) :
      Adds run { run with router := r }
  | database {run : AttachRun} {db : String} {r : Router} (h : Metadata.addDatabase run.router db = .ok r) :
      Adds run { run with router := r, routeDBs := run.routeDBs ++ [db] }

/-- The loop over the tables takes such steps. -/
theorem AttachRun.addTables_adds (db : String) (ts : List FoundTable) (tables : List String) (run : AttachRun) :
    ReflTransGen (Adds backend) run (addTables backend db ts tables run).2 := by
  induction ts generalizing tables run with
  | nil => exact .refl
  | cons t ts ih =>
    rw [addTables]
    split_ifs
    · split
      · rename_i heq
        exact .head (.table _ heq) (ih _ _)
      · rename_i heq
        exact .single (.failed heq)
    · exact .refl

theorem AttachRun.addDatabase_adds (tblList : String → Bool) (d : FoundDatabase) (run : AttachRun) :
    ReflTransGen (Adds backend) run (run.addDatabase tblList d).2 := by
  unfold AttachRun.addDatabase
  split_ifs
  · exact .refl
  · split
    · exact .single (.database ‹_›)
    · exact .refl
  · exact .refl

theorem AttachRun.addDatabases_adds (tblList : String → Bool) (ds : List FoundDatabase) (run : AttachRun) :
    ReflTransGen (Adds backend) run (addDatabases tblList backend ds run).2 := by
  induction ds generalizing run with
  | nil => exact .refl
  | cons d ds ih =>
    have hdatabase := addDatabase_adds backend tblList d run
    rw [addDatabases]
    split <;> rename_i run' heq <;> rw [heq] at hdatabase
    · exact hdatabase
    · have htables := addTables_adds backend d.name d.tables [] run'
      split
      · split <;> rename_i heq' <;> rw [heq'] at htables
        · exact hdatabase.trans htables
        · exact (hdatabase.trans htables).trans (ih _)
      · exact hdatabase

theorem AttachRun.adds_ok {run run' : AttachRun} (hadds : ReflTransGen (Adds backend) run run')
    (h : run.router.Ok) : run'.router.Ok := by
  induction hadds with
  | refl => exact h
  | tail _ hstep ih =>
    cases hstep with
    | table _ heq | failed heq => exact (congrArg (fun step => step.2.Ok) heq).mp (ih.step _)
    | database heq => exact ih.addDatabase heq

theorem AttachRun.rollback_ok {removed : String × String → Bool} {run : AttachRun} (h : run.router.Ok) :
    (run.rollback removed).Ok := by
  have hdatabases (dbs : List String) {r : Router} (hr : r.Ok) : (dbs.foldl deleteDatabase r).Ok := by
    induction dbs generalizing r with
    | nil => exact hr
    | cons db dbs ih => exact ih (hr.deleteDatabase db)
  have htables (db : String) (tables : List String) {r : Router} (hr : r.Ok) : (dropTables removed db r tables).Ok := by
    induction tables generalizing r with
    | nil => exact hr
    | cons table tables ih => exact ih (hr.step _)
  have hentries (es : List (Sigma fun _ : String => List String)) {r : Router} (hr : r.Ok) :
      (es.foldl (fun r e => dropTables removed e.1 r e.2) r).Ok := by
    induction es generalizing r with
    | nil => exact hr
    | cons e es ih => exact ih (htables e.1 e.2 hr)
  exact hdatabases _ (hentries _ h)

theorem Cluster.attach_ok {c : Cluster} (h : c.router.Ok) (conf : BackendConfig)
    (found : List FoundDatabase) (removed : String × String → Bool) : (c.attach conf found removed).router.Ok := by
  unfold Cluster.attach
  split
  · exact h
  · have hrun := AttachRun.adds_ok conf.name (AttachRun.addDatabases_adds conf.name c.router.databases found
      ⟨c.router, [], ∅⟩) h
    grind [AttachRun.rollback_ok]

end Attach

theorem Cluster.step_ok {c : Cluster} (h : c.router.Ok) (op : ClusterOp) : (c.step op).router.Ok := by
  cases op with
  | addBackend conf =>
    simp only [Cluster.step]
    split
    · exact h
    · exact h
  | attach conf found removed => exact Cluster.attach_ok h conf found removed
  | createDatabase db => grind [Router.Ok.addDatabase, step]
  | createTable written order db table shardKey option => grind [Router.Ok.step, step]
  | dropTable removed db table => exact h.step _
  | rename written removed db fromTable toTable => exact h.step _
  | shift written fromBackend toBackend db partitionTable found => exact h.step _

/-- Every table of the router is sound in every run. -/
theorem Cluster.run_ok {c : Cluster} (h : c.router.Ok) (ops : List ClusterOp) : (c.run ops).router.Ok := by
  induction ops generalizing c with
  | nil => exact h
  | cons op ops ih => exact ih (Cluster.step_ok h op)

theorem Cluster.init_ok (slots blocks : ℕ) : (Cluster.init slots blocks).router.Ok :=
  Router.Ok.init slots blocks

end Radon
