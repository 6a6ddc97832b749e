import Radon.Proxy.Ddl
import Radon.Router.Failures

/-!
# Logical and physical tables under data definition

`CREATE TABLE` changes the router and then the backends, `RENAME TABLE` the backends and then the router, and
`DROP TABLE` takes the table out of the router whatever the backends did. A handler runs alone here: the
answers of the backends and of the metadata directory are given, and the calls that belong to other
statements get none.
-/

namespace Radon.Proxy

open Concurrency List

/-- A physical table: its backend, its database and its name. -/
abbrev Location := String × String × String

/-- What a query of a `DDLPlan` does. -/
inductive Action
  | create (x : Location)
  | drop (x : Location)
  | rename (x : Location) (name : String)

/-- The statement that a query is the text of. -/
def Action.node (d : DDL) : Action → DDL
  | .create x => { d with table := ⟨x.2.1, x.2.2⟩, newName := ⟨x.2.1, x.2.2⟩ }
  | .drop x => { d with tables := [⟨x.2.1, x.2.2⟩] }
  | .rename x name => { d with table := ⟨x.2.1, x.2.2⟩, newName := ⟨x.2.1, name⟩ }

/-- The new name of a physical table in `renameImpl`: behind the last underscore the names of sharded tables
have a number. -/
def renameTarget (shardKey toTable segTable : String) : String :=
  if shardKey ≠ "" then toTable ++ "_" ++ String.ofList ((segTable.toList.splitOn '_').getLast?.getD [])
  else toTable

/-- `DDLPlan.Build` for the statements that create, drop or rename a table: `commonImpl`, `dropTblImpl` and
`renameImpl`. -/
def ddlPlan (r : Router) (database : String) (d : DDL) : Except String (List Action) := do
  let db := d.table.database database
  if d.action = .rename ∧ d.newName.qualifier ≠ "" ∧ d.newName.qualifier ≠ db then
    throw ("unsupported: Database is not equal[" ++ db ++ ":" ++ d.newName.qualifier ++ "]")
  let table ← r.getTable db d.table.name
  let segments ← r.lookupAll db d.table.name
  return segments.map fun seg =>
    let x := (seg.backend, db, seg.table)
    match d.action with
    | .rename => .rename x (renameTarget table.shardKey d.newName.name seg.table)
    | .dropTable => .drop x
    | _ => .create x

/-- The router and the physical tables, with the queries of a plan that are still to be sent. -/
structure World where
  router : Router
  physical : Location → Bool
  pending : List Action

/-- A query that succeeds. -/
def World.perform (w : World) : Action → World
  | .create x => { w with physical := Function.update w.physical x true }
  | .drop x => { w with physical := Function.update w.physical x false }
  | .rename x name =>
    let moved := Function.update w.physical (x.1, x.2.1, name) (w.physical x || w.physical (x.1, x.2.1, name))
    { w with physical := Function.update moved x false }

/-- What the other side answers: the backends, whether a transaction can be made, the metadata files can be
written and removed, and which queries fail. -/
structure Answers where
  backends : List String
  checkBackend : String → Bool
  transaction : Option String
  written : Bool
  removed : Bool
  order : ListOrder
  fails : Action → Bool

/-- The configuration of a new table. -/
def uniform (r : Router) (order : ListOrder) (table shardKey : String) (backends : List String) :
    PartitionOption → Except String TableConfig
  | .hash _ partitionNum => r.hashUniform table shardKey backends partitionNum
  | .normal => r.hashUniform table shardKey backends none
  | .list _ partDefs => listUniform order table shardKey partDefs
  | .global => globalUniform table backends
  | .single _ => singleUniform table backends

/-- The changes of the router's tables. -/
def World.change (o : Answers) (w : World) : RouterChange → Option String × World
  | .createTable db table shardKey option backends _ =>
    let out := w.router.create o.written db table (uniform w.router o.order table shardKey backends option)
    (out.1, { w with router := out.2 })
  | .dropTable db table =>
    let out := w.router.step (.dropTable o.removed db table)
    (out.1, { w with router := out.2 })
  | .renameTable db fromTable toTable =>
    let out := w.router.renameTable o.written o.removed db fromTable toTable
    (out.1, { w with router := out.2 })
  | .createDatabase _ | .dropDatabase _ => (none, w)

/-- An answer that says nothing. -/
def Call.silent : (c : Call) → c.Res
  | .check _ _ | .createTransaction | .commitStatement _ | .rollbackStatement | .beginScatter
  | .commitScatter | .rollbackScatter | .checkDatabase _ | .change _ | .admin _ => (none : Option String)
  | .isSuperPriv | .tableExists _ _ | .checkBackend _ => false
  | .plan _ _ _ | .streamPlan _ _ _ | .autoIncrement _ _ => (.ok [] : Except String (List String))
  | .send _ _ => (.ok [] : Except String (List (List String)))
  | .partitionType _ _ => (.error "" : Except String MethodType)
  | .tableConfig _ _ => (.error "" : Except String TableConfig)
  | .lookup _ _ => (.error "" : Except String (List Segment))
  | .backends | .allBackends => ([] : List String)
  | .sessionUser _ => (none : Option String)
  | .setSchema _ | .setStreamingFetch _ | .kill _ => ()

/-- The texts of a plan; its queries are pending. -/
def World.plan (env : Env) (w : World) (db : String) (d : DDL) : Except String (List String) × World :=
  match ddlPlan w.router db d with
  | .error e => (.error e, w)
  | .ok actions => (.ok (actions.map fun a => env.format (.ddl (a.node d))), { w with pending := actions })

/-- The next query of the plan. -/
def World.send (o : Answers) (w : World) : Except String (List (List String)) × World :=
  match w.pending with
  | [] => (.ok [], w)
  | a :: rest =>
    if o.fails a then (.error "query.error", { w with pending := rest })
    else (.ok [], { w.perform a with pending := rest })

/-- The answers to the calls of a statement on tables. -/
def respond (env : Env) (o : Answers) : (c : Call) → World → c.Res × World
  | .createTransaction, w => (o.transaction, w)
  | .plan db _ (.ddl d), w => w.plan env db d
  | .send _ _, w => w.send o
  | .checkDatabase db, w =>
    (if w.router.databases db then none else some ("Unknown database '" ++ db ++ "'"), w)
  | .tableExists db table, w => ((w.router.tables db table).isSome, w)
  | .change c, w => w.change o c
  | .backends, w => (o.backends, w)
  | .checkBackend name, w => (o.checkBackend name, w)
  | c, w => (c.silent, w)

/-! ## Running a handler -/

section Run

variable (env : Env) (ses : Session) (o : Answers) {α β : Type} (w : World)

/-- The outcome of a handler that runs alone. -/
def World.run (w : World) (p : Handler α) : Except String α × World := p.run.eval (respond env o) w

@[simp] theorem run_pure (a : α) : w.run env o (pure a) = (.ok a, w) := rfl

@[simp] theorem run_throw (e : String) : w.run env o (throw e : Handler α) = (.error e, w) := rfl

@[simp] theorem run_createTransaction : w.run env o createTransaction = (.ok o.transaction, w) := rfl

@[simp] theorem run_checkDatabase (db : String) : w.run env o (checkDatabase db) =
    (.ok (if w.router.databases db then none else some ("Unknown database '" ++ db ++ "'")), w) := rfl

@[simp] theorem run_tableExists (db table : String) :
    w.run env o (tableExists db table) = (.ok (w.router.tables db table).isSome, w) := rfl

@[simp] theorem run_changeRouter (c : RouterChange) :
    w.run env o (changeRouter c) = (.ok (w.change o c).1, (w.change o c).2) := rfl

@[simp] theorem run_backends : w.run env o backends = (.ok o.backends, w) := rfl

@[simp] theorem run_checkBackend (name : String) :
    w.run env o (checkBackend name) = (.ok (o.checkBackend name), w) := rfl

@[simp] theorem run_buildPlanTree (db query : String) (d : DDL) :
    w.run env o (buildPlanTree db query (.ddl d)) = (.ok (w.plan env db d).1, (w.plan env db d).2) := rfl

@[simp] theorem run_sendQuery (target : Target) (query : String) :
    w.run env o (sendQuery target query) = (.ok (w.send o).1, (w.send o).2) := rfl

@[simp] theorem run_bind (p : Handler α) (next : α → Handler β) :
    w.run env o (p >>= next) = match w.run env o p with
      | (.ok a, w') => w'.run env o (next a)
      | (.error e, w') => (.error e, w') := by
  rw [World.run, ExceptT.run_bind, Prog.eval_bind, World.run]
  rcases p.run.eval (respond env o) w with ⟨_ | _, _⟩ <;> rfl

@[simp] theorem run_observe (p : Handler α) :
    w.run env o (observe p) = (.ok (w.run env o p).1, (w.run env o p).2) := by
  rw [World.run, observe, ExceptT.run_mk, Prog.eval_bind]
  rfl

@[simp] theorem run_raise (e : Option String) : w.run env o (raise e) = (e.elim (.ok ()) .error, w) := by
  cases e <;> rfl

@[simp] theorem run_ofExcept (r : Except String α) : w.run env o (ofExcept r) = (r, w) := by
  cases r <;> rfl

/-- The world after the queries of a plan. -/
def World.sendAll (w : World) : List Action → World
  | [] => w
  | a :: actions => (if o.fails a then w else w.perform a).sendAll actions

theorem World.sendAll_frame (actions : List Action) :
    (w.sendAll o actions).router = w.router ∧ (w.sendAll o actions).pending = w.pending := by
  induction actions generalizing w with
  | nil => exact ⟨rfl, rfl⟩
  | cons a actions ih =>
    rw [sendAll, (ih _).1, (ih _).2]
    split
    · exact ⟨rfl, rfl⟩
    · cases a <;> exact ⟨rfl, rfl⟩

theorem World.sendAll_pending (pending actions : List Action) :
    { w with pending := pending }.sendAll o actions = { w.sendAll o actions with pending := pending } := by
  induction actions generalizing w with
  | nil => rfl
  | cons a actions ih =>
    rw [sendAll, sendAll, ← ih]
    split
    · rfl
    · cases a <;> rfl

theorem run_sendAll (texts : List String) (actions : List Action) (w : World)
    (h : texts.length = actions.length) (hw : w.pending = actions) :
    w.run env o (sendAll texts) = (if actions.any o.fails then .error "query.error" else .ok (),
      { w.sendAll o actions with pending := [] }) := by
  induction texts generalizing actions w with
  | nil =>
    obtain rfl := length_eq_zero_iff.1 h.symm
    obtain ⟨r, physical, pending⟩ := w
    cases hw
    rfl
  | cons text texts ih =>
    obtain _ | ⟨a, actions⟩ := actions
    · cases h
    have hlen : texts.length = actions.length := Nat.succ.inj h
    have hsend : w.send o = (if o.fails a then .error "query.error" else .ok [],
        { (if o.fails a then w else w.perform a) with pending := actions }) := by
      rw [World.send, hw]
      simp only
      split <;> rfl
    rw [Proxy.sendAll, run_bind, run_sendQuery, hsend]
    simp only [run_bind]
    rw [ih actions _ hlen rfl, World.sendAll, World.sendAll_pending, any_cons]
    cases o.fails a <;> cases actions.any o.fails <;> simp

/-- What `ExecuteDDL` does. -/
def World.executeDDL (w : World) (database query : String) (d : DDL) : Except String Unit × World :=
  if env.twoPC && ses.inTxn then (.error ("in.multiStmtTrans.unsupported.DDL:" ++ query ++ "."), w)
  else
    match o.transaction, ddlPlan w.router database d with
    | some e, _ | none, .error e => (.error e, w)
    | none, .ok actions => (if actions.any o.fails then .error "query.error" else .ok (),
      { w.sendAll o actions with pending := [] })

theorem run_executeDDL (database query : String) (d : DDL) :
    w.run env o (executeDDL env ses database query (.ddl d)) = w.executeDDL env ses o database query d := by
  unfold Proxy.executeDDL World.executeDDL
  split_ifs
  · rfl
  rw [executeWithTimeout, run_bind, run_createTransaction]
  cases o.transaction with
  | some e => rfl
  | none =>
    simp only [run_bind, run_raise, Option.elim_none, run_buildPlanTree, World.plan]
    cases ddlPlan w.router database d with
    | error e => rfl
    | ok actions => grind [run_ofExcept, run_sendAll, World.sendAll_pending]

theorem World.executeDDL_router (database query : String) (d : DDL) :
    (w.executeDDL env ses o database query d).2.router = w.router := by grind [sendAll_frame, executeDDL]

/-! ## Dropping tables -/

/-- `DropTable` takes the table out of the router, also when its file stays. -/
theorem change_dropTable (db table : String) : let w' := (w.change o (.dropTable db table)).2
    w'.router.tables = updateEntry w.router.tables db table none ∧ w'.physical = w.physical ∧
      w'.router.databases = w.router.databases := by
  cases htable : w.router.tables db table with
  | none => grind [World.change, Router.step, updateEntry]
  | some T =>
    simp only [World.change, Router.step, htable, true_and]
    split <;> exact ⟨rfl, rfl⟩

/-- One table of a `DROP TABLE`. -/
theorem run_dropTables_cons (database : String) (d : DDL) (t : TableName) (ts : List TableName) :
    let db := t.database database
    let out := w.executeDDL env ses o db (dropTableQuery t) { d with table := t }
    let dropped := (out.2.change o (.dropTable db t.name)).2
    w.run env o (dropTables env ses database d (t :: ts)) =
      if w.router.databases db = false then (.error ("Unknown database '" ++ db ++ "'"), w)
      else if d.ifExists && !(w.router.tables db t.name).isSome then (.ok (), w)
      else match out.1 with
        | .error e => (.error e, dropped)
        | .ok () => dropped.run env o (dropTables env ses database d ts) := by
  intro db out dropped
  rw [dropTables]
  cases hdb : w.router.databases db with
  | false => simp [db, hdb]
  | true =>
    simp only [run_bind, run_checkDatabase, db, hdb, if_true, run_raise, Option.elim_none]
    by_cases hmissing : (d.ifExists && !(w.router.tables (t.database database) t.name).isSome) = true
    · simp_all
    · simp only [run_tableExists, hmissing, Bool.true_eq_false, Bool.false_eq_true, if_false, run_bind,
        run_observe, run_executeDDL, run_changeRouter, run_ofExcept]
      grind

/-- The router without the table. -/
theorem dropped_tables (database query : String) (d : DDL) (table : String) :
    ((w.executeDDL env ses o database query d).2.change o (.dropTable database table)).2.router.tables =
      updateEntry w.router.tables database table none := by
  rw [(change_dropTable o _ database table).1, World.executeDDL_router]

/-- The table of the router that a name stands for. -/
def tableKey (database : String) (t : TableName) : String × String := (t.database database, t.name)

/-- The table is not in the router, or it is dropped before. -/
def Gone (r : Router) (database : String) (before : List TableName) (t : TableName) : Prop :=
  r.tables (t.database database) t.name = none ∨ tableKey database t ∈ before.map (tableKey database)

/-- No table that is there stands behind one that is gone. -/
def NoneBehind (r : Router) (database : String) (ts : List TableName) : Prop :=
  ∀ before t after, ts = before ++ t :: after → Gone r database before t →
    ∀ u ∈ after, Gone r database before u

variable {r : Router} {database db table shardKey : String} {t : TableName} {w} {c : TableConfig}
    {p : Partition} {T : Table} {d : DDL} {bs : List String} {option : PartitionOption}

theorem gone_updateEntry {r' : Router} (hr : r'.tables = updateEntry r.tables (t.database database) t.name none)
    (before : List TableName) (u : TableName) : Gone r' database before u ↔ Gone r database (t :: before) u := by
  simp only [Gone, hr, updateEntry, map_cons, mem_cons, tableKey, Prod.mk.injEq]
  split_ifs with heq
  · simp [heq]
  · simp [heq]

theorem noneBehind_cons_of_none {ts : List TableName} (ht : r.tables (t.database database) t.name = none) :
    NoneBehind r database (t :: ts) ↔ ∀ u ∈ t :: ts, r.tables (u.database database) u.name = none := by
  constructor
  · intro h u hu
    obtain rfl | hu := mem_cons.1 hu
    · exact ht
    · exact (h [] t ts rfl (.inl ht) u hu).resolve_right nofun
  · intro h before v after heq _ u hu
    refine .inl (h u ?_)
    rw [heq]
    exact mem_append_right _ (mem_cons_of_mem _ hu)

theorem noneBehind_cons_of_some {r' : Router} {ts : List TableName} (ht : r.tables (t.database database) t.name ≠ none)
    (hr : r'.tables = updateEntry r.tables (t.database database) t.name none) :
    NoneBehind r database (t :: ts) ↔ NoneBehind r' database ts := by
  simp only [NoneBehind, gone_updateEntry hr]
  constructor
  · grind
  · intro h before v after heq hgone
    obtain _ | ⟨x, before⟩ := before
    · grind [Gone]
    · grind

/-- A `DROP TABLE` adds no table. -/
theorem run_dropTables_none (database : String) (d : DDL) (ts : List TableName) {name : String}
    (h : w.router.tables db name = none) :
    (w.run env o (dropTables env ses database d ts)).2.router.tables db name = none := by
  induction ts generalizing w with
  | nil => exact h
  | cons t ts ih =>
    rw [run_dropTables_cons]
    have hdropped := dropped_tables env ses o w (t.database database) (dropTableQuery t) { d with table := t } t.name
    have hnone : updateEntry w.router.tables (t.database database) t.name none db name = none := by
      rw [updateEntry]
      split_ifs
      · rfl
      · exact h
    split_ifs
    · exact h
    · exact h
    · split
      · rw [hdropped, hnone]
      · exact ih (by rw [hdropped, hnone])

/-- A `DROP TABLE IF EXISTS` that succeeds leaves none of its tables in the router exactly if no table that is
there stands behind one that is missing or repeated. -/
theorem dropIfExists_iff {w w' : World} {database : String} {d : DDL} (hd : d.ifExists = true)
    {ts : List TableName} (hrun : w.run env o (dropTables env ses database d ts) = (.ok (), w')) :
    (∀ t ∈ ts, w'.router.tables (t.database database) t.name = none) ↔ NoneBehind w.router database ts := by
  induction ts generalizing w with
  | nil => exact iff_of_true nofun fun before t after h => by simp at h
  | cons t ts ih =>
    rw [run_dropTables_cons] at hrun
    split_ifs at hrun with hdb hmissing
    · cases hrun
    · -- the statement ends here
      obtain rfl : w = w' := congrArg Prod.snd hrun
      have hnone : w.router.tables (t.database database) t.name = none := by simpa [hd] using hmissing
      exact (noneBehind_cons_of_none hnone).symm
    · have hsome : w.router.tables (t.database database) t.name ≠ none := by simpa [hd] using hmissing
      have hdropped := dropped_tables env ses o w (t.database database) (dropTableQuery t) { d with table := t }
        t.name
      split at hrun
      · cases hrun
      · rw [noneBehind_cons_of_some hsome hdropped, ← ih hrun, List.forall_mem_cons]
        refine and_iff_right ?_
        have hgone := run_dropTables_none env ses o database d ts
          ((congrFun (congrFun hdropped _) _).trans (if_pos ⟨rfl, rfl⟩))
        rw [hrun] at hgone
        exact hgone

/-- A proxy without transactions over two statements. -/
def plainEnv : Env where
  highWater := false
  readOnly := false
  twoPC := false
  autocommitFalseIsTxn := false
  lowerCaseTableNames := false
  parse _ := .error ""
  generate _ _ := .error ""
  lowerCase s := s
  format _ := "create table t"
  columnsOf _ := none
  renameColumns s _ := s

/-- Two backends, with the queries that fail. -/
def twoBackends (written : Bool) (fails : Action → Bool) : Answers :=
  ⟨["b0", "b1"], fun _ => true, none, written, true, default, fails⟩

/-- A global table `t` on two backends. -/
def globalWorld : World where
  router := (Router.init 8 2).run [.createDatabase "db", .createGlobalTable true "db" "t" ["b0", "b1"]]
  physical x := x ∈ [("b0", "db", "t"), ("b1", "db", "t")]
  pending := []

/-- The `DROP TABLE IF EXISTS` of a table that is there and one that is not. -/
theorem dropIfExists_global :
    let out := globalWorld.run plainEnv (twoBackends true fun _ => false)
      (dropTables plainEnv ⟨"db", "u", false, false⟩ "db" { action := .dropTable, ifExists := true }
        [⟨"", "t"⟩, ⟨"", "x"⟩])
    out.1 = .ok () ∧
      ∀ t ∈ [(⟨"", "t"⟩ : TableName), ⟨"", "x"⟩], out.2.router.tables (t.database "db") t.name = none := by
  intro out
  have hok : out.1 = .ok () := by decide +kernel
  let dropped : Router := { globalWorld.router with tables := updateEntry globalWorld.router.tables "db" "t" none }
  have hbehind : NoneBehind dropped "db" [⟨"", "x"⟩] :=
    (noneBehind_cons_of_none (by decide +kernel)).2 fun u hu => by
      obtain rfl := List.mem_singleton.1 hu
      decide +kernel
  have ht : globalWorld.router.tables "db" "t" ≠ none := by decide +kernel
  exact ⟨hok, (dropIfExists_iff plainEnv ⟨"db", "u", false, false⟩ _ rfl (Prod.ext hok rfl)).2
    ((noneBehind_cons_of_some ht rfl : NoneBehind _ "db" (⟨"", "t"⟩ :: _) ↔ NoneBehind dropped "db" _).2 hbehind)⟩

/-- A missing table ends the statement, and the table behind it stays. -/
theorem dropIfExists_stops :
    let out := globalWorld.run plainEnv (twoBackends true fun _ => false)
      (dropTables plainEnv ⟨"db", "u", false, false⟩ "db" { action := .dropTable, ifExists := true }
        [⟨"", "x"⟩, ⟨"", "t"⟩])
    out.1 = .ok () ∧ (out.2.router.tables "db" "t").isSome = true := by
  decide +kernel

/-! ## Creating and dropping a table -/

/-- The physical tables of segments. -/
def locations (db : String) (segs : List Segment) : List Location := segs.map fun seg => (seg.backend, db, seg.table)

/-- The physical tables of a configuration. -/
def targets (db : String) (c : TableConfig) : List Location :=
  c.partitions.map fun part => (part.backend, db, part.table)

theorem mem_locations_of_build {slots : ℕ} (h : Partition.build slots c = .ok p) (db : String) (x : Location)
    : x ∈ locations db p.getSegments ↔ x ∈ targets db c := by
  have hperm := (Partition.build_physical h).map fun y : String × String => (y.2, db, y.1)
  rw [map_map, TableConfig.physicals, map_map] at hperm
  exact hperm.mem_iff

/-- Queries that all create or all drop their tables set those on which they succeed. -/
theorem sendAll_physical {action : Location → Action} {there : Bool}
    (haction : ∀ (w : World) y, (w.perform (action y)).physical = Function.update w.physical y there)
    (w : World) (xs : List Location) (x : Location) : (w.sendAll o (xs.map action)).physical x =
      if x ∈ xs ∧ o.fails (action x) = false then there else w.physical x := by
  induction xs generalizing w with
  | nil => simp [World.sendAll]
  | cons y xs ih =>
    rw [map_cons, World.sendAll, ih]
    by_cases hxy : x = y
    · subst hxy
      cases hf : o.fails (action x) <;> simp [haction]
    · cases o.fails (action y) <;> simp [haction, hxy]

/-- The router has the table exactly if one of the physical tables is there. -/
def World.InStep (w : World) (db table : String) (xs : List Location) : Prop :=
  w.router.tables db table ≠ none ↔ ∃ x ∈ xs, w.physical x = true

/-- The queries of the statement are not sent. -/
def Refused : Prop := (env.twoPC && ses.inTxn) = true ∨ o.transaction ≠ none

theorem lookupAll_of_table
    (ht : r.getTable db table = .ok T) (hp : T.partition = some p) : r.lookupAll db table = .ok p.getSegments := by
  have hpart : r.getPartition db table = .ok p := by
    rw [Router.getPartition, ht]
    simp only [bind, Except.bind, hp]
    rfl
  rw [Router.lookupAll, hpart]
  rfl

theorem ddlPlan_segments (hd : d.action ≠ .rename) (ht : r.getTable (d.table.database database) d.table.name = .ok T)
    (hp : T.partition = some p) : ddlPlan r database d = .ok ((locations (d.table.database database) p.getSegments).map
      (if d.action = .dropTable then .drop else .create)) := by
  unfold ddlPlan
  simp only [hd, false_and, if_false, ht, lookupAll_of_table ht hp, bind, Except.bind, pure, Except.pure]
  rw [locations, map_map]
  refine congrArg Except.ok (map_congr_left fun seg _ => ?_)
  cases hact : d.action <;> first | exact absurd hact hd | rfl

/-- What `ExecuteDDL` does if the plan can be built. -/
theorem executeDDL_of_plan (query : String) {actions : List Action} (h : ddlPlan w.router database d = .ok actions) :
    (Refused env ses o ∧ (∃ e, (w.executeDDL env ses o database query d).1 = .error e) ∧
        (w.executeDDL env ses o database query d).2 = w) ∨
      (¬ Refused env ses o ∧ w.executeDDL env ses o database query d =
        (if actions.any o.fails then .error "query.error" else .ok (),
          { w.sendAll o actions with pending := [] })) := by grind [Refused, World.executeDDL]

theorem executeDDL_of_error (query : String) {e : String} (h : ddlPlan w.router database d = .error e) :
    ∃ e', w.executeDDL env ses o database query d = (.error e', w) := by
  unfold World.executeDDL
  rw [h]
  split_ifs
  · exact ⟨_, rfl⟩
  · cases o.transaction <;> exact ⟨_, rfl⟩

theorem getTable_of_tables (hempty : r.databases "" = false)
    (hdb : r.databases db = true) (h : r.tables db table = some T) : r.getTable db table = .ok T := by
  grind [Router.getTable]

/-- The table is in the router with these physical tables. -/
def World.Has (w : World) (database : String) (t : TableName) (xs : List Location) : Prop :=
  w.router.databases (t.database database) = true ∧ ∃ T p, w.router.tables (t.database database) t.name = some T ∧
    T.partition = some p ∧ xs = locations (t.database database) p.getSegments

/-- The query that drops the physical table is sent and succeeds. -/
def Dropped (x : Location) : Prop := ¬ Refused env ses o ∧ o.fails (.drop x) = false

variable (xs : TableName → List Location)

/-- Two tables, with no physical table in common. -/
def Apart (database : String) (t u : TableName) : Prop :=
  tableKey database t ≠ tableKey database u ∧ (xs t).Disjoint (xs u)

/-- The `DROP TABLE` comes to the table: the queries of those before it succeed. -/
def Reached (t : TableName) : List TableName → Prop
  | [] => False
  | u :: ts => t = u ∨ (¬ Refused env ses o ∧ ∀ x ∈ xs u, Dropped env ses o x) ∧ Reached t ts

variable {xs} {ts : List TableName}

instance : Std.Symm (Apart xs database) := ⟨fun _ _ h => ⟨h.1.symm, h.2.symm⟩⟩

theorem mem_of_reached (h : Reached env ses o xs t ts) : t ∈ ts := by
  induction ts with
  | nil => exact h.elim
  | cons u ts ih => exact mem_cons.2 (h.imp_right fun h => ih h.2)

/-- The queries for one table of a `DROP TABLE`. -/
theorem executeDDL_drop (hd : d.action = .dropTable) (hempty : w.router.databases "" = false)
    (ht : w.Has database t (xs t)) : let db := t.database database
    let out := w.executeDDL env ses o db (dropTableQuery t) { d with table := t }
    (out.1 = .ok () ↔ ¬ Refused env ses o ∧ ∀ x ∈ xs t, Dropped env ses o x) ∧
      ∀ x, out.2.physical x = true ↔ w.physical x = true ∧ ¬ (x ∈ xs t ∧ Dropped env ses o x) := by
  intro db out
  obtain ⟨hdb, T, p, hT, hp, hxs⟩ := ht
  have hplan : ddlPlan w.router db { d with table := t } = .ok ((xs t).map .drop) := by
    grind [ddlPlan_segments, TableName.database, ddlPlan, Router.getTable]
  obtain ⟨href, ⟨e, he⟩, hsame⟩ | ⟨href, heq⟩ := executeDDL_of_plan env ses o (dropTableQuery t) hplan
  · simp [out, he, hsame, href, Dropped]
  · simp only [out, heq, Dropped, href, not_false_eq_true, true_and]
    refine ⟨by simp, fun x => ?_⟩
    rw [show (World.sendAll _ _ _).physical x = _ from sendAll_physical o (fun _ _ => rfl) w _ x]
    grind

/-- What a `DROP TABLE` of tables that are there leaves. -/
theorem run_dropTables_reached (hd : d.action = .dropTable) (hempty : w.router.databases "" = false)
    (hts : ∀ t ∈ ts, w.Has database t (xs t)) (hapart : ts.Pairwise (Apart xs database)) :
    let w' := (w.run env o (dropTables env ses database d ts)).2
    (∀ x, w'.physical x = true ↔ w.physical x = true ∧
        ¬ ∃ t, Reached env ses o xs t ts ∧ x ∈ xs t ∧ Dropped env ses o x) ∧
      ∀ db name, w'.router.tables db name = none ↔
        (∃ t, Reached env ses o xs t ts ∧ tableKey database t = (db, name)) ∨ w.router.tables db name = none := by
  induction ts generalizing w with
  | nil => simp [dropTables, Reached]
  | cons t ts ih =>
    obtain ⟨ht, hts⟩ := forall_mem_cons.1 hts
    obtain ⟨hapart, hpairs⟩ := pairwise_cons.1 hapart
    obtain ⟨hok, hsent⟩ := executeDDL_drop env ses o hd hempty ht
    rw [run_dropTables_cons]
    set out := w.executeDDL env ses o (t.database database) (dropTableQuery t) { d with table := t }
    obtain ⟨htables, hphysical, hdatabases⟩ := change_dropTable o out.2 (t.database database) t.name
    have hrouter : out.2.router = w.router := World.executeDDL_router env ses o w _ _ _
    rw [hrouter] at htables hdatabases
    have hgone (db name : String) : (out.2.change o (.dropTable (t.database database) t.name)).2.router.tables db name
        = none ↔ tableKey database t = (db, name) ∨ w.router.tables db name = none := by
      rw [htables, updateEntry]
      grind [tableKey]
    obtain ⟨hdb, T, p, hT, -⟩ := ht
    simp only [hdb, hT, Option.isSome_some, Bool.not_true, Bool.and_false, Bool.true_eq_false, Bool.false_eq_true,
      if_false, Reached, ← hok]
    cases hout : out.1 with
    | error e => simp [hphysical, hsent, hgone]
    | ok =>
      have hhas : ∀ u ∈ ts, (out.2.change o (.dropTable (t.database database) t.name)).2.Has database u (xs u) := by
        intro u hu
        have hne : ¬ (u.database database = t.database database ∧ u.name = t.name) :=
          fun h => (hapart u hu).1 (Prod.ext h.1.symm h.2.symm)
        simpa only [World.Has, hdatabases, htables, updateEntry, if_neg hne] using hts u hu
      obtain ⟨hleft, hentries⟩ := ih (by rw [hdatabases, hempty]) hhas hpairs
      simp only [hleft, hentries, hphysical, hsent, hgone, true_and, or_and_right, exists_or, exists_eq_left]
      exact ⟨fun x => by grind, fun db name => by grind⟩

/-- After a `DROP TABLE` of tables that are there the router is in step with each of them exactly if the statement
does not come to it or drops all its physical tables that are there. -/
theorem dropTables_inStep_iff (xs : TableName → List Location) (hd : d.action = .dropTable)
    (hempty : w.router.databases "" = false) (hts : ∀ t ∈ ts, w.Has database t (xs t))
    (hapart : ts.Pairwise (Apart xs database)) (ht : t ∈ ts) (hin : w.InStep (t.database database) t.name (xs t)) :
    (w.run env o (dropTables env ses database d ts)).2.InStep (t.database database) t.name (xs t) ↔
      (Reached env ses o xs t ts → ∀ x ∈ xs t, w.physical x = true → Dropped env ses o x) := by
  obtain ⟨hphysical, htables⟩ := run_dropTables_reached env ses o hd hempty hts hapart
  by_cases hreached : Reached env ses o xs t ts
  · have hgone := (htables (t.database database) t.name).2 (.inl ⟨t, hreached, rfl⟩)
    simp only [World.InStep, hgone, hphysical, hreached]
    grind
  · have hother {u : TableName} (hu : Reached env ses o xs u ts) : Apart xs database t u :=
      hapart.forall ht (mem_of_reached env ses o hu) fun h => hreached (h ▸ hu)
    refine iff_of_true ?_ fun h => absurd h hreached
    have hentry : ¬ ∃ u, Reached env ses o xs u ts ∧ tableKey database u = (t.database database, t.name) :=
      fun ⟨u, hu, hkey⟩ => (hother hu).1 hkey.symm
    have hsame (x : Location) (hx : x ∈ xs t) : ¬ ∃ u, Reached env ses o xs u ts ∧ x ∈ xs u ∧ Dropped env ses o x :=
      fun ⟨u, hu, hxu, _⟩ => (hother hu).2 hx hxu
    simp only [World.InStep, ne_eq, htables, hentry, false_or, hphysical]
    refine hin.trans (exists_congr fun x => and_congr_right fun hx => ?_)
    simp only [hsame x hx, not_false_eq_true, and_true]

/-- The table that a `CREATE TABLE` gives to the router, with the backends it is distributed over. -/
def newInput (r : Router) (database : String) (d : DDL) : Option (NewTable × List String) :=
  if r.databases database = false ∨ (d.ifNotExists = true ∧ r.tables database d.table.name ≠ none) then none
  else
    match newTable d with
    | .error _ => none
    | .ok new =>
      match d.partitionOption with
      | .single name =>
        if name = "" then some (new, o.backends) else if o.checkBackend name then some (new, [name]) else none
      | _ => some (new, o.backends)

theorem run_newTableBackends (w : World) (bs : List String) (option : PartitionOption) :
    w.run env o (newTableBackends bs option) = (match option with
      | .single name => if name = "" then .ok bs else if o.checkBackend name then .ok [name]
          else .error ("create table distributed by backend '" ++ name ++ "' doesn't exist")
      | _ => .ok bs, w) := by
  cases option with
  | single name =>
    rw [newTableBackends]
    by_cases hname : name = ""
    · simp [hname]
    · cases hcheck : o.checkBackend name <;> simp [hname, hcheck]
  | hash | list | normal | global => rfl

/-- A `CREATE TABLE` ends before it changes anything, or it installs the table. -/
theorem run_createTable (w : World) (database : String) (d : DDL) :
    match newInput o w.router database d with
    | none => (w.run env o (createTable env ses database d)).2 = w
    | some input => w.run env o (createTable env ses database d) =
        w.run env o (installTable env ses database d input.1 input.2) := by
  unfold newInput createTable
  cases hdb : w.router.databases database with
  | false => simp [hdb]
  | true =>
    simp only [run_bind, run_backends, run_checkDatabase, hdb, if_true, run_raise, Option.elim_none, run_tableExists,
      Bool.true_eq_false, false_or, ← Option.isSome_iff_ne_none, ← Bool.and_eq_true]
    by_cases hthere : (d.ifNotExists && (w.router.tables database d.table.name).isSome) = true
    · simp only [hthere, if_true, run_pure]
    · simp only [hthere, if_false, run_bind, run_ofExcept, Bool.false_eq_true]
      cases newTable d with
      | error e => rfl
      | ok new => grind [run_newTableBackends]

theorem run_installTable (w : World) (database : String) (d : DDL) (new : NewTable) (bs : List String) :
    let changed := w.change o (.createTable database d.table.name new.shardKey d.partitionOption bs new.autoIncrement)
    let out := changed.2.executeDDL env ses o database (env.format (.ddl new.ddl)) new.ddl
    (w.run env o (installTable env ses database d new bs)).2 = match changed.1 with
      | some _ => changed.2
      | none => match out.1 with
        | .ok () => out.2
        | .error _ => (out.2.change o (.dropTable database d.table.name)).2 := by
  intro changed out
  simp only [installTable, run_bind, run_changeRouter, run_raise, run_observe, run_executeDDL]
  cases changed.1 with
  | some e => rfl
  | none =>
    change (World.run env o out.2 (match out.1 with
      | .ok () => pure ()
      | .error e => do
        let _ ← changeRouter (.dropTable database d.table.name)
        throw e)).2 = _
    cases out.1 <;> rfl

/-- The configuration of the table that a `CREATE TABLE` gives to the router. -/
def newConfig (r : Router) (database : String) (d : DDL) : Option TableConfig :=
  (newInput o r database d).bind fun input =>
    (uniform r o.order d.table.name input.1.shardKey input.2 d.partitionOption).toOption

/-- The checks of a statement leave its table and its action. -/
theorem newTable_ddl {new : NewTable} (h : newTable d = .ok new) :
    new.ddl.table = d.table ∧ new.ddl.action = d.action := by
  obtain ⟨d', hd', h⟩ := except_bind_ok h
  obtain ⟨key, -, h⟩ := except_bind_ok h
  obtain ⟨inc, -, h⟩ := except_bind_ok h
  cases h
  unfold checkEngine at hd'
  dsimp only at hd'
  split_ifs at hd' <;> cases hd' <;> exact ⟨rfl, rfl⟩

theorem newInput_ddl {input : NewTable × List String} (h : newInput o r database d = some input) :
    r.databases database = true ∧ input.1.ddl.table = d.table ∧ input.1.ddl.action = d.action := by
  unfold newInput at h
  split_ifs at h with hskip
  split at h
  · cases h
  · grind [newTable_ddl]

theorem uniform_name {order : ListOrder} (h : uniform r order table shardKey bs option = .ok c) : c.name = table := by
  cases option with
  | hash => exact (hashUniform_suited h).1.1
  | normal => exact (hashUniform_suited (show r.hashUniform _ _ _ none = _ from h)).1.1
  | list => exact (listUniform_suited h).1.1
  | global => exact (globalUniform_ok h).1
  | single => exact (singleUniform_ok h).1

/-- A configuration with a physical table, with a sharding key if its names have suffixes, and with slots if they
are hashed. -/
structure SoundConfig (c : TableConfig) : Prop where
  partitions : c.partitions ≠ []
  shardKey : c.shardKey = "" ↔ c.shardType.plain = true
  slots : c.shardType = .hash → c.slots ≠ 0

theorem uniform_sound {order : ListOrder} (h : uniform r order table shardKey bs option = .ok c)
    (hbuild : ∃ p, Partition.build r.slots c = .ok p) : SoundConfig c := by
  have hhash (num : Option SQLVal) (h : r.hashUniform table shardKey bs num = .ok c) : SoundConfig c := by
    obtain ⟨p, hp⟩ := (Partition.exists_build_hash h).1 hbuild
    obtain ⟨hkey, -, hless, -, hc⟩ := hashUniform_eq h
    have hslots : r.slots ≠ 0 := Nat.ne_zero_of_lt hless
    refine ⟨fun hnil => ?_, by rw [hc]; exact iff_of_false hkey Bool.false_ne_true, by rw [hc]; exact fun _ => hslots⟩
    grind [Hash.build_ok, Hash.buildFrom, SlotMap.empty]
  cases option with
  | hash _ num => exact hhash num h
  | normal => exact hhash none h
  | list name defs =>
    obtain ⟨m, hkey, hne, rfl⟩ := listUniform_ok h
    refine ⟨?_, iff_of_false hkey Bool.false_ne_true, MethodType.noConfusion⟩
    cases hm : order.arrange m.entries with
    | nil => exact absurd (perm_nil.1 (hm ▸ order.perm m.entries).symm) hne
    | cons e es => simp [listPartitions]
  | global =>
    obtain ⟨hbs, rfl⟩ := globalUniform_eq h
    exact ⟨by simpa using hbs, iff_of_true rfl rfl, MethodType.noConfusion⟩
  | single =>
    obtain ⟨backend, -, rfl⟩ := singleUniform_eq h
    exact ⟨cons_ne_nil _ _, iff_of_true rfl rfl, MethodType.noConfusion⟩

/-- The physical tables of a logical table: those of its entry, or else those it is to be created with. -/
def World.tablesOf (w : World) (d : DDL) (db table : String) : List Location :=
  match w.router.tables db table with
  | some T => T.partition.elim [] fun p => locations db p.getSegments
  | none => (newConfig o w.router db d).elim [] (targets db)

/-- The router takes the table. -/
def Accepted (r : Router) (c : TableConfig) : Prop :=
  nameInvalid c.name = false ∧ (∃ p, Partition.build r.slots c = .ok p) ∧ o.written = true

/-- A new table is built, and its queries are not sent, succeed all or fail all. -/
def CreateKept (r : Router) (db : String) (d : DDL) : Prop :=
  ∀ c, newConfig o r db d = some c → r.tables db d.table.name = none → ¬ r.Unbuilt db c ∧
    (Accepted o r c → Refused env ses o ∨ (∀ x ∈ targets db c, o.fails (.create x) = false) ∨
      ∀ x ∈ targets db c, o.fails (.create x) = true)

/-- The router after the first step of a `CREATE TABLE` that has a configuration. -/
theorem change_createTable
    (hc : uniform w.router o.order table shardKey bs option = .ok c) (inc : Option String) :
    let out := w.router.createTable o.written db c.name c
    w.change o (.createTable db table shardKey option bs inc) = (out.1, { w with router := out.2 }) := by
  rw [World.change, hc, uniform_name hc]
  rfl

/-- The second step of a `CREATE TABLE`: the queries, and the table out of the router if one fails. -/
theorem installed_inStep_iff (query : String)
    (hd : d.action = .createTable) (hdb : d.table.database db = db) (hempty : db ≠ "")
    (hbuild : ∃ slots, Partition.build slots c = .ok p) (hne : c.partitions ≠ [])
    (hentry : w.router.tables db d.table.name = some ⟨c.name, c.shardKey, some p, c⟩)
    (hphysical : ∀ x ∈ targets db c, w.physical x = false) :
    let out := w.executeDDL env ses o db query d
    (match out.1 with
      | .ok () => out.2
      | .error _ => (out.2.change o (.dropTable db d.table.name)).2 : World).InStep db d.table.name (targets db c) ↔
        Refused env ses o ∨ (∀ x ∈ targets db c, o.fails (.create x) = false) ∨
          ∀ x ∈ targets db c, o.fails (.create x) = true := by
  intro out
  have hplan : ddlPlan w.router db d = .ok ((locations db p.getSegments).map .create) := by
    grind [ddlPlan_segments, Router.getTable, ddlPlan]
  obtain ⟨slots, hbuild⟩ := hbuild
  have hmem := mem_locations_of_build hbuild db
  have hgone (w : World) : (w.change o (.dropTable db d.table.name)).2.router.tables db d.table.name = none := by
    rw [(change_dropTable o w db d.table.name).1]
    exact if_pos ⟨rfl, rfl⟩
  obtain ⟨href, ⟨e, he⟩, hsame⟩ | ⟨href, heq⟩ := executeDDL_of_plan env ses o query hplan
  · grind [change_dropTable, World.InStep]
  · set sent := w.sendAll o ((locations db p.getSegments).map .create)
    have hsent (x : Location) (hx : x ∈ targets db c) :
        sent.physical x = true ↔ o.fails (.create x) = false := by
      rw [sendAll_physical o fun _ _ => rfl, hphysical x hx]
      simp [hmem, hx]
    have hany : ((locations db p.getSegments).map Action.create).any o.fails = true ↔
        ∃ x ∈ targets db c, o.fails (.create x) = true := by
      simp only [any_map, any_eq_true, hmem, Function.comp_apply]
    by_cases hfail : ∃ x ∈ targets db c, o.fails (.create x) = true
    · simp only [out, heq, hany.2 hfail, if_true, World.InStep, hgone, (change_dropTable o _ db d.table.name).2.1,
        ne_eq, not_true_eq_false, false_iff, not_exists, not_and]
      grind
    · have hall (x : Location) (hx : x ∈ targets db c) : o.fails (.create x) = false := by
        simpa using fun h => hfail ⟨x, hx, h⟩
      refine iff_of_true ?_ (.inr (.inl hall))
      have hrouter : sent.router.tables db d.table.name ≠ none := by
        rw [(World.sendAll_frame o w _).1, hentry]
        exact Option.some_ne_none _
      simp only [out, heq, mt hany.1 hfail, World.InStep, Bool.false_eq_true, if_false]
      refine iff_of_true hrouter ?_
      obtain ⟨part, hpart⟩ := exists_mem_of_ne_nil _ hne
      exact ⟨_, mem_map_of_mem hpart, (hsent _ (mem_map_of_mem hpart)).2 (hall _ (mem_map_of_mem hpart))⟩

/-- A `CREATE TABLE` without a configuration changes nothing. With one it creates the table in the router and then
sends the queries. -/
theorem run_createTable_config (w : World) (db : String) (d : DDL) :
    match newConfig o w.router db d with
    | none => (w.run env o (createTable env ses db d)).2 = w
    | some c => w.router.databases db = true ∧ c.name = d.table.name ∧
      ((∃ p, Partition.build w.router.slots c = .ok p) → SoundConfig c) ∧
      ∃ query d', d'.table = d.table ∧ d'.action = d.action ∧
        let created := w.router.createTable o.written db c.name c
        let out := { w with router := created.2 }.executeDDL env ses o db query d'
        (w.run env o (createTable env ses db d)).2 = match created.1 with
          | some _ => { w with router := created.2 }
          | none => match out.1 with
            | .ok () => out.2
            | .error _ => (out.2.change o (.dropTable db d.table.name)).2 := by
  have hrun := run_createTable env ses o w db d
  unfold newConfig
  cases hinput : newInput o w.router db d with
  | none =>
    rw [hinput] at hrun
    exact hrun
  | some input =>
    rw [hinput] at hrun
    simp only at hrun
    have hinstall := run_installTable env ses o w db d input.1 input.2
    obtain ⟨hknown, htable, haction⟩ := newInput_ddl o hinput
    rw [Option.bind_some, hrun]
    cases hconf : uniform w.router o.order d.table.name input.1.shardKey input.2 d.partitionOption with
    | error e =>
      have hsame : w.change o (.createTable db d.table.name input.1.shardKey d.partitionOption input.2
          input.1.autoIncrement) = (some e, w) := by
        rw [World.change, hconf]
        rfl
      simp only [hsame] at hinstall
      exact hinstall
    | ok c =>
      simp only [change_createTable o hconf] at hinstall
      exact ⟨hknown, uniform_name hconf, uniform_sound hconf, env.format (.ddl input.1.ddl), input.1.ddl, htable,
        haction, hinstall⟩

/-- After a `CREATE TABLE` the router is in step exactly if it does not keep a table that it cannot build, and the
queries are not sent, succeed all or fail all. -/
theorem createTable_inStep_iff (hd : d.action = .createTable) (hdb : d.table.database db = db)
    (hempty : w.router.databases "" = false) (hin : w.InStep db d.table.name (w.tablesOf o d db d.table.name))
    : (w.run env o (createTable env ses db d)).2.InStep db d.table.name (w.tablesOf o d db d.table.name) ↔
      CreateKept env ses o w.router db d := by
  have hrun := run_createTable_config env ses o w db d
  cases hconfig : newConfig o w.router db d with
  | none =>
    rw [hconfig] at hrun
    rw [hrun]
    refine iff_of_true hin fun c hc => ?_
    rw [hconfig] at hc
    cases hc
  | some c =>
    rw [hconfig] at hrun
    obtain ⟨hknown, hname, hsound, query, d', htable, haction, hrun⟩ := hrun
    have hkept : CreateKept env ses o w.router db d ↔ (w.router.tables db c.name = none → ¬ w.router.Unbuilt db c ∧
        (Accepted o w.router c → Refused env ses o ∨ (∀ x ∈ targets db c, o.fails (.create x) = false) ∨
          ∀ x ∈ targets db c, o.fails (.create x) = true)) := by
      simp only [CreateKept, hconfig, Option.some.injEq, forall_eq', hname]
    rw [hrun, hkept, ← hname]
    rw [← hname] at hin
    set created := w.router.createTable o.written db c.name c with hcreated
    have hsame (h : created.1 ≠ none) (hunbuilt : ¬ w.router.Unbuilt db c) :
        ({ w with router := created.2 } : World).InStep db c.name (w.tablesOf o d db c.name) := by
      rw [World.InStep, ((Router.createTable_same_iff h).2 hunbuilt).2]
      exact hin
    cases hthere : w.router.tables db c.name with
    | some T =>
      have herror : created.1 ≠ none := fun h => by grind [Router.createTable_ok]
      refine iff_of_true ?_ nofun
      have hstep := hsame herror fun h => by rw [h.2.2.1] at hthere; cases hthere
      grind
    | none =>
      have hxs : w.tablesOf o d db c.name = targets db c := by rw [World.tablesOf, hthere, hconfig]; rfl
      have hphysical (x : Location) (hx : x ∈ targets db c) : w.physical x = false := by grind [World.InStep]
      have hnone := Router.createTable_eq_none_iff w.router o.written c (by simp [hknown]) hthere
      simp only [true_implies]
      by_cases hacc : Accepted o w.router c
      · have hok : created.1 = none := hnone.2 hacc
        obtain ⟨-, p, hp, htables⟩ := Router.createTable_ok (Prod.ext hok rfl : created = (none, created.2))
        have hunbuilt : ¬ w.router.Unbuilt db c := fun h => h.2.2.2 ⟨p, hp⟩
        have hdb' : db ≠ "" := by
          rintro rfl
          rw [hempty] at hknown
          cases hknown
        have hentry : created.2.tables db d'.table.name = some ⟨c.name, c.shardKey, some p, c⟩ := by
          rw [htable, ← hname, htables]
          exact if_pos ⟨rfl, rfl⟩
        have hstep := installed_inStep_iff env ses o (w := { w with router := created.2 }) query
          (haction.trans hd) (htable ▸ hdb) hdb' ⟨_, hp⟩ (hsound ⟨p, hp⟩).partitions hentry hphysical
        grind
      · have herror : created.1 ≠ none := fun h => hacc (hnone.1 h)
        obtain ⟨e, he⟩ := Option.ne_none_iff_exists'.1 herror
        simp only [he, hacc, false_implies, and_true]
        by_cases hunbuilt : w.router.Unbuilt db c
        · refine iff_of_false ?_ (not_not.2 hunbuilt)
          rw [World.InStep, hxs]
          have hentry : created.2.tables db c.name ≠ none := by
            rw [hcreated, Router.createTable_unbuilt hunbuilt]
            exact fun h => absurd ((if_pos ⟨rfl, rfl⟩).symm.trans h) nofun
          grind
        · exact iff_of_true (hsame herror hunbuilt) hunbuilt

/-- A `DROP TABLE` of a table that is not in the router changes nothing. -/
theorem dropTable_absent (hd : d.action = .dropTable) (ht : w.router.tables (t.database database) t.name = none) :
    (w.run env o (dropTables env ses database d [t])).2.router.tables = w.router.tables ∧
      (w.run env o (dropTables env ses database d [t])).2.physical = w.physical := by
  set db := t.database database with hdb
  have hplan : ∃ e, ddlPlan w.router db { d with table := t } = .error e := by
    have hdbdb : t.database db = db := by
      simp only [hdb, TableName.database]
      split <;> rfl
    have hget : ∃ e, w.router.getTable db t.name = .error e := by
      rw [Router.getTable, ht]
      split_ifs <;> exact ⟨_, rfl⟩
    obtain ⟨e, he⟩ := hget
    exact ⟨e, by simp only [ddlPlan, hdbdb, hd, he]; rfl⟩
  have hsame (query : String) : (w.executeDDL env ses o db query { d with table := t }).2 = w := by
    grind [World.executeDDL]
  have hkeep : (w.change o (.dropTable db t.name)).2.router.tables = w.router.tables := by
    simp only [World.change, Router.step, ht]
  grind [run_dropTables_cons, World.executeDDL, World.change]

/-- All physical tables that are there are dropped. -/
def DropKept (w : World) (db table : String) : Prop :=
  ∀ T p, w.router.tables db table = some T → T.partition = some p → ∀ x ∈ locations db p.getSegments,
    w.physical x = true → ¬ Refused env ses o ∧ o.fails (.drop x) = false

/-- The logical table of a statement that creates or drops one. -/
def Subject (d : DDL) (db table : String) : Prop :=
  (d.action = .createTable ∧ db = ddlDatabase ses d ∧ table = d.table.name) ∨
    (d.action = .dropTable ∧ ∃ t, d.tables = [t] ∧ db = t.database (ddlDatabase ses d) ∧ table = t.name)

/-- The condition on the statement, the router and the answers under which they stay in step. -/
def StepKept (w : World) (d : DDL) (db table : String) : Prop :=
  if d.action = .createTable then CreateKept env ses o w.router db d else DropKept env ses o w db table

theorem database_ddlDatabase (h : d.action ≠ .dropTable) :
    d.table.database (ddlDatabase ses d) = ddlDatabase ses d := by grind [TableName.database, ddlDatabase]

/-- The router and the backends, in step before a statement that creates or drops a table, are in step after it
exactly under the condition. -/
theorem inStep_iff {w : World} (query : String) {d : DDL} {db table : String}
    (hempty : w.router.databases "" = false)
    (hknown : w.router.tables db table ≠ none → w.router.databases db = true)
    (hsubject : Subject ses d db table) (hin : w.InStep db table (w.tablesOf o d db table)) :
    (w.run env o (ddlAction env ses query d)).2.InStep db table (w.tablesOf o d db table) ↔
      StepKept env ses o w d db table := by
  obtain ⟨hd, rfl, rfl⟩ | ⟨hd, t, ht, rfl, rfl⟩ := hsubject
  · have hdb : d.table.database (ddlDatabase ses d) = ddlDatabase ses d :=
      database_ddlDatabase ses (by rw [hd]; exact nofun)
    rw [StepKept, if_pos hd, ddlAction, hd]
    exact createTable_inStep_iff env ses o hd hdb hempty hin
  · rw [StepKept, if_neg (by rw [hd]; exact nofun), ddlAction, hd, ht]
    cases hT : w.router.tables (t.database (ddlDatabase ses d)) t.name with
    | none =>
      obtain ⟨htables, hphysical⟩ := dropTable_absent env ses o hd hT
      rw [World.InStep, htables, hphysical]
      refine iff_of_true hin fun T p hsome => ?_
      rw [hT] at hsome
      cases hsome
    | some T =>
      have hxs : w.tablesOf o d (t.database (ddlDatabase ses d)) t.name =
          T.partition.elim [] fun p => locations (t.database (ddlDatabase ses d)) p.getSegments := by
        rw [World.tablesOf, hT]
      rw [hxs] at hin ⊢
      cases hp : T.partition with
      | none =>
        rw [hp, World.InStep, hT] at hin
        exact absurd (hin.1 nofun) (by simp)
      | some p =>
        rw [hp] at hin
        refine (dropTables_inStep_iff env ses o (fun _ => _) hd hempty (forall_mem_singleton.2
          ⟨hknown (by rw [hT]; exact nofun), T, p, hT, hp, rfl⟩) (pairwise_singleton _ t)
          (mem_singleton_self t) hin).trans ?_
        refine ⟨fun h T' p' hT' hp' => ?_, fun h _ => h T p hT hp⟩
        obtain rfl := Option.some.inj (hT.symm.trans hT')
        obtain rfl := Option.some.inj (hp.symm.trans hp')
        exact h (.inl rfl)

/-- A global table is created on both backends. -/
theorem created_inStep :
    let o := twoBackends true fun _ => false
    let w : World := ⟨emptyRouter 8 2, fun _ => false, []⟩
    let d : DDL := { action := .createTable, table := ⟨"", "t"⟩, partitionOption := .global }
    (w.run plainEnv o (ddlAction plainEnv ⟨"db", "u", false, false⟩ "" d)).2.InStep "db" "t"
      (w.tablesOf o d "db" "t") := by
  intro o w d
  refine (inStep_iff plainEnv ⟨"db", "u", false, false⟩ o "" (by decide +kernel) (by decide +kernel)
    (.inl ⟨rfl, by decide +kernel, rfl⟩) ?_).2 ?_
  · exact iff_of_false (by decide +kernel) (by simp [w])
  · intro c hc _
    have hty : (newConfig o w.router "db" d).map TableConfig.shardType = some .global := by decide +kernel
    rw [show newConfig o w.router "db" d = some c from hc] at hty
    exact ⟨fun h => absurd ((unbuilt_hash h).symm.trans (Option.some.inj hty)) nofun, fun _ => .inr (.inl fun _ _ => rfl)⟩

/-- A `DROP TABLE` that fails on one backend is forgotten by the router, and so is a `CREATE TABLE`. -/
theorem failed_on_one_backend :
    let o := twoBackends true fun a => match a with
      | .create x | .drop x | .rename x _ => x.1 = "b1"
    let drop := globalWorld.run plainEnv o (ddlAction plainEnv ⟨"db", "u", false, false⟩ ""
      { action := .dropTable, tables := [⟨"", "t"⟩] })
    let create := World.run plainEnv o ⟨emptyRouter 8 2, fun _ => false, []⟩
      (ddlAction plainEnv ⟨"db", "u", false, false⟩ ""
        { action := .createTable, table := ⟨"", "t"⟩, partitionOption := .global })
    let tables := [("b0", "db", "t"), ("b1", "db", "t")]
    (globalWorld.InStep "db" "t" tables ∧ drop.1 = .error "query.error" ∧ ¬ drop.2.InStep "db" "t" tables) ∧
      create.1 = .error "query.error" ∧ ¬ create.2.InStep "db" "t" tables := by
  unfold World.InStep
  decide +kernel

end Run

end Radon.Proxy
