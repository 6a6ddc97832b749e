import Radon.Proxy.ExecuteSpec

/-!
# The queries of a statement

`Statement.Sends` says which queries the handler of a statement may send, and on which databases the
checks before each of them have asked for privileges. `safe_dispatch` shows that the description is
exact: a handler keeps to the rules when every query it may send is permitted.
-/

namespace Radon.Proxy

variable {R : Rules} {env : Env} {ses : Session} {h : Set String} {query : String}

/-! ## Data definition statements -/

variable {db table database : String} {node : Statement} {next : Handler Unit} {s : Show}

section Ddl

variable {d : DDL}

/-- The databases on which the checks of a data definition statement ask for privileges. -/
def askedAll (s : Statement) (dbs : List String) : Set String := {x | ∃ db ∈ dbs, x ∈ s.asked db}

theorem askedAll_cons (s : Statement) (db : String) (dbs : List String) :
    askedAll s (db :: dbs) = askedAll s dbs ∪ s.asked db := by
  ext x
  simp [askedAll, or_comm]

theorem watched_checks (hyes : ∀ db, R.answers db (.ddl d) none) {dbs : List String}
    {Q : Except String Unit → Set String → Prop} (hQ : ∀ e h, Q (.error e) h) :
    Watched R.monitor (forEach (checkDdl d) dbs) Q h ↔
      ((∀ db ∈ dbs, isSystemDB db = false) → Q (.ok ()) (askedAll (.ddl d) dbs ∪ h)) := by
  induction dbs generalizing h with
  | nil => simp [forEach, askedAll]
  | cons db dbs ih =>
    rw [askedAll_cons, Set.union_assoc, List.forall_mem_cons]
    simp only [forEach, checkDdl, databaseACL, watched_bind, watched_raise]
    cases hsys : isSystemDB db with
    | true => simp [hQ]
    | false =>
      simp only [Bool.false_eq_true, if_false, Option.elim, andthen_ok, watched_bind, watched_check,
        watched_raise, Option.forall, andthen_error, hQ, implies_true, and_true, true_and, ih,
        Rules.recordCheck]
      exact ⟨fun hw => hw (hyes db), fun hw _ => hw⟩

/-- The queries of a loop over tables that ends with the first error; `arg` is the database, the query
and the statement for one table. -/
def Setting.InTurn (S : Setting) (arg : TableName → String × String × Statement) :
    List TableName → String → Prop
  | [], _ => False
  | t :: ts, q => S.Planned (arg t).1 (arg t).2.1 (arg t).2.2 q ∨
      (∃ qs, S.plans (arg t).1 (arg t).2.1 (arg t).2.2 (.ok qs)) ∧ S.InTurn arg ts q

/-- What `DROP TABLE` plans for one of its tables. -/
def dropArg (database : String) (d : DDL) (t : TableName) : String × String × Statement :=
  (t.database database, dropTableQuery t, .ddl { d with table := t })

/-- A data definition statement may be executed: it is not part of the session's transaction. -/
def Alone (env : Env) (ses : Session) : Prop := (env.twoPC && ses.inTxn) = false

/-- The query of `ALTER DATABASE`, with the session's database if it names none. -/
def alterDatabaseQuery (env : Env) (ses : Session) (query : String) (d : DDL) : String :=
  if d.database ≠ "" then query else env.format (.ddl { d with database := ddlDatabase ses d })

/-- The queries of a data definition statement. -/
def DdlSends (S : Setting) (env : Env) (ses : Session) (query : String) (d : DDL) (q : String) : Prop :=
  let database := ddlDatabase ses d
  match d.action with
  | .createDB | .dropDB => q = query
  | .createTable => Alone env ses ∧ ∃ new, newTable d = .ok new ∧
      S.Planned database (env.format (.ddl new.ddl)) (.ddl new.ddl) q
  | .dropTable => Alone env ses ∧ S.InTurn (dropArg database d) d.tables q
  | .createIndex | .dropIndex | .alterEngine | .alterCharset | .alterAddColumn | .alterDropColumn
  | .alterModifyColumn | .truncateTable | .rename => Alone env ses ∧ S.Planned database query (.ddl d) q
  | .alterDatabase => q = alterDatabaseQuery env ses query d
  | .other => False

theorem forall_planned : ((env.twoPC && ses.inTxn) = false → ∀ qs, R.plans db query node (.ok qs) →
      ∀ q ∈ qs, R.sends q h) ↔ ∀ q, Alone env ses ∧ R.Planned db query node q → R.sends q h :=
  ⟨fun hw q ⟨hin, qs, hqs, hq⟩ => hw hin qs hqs q hq,
    fun hw hin qs hqs q hq => hw q ⟨hin, qs, hqs, hq⟩⟩

theorem safe_executeDDL : Safe R (executeDDL env ses db query node) h ↔
      ∀ q, Alone env ses ∧ R.Planned db query node q → R.sends q h := by
  rw [Safe, watched_executeDDL fun _ => trivial, ← forall_planned]
  simp only [and_true]

theorem safe_unless {b : Bool} {p : Handler Unit} :
    Safe R (if b = true then pure () else p) h ↔ (b = false → Safe R p h) := by
  cases b <;> simp

theorem safe_checkDatabase : Safe R (do raise (← checkDatabase db); next) h ↔ Safe R next h := by
  simp [Safe, Option.forall]

theorem safe_changeRouter {c : RouterChange} :
    Safe R (do raise (← changeRouter c); next) h ↔ Safe R next h := by
  simp [Safe, Option.forall]

theorem safe_tableExists {next : Bool → Handler Unit} :
    Safe R (tableExists db table >>= next) h ↔ ∀ b, Safe R (next b) h := by
  simp only [safe_bind, watched_quiet, andthen_ok]

theorem safe_dropTables {ts : List TableName} : Safe R (dropTables env ses database d ts) h ↔
      ∀ q, Alone env ses ∧ R.InTurn (dropArg database d) ts q → R.sends q h := by
  induction ts with
  | nil => simp [dropTables, Setting.InTurn]
  | cons t ts ih =>
    rw [dropTables, safe_checkDatabase, safe_tableExists]
    simp only [safe_unless, watched_observe, watched_bind, andthen_ok, watched_quiet,
      watched_ofExcept]
    rw [watched_executeDDL fun _ _ => trivial]
    simp only [andthen_ok, ih, Setting.InTurn, dropArg, Setting.Planned]
    constructor
    · -- the table is there, so that an `IF EXISTS` does not end the loop
      rintro hw q ⟨halone, ⟨qs, hqs, hq⟩ | ⟨⟨qs, hqs⟩, hturn⟩⟩
      · exact (hw true (by simp) halone qs hqs).1 q hq
      · exact (hw true (by simp) halone qs hqs).2 none q ⟨halone, hturn⟩
    · grind [Alone]

theorem safe_newTableBackends {bs : List String} {option : PartitionOption} {next : List String → Handler Unit}
    {P : Prop} (hnext : ∀ bs, Safe R (next bs) h ↔ P) : Safe R (newTableBackends bs option >>= next) h ↔ P := by
  cases option
  case single name =>
    by_cases hname : name = ""
    · simp [newTableBackends, hname, hnext]
    · simp [newTableBackends, hname, hnext]
  all_goals simp [newTableBackends, hnext]

theorem safe_installTable {new : NewTable} {bs : List String} :
    Safe R (installTable env ses database d new bs) h ↔ ∀ q, Alone env ses ∧
      R.Planned database (env.format (.ddl new.ddl)) (.ddl new.ddl) q → R.sends q h := by
  rw [installTable, safe_changeRouter, safe_bind, watched_observe, watched_executeDDL,
    ← forall_planned]
  · simp only [andthen_ok, watched_pure, and_true]
  · simp

theorem safe_createTable :
    Safe R (createTable env ses database d) h ↔ ∀ q, (Alone env ses ∧ ∃ new, newTable d = .ok new ∧
      R.Planned database (env.format (.ddl new.ddl)) (.ddl new.ddl) q) → R.sends q h := by
  rw [createTable, safe_bind, watched_quiet]
  simp only [andthen_ok, safe_checkDatabase, safe_tableExists, safe_unless]
  cases hnew : newTable d with
  | error e => simp
  | ok new =>
    simp only [watched_bind, watched_ofExcept, andthen_ok, Except.ok.injEq, exists_eq_left']
    simp only [← watched_bind, safe_newTableBackends fun bs => safe_installTable]
    exact ⟨fun hw => hw [] false (by simp), fun hw _ _ _ => hw⟩

theorem safe_alterTable : Safe R (alterTable env ses database query d) h ↔
      ∀ q, Alone env ses ∧ R.Planned database query (.ddl d) q → R.sends q h := by
  rw [alterTable, safe_checkDatabase, safe_tableExists, Bool.forall_bool]
  simp only [Bool.false_eq_true, if_false, if_true, watched_throw, true_and, safe_executeDDL]

theorem safe_renameTable : Safe R (renameTable env ses database query d) h ↔
      ∀ q, Alone env ses ∧ R.Planned database query (.ddl d) q → R.sends q h := by
  rw [renameTable, safe_checkDatabase, safe_tableExists, Bool.forall_bool]
  simp only [Bool.not_false, Bool.not_true, Bool.false_eq_true, if_false, if_true, watched_throw,
    true_and, watched_bind, watched_quiet, andthen_ok, Bool.forall_bool, and_true]
  rw [watched_executeDDL fun _ => trivial, ← forall_planned]
  simp

theorem safe_ddlAction :
    Safe R (ddlAction env ses query d) h ↔ ∀ q, DdlSends R.toSetting env ses query d q → R.sends q h := by
  unfold ddlAction DdlSends
  cases d.action <;> dsimp only
  case createDB =>
    simp only [createDatabase, safe_bind, watched_quiet, andthen_ok]
    simp only [safe_unless, safe_changeRouter, safe_executeScatter, forall_eq]
    exact ⟨fun hw => hw (some "") rfl, fun hw _ _ => hw⟩
  case dropDB =>
    simp only [dropDatabase, safe_bind, watched_quiet, andthen_ok]
    simp only [safe_unless, safe_bind, watched_executeScatter, forall_except, andthen_ok,
      andthen_error, watched_quiet, watched_raise, implies_true, and_true, forall_eq]
    exact ⟨fun hw => hw none rfl, fun hw _ _ => hw⟩
  case createTable => exact safe_createTable
  case dropTable => exact safe_dropTables
  case alterDatabase =>
    unfold alterDatabase alterDatabaseQuery
    split
    · simp only [safe_checkDatabase, safe_executeScatter, forall_eq]
    · simp only [safe_checkDatabase, safe_executeScatter, forall_eq]
  case rename => exact safe_renameTable
  case other => simp
  all_goals exact safe_alterTable

theorem safe_handleDDL (hyes : ∀ db, R.answers db (.ddl d) none) :
    Safe R (handleDDL env ses query d) h ↔ ((∀ db ∈ ddlDatabases ses d, isSystemDB db = false) →
      ∀ q, DdlSends R.toSetting env ses query d q → R.sends q (askedAll (.ddl d) (ddlDatabases ses d) ∪ h)) := by
  rw [handleDDL, safe_bind, watched_checks hyes fun _ _ => trivial]
  simp only [andthen_ok, safe_ddlAction]

end Ddl

/-! ## The other statements -/

/-- A database that the commands on it accept. -/
def Ordinary (db : String) : Prop := db ≠ "" ∧ isSystemDB db = false

/-- The query of `SHOW COLUMNS` and `SHOW INDEX` on one partition. -/
def showPartQuery (env : Env) (s : Show) (db part : String) : String :=
  env.format (.show { s with table := ⟨db, part⟩ })

/-- The queries of a `SHOW` command; no check comes before them. -/
def ShowSends (S : Setting) (env : Env) (ses : Session) (query : String) (s : Show) (q : String) : Prop :=
  let database := if s.database ≠ "" then s.database else ses.schema
  let tableDatabase := s.table.database ses.schema
  match s.type with
  | .status => S.super true ∧ q = statusQuery
  | .tables => Ordinary database ∧ q = "SHOW TABLES FROM " ++ database
  | .tableStatus => Ordinary database ∧ q = "SHOW TABLE STATUS from " ++ database
  | .createTable => Ordinary tableDatabase ∧
      ∃ table, q = "SHOW CREATE TABLE " ++ tableDatabase ++ "." ++ table
  | .columns | .index => Ordinary tableDatabase ∧
      ∃ part, q = showPartQuery env s tableDatabase part
  | .databases | .engines | .createDatabase | .warnings | .variables | .collation | .charset =>
    q = query
  | .versions | .processlist | .queryz | .txnz | .other => False

/-- The queries of a `SELECT` from a system database. -/
def SystemSends (env : Env) (query : String) (t : TableName) (s : Select) (q : String) : Prop :=
  match if t.qualifier.toUpper = "INFORMATION_SCHEMA" ∧ t.name.toUpper = "COLUMNS" then
      env.columnsOf s.where_ else none with
  | none => q = query
  | some _ => ∃ part, q = env.format (.select (env.renameColumns s part))

/-- The queries of a `SELECT`, with the databases that are checked before. -/
def SelectSends (S : Setting) (env : Env) (ses : Session) (query : String) (s : Select)
    (asked : Set String) (q : String) : Prop :=
  if ses.streamingFetch || s.streamingHint then
    asked = ∅ ∧ ∃ qs, S.streamPlans ses.schema query s (.ok qs) ∧ q ∈ qs
  else
    let checked := asked = (Statement.select s).asked ses.schema ∧
      S.Planned ses.schema query (.select s) q
    match s.from_ with
    | [] => False
    | .table t _ :: _ =>
      if t.name = "dual" then asked = ∅ ∧ q = query
      else if isSystemDB t.qualifier then asked = ∅ ∧ SystemSends env query t s q
      else checked
    | _ => checked

/-- The queries that the handler of a statement may send, with the databases on which the checks before
them ask for privileges. -/
def Statement.Sends (S : Setting) (env : Env) (ses : Session) (query : String) :
    Statement → Set String → String → Prop
  | .use db, asked, q => isSystemDB db = false ∧ asked = ∅ ∧ q = query
  | .ddl d, asked, q => (∀ db ∈ ddlDatabases ses d, isSystemDB db = false) ∧
      asked = askedAll (.ddl d) (ddlDatabases ses d) ∧ DdlSends S env ses query d q
  | .show s, asked, q => asked = ∅ ∧ ShowSends S env ses query s q
  | .insert i, asked, q =>
    let database := i.table.database ses.schema
    (i.columns = none ∧ asked = ∅ ∧ ∃ part, q = "desc " ++ database ++ "." ++ part) ∨
      asked = (Statement.insert i).asked ses.schema ∧
        (S.Planned database query (.insert i) q ∨
          ∃ columns, S.Planned database query (.insert { i with columns := some columns }) q)
  | .delete d, asked, q => asked = (Statement.delete d).asked ses.schema ∧
      S.Planned ses.schema query (.delete d) q
  | .update u, asked, q => asked = (Statement.update u).asked ses.schema ∧
      S.Planned ses.schema query (.update u) q
  | .select s, asked, q => SelectSends S env ses query s asked q
  | .union u, asked, q => asked = (Statement.union u).asked ses.schema ∧
      S.Planned ses.schema query (.union u) q
  | .help _, asked, q | .do _, asked, q => asked = ∅ ∧ q = query
  | .checksum tables quick, asked, q => asked = ∅ ∧ quick = false ∧ ∃ t ∈ tables,
      S.Planned ses.schema (env.format (.checksum [t] quick)) (.checksum [t] quick) q
  | .optimize tables, asked, q => asked = ∅ ∧
      S.InTurn (fun t => (ses.schema, env.format (.optimize [t]), .optimize [t])) tables q
  | .check tables, asked, q => asked = ∅ ∧
      S.InTurn (fun t => (ses.schema, env.format (.check [t]), .check [t])) tables q
  | .parenSelect _, _, _ | .kill _, _, _ | .explain _, _, _ | .transaction _, _, _ | .radon _, _, _
  | .set _, _, _ | .other, _, _ => False

theorem safe_handleUseDB : Safe R (handleUseDB query db) h ↔ (isSystemDB db = false → R.sends query h) := by
  cases hsys : isSystemDB db <;>
    simp [handleUseDB, databaseACL, hsys, executeSingle, watched_execute, forall_except]

theorem safe_handleSelect (hyes : R.answers ses.schema node none) : Safe R (handleSelect env ses query node) h ↔
      ∀ q, R.Planned ses.schema query node q → R.sends q (node.asked ses.schema ∪ h) :=
  safe_executeDML hyes

theorem watched_firstSegment {Q : Except String Segment → Set String → Prop} (hQ : ∀ e, Q (.error e) h) :
    Watched R.monitor (firstSegment db table) Q h ↔ ∀ seg, Q (.ok seg) h := by
  simp only [firstSegment, watched_bind, watched_quiet, andthen_ok, watched_ofExcept, forall_except,
    andthen_error, hQ, implies_true, true_and]
  constructor
  · exact fun hw seg => hw [seg]
  · intro hw segs
    cases segs with
    | nil => exact hQ _
    | cons seg _ => exact hw seg

theorem safe_firstSegment {next : Segment → Handler Unit} :
    Safe R (firstSegment db table >>= next) h ↔ ∀ seg, Safe R (next seg) h := by
  rw [safe_bind, watched_firstSegment fun _ => trivial]
  rfl

theorem safe_executeOnThisBackend_ignore {backend : String} :
    Safe R (do let _ ← executeOnThisBackend backend query) h ↔ R.sends query h := by
  simp [executeOnThisBackend, watched_execute, forall_except]

theorem safe_handleSelectSystem {t : TableName} {s : Select} : Safe R (handleSelectSystem env query t s) h ↔
      ∀ q, SystemSends env query t s q → R.sends q h := by
  have hraw : (∀ q, q = query → R.sends q h) ↔ R.sends query h := forall_eq
  unfold handleSelectSystem handleSelectInformationschema SystemSends
  by_cases hdb : t.qualifier.toUpper = "INFORMATION_SCHEMA"
  · by_cases htable : t.name.toUpper = "COLUMNS"
    · simp only [hdb, htable, and_self, if_true]
      cases env.columnsOf s.where_ with
      | none => simp only [hraw, safe_executeSingle]
      | some target =>
        simp only [safe_firstSegment, safe_executeOnThisBackend_ignore, forall_exists_index]
        exact ⟨fun hw q part hq => hq ▸ hw { table := part }, fun hw seg => hw _ seg.table rfl⟩
    · simp only [hdb, htable, and_false, if_true, if_false, hraw, safe_executeSingle]
  · simp only [hdb, false_and, if_false, hraw, safe_executeSingle]

/-- The answers of the plugins that let every statement of a known kind pass. -/
def Rules.Willing (R : Rules) : Prop := ∀ db s, s.checkable = true → R.answers db s none

theorem forall_asked {A : Set String} {C : Set String → String → Prop} :
    (∀ asked q, asked = A → C asked q) ↔ ∀ q, C A q :=
  ⟨fun hw q => hw A q rfl, fun hw _ q hA => hA ▸ hw q⟩

theorem safe_comSelect (hyes : R.Willing) {s : Select} :
    Safe R (comSelect env ses query s) ∅ ↔
      ∀ asked q, SelectSends R.toSetting env ses query s asked q → R.sends q asked := by
  have hchecked : Safe R (handleSelect env ses query (.select s)) ∅ ↔
      ∀ q, R.Planned ses.schema query (.select s) q →
        R.sends q ((Statement.select s).asked ses.schema) := by
    rw [safe_handleSelect (hyes _ _ rfl), Set.union_empty]
  unfold comSelect SelectSends
  by_cases hstream : (ses.streamingFetch || s.streamingHint) = true
  · simp only [hstream, if_true, safe_executeStreamFetch, forall_exists_index, and_imp, forall_asked]
  · simp only [hstream]
    rcases s.from_ with _ | ⟨e, es⟩
    · simp
    · cases e with
      | table t hints =>
        by_cases hdual : t.name = "dual"
        · simp [hdual, safe_executeSingle]
        · by_cases hsys : isSystemDB t.qualifier = true
          · simp [hdual, hsys, forall_asked, safe_handleSelectSystem]
          · simp [hdual, hsys, forall_asked, hchecked]
      | subquery query hints => simp [forall_asked, hchecked]
      | compound e => simp [forall_asked, hchecked]

theorem watched_describeColumns {Q : Except String (List String) → Set String → Prop}
    (hQ : ∀ e, Q (.error e) h) : Watched R.monitor (describeColumns database table) Q h ↔
      (∀ part, R.sends ("desc " ++ database ++ "." ++ part) h) ∧ ∀ columns, Q (.ok columns) h := by
  have hpart : ∀ part : PartitionConfig, Watched R.monitor (do
      let rows ← executeOnThisBackend part.backend ("desc " ++ database ++ "." ++ part.table)
      pure (rows.filterMap List.head?)) Q h ↔
        R.sends ("desc " ++ database ++ "." ++ part.table) h ∧ ∀ columns, Q (.ok columns) h := by
    intro part
    simp only [executeOnThisBackend, watched_bind, watched_execute, forall_except, andthen_ok,
      andthen_error, hQ, implies_true, true_and, watched_pure]
    refine and_congr_right' ⟨fun hw columns => ?_, fun hw _ => hw _⟩
    have hcols : (columns.map fun c => [c]).filterMap List.head? = columns := by
      induction columns <;> simp_all
    exact hcols ▸ hw (columns.map fun c => [c])
  simp only [describeColumns, watched_bind, watched_quiet, andthen_ok, watched_ofExcept,
    forall_except, andthen_error, hQ, implies_true, true_and]
  constructor
  · intro hw
    have hdesc := fun part : String =>
      (hpart ⟨part, "", "", ""⟩).1 (hw ⟨"", 0, 0, .hash, "", [⟨part, "", "", ""⟩]⟩)
    exact ⟨fun part => (hdesc part).1, (hdesc "").2⟩
  · intro hw config
    cases config.partitions with
    | nil => exact hQ _
    | cons part _ => exact (hpart part).2 ⟨hw.1 _, hw.2⟩

theorem watched_prepareInsert {i : Insert} {Q : Except String Insert → Set String → Prop}
    (hQ : ∀ e, Q (.error e) h) : Watched R.monitor (prepareInsert database i) Q h ↔
      (i.columns = none → ∀ part, R.sends ("desc " ++ database ++ "." ++ part) h) ∧
        ∀ columns, Q (.ok { i with columns := some columns }) h := by
  unfold prepareInsert
  cases hcols : i.columns with
  | some columns => simp [hQ, forall_except]
  | none =>
    simp only [watched_bind]
    rw [watched_describeColumns]
    · simp [hQ, forall_except]
    · exact hQ

theorem safe_handleInsert (hyes : R.Willing) {i : Insert} : Safe R (handleInsert env ses query i) ∅ ↔
      ∀ asked q, (Statement.insert i).Sends R.toSetting env ses query asked q → R.sends q asked := by
  have hdml : ∀ columns, Safe R (executeDML env ses (i.table.database ses.schema) query
      (.insert { i with columns := columns })) ∅ ↔ ∀ q,
        R.Planned (i.table.database ses.schema) query (.insert { i with columns := columns }) q →
          R.sends q ((Statement.insert i).asked ses.schema) := by
    intro columns
    rw [safe_executeDML (hyes _ _ rfl), Set.union_empty]
    rfl
  have hprepare : Safe R (do
      let j ← prepareInsert (i.table.database ses.schema) i
      executeDML env ses (i.table.database ses.schema) query (.insert j)) ∅ ↔
        (i.columns = none → ∀ part,
          R.sends ("desc " ++ i.table.database ses.schema ++ "." ++ part) ∅) ∧
        ∀ columns q, R.Planned (i.table.database ses.schema) query
          (.insert { i with columns := some columns }) q →
            R.sends q ((Statement.insert i).asked ses.schema) := by
    rw [safe_bind, watched_prepareInsert fun _ => trivial]
    simp only [andthen_ok, hdml]
  simp only [handleInsert, watched_bind, watched_quiet, andthen_ok, watched_ofExcept,
    forall_except, andthen_error, implies_true, true_and]
  constructor
  · rintro hw asked q (⟨hcols, rfl, part, rfl⟩ | ⟨rfl, hq | ⟨columns, hq⟩⟩)
    · exact (hprepare.1 (hw .hash)).1 hcols part
    · exact (hdml i.columns).1 (hw .global) q hq
    · exact (hprepare.1 (hw .hash)).2 columns q hq
  · intro hw method
    have hdirect := (hdml i.columns).2 fun q hq => hw _ q (.inr ⟨rfl, .inl hq⟩)
    have hprep := hprepare.2 ⟨fun hcols part => hw _ _ (.inl ⟨hcols, rfl, part, rfl⟩),
      fun columns q hq => hw _ q (.inr ⟨rfl, .inr ⟨columns, hq⟩⟩)⟩
    cases method
    exacts [hprep, hdirect, hdirect, hprep]

theorem safe_showDatabase {next : String → Handler Unit} :
    Safe R (showDatabase db >>= next) h ↔ (Ordinary db → Safe R (next db) h) := by
  unfold showDatabase Ordinary
  by_cases hdb : db = ""
  · simp [hdb]
  · cases hsys : isSystemDB db <;> simp [hdb, hsys, databaseACL]

theorem safe_requireSuper : Safe R (do requireSuper; next) h ↔ (R.super true → Safe R next h) := by
  simp [requireSuper]

theorem safe_forEach {α : Type} {body : α → Handler Unit} {B : α → Prop} {as : List α}
    (hbody : ∀ a {Q : Except String Unit → Set String → Prop}, (∀ e, Q (.error e) h) →
      (Watched R.monitor (body a) Q h ↔ B a ∧ Q (.ok ()) h)) : Safe R (forEach body as) h ↔ ∀ a ∈ as, B a := by
  induction as with
  | nil => simp [forEach]
  | cons a as ih => grind [safe_bind, forEach, Andthen]

theorem safe_handleShowStatus : Safe R handleShowStatus h ↔ (R.super true → R.sends statusQuery h) := by
  have hbody : ∀ (backend : String) {Q : Except String Unit → Set String → Prop},
      (∀ e, Q (.error e) h) → (Watched R.monitor (do
        let _ ← observe (executeOnThisBackend backend statusQuery)) Q h ↔
          R.sends statusQuery h ∧ Q (.ok ()) h) := by
    intro backend Q _
    simp [executeOnThisBackend, watched_execute]
  rw [handleShowStatus, safe_requireSuper]
  simp only [watched_bind, watched_quiet, andthen_ok]
  refine imp_congr_right fun _ => ⟨fun hw => ?_, fun hw backends => ?_⟩
  · exact (safe_forEach hbody).1 (hw [""]) "" (List.mem_singleton_self _)
  · exact (safe_forEach hbody).2 fun _ _ => hw

theorem safe_handleShowScatter {command : String} : Safe R (handleShowScatter ses command s) h ↔
      ∀ q, (Ordinary (if s.database ≠ "" then s.database else ses.schema) ∧
        q = command ++ (if s.database ≠ "" then s.database else ses.schema)) → R.sends q h := by
  grind [safe_showDatabase, safe_executeScatter, handleShowScatter]

theorem safe_handleShowCreateTable :
    Safe R (handleShowCreateTable ses s) h ↔ ∀ q, (Ordinary (s.table.database ses.schema) ∧
      ∃ table, q = "SHOW CREATE TABLE " ++ s.table.database ses.schema ++ "." ++ table) → R.sends q h := by
  simp only [handleShowCreateTable, safe_showDatabase]
  simp only [watched_bind, watched_quiet, andthen_ok, watched_ofExcept, forall_except,
    andthen_error, implies_true, true_and]
  constructor
  · rintro hw q ⟨hdb, table, rfl⟩
    -- a table with a sharding key is shown under the name of its part
    have hseg := (watched_firstSegment fun _ => trivial).1 (hw hdb ⟨"", 0, 0, .hash, "id", []⟩)
    exact safe_executeOnThisBackend_ignore.1 (hseg { table := table })
  · intro hw hdb config
    exact (watched_firstSegment fun _ => trivial).2 fun seg =>
      safe_executeOnThisBackend_ignore.2 (hw _ ⟨hdb, _, rfl⟩)

theorem safe_handleShowPart : Safe R (handleShowPart env ses s) h ↔ ∀ q, (Ordinary (s.table.database ses.schema) ∧
      ∃ part, q = showPartQuery env s (s.table.database ses.schema) part) → R.sends q h := by
  rw [handleShowPart, safe_showDatabase]
  simp only [safe_firstSegment, safe_executeOnThisBackend_ignore]
  constructor
  · rintro hw q ⟨hdb, part, rfl⟩
    exact hw hdb { table := part }
  · exact fun hw hdb seg => hw _ ⟨hdb, seg.table, rfl⟩

theorem safe_comShow : Safe R (comShow env ses query s) h ↔
    ∀ q, ShowSends R.toSetting env ses query s q → R.sends q h := by
  unfold comShow ShowSends
  cases s.type <;> dsimp only
  case status => simp [safe_handleShowStatus]
  case versions => simp
  case tables => exact safe_handleShowScatter
  case tableStatus => exact safe_handleShowScatter
  case createTable => exact safe_handleShowCreateTable
  case columns => exact safe_handleShowPart
  case index => exact safe_handleShowPart
  case processlist => simp
  case queryz => simp [requireSuper]
  case txnz => simp [requireSuper]
  case other => simp
  all_goals simp [safe_executeSingle]

theorem watched_checksumTable {quick : Bool} {t : TableName} {Q : Except String Unit → Set String → Prop}
    (hQ : ∀ e, Q (.error e) h) : Watched R.monitor (checksumTable env ses quick t) Q h ↔
      (quick = false → ∀ q, R.Planned ses.schema (env.format (.checksum [t] quick))
        (.checksum [t] quick) q → R.sends q h) ∧ Q (.ok ()) h := by
  unfold checksumTable
  cases quick with
  | true => simp
  | false =>
    simp only [Bool.false_eq_true, if_false, watched_bind, watched_observe, executeNormal]
    rw [watched_executeWithTimeout]
    simp only [andthen_ok, watched_pure, Setting.Planned, forall_const, forall_exists_index, and_imp]
    constructor
    · rintro ⟨herr, hok⟩
      -- the loop goes on after this error, whether or not there is a plan
      have hgo := herr "doesn't exist"
      rw [if_pos (by decide), watched_pure] at hgo
      exact ⟨fun q qs hqs hq => (hok qs hqs).1 q hq, hgo⟩
    · rintro ⟨hsend, hok⟩
      refine ⟨fun e => ?_, fun qs hqs => ⟨fun q hq => hsend q qs hqs hq, hok⟩⟩
      split
      · exact hok
      · exact hQ e

theorem safe_handleChecksumTable {tables : List TableName} {quick : Bool} :
    Safe R (handleChecksumTable env ses tables quick) h ↔ ∀ q, (quick = false ∧ ∃ t ∈ tables,
      R.Planned ses.schema (env.format (.checksum [t] quick)) (.checksum [t] quick) q) → R.sends q h := by
  rw [handleChecksumTable, safe_forEach fun t Q hQ => watched_checksumTable hQ]
  grind

theorem safe_handleTables {statement : List TableName → Statement} {tables : List TableName} :
    Safe R (handleTables env ses statement tables) h ↔ ∀ q,
      R.InTurn (fun t => (ses.schema, env.format (statement [t]), statement [t])) tables q → R.sends q h := by
  unfold handleTables
  induction tables with
  | nil => simp [forEach, Setting.InTurn]
  | cons t ts ih =>
    simp only [forEach, watched_bind, executeNormal, watched_executeWithTimeout, andthen_error,
      implies_true, true_and, andthen_ok, Setting.InTurn, Setting.Planned]
    simp only [executeNormal] at ih
    constructor
    · grind
    · grind

theorem safe_setStreamingFetch {val : SetVal} (hnext : Safe R next h) : Safe R (do setStreamingFetch val; next) h := by
  cases val with
  | str s =>
    by_cases hon : s.toLower = "on"
    · simp [setStreamingFetch, hon, hnext]
    · by_cases hoff : s.toLower = "off"
      · simp [setStreamingFetch, hoff, hnext]
      · simp [setStreamingFetch, hon, hoff, hnext]
  | int s => simp [setStreamingFetch]
  | bool b => simp [setStreamingFetch, hnext]
  | other => simp [setStreamingFetch, hnext]

theorem safe_handleSet {exprs : List (String × SetVal)} : Safe R (handleSet env ses exprs) h := by
  induction exprs with
  | nil => simp [handleSet]
  | cons e exprs ih => grind [handleSet.eq_def, safe_handleMultiStmtTxn, safe_setStreamingFetch]

theorem safe_handleKill {queryID : ℕ} : Safe R (handleKill ses queryID) h := by
  simp only [handleKill, watched_bind, watched_isSuperPriv, andthen_ok]
  intro b _
  cases b with
  | true => simp
  | false =>
    simp only [Bool.not_false, if_true, watched_bind, watched_quiet, andthen_ok]
    intro user
    cases user with
    | none => simp
    | some user => by_cases huser : user = ses.user <;> simp [huser]

theorem safe_handleRadon {r : RadonCommand} : Safe R (handleRadon r) h ↔ (r.rowOk = true → R.admin r.action) := by
  unfold handleRadon
  cases r.rowOk <;> simp

theorem safe_handleExplain : Safe R (handleExplain ses query node) h := by
  simp only [handleExplain, watched_bind, watched_check, andthen_ok, watched_raise]
  intro r _
  cases r with
  | some e => trivial
  | none => cases node <;> simp [forall_except]

/-- A handler keeps to the rules when the queries it may send are permitted, and with them the
administrative commands. -/
theorem safe_dispatch {s : Statement} (hyes : R.Willing) : Safe R (dispatch env ses query s) ∅ ↔
      (∀ asked q, s.Sends R.toSetting env ses query asked q → R.sends q asked) ∧
      ∀ r, s = .radon r → r.rowOk = true → R.admin r.action := by
  cases s <;> simp only [dispatch, Statement.Sends, reduceCtorEq, false_imp_iff, implies_true, and_true,
    true_and, and_imp, forall_asked, safe_executeSingle, forall_eq, safe_handleChecksumTable,
    safe_handleTables]
  case use db =>
    rw [safe_handleUseDB]
    exact ⟨fun hw _ _ hsys hA hq => hA ▸ hq ▸ hw hsys, fun hw hsys => hw _ _ hsys rfl rfl⟩
  case ddl d =>
    rw [safe_handleDDL fun db => hyes db _ rfl, Set.union_empty]
    exact ⟨fun hw _ q hsys hA hq => hA ▸ hw hsys q hq, fun hw hsys q hq => hw _ q hsys rfl hq⟩
  case «show» s => exact safe_comShow
  case insert i => exact safe_handleInsert hyes
  case delete d => rw [safe_handleSelect (hyes _ _ rfl), Set.union_empty]
  case update u => rw [safe_handleSelect (hyes _ _ rfl), Set.union_empty]
  case select s => exact safe_comSelect hyes
  case union u => rw [safe_handleSelect (hyes _ _ rfl), Set.union_empty]
  case parenSelect q => simp
  case kill id => exact iff_of_true safe_handleKill trivial
  case explain s => exact iff_of_true safe_handleExplain trivial
  case transaction action => exact iff_of_true safe_handleMultiStmtTxn trivial
  case radon r =>
    rw [safe_handleRadon]
    simp
  case set exprs => exact iff_of_true safe_handleSet trivial
  case other => simp

theorem safe_comQuery_connector {binds : Option (List (String × String))} (hwater : env.highWater = false)
    (hconn : isConnectorFilter query = true) : Safe R (comQuery env ses query binds) ∅ ↔ R.sends query ∅ := by
  simp only [comQuery, hwater, hconn, Bool.false_eq_true, if_false, if_true, safe_executeSingle]

/-- A text that is not a connector's is handed to the handler of its statement, unless the statement is
refused. -/
theorem safe_comQuery_prepared {binds : Option (List (String × String))}
    (hwater : env.highWater = false) (hconn : isConnectorFilter query = false) :
    Safe R (comQuery env ses query binds) ∅ ↔ ∀ text s, prepare env query binds = .ok (text, s) →
      (env.readOnly && s.isWrite) = false → Safe R (dispatch env ses text s) ∅ := by
  simp only [comQuery, hwater, hconn, Bool.false_eq_true, if_false, watched_bind, watched_ofExcept]
  cases hprep : prepare env query binds with
  | error e => simp
  | ok prepared =>
    obtain ⟨text, s⟩ := prepared
    simp only [andthen_ok, Except.ok.injEq, Prod.mk.injEq, and_imp]
    cases hro : env.readOnly && s.isWrite with
    | true => simp_all
    | false => grind

end Radon.Proxy
