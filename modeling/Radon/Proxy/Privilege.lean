import Radon.Proxy.Statement

/-!
# The privilege check

`Privilege.Check` walks over a statement and asks for the statement's privilege on the database of
every table name it meets. The database is kept in one variable for the whole walk: a qualified name
sets it and an unqualified name leaves it as it is. A table without a qualifier that follows a
qualified one is therefore looked up in the database of that other table. The check asks for the
privilege on the session's database only when the first table name of the walk has no qualifier or
when some qualifier names that database.
-/

namespace Radon.Proxy

open List

/-- The privileges that the plugin knows. -/
inductive PrivilegeName
  | select | insert | update | delete | create | drop | grant | alter | index | showDB | super
deriving DecidableEq

/-- `privilege.privilege`. -/
structure PrivilegeFlags where
  selectPriv : Bool := false
  insertPriv : Bool := false
  updatePriv : Bool := false
  deletePriv : Bool := false
  createPriv : Bool := false
  dropPriv : Bool := false
  grantPriv : Bool := false
  alterPriv : Bool := false
  indexPriv : Bool := false
  showDBPriv : Bool := false
  superPriv : Bool := false

def PrivilegeFlags.has (p : PrivilegeFlags) : PrivilegeName → Bool
  | .select => p.selectPriv
  | .insert => p.insertPriv
  | .update => p.updatePriv
  | .delete => p.deletePriv
  | .create => p.createPriv
  | .drop => p.dropPriv
  | .grant => p.grantPriv
  | .alter => p.alterPriv
  | .index => p.indexPriv
  | .showDB => p.showDBPriv
  | .super => p.superPriv

/-- `privilege.userPriv`: the global privileges of a user and those on single databases. -/
structure UserPriv where
  priv : PrivilegeFlags := {}
  dbPrivs : List (String × PrivilegeFlags) := []

/-- `privilege.Privilege`: the privileges of the users. -/
structure Privilege where
  userPrivs : List (String × UserPriv)

/-- `p.userPrivs[user]`. -/
def Privilege.userPriv (p : Privilege) (user : String) : UserPriv := (p.userPrivs.lookup user).getD {}

/-- `userpriv.dbPrivs[db]`. -/
def UserPriv.dbPriv (u : UserPriv) (db : String) : PrivilegeFlags := (u.dbPrivs.lookup db).getD {}

/-- `Privilege.IsSuperPriv`. -/
def Privilege.isSuperPriv (p : Privilege) (user : String) : Bool := (p.userPriv user).priv.superPriv

/-- `Privilege.CheckPrivilege`. -/
def Privilege.checkPrivilege (p : Privilege) (db user : String) (node : Option Statement) : Bool :=
  let userpriv := (p.userPriv user).priv
  let dbpriv := (p.userPriv user).dbPriv db
  match node with
  | none => userpriv.superPriv
  | some node =>
    match node with
    | .checksum _ _ => userpriv.superPriv || userpriv.selectPriv || dbpriv.selectPriv
    | .union _ => userpriv.superPriv || userpriv.selectPriv || dbpriv.selectPriv
    | .select _ => userpriv.superPriv || userpriv.selectPriv || dbpriv.selectPriv
    | .insert _ => userpriv.superPriv || userpriv.insertPriv || dbpriv.insertPriv
    | .update _ => userpriv.superPriv || userpriv.updatePriv || dbpriv.updatePriv
    | .delete _ => userpriv.superPriv || userpriv.deletePriv || dbpriv.deletePriv
    | .show _ => userpriv.superPriv || userpriv.showDBPriv || dbpriv.showDBPriv
    | .ddl _ =>
      let user := userpriv.createPriv && userpriv.dropPriv && userpriv.alterPriv && userpriv.indexPriv
      let db := dbpriv.createPriv && dbpriv.dropPriv && dbpriv.alterPriv && dbpriv.indexPriv
      userpriv.superPriv || user || db
    | _ => false

/-- The variables that the visitor of `Check` shares between its visits. -/
structure CheckState where
  db : String
  ok : Bool := true

/-- The visitor of `Check`. -/
def Privilege.visit (p : Privilege) (user : String) (node : Statement) :
    SQLNode → CheckState → Bool × CheckState
  | .star _, s => (false, s)
  | .column _, s => (false, s)
  | .table t, s =>
    let db := t.database s.db
    if p.checkPrivilege db user (some node) then (true, { s with db := db })
    else (false, ⟨db, false⟩)
  | .node _, s => (true, s)

/-- `Privilege.Check`, with the error it returns. -/
def Privilege.check (p : Privilege) (database user : String) (node : Option Statement) :
    Option String :=
  let walked : CheckState :=
    match node with
    | none => ⟨database, true⟩
    | some s => s.tree.walk (p.visit user s) ⟨database, true⟩
  if walked.ok && p.checkPrivilege walked.db user node then none
  else some ("Access denied for user '" ++ user ++ "'@'%' to database '" ++ walked.db ++ "'")

/-! ## What a user holds -/

/-- The privileges that a statement requires on the database of each of its tables. -/
def Statement.required : Statement → List PrivilegeName
  | .checksum _ _ | .union _ | .select _ => [.select]
  | .insert _ => [.insert]
  | .update _ => [.update]
  | .delete _ => [.delete]
  | .show _ => [.showDB]
  | .ddl _ => [.create, .drop, .alter, .index]
  | _ => [.super]

/-- A user holds a privilege on a database by the super privilege, globally or on the database. -/
def Privilege.Holds (p : Privilege) (user db : String) (name : PrivilegeName) : Prop :=
  p.isSuperPriv user = true ∨ (p.userPriv user).priv.has name = true ∨
    ((p.userPriv user).dbPriv db).has name = true

/-- The statements that `CheckPrivilege` knows a privilege for. -/
def Statement.checkable : Statement → Bool
  | .checksum _ _ | .union _ | .select _ | .insert _ | .update _ | .delete _ | .show _ | .ddl _ => true
  | _ => false

variable {db d : String}

theorem Privilege.holds_of_checkPrivilege {p : Privilege} {user : String} {s : Statement}
    (h : p.checkPrivilege db user (some s) = true) {name : PrivilegeName} (hname : name ∈ s.required) :
    p.Holds user db name := by
  cases s <;>
    simp only [checkPrivilege, Bool.or_eq_true, Bool.and_eq_true, Bool.false_eq_true] at h <;>
    simp only [Statement.required, mem_cons, not_mem_nil, or_false] at hname <;>
    simp only [Holds, isSuperPriv]
  case ddl =>
    obtain (h | h) | h := h
    · exact .inl h
    · grind [PrivilegeFlags.has]
    · grind [PrivilegeFlags.has]
  all_goals
    subst hname
    exact or_assoc.1 h

/-! ## The databases that a walk asks for -/

/-- The values of the database variable at the table names of a walk. -/
def carried (db : String) : List TableName → List String
  | [] => []
  | t :: ts => t.database db :: carried (t.database db) ts

/-- The value of the database variable after a walk. -/
def carriedLast (db : String) : List TableName → String
  | [] => db
  | t :: ts => carriedLast (t.database db) ts

theorem carriedLast_mem {ts : List TableName} (h : ts ≠ []) : carriedLast db ts ∈ carried db ts := by
  induction ts generalizing db with
  | nil => exact absurd rfl h
  | cons t ts ih => grind [carried, carriedLast]

/-- The first table name has no qualifier. -/
def StartsUnqualified (ts : List TableName) : Prop := ∃ t, ts.head? = some t ∧ t.qualifier = ""

/-- A walk asks for the qualifiers, and for the session's database if it starts without one. -/
theorem mem_carried {ts : List TableName} :
    d ∈ carried db ts ↔ (∃ t ∈ ts, t.qualifier ≠ "" ∧ t.qualifier = d) ∨ (StartsUnqualified ts ∧ d = db) := by
  induction ts generalizing db with
  | nil => simp [carried, StartsUnqualified]
  | cons t ts ih =>
    rw [carried, mem_cons, ih, TableName.database]
    by_cases ht : t.qualifier = ""
    · -- the variable keeps its value, so that the rest of the walk starts from the same database
      simp only [ht, if_true, StartsUnqualified, List.head?_cons, Option.some.injEq]
      constructor
      · rintro (h | ⟨t', ht', h⟩ | ⟨-, h⟩)
        · exact .inr ⟨⟨t, rfl, ht⟩, h⟩
        · exact .inl ⟨t', mem_cons_of_mem _ ht', h⟩
        · exact .inr ⟨⟨t, rfl, ht⟩, h⟩
      · rintro (⟨t', ht', hne, h⟩ | ⟨-, h⟩)
        · obtain rfl | ht' := mem_cons.1 ht'
          · exact absurd ht hne
          · exact .inr (.inl ⟨t', ht', hne, h⟩)
        · exact .inl h
    · simp only [ht, if_false, StartsUnqualified, List.head?_cons, Option.some.injEq]
      grind

variable {p : Privilege} {user : String} {s : Statement}

/-- What the visits of a list of table names leave in the variables. -/
def Privilege.visited (p : Privilege) (user : String) (s : Statement) (st : CheckState)
    (ts : List TableName) : CheckState :=
  ⟨carriedLast st.db ts, st.ok && (carried st.db ts).all fun d => p.checkPrivilege d user (some s)⟩

theorem Privilege.visited_append (st : CheckState) (ts us : List TableName) :
    p.visited user s st (ts ++ us) = p.visited user s (p.visited user s st ts) us := by
  induction ts generalizing st with
  | nil => simp [visited, carried, carriedLast]
  | cons t ts ih =>
    have h := ih ⟨t.database st.db, st.ok && p.checkPrivilege (t.database st.db) user (some s)⟩
    grind [CheckState.mk.injEq, visited, carriedLast, carried]

mutual

/-- The walk of `Check` depends on the table names of the tree only. -/
theorem Privilege.walk_visit (n : SQLNode) (st : CheckState) :
    n.walk (p.visit user s) st = p.visited user s st n.tableNames := by
  cases n with
  | table t =>
    simp only [SQLNode.walk, visit, SQLNode.tableNames, visited, carried, carriedLast, all_cons,
      all_nil, Bool.and_true]
    grind
  | column t => simp [SQLNode.walk, visit, SQLNode.tableNames, visited, carried, carriedLast]
  | star t => simp [SQLNode.walk, visit, SQLNode.tableNames, visited, carried, carriedLast]
  | node children =>
    simp only [SQLNode.walk, visit, if_true, SQLNode.tableNames]
    exact walkList_visit children st

theorem Privilege.walkList_visit (ns : List SQLNode) (st : CheckState) :
    SQLNode.walkList (p.visit user s) ns st = p.visited user s st (SQLNode.tableNamesList ns) := by
  cases ns with
  | nil => simp [SQLNode.walkList, SQLNode.tableNamesList, visited, carried, carriedLast]
  | cons n ns =>
    rw [SQLNode.walkList, SQLNode.tableNamesList, visited_append, walk_visit n, walkList_visit ns]

end

/-- The databases on which `Check` asks for the privilege of a statement. -/
def Statement.examined (s : Statement) (db : String) : List String :=
  if s.tableNames = [] then [db] else carried db s.tableNames

theorem Privilege.check_eq_none : p.check db user (some s) = none ↔
      ∀ d ∈ s.examined db, p.checkPrivilege d user (some s) = true := by
  have hwalk : s.tree.walk (p.visit user s) ⟨db, true⟩ = _ := walk_visit s.tree ⟨db, true⟩
  simp only [check, hwalk, visited, Bool.true_and, Statement.examined]
  split
  case isTrue h =>
    rw [Bool.and_eq_true, all_eq_true] at h
    split
    · rename_i hnil
      have hnil' : s.tree.tableNames = [] := hnil
      simpa [hnil', carriedLast] using h.2
    · exact iff_of_true rfl h.1
  case isFalse h =>
    simp only [reduceCtorEq, false_iff]
    rw [Bool.and_eq_true, all_eq_true, not_and] at h
    intro hall
    by_cases hnil : s.tree.tableNames = []
    · grind [carried, carriedLast, Statement.tableNames]
    · grind [carriedLast_mem, Statement.tableNames]

theorem Statement.examined_ne_nil (s : Statement) (db : String) : s.examined db ≠ [] := by
  grind [carriedLast_mem, examined]

/-- A table's database is asked for exactly when it is a qualifier or the walk starts there. -/
theorem Statement.mem_examined {t : TableName} (ht : t ∈ s.tableNames) :
    t.database db ∈ s.examined db ↔ t.qualifier ≠ "" ∨ StartsUnqualified s.tableNames ∨
      ∃ t' ∈ s.tableNames, t'.qualifier ≠ "" ∧ t'.qualifier = db := by
  grind [mem_carried, examined, TableName.database]

theorem Privilege.checkPrivilege_of_not_checkable (h : s.checkable = false) :
    p.checkPrivilege d user (some s) = false := by
  cases s <;> first | rfl | cases h

/-! ## Soundness -/

/-- `Check` asks for the database of every table of the statement: no table is unqualified, or the
walk starts with an unqualified name, or a name is qualified by the session's database. -/
def Statement.Covered (s : Statement) (db : String) : Prop :=
  s.checkable = false ∨ (∀ t ∈ s.tableRefs, t.qualifier ≠ "") ∨ StartsUnqualified s.tableNames ∨
    ∃ t ∈ s.tableNames, t.qualifier ≠ "" ∧ t.qualifier = db

/-- All privileges but the super privilege. -/
def PrivilegeFlags.ordinary : PrivilegeFlags :=
  ⟨true, true, true, true, true, true, true, true, true, true, false⟩

/-- One user who holds all ordinary privileges on some databases. -/
def Privilege.onDatabases (user : String) (dbs : List String) : Privilege :=
  ⟨[(user, { dbPrivs := dbs.map fun d => (d, .ordinary) })]⟩

theorem Privilege.onDatabases_dbPriv (dbs : List String) (d : String) :
    ((Privilege.onDatabases user dbs).userPriv user).dbPriv d = if d ∈ dbs then .ordinary else {} := by
  simp only [onDatabases, userPriv, lookup_cons, beq_self_eq_true, Option.getD_some,
    UserPriv.dbPriv]
  induction dbs with
  | nil => rfl
  | cons d' dbs ih => grind

theorem Privilege.checkPrivilege_of_ordinary (hs : s.checkable = true)
    (hpriv : (p.userPriv user).dbPriv d = .ordinary) : p.checkPrivilege d user (some s) = true := by
  cases s <;> simp only [Statement.checkable, Bool.false_eq_true] at hs <;>
    simp [checkPrivilege, hpriv, PrivilegeFlags.ordinary]

theorem Privilege.onDatabases_check (hs : s.checkable = true) :
    (Privilege.onDatabases user (s.examined db)).check db user (some s) = none := by
  grind [check_eq_none, onDatabases_dbPriv, checkPrivilege_of_ordinary]

theorem Privilege.not_holds_onDatabases {dbs : List String} (hd : d ∉ dbs)
    {name : PrivilegeName} : ¬ (Privilege.onDatabases user dbs).Holds user d name := by
  have hpriv : ((onDatabases user dbs).userPriv user).dbPriv d = _ := onDatabases_dbPriv dbs d
  rw [if_neg hd] at hpriv
  have hglobal : ((Privilege.onDatabases user dbs).userPriv user).priv = {} := by
    simp [onDatabases, userPriv]
  rw [Holds, isSuperPriv, hglobal, hpriv]
  cases name <;> simp [PrivilegeFlags.has]

/-- A statement and a session database for which a successful check means that the user holds the
required privileges on the database of every table, whatever the privileges of the users are. -/
theorem check_sound_iff (db : String) (s : Statement) :
    (∀ (p : Privilege) (user : String), p.check db user (some s) = none →
      ∀ t ∈ s.tableRefs, ∀ name ∈ s.required, p.Holds user (t.database db) name) ↔ s.Covered db := by
  constructor
  · intro h
    by_contra hcov
    simp only [Statement.Covered, not_or] at hcov
    obtain ⟨hcheckable, href, hstart, hqual⟩ := hcov
    obtain ⟨t, ht, hq⟩ : ∃ t ∈ s.tableRefs, t.qualifier = "" := by simpa using href
    have hname : t ∈ s.tableNames := List.mem_of_mem_filter ht
    have hout : t.database db ∉ s.examined db := by
      rw [Statement.mem_examined hname]
      exact fun h => h.elim (fun h => h hq) fun h => h.elim hstart hqual
    obtain ⟨name, hreq⟩ : ∃ name, name ∈ s.required := by
      cases s <;> exact ⟨_, List.mem_cons_self⟩
    have hok : (Privilege.onDatabases "u" (s.examined db)).check db "u" (some s) = none :=
      Privilege.onDatabases_check (by simpa using hcheckable)
    exact Privilege.not_holds_onDatabases hout (h _ "u" hok t ht name hreq)
  · rintro hcov p user hok t ht name hname
    have hall := Privilege.check_eq_none.1 hok
    have htable : t ∈ s.tableNames := List.mem_of_mem_filter ht
    obtain hno | hcov := hcov
    · obtain ⟨d, hd⟩ := List.exists_mem_of_ne_nil _ (s.examined_ne_nil db)
      have htrue := hall d hd
      rw [Privilege.checkPrivilege_of_not_checkable hno] at htrue
      cases htrue
    · refine Privilege.holds_of_checkPrivilege (hall _ ((Statement.mem_examined htable).2 ?_)) hname
      exact hcov.imp (fun h => h t ht) id

/-- `select * from db1.t1, t2`, where the user has no privilege on the session's database. -/
def crossDatabaseSelect : Statement :=
  .select { selectExprs := .node [.star ⟨"", ""⟩]
            from_ := [.table ⟨"db1", "t1"⟩ .leaf, .table ⟨"", "t2"⟩ .leaf] }

theorem check_crossDatabaseSelect :
    let p := Privilege.onDatabases "u" ["db1"]
    p.check "db2" "u" (some crossDatabaseSelect) = none ∧
      (⟨"", "t2"⟩ : TableName) ∈ crossDatabaseSelect.tableRefs ∧
      PrivilegeName.select ∈ crossDatabaseSelect.required ∧
      ¬ p.Holds "u" (TableName.database ⟨"", "t2"⟩ "db2") .select :=
  ⟨by decide, by decide, by decide, Privilege.not_holds_onDatabases (by decide)⟩

end Radon.Proxy
