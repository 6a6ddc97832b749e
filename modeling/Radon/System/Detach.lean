import Radon.System.Attach

/-!
# Detaching a backend

`detachHandler` looks at the backend of the first segment of a table only, whatever the role of the backend is.
It drops a database on the other backends when it has removed as many tables as the router lists for it, and then
every database of the router that has no table. Both hold for a database that never had one.
-/

namespace Radon

open Metadata Proxy List

/-- What the rest of the system answers to `detachHandler`: the databases that the backend shows, whether the file of
a table, a database on the other backends and the directory of a database can be removed, and whether the backends
can be written. -/
structure DetachReplies where
  shown : Option (List String)
  removed : String → String → Bool
  dropped : String → Bool
  cleared : String → Bool
  flushed : Bool

/-- The router during `detachHandler`, and the databases that were dropped on the other backends. -/
structure DetachRun where
  router : Router
  physical : List String

/-- The backend of the first segment. -/
def Table.firstBackend (T : Table) : Option String :=
  (T.partition.bind fun p => p.getSegments.head?).map Segment.backend

/-- A table in the loop of `detachHandler`, and whether it is removed. -/
def detachTable (attachName : String) (removed : Bool) (db table : String) (r : Router) :
    Except String (Bool × Router) :=
  match r.getTable db table with
  | .error _ => .ok (false, r)
  | .ok T =>
    match T.firstBackend with
    | none => .error "runtime error"
    | some backend =>
      if backend = attachName then
        match r.step (.dropTable removed db table) with
        | (none, r) => .ok (true, r)
        | (some e, _) => .error e
      else .ok (false, r)

/-- The loop over the tables of a database with `attachTableCount`. -/
def detachTables (attachName : String) (removed : String → Bool) (db : String) :
    List String → Router → Except String (ℕ × Router)
  | [], r => .ok (0, r)
  | table :: tables, r => do
    let (gone, r) ← detachTable attachName (removed table) db table r
    let (count, r) ← detachTables attachName removed db tables r
    return (count + gone.toNat, r)

/-- The tables of a database in `tblList` that is not a system database. -/
def considered (tblList : List (String × List String)) (db : String) : Option (List String) :=
  if isSystemDB db then none else tblList.lookup db

/-- The loop over the databases that the backend shows. -/
def detachDatabases (attachName : String) (replies : DetachReplies) (tblList : List (String × List String)) :
    List String → DetachRun → Except String DetachRun
  | [], run => .ok run
  | db :: dbs, run =>
    match considered tblList db with
    | none => detachDatabases attachName replies tblList dbs run
    | some tables => do
      let (attachTableCount, r) ← detachTables attachName (replies.removed db) db tables run.router
      if tables.length = attachTableCount then
        if replies.dropped db then detachDatabases attachName replies tblList dbs ⟨r, run.physical ++ [db]⟩
        else .error "drop database"
      else detachDatabases attachName replies tblList dbs { run with router := r }

/-- The databases without tables in `tblListNow`. -/
def emptyDatabases (r : Router) (tblList : List (String × List String)) : List String :=
  (tblList.filter fun e => e.2.all fun table => (r.tables e.1 table).isNone).map Prod.fst

/-- The loop over them. -/
def dropDatabases (cleared : String → Bool) : List String → Router → Except String Router
  | [], r => .ok r
  | db :: dbs, r => if cleared db then dropDatabases cleared dbs (deleteDatabase r db) else .error "remove all"

/-- `Attach.detachHandler`, with the tables that `Router.Tables` lists; it also yields the databases that were dropped
on the other backends. -/
def Cluster.detachHandler (c : Cluster) (attachName : String) (replies : DetachReplies)
    (tblList : List (String × List String)) : Except String (Cluster × List String) :=
  match replies.shown with
  | none => .error "show databases"
  | some dbs => do
    let run ← detachDatabases attachName replies tblList dbs ⟨c.router, []⟩
    let r ← dropDatabases replies.cleared (emptyDatabases run.router tblList) run.router
    if attachName ∉ c.scatter.confs.map BackendConfig.name then .error "scatter.backend.can.not.be.found"
    else if replies.flushed then return (⟨r, c.scatter.remove attachName⟩, run.physical)
    else .error "scatter.flush.config"

/-! ## What is removed -/

/-- The table is one of those that `detachHandler` removes. -/
def Router.leaves (r : Router) (attachName db table : String) : Bool :=
  match r.getTable db table with
  | .ok T => T.firstBackend = some attachName
  | .error _ => false

section Loops

variable {attachName : String} {replies : DetachReplies} {tblList : List (String × List String)} {r r' : Router}
  {db : String}

theorem detachTable_ok {removed gone : Bool} {table : String}
    (h : detachTable attachName removed db table r = .ok (gone, r')) :
    gone = r.leaves attachName db table ∧ r'.databases = r.databases ∧
      ∀ d n, r'.tables d n = if (d = db ∧ n = table) ∧ gone then none else r.tables d n := by
  unfold detachTable at h
  unfold Router.leaves
  split at h
  · rename_i hentry
    cases h
    simp [hentry]
  · rename_i T hentry
    split at h
    · cases h
    rename_i backend hfirst
    split_ifs at h with heq
    · have hdrop := dropTable_step r removed db table
      split at h
      · rename_i hstep
        cases h
        rw [hstep] at hdrop
        refine ⟨by simp [hentry, hfirst, heq], hdrop.1, fun d n => ?_⟩
        rw [hdrop.2, updateEntry]
        simp
      · cases h
    · cases h
      simp [hentry, hfirst, heq]

theorem leaves_congr {d n : String} (h : r'.tables d n = r.tables d n) :
    r'.leaves attachName d n = r.leaves attachName d n := by
  rw [Router.leaves, Router.leaves, Router.getTable, Router.getTable, h]

theorem detachTables_ok {removed : String → Bool} {tables : List String} (hnodup : tables.Nodup) {count : ℕ}
    (h : detachTables attachName removed db tables r = .ok (count, r')) : r'.databases = r.databases ∧
      (∀ d n, r'.tables d n = if (d = db ∧ n ∈ tables) ∧ r.leaves attachName db n then none else r.tables d n) ∧
      count = (tables.filter (r.leaves attachName db)).length := by
  induction tables generalizing r count with
  | nil =>
    cases h
    simp
  | cons table tables ih =>
    obtain ⟨hnew, hnodup⟩ := nodup_cons.1 hnodup
    obtain ⟨⟨gone, r₁⟩, htable, h⟩ := except_bind_ok h
    obtain ⟨⟨count', r₂⟩, htables, h⟩ := except_bind_ok h
    cases h
    obtain ⟨rfl, hdbs₁, htables₁⟩ := detachTable_ok htable
    obtain ⟨hdbs, hrest, rfl⟩ := ih hnodup htables
    have hleaves (n : String) (hn : n ∈ tables) : r₁.leaves attachName db n = r.leaves attachName db n := by
      grind [leaves_congr]
    refine ⟨hdbs.trans hdbs₁, fun d n => ?_, ?_⟩
    · rw [hrest, htables₁]
      have := hleaves n
      grind
    · rw [filter_congr hleaves, filter_cons]
      cases r.leaves attachName db table <;> simp

theorem filter_length_eq {α : Type} {p : α → Bool} {xs : List α} :
    xs.length = (xs.filter p).length ↔ ∀ x ∈ xs, p x = true :=
  eq_comm.trans length_filter_eq_length_iff

theorem detachDatabases_ok (hlist : ∀ db tables, considered tblList db = some tables → tables.Nodup) {dbs : List String}
    (hnodup : dbs.Nodup) {run run' : DetachRun} (h : detachDatabases attachName replies tblList dbs run = .ok run') :
    run'.router.databases = run.router.databases ∧ (∀ d n, run'.router.tables d n =
        if (d ∈ dbs ∧ n ∈ (considered tblList d).getD []) ∧ run.router.leaves attachName d n then none
        else run.router.tables d n) ∧ ∀ d, d ∈ run'.physical ↔ d ∈ run.physical ∨ d ∈ dbs ∧
        ∃ tables, considered tblList d = some tables ∧ ∀ t ∈ tables, run.router.leaves attachName d t = true := by
  induction dbs generalizing run with
  | nil =>
    cases h
    simp
  | cons db dbs ih =>
    obtain ⟨hnew, hnodup⟩ := nodup_cons.1 hnodup
    rw [detachDatabases] at h
    split at h
    · grind
    rename_i tables hsome
    obtain ⟨⟨count, r₁⟩, hdetach, h⟩ := except_bind_ok h
    obtain ⟨hdbs₁, htables₁, rfl⟩ := detachTables_ok (hlist db tables hsome) hdetach
    -- the other databases are as before
    have hleaves (d : String) (hd : d ≠ db) (n : String) :
        r₁.leaves attachName d n = run.router.leaves attachName d n :=
      leaves_congr ((htables₁ d n).trans (if_neg fun h => hd h.1.1))
    have hrest (d n : String) :
        (if (d ∈ dbs ∧ n ∈ (considered tblList d).getD []) ∧ r₁.leaves attachName d n then none else r₁.tables d n) =
          if (d ∈ db :: dbs ∧ n ∈ (considered tblList d).getD []) ∧ run.router.leaves attachName d n then none
          else run.router.tables d n := by
      rw [htables₁]
      have := hleaves d
      grind
    simp only [filter_length_eq] at h
    split_ifs at h with hall hdrop
    · grind
    · grind

theorem dropDatabases_ok {cleared : String → Bool} {dbs : List String}
    (h : dropDatabases cleared dbs r = .ok r') : r' = dbs.foldl deleteDatabase r := by
  induction dbs generalizing r with
  | nil =>
    cases h
    rfl
  | cons db dbs ih =>
    rw [dropDatabases] at h
    split_ifs at h
    exact ih h

end Loops

/-! ## The frame -/

/-- `Router.Tables` lists the databases and their tables. -/
structure Router.Lists (r : Router) (tblList : List (String × List String)) : Prop where
  names : (tblList.map Prod.fst).Nodup
  databases : ∀ db, r.databases db = true ↔ ∃ tables, (db, tables) ∈ tblList
  nonempty : ∀ db, r.databases db = true → db ≠ ""
  nested : ∀ db table, r.databases db = false → r.tables db table = none
  tables : ∀ db tables, (db, tables) ∈ tblList →
    tables.Nodup ∧ ∀ table, table ∈ tables ↔ ∃ T, r.tables db table = some T

/-- All segments of the table are on the backend. -/
def Table.OnlyOn (T : Table) (backend : String) : Prop :=
  ∀ p, T.partition = some p → ∀ seg ∈ p.getSegments, seg.backend = backend

/-- The backend has the attach role. -/
def Cluster.IsAttached (c : Cluster) (backend : String) : Prop :=
  ∃ conf ∈ c.scatter.confs, conf.name = backend ∧ conf.role = 1

section Frame

variable (c : Cluster) (attachName : String) (createdFor : String → Option String)

/-- Attaching the backend created the database, and its tables are all there. -/
def Cluster.Own (db : String) : Prop :=
  c.IsAttached attachName ∧ createdFor db = some attachName ∧
    ∀ table T, c.router.tables db table = some T → T.OnlyOn attachName

/-- Detaching removes tables of the attached backend only, and databases that were created for it. -/
structure DetachFrame (c' : Cluster) (physical : List String) : Prop where
  tables : ∀ db table T, c.router.tables db table = some T →
    c'.router.tables db table = some T ∨ c.IsAttached attachName ∧ T.OnlyOn attachName
  databases : ∀ db, c.router.databases db = true → c'.router.databases db = true ∨ c.Own attachName createdFor db
  physical : ∀ db ∈ physical, c.Own attachName createdFor db

/-- A table whose first segment is on the backend is only there and the backend is attached. A database without
other tables was created for the backend. -/
structure Detachable (dbs : List String) : Prop where
  tables : ∀ db ∈ dbs, isSystemDB db = false → ∀ table T, c.router.tables db table = some T →
    T.firstBackend = some attachName → c.IsAttached attachName ∧ T.OnlyOn attachName
  databases : ∀ db, c.router.databases db = true →
    (∀ table T, c.router.tables db table = some T →
      (db ∈ dbs ∧ isSystemDB db = false) ∧ T.firstBackend = some attachName) →
    c.Own attachName createdFor db

end Frame

section Effect

variable {c c' : Cluster} {attachName : String} {replies : DetachReplies} {tblList : List (String × List String)}
  {dbs physical : List String} (hlist : c.router.Lists tblList)

include hlist

theorem Router.Lists.considered_iff (db : String) (tables : List String) :
    considered tblList db = some tables ↔ isSystemDB db = false ∧ (db, tables) ∈ tblList := by
  have hlookup : tblList.lookup db = some tables ↔ (db, tables) ∈ tblList := by
    have hnames := hlist.names
    clear hlist
    induction tblList with
    | nil => simp
    | cons e es ih => grind
  unfold considered
  cases isSystemDB db <;> simp [hlookup]

theorem Router.Lists.leaves_eq {db table : String} {T : Table} (h : c.router.tables db table = some T) :
    c.router.leaves attachName db table = decide (T.firstBackend = some attachName) := by
  grind [nested, nonempty, leaves, getTable]

/-- The table leaves the router with the backend. -/
theorem detachHandler_ok (hshown : replies.shown = some dbs) (hnodup : dbs.Nodup)
    (h : c.detachHandler attachName replies tblList = .ok (c', physical)) :
    (∀ db table T, c.router.tables db table = some T → (c'.router.tables db table = some T ↔
      ¬ ((db ∈ dbs ∧ isSystemDB db = false) ∧ T.firstBackend = some attachName))) ∧
    (∀ db, c.router.databases db = true → (c'.router.databases db = true ↔
      ¬ ∀ table T, c.router.tables db table = some T →
        (db ∈ dbs ∧ isSystemDB db = false) ∧ T.firstBackend = some attachName)) ∧
    ∀ db ∈ physical, c.router.databases db = true ∧ (db ∈ dbs ∧ isSystemDB db = false) ∧
      ∀ table T, c.router.tables db table = some T → T.firstBackend = some attachName := by
  unfold Cluster.detachHandler at h
  rw [hshown] at h
  obtain ⟨run, hrun, h⟩ := except_bind_ok h
  obtain ⟨r, hdrop, h⟩ := except_bind_ok h
  split_ifs at h
  cases h
  obtain rfl := dropDatabases_ok hdrop
  obtain ⟨hdbs, htables, hphysical⟩ := detachDatabases_ok (fun db tables hc =>
    (hlist.tables db tables ((hlist.considered_iff db tables).1 hc).2).1) hnodup hrun
  have hlisted {db table : String} {T : Table} (hT : c.router.tables db table = some T) :
      ∃ tables, (db, tables) ∈ tblList ∧ table ∈ tables := by
    have hdb : c.router.databases db = true := by grind [Router.Lists.nested]
    obtain ⟨tables, hmem⟩ := (hlist.databases db).1 hdb
    exact ⟨tables, hmem, ((hlist.tables db tables hmem).2 table).2 ⟨T, hT⟩⟩
  have hrest {db table : String} {T : Table} (hT : c.router.tables db table = some T) :
      run.router.tables db table =
        if (db ∈ dbs ∧ isSystemDB db = false) ∧ T.firstBackend = some attachName then none else some T := by
    obtain ⟨tables, hmem, hin⟩ := hlisted hT
    rw [htables, hlist.leaves_eq hT, hT]
    cases hsys : isSystemDB db with
    | true =>
      have hc : considered tblList db = none := if_pos hsys
      simp [hc]
    | false =>
      have hc : considered tblList db = some tables := (hlist.considered_iff db tables).2 ⟨hsys, hmem⟩
      simp [hc, hin]
  have hempty {db : String} (hdb : c.router.databases db = true) :
      db ∈ emptyDatabases run.router tblList ↔ ∀ table T, c.router.tables db table = some T →
        (db ∈ dbs ∧ isSystemDB db = false) ∧ T.firstBackend = some attachName := by
    simp only [emptyDatabases, mem_map, mem_filter, all_eq_true]
    constructor
    · rintro ⟨⟨_, tables⟩, ⟨hmem, hnone⟩, rfl⟩ table T hT
      have hgone := hnone table (((hlist.tables _ tables hmem).2 table).2 ⟨T, hT⟩)
      by_contra hstays
      rw [hrest hT, if_neg hstays] at hgone
      cases hgone
    · intro hall
      obtain ⟨tables, hmem⟩ := (hlist.databases db).1 hdb
      refine ⟨(db, tables), ⟨hmem, fun table htable => ?_⟩, rfl⟩
      obtain ⟨T, hT⟩ := ((hlist.tables db tables hmem).2 table).1 htable
      rw [hrest hT, if_pos (hall table T hT)]
      rfl
  refine ⟨fun db table T hT => ?_, fun db hdb => ?_, fun db hdb => ?_⟩
  · rw [(foldl_deleteDatabase _ _).2, hrest hT]
    split_ifs with hin hgone
    · grind [Router.Lists.databases]
    · simp [hgone]
    · simp [hgone]
  · rw [(foldl_deleteDatabase _ _).1, hdbs, ← hempty hdb]
    split_ifs with hin <;> simp [hin, hdb]
  · obtain hnil | ⟨hin, tables, hc, hall⟩ := (hphysical db).1 hdb
    · cases hnil
    obtain ⟨hsys, hmem⟩ := (hlist.considered_iff db tables).1 hc
    refine ⟨(hlist.databases db).2 ⟨tables, hmem⟩, ⟨hin, hsys⟩, fun table T hT => ?_⟩
    have hleaves := hall table (((hlist.tables db tables hmem).2 table).2 ⟨T, hT⟩)
    rw [hlist.leaves_eq hT] at hleaves
    exact of_decide_eq_true hleaves

end Effect

/-- A successful detach keeps to the frame exactly for such tables and databases. -/
theorem Cluster.detachFrame_iff {c c' : Cluster} {attachName : String} {replies : DetachReplies}
    {tblList : List (String × List String)} {dbs physical : List String} (hlist : c.router.Lists tblList)
    (hshown : replies.shown = some dbs) (hnodup : dbs.Nodup)
    (h : c.detachHandler attachName replies tblList = .ok (c', physical)) (createdFor : String → Option String) :
    DetachFrame c attachName createdFor c' physical ↔ Detachable c attachName createdFor dbs := by
  obtain ⟨htables, hdatabases, hphysical⟩ := detachHandler_ok hlist hshown hnodup h
  constructor
  · refine fun hframe => ⟨fun db hdb hsys table T hT hfirst => ?_, fun db hdb hall => ?_⟩
    · exact (hframe.tables db table T hT).resolve_left fun h => (htables db table T hT).1 h ⟨⟨hdb, hsys⟩, hfirst⟩
    · exact (hframe.databases db hdb).resolve_left fun h => (hdatabases db hdb).1 h hall
  · refine fun hcan => ⟨fun db table T hT => ?_, fun db hdb => ?_, fun db hdb => ?_⟩
    · by_cases hgone : (db ∈ dbs ∧ isSystemDB db = false) ∧ T.firstBackend = some attachName
      · exact .inr (hcan.tables db hgone.1.1 hgone.1.2 table T hT hgone.2)
      · exact .inl ((htables db table T hT).2 hgone)
    · by_cases hall : ∀ table T, c.router.tables db table = some T →
          (db ∈ dbs ∧ isSystemDB db = false) ∧ T.firstBackend = some attachName
      · exact .inr (hcan.databases db hdb hall)
      · exact .inl ((hdatabases db hdb).2 hall)
    · obtain ⟨hreg, hin, hall⟩ := hphysical db hdb
      exact hcan.databases db hreg fun table T hT => ⟨hin, hall table T hT⟩

/-- Everything succeeds. -/
def detached (dbs : List String) : DetachReplies := ⟨some dbs, fun _ _ => true, fun _ => true, fun _ => true, true⟩

/-- A proxy with an attached backend that has a table. -/
def oneAttached : Cluster :=
  (Cluster.init 4 2).step (.attach newBackend [⟨"own", true, true, [⟨"t", true, true⟩]⟩] fun _ => true)

theorem oneAttached_schemas : oneAttached.router.databases = Function.update (fun _ => false) "own" true ∧
      oneAttached.router.tables = updateEntry (fun _ _ => none) "own" "t" (some (singleTable "t" "b:3306")) :=
  ⟨rfl, rfl⟩

theorem oneAttached_lists : oneAttached.router.Lists [("own", ["t"])] := by
  obtain ⟨hdbs, htables⟩ := oneAttached_schemas
  refine ⟨by simp, fun db => ?_, fun db hdb => ?_, fun db table hdb => ?_, fun db tables h => ?_⟩
  · simp [hdbs, Function.update_apply]
  · rintro rfl
    simp [hdbs] at hdb
  · rw [htables, updateEntry, if_neg]
    rintro ⟨rfl, -⟩
    simp [hdbs] at hdb
  · simp only [mem_singleton, Prod.mk.injEq] at h
    obtain ⟨rfl, rfl⟩ := h
    simp [htables, updateEntry]

/-- Detaching it removes its table and its database. -/
theorem detach_own_backend : ∃ c' physical,
    oneAttached.detachHandler "b:3306" (detached ["own"]) [("own", ["t"])] = .ok (c', physical) ∧
      DetachFrame oneAttached "b:3306" (fun _ => some "b:3306") c' physical := by
  obtain ⟨hdbs, htables⟩ := oneAttached_schemas
  have hattached : oneAttached.IsAttached "b:3306" := ⟨newBackend, by decide +kernel, rfl, rfl⟩
  have honly (db table : String) (T : Table) (hT : oneAttached.router.tables db table = some T) :
      T.OnlyOn "b:3306" := by
    rw [htables, updateEntry] at hT
    split_ifs at hT with heq
    cases hT
    rintro p ⟨⟩ seg hseg
    obtain rfl := List.mem_singleton.1 hseg
    rfl
  have hcan : Detachable oneAttached "b:3306" (fun _ => some "b:3306") ["own"] :=
    ⟨fun db _ _ table T hT _ => ⟨hattached, honly db table T hT⟩,
      fun db _ _ => ⟨hattached, rfl, honly db⟩⟩
  have hok : (oneAttached.detachHandler "b:3306" (detached ["own"]) [("own", ["t"])]).toBool = true := by
    decide +kernel
  cases hrun : oneAttached.detachHandler "b:3306" (detached ["own"]) [("own", ["t"])] with
  | error e =>
    rw [hrun] at hok
    cases hok
  | ok e =>
    exact ⟨e.1, e.2, rfl, (Cluster.detachFrame_iff oneAttached_lists rfl (List.nodup_singleton _) hrun _).2 hcan⟩

/-- A proxy with a table on two backends and a database without tables. -/
def hashCluster : Cluster :=
  (Cluster.init 4 2).run [.addBackend ⟨"b1", "b1:3306", "", "u", "p", "", "utf8", 1024, 0⟩,
    .addBackend ⟨"b2", "b2:3306", "", "u", "p", "", "utf8", 1024, 0⟩, .createDatabase "db", .createDatabase "empty",
    .createTable true ⟨id, fun _ => .refl _⟩ "db" "t" "id" .normal]

/-- Detaching a backend that was never attached removes the table, drops its database on both backends and removes
the other database. -/
theorem detach_normal_backend :
    ¬ hashCluster.IsAttached "b1" ∧
      (hashCluster.router.lookupAll "db" "t").map (List.map Segment.backend) = .ok ["b1", "b2"] ∧
      (hashCluster.detachHandler "b1" (detached ["db"]) [("db", ["t"]), ("empty", [])]).toOption.map
        (fun e => ((e.1.router.tables "db" "t").isSome, e.2, e.1.router.databases "empty")) =
          some (false, ["db"], false) := by
  refine ⟨?_, by decide +kernel, by decide +kernel⟩
  rintro ⟨conf, hconf, hname, hrole⟩
  have hroles : ∀ conf ∈ hashCluster.scatter.confs, conf.role = 0 := by decide +kernel
  rw [hroles conf hconf] at hrole
  cases hrole

end Radon
