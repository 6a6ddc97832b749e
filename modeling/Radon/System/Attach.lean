import Radon.Proxy.Ddl
import Radon.Router.Failures
import Radon.System.Cluster

/-!
# Attaching is all or nothing

`addAttachHandler` adds the backend first, then its databases and tables one after the other. After an error it
removes the backend, the tables that it added to databases of the router and the databases that it added itself.
It keeps the tables of a database from one row of the listing only, which must not show a database twice.
-/

namespace Radon

open Metadata Proxy Relation List

/-- `Scatter.remove` of a backend that is there. -/
def Metadata.Backends.remove (b : Backends) (name : String) : Backends where
  confs := b.confs.filter fun conf => conf.name ≠ name
  names := b.names.sublist (List.filter_sublist.map _)
  addresses := b.addresses.sublist (List.filter_sublist.map _)

/-- How `addAttachHandler` ends; `FlushConfig` panics when it cannot write the backends. -/
inductive AttachEnd
  | attached
  | failed
  | panicked
  deriving DecidableEq

/-- The statements of `addAttachHandler` behind `scatter.Add`; the databases may not be shown. -/
def AttachRun.body (r : Router) (backend : String) : Option (List FoundDatabase) → Bool × AttachRun
  | none => (false, ⟨r, [], ∅⟩)
  | some dbs => addDatabases r.databases backend (dbs.filter fun d => !isSystemDB d.name) ⟨r, [], ∅⟩

/-- `Attach.addAttachHandler` with its deferred function. -/
def Cluster.addAttachHandler (c : Cluster) (conf : BackendConfig) (shown : Option (List FoundDatabase))
    (removed : String × String → Bool) (flushed : Bool) : AttachEnd × Cluster :=
  match c.scatter.add { conf with role := 1 } with
  | .error _ => (.failed, c)
  | .ok scatter =>
    match AttachRun.body c.router conf.name shown with
    | (true, run) => (if flushed then .attached else .panicked, ⟨run.router, scatter⟩)
    | (false, run) => (.failed, ⟨run.rollback removed, scatter.remove conf.name⟩)

/-- A single table on a backend. -/
def singleTable (table backend : String) : Table :=
  let parts : List PartitionConfig := [⟨table, "", backend, ""⟩]
  ⟨table, "", some (.single (plainSegments .single 0 parts)), ⟨table, 0, 0, .single, "", parts⟩⟩

section Step

variable {r r' : Router} {written : Bool} {db table backend : String}

theorem createSingle_ok (h : r.step (.createSingleTable written db table [backend]) = (none, r')) :
    (r.databases db = true ∧ r.tables db table = none) ∧ r'.databases = r.databases ∧
      r'.tables = updateEntry r.tables db table (some (singleTable table backend)) := by
  replace h : r.create written db table (singleUniform table [backend]) = (none, r') := h
  unfold singleUniform Router.create Router.createTable at h
  by_cases hname : table = ""
  · rw [if_pos hname] at h
    cases h
  rw [if_neg hname] at h
  simp only at h
  split at h
  · cases h
  split at h
  · cases h
  rename_i hadd
  obtain ⟨hdb, hnone, p, hbuild, rfl⟩ := Router.addTable_ok hadd
  split at h
  · cases h
    cases hbuild
    exact ⟨⟨hdb, hnone⟩, rfl, rfl⟩
  · cases h

theorem createSingle_failed {e : String}
    (h : r.step (.createSingleTable written db table [backend]) = (some e, r')) : r.SameSchemas r' := by
  obtain ⟨hname, hbuilt⟩ := plain_uniform r db fun c (hc : singleUniform table [backend] = .ok c) => by
    obtain ⟨hname, htype, -⟩ := singleUniform_ok hc
    exact ⟨hname, by rw [htype]; exact MethodType.noConfusion⟩
  have herror : (r.create written db table (singleUniform table [backend])).1 ≠ none := by
    rw [show r.create _ _ _ _ = _ from h]
    exact Option.some_ne_none e
  have hsame := (Router.create_same_iff hname herror).2 hbuilt
  rwa [show r.create _ _ _ _ = _ from h] at hsame

/-- The table is gone from the router, also if its file cannot be removed. -/
theorem dropTable_step (r : Router) (removed : Bool) (db table : String) :
    (r.step (.dropTable removed db table)).2.databases = r.databases ∧
      (r.step (.dropTable removed db table)).2.tables = updateEntry r.tables db table none := by
  simp only [Router.step]
  split
  · grind [updateEntry]
  · split <;> exact ⟨rfl, rfl⟩

theorem foldl_deleteDatabase (dbs : List String) (r : Router) :
    (∀ d, (dbs.foldl deleteDatabase r).databases d = if d ∈ dbs then false else r.databases d) ∧
      ∀ d n, (dbs.foldl deleteDatabase r).tables d n = if d ∈ dbs then none else r.tables d n := by
  induction dbs generalizing r with
  | nil => simp
  | cons db dbs ih =>
    simp only [foldl_cons, ih, deleteDatabase, mem_cons, Function.update_apply, ite_apply]
    grind

end Step

/-- The tables of a database that are to be undone. -/
def AttachRun.created (run : AttachRun) (db : String) : List String := (run.attachTableList.lookup db).getD []

/-- The router has grown by what is to be undone. -/
structure AttachRun.Grown (r : Router) (backend : String) (run : AttachRun) : Prop where
  databases : ∀ db, run.router.databases db = true ↔ r.databases db = true ∨ db ∈ run.routeDBs
  added : ∀ db ∈ run.routeDBs, r.databases db = false
  tables : ∀ db table, run.router.tables db table =
    if table ∈ run.created db then some (singleTable table backend) else r.tables db table
  created : ∀ db, ∀ table ∈ run.created db, r.tables db table = none

namespace AttachRun

section Grown

variable {r : Router} {backend db : String} {ts : List FoundTable} {tables : List String} {run run' : AttachRun}
  {tblList : String → Bool} {d : FoundDatabase} {ds : List FoundDatabase}

/-- Nothing is to be undone at the start. -/
theorem Grown.start (r : Router) (backend : String) : Grown r backend ⟨r, [], ∅⟩ :=
  ⟨by simp, by simp, fun db table => if_neg (by simp [AttachRun.created]) |>.symm, by simp [AttachRun.created]⟩

/-- The entry of one database is overwritten. -/
theorem created_insert (run : AttachRun) (r : Router) (db : String) (tables : List String) (d : String) :
    created { run with router := r, attachTableList := run.attachTableList.insert db tables } d =
      if d = db then tables else run.created d := by
  unfold created
  split_ifs with heq
  · rw [heq, AList.lookup_insert]
    rfl
  · rw [AList.lookup_insert_ne heq]

/-- The loop over the tables of a database that has no entry yet. -/
theorem addTables_grown (ts : List FoundTable) (h : run.Grown r backend) (htables : run.created db = tables) :
    (addTables backend db ts tables run).2.Grown r backend := by
  induction ts generalizing tables run with
  | nil => exact h
  | cons t ts ih =>
    rw [addTables]
    split_ifs
    · split
      · rename_i r' heq
        obtain ⟨⟨-, hnone⟩, hdbs, hnew⟩ := createSingle_ok heq
        have hcreated := created_insert run r' db (tables ++ [t.name])
        rw [h.tables, htables] at hnone
        split_ifs at hnone with hmem
        refine ih ⟨hdbs ▸ h.databases, h.added, fun d n => ?_, fun d n hn => ?_⟩ ((hcreated db).trans (if_pos rfl))
        · have hrouter : r'.tables d n = updateEntry run.router.tables db t.name (some (singleTable t.name backend)) d n :=
            congrFun (congrFun hnew d) n
          rw [hcreated, show AttachRun.router _ = r' from rfl, hrouter, updateEntry, h.tables]
          by_cases hd : d = db
          · rw [if_pos hd, hd, htables]
            by_cases hn : n = t.name
            · simp [hn]
            · simp [hn]
          · rw [if_neg hd, if_neg fun heq => hd heq.1]
        · rw [hcreated] at hn
          split_ifs at hn with hd
          · rcases mem_append.1 hn with hn | hn
            · exact h.created d n (by rwa [hd, htables])
            · rw [hd, mem_singleton.1 hn]
              exact hnone
          · exact h.created d n hn
      · rename_i heq
        obtain ⟨hdbs, hsame⟩ := createSingle_failed heq
        exact ⟨hdbs ▸ h.databases, h.added, hsame ▸ h.tables, h.created⟩
    · exact h

/-- The loop over the tables of a database leaves the entries of the others. -/
theorem addTables_created (backend : String) (ts : List FoundTable) (tables : List String) (run : AttachRun)
    {other : String} (hne : other ≠ db) :
    (addTables backend db ts tables run).2.created other = run.created other := by
  induction ts generalizing tables run with
  | nil => rfl
  | cons t ts ih =>
    rw [addTables]
    split_ifs
    · split
      · rw [ih, created_insert, if_neg hne]
      · rfl
    · rfl

/-- A database that is new to the router. -/
theorem addDatabase_grown (tblList : String → Bool) (d : FoundDatabase) (h : run.Grown r backend) :
    (run.addDatabase tblList d).2.Grown r backend := by
  unfold addDatabase
  split_ifs
  · exact h
  · split
    · rename_i r' heq
      unfold Metadata.addDatabase at heq
      split_ifs at heq with hempty hknown
      cases heq
      rw [h.databases, not_or, Bool.not_eq_true] at hknown
      refine ⟨fun db => ?_, fun db hdb => ?_, h.tables, h.created⟩
      · change Function.update run.router.databases d.name true db = true ↔ _
        by_cases heq : db = d.name
        · simp [heq]
        · simp [heq, h.databases]
      · rcases mem_append.1 hdb with hdb | hdb
        · exact h.added db hdb
        · rw [mem_singleton.1 hdb]
          exact hknown.1
    · exact h
  · exact h

/-- A new database has no entry for its tables. -/
theorem addDatabase_created (run : AttachRun) (tblList : String → Bool) (d : FoundDatabase) (db : String) :
    (run.addDatabase tblList d).2.created db = run.created db := by
  unfold addDatabase
  split_ifs
  · rfl
  · split <;> rfl
  · rfl

/-- The loop over databases that are listed once and have no entry yet. -/
theorem addDatabases_grown (tblList : String → Bool) (h : run.Grown r backend) (hnodup : (ds.map FoundDatabase.name).Nodup)
    (hfresh : ∀ d ∈ ds, run.created d.name = []) : (addDatabases tblList backend ds run).2.Grown r backend := by
  induction ds generalizing run with
  | nil => exact h
  | cons d ds ih =>
    obtain ⟨hnotin, hnodup⟩ := nodup_cons.1 hnodup
    have hgrown := addDatabase_grown tblList d h
    have hcreated := addDatabase_created run tblList d
    rw [addDatabases]
    split <;> rename_i run' heq <;> rw [heq] at hgrown hcreated
    · exact hgrown
    · have hnext := addTables_grown d.tables hgrown ((hcreated d.name).trans (hfresh d mem_cons_self))
      split_ifs
      · split <;> rename_i run'' heq' <;> rw [heq'] at hnext
        · exact hnext
        · refine ih hnext hnodup fun e he => ?_
          have hne : e.name ≠ d.name := fun heq => hnotin (heq ▸ mem_map_of_mem he)
          have hkept := addTables_created backend d.tables [] run' hne
          rw [heq'] at hkept
          rw [hkept, hcreated]
          exact hfresh e (mem_cons_of_mem _ he)
      · exact hgrown

/-- A loop over tables that goes on to its end has added all of them. -/
theorem addTables_true (h : addTables backend db ts tables run = (true, run')) (htables : run.created db = tables) :
    run'.routeDBs = run.routeDBs ∧ run'.created db = tables ++ ts.map FoundTable.name := by
  induction ts generalizing tables run with
  | nil =>
    cases h
    simp [htables]
  | cons t ts ih =>
    rw [addTables] at h
    split_ifs at h
    · split at h
      · obtain ⟨hdbs, hcreated⟩ := ih h ((created_insert run _ db _ db).trans (if_pos rfl))
        refine ⟨hdbs, ?_⟩
        rw [hcreated, append_assoc]
        rfl
      · cases h
    · cases h

/-- A database that is there or was added. -/
theorem addDatabase_true (h : run.addDatabase tblList d = (true, run')) (db : String) :
    tblList db = true ∨ db ∈ run'.routeDBs ↔ tblList db = true ∨ db ∈ run.routeDBs ∨ db = d.name := by
  unfold addDatabase at h
  split_ifs at h with hknown
  · cases h
    constructor
    · rintro (hdb | hdb)
      · exact .inl hdb
      · exact .inr (.inl hdb)
    · rintro (hdb | hdb | rfl)
      · exact .inl hdb
      · exact .inr hdb
      · exact .inl hknown
  · split at h
    · cases h
      simp
    · cases h
  · cases h

/-- A pass that goes on to its end has all the databases and tables. -/
theorem addDatabases_true (h : addDatabases tblList backend ds run = (true, run'))
    (hnodup : (ds.map FoundDatabase.name).Nodup) (hfresh : ∀ d ∈ ds, run.created d.name = []) :
    (∀ db, tblList db = true ∨ db ∈ run'.routeDBs ↔
      tblList db = true ∨ db ∈ run.routeDBs ∨ db ∈ ds.map FoundDatabase.name) ∧
      ∀ db table, table ∈ run'.created db ↔
        table ∈ run.created db ∨ ∃ d ∈ ds, d.name = db ∧ table ∈ d.tables.map FoundTable.name := by
  induction ds generalizing run with
  | nil =>
    cases h
    simp
  | cons d ds ih =>
    obtain ⟨hnotin, hnodup⟩ := nodup_cons.1 hnodup
    have hcreated := addDatabase_created run tblList d
    rw [addDatabases] at h
    split at h
    · cases h
    rename_i run₁ hdatabase
    split_ifs at h
    · split at h
      · cases h
      rename_i run₂ hadd
      rw [hdatabase] at hcreated
      obtain ⟨hdbs₁, hcreated₁⟩ := addTables_true hadd ((hcreated d.name).trans (hfresh d mem_cons_self))
      have hother {other : String} (hne : other ≠ d.name) : run₂.created other = run.created other := by
        have hkept := addTables_created backend d.tables [] run₁ hne
        rw [hadd] at hkept
        exact hkept.trans (hcreated other)
      obtain ⟨hdbs, htables⟩ := ih h hnodup fun e he =>
        (hother fun heq => hnotin (heq ▸ mem_map_of_mem he)).trans (hfresh e (mem_cons_of_mem _ he))
      refine ⟨fun db => ?_, fun db table => ?_⟩
      · have hfirst := addDatabase_true hdatabase db
        rw [hdbs, hdbs₁, map_cons, mem_cons, ← or_assoc, hfirst]
        tauto
      · rw [htables, exists_mem_cons_iff]
        by_cases heq : db = d.name
        · rw [heq, hcreated₁, hfresh d mem_cons_self]
          simp
        · rw [hother heq]
          simp [Ne.symm heq]
    · cases h

end Grown

/-- The entries of all databases are dropped. -/
theorem foldl_dropTables (removed : String × String → Bool) (es : List (Sigma fun _ : String => List String))
    (r : Router) : (es.foldl (fun r e => dropTables removed e.1 r e.2) r).databases = r.databases ∧
      ∀ d n, (es.foldl (fun r e => dropTables removed e.1 r e.2) r).tables d n =
        if ∃ e ∈ es, e.1 = d ∧ n ∈ e.2 then none else r.tables d n := by
  have hdrop (db : String) (tables : List String) (r : Router) :
      (dropTables removed db r tables).databases = r.databases ∧ ∀ d n,
        (dropTables removed db r tables).tables d n = if d = db ∧ n ∈ tables then none else r.tables d n := by
    induction tables generalizing r with
    | nil => simp [dropTables]
    | cons table tables ih =>
      obtain ⟨hdbs, htables⟩ := ih (r.step (.dropTable (removed (db, table)) db table)).2
      have hstep := dropTable_step r (removed (db, table)) db table
      refine ⟨hdbs.trans hstep.1, fun d n => (htables d n).trans ?_⟩
      rw [hstep.2, updateEntry]
      grind
  induction es generalizing r with
  | nil => simp
  | cons e es ih =>
    obtain ⟨hdbs, htables⟩ := ih (dropTables removed e.1 r e.2)
    refine ⟨hdbs.trans (hdrop _ _ _).1, fun d n => (htables d n).trans ?_⟩
    rw [(hdrop _ _ _).2]
    by_cases hself : d = e.1 ∧ n ∈ e.2
    · rw [if_pos hself, ite_self, if_pos ⟨e, mem_cons_self, hself.1.symm, hself.2⟩]
    · have hrest : (∃ x ∈ e :: es, x.1 = d ∧ n ∈ x.2) ↔ ∃ x ∈ es, x.1 = d ∧ n ∈ x.2 := by
        rw [exists_mem_cons_iff]
        exact or_iff_right fun h => hself ⟨h.1.symm, h.2⟩
      simp only [if_neg hself, hrest]

/-- The databases and tables of the router after the rollback are those of the start. -/
theorem Grown.rollback {r : Router} {backend : String} {run : AttachRun} (h : Grown r backend run)
    (hnested : ∀ db table, r.databases db = false → r.tables db table = none) (removed : String × String → Bool) :
    r.SameSchemas (run.rollback removed) := by
  have hentry (d n : String) : (∃ e ∈ run.attachTableList.entries.filter (fun e => e.1 ∉ run.routeDBs),
      e.1 = d ∧ n ∈ e.2) ↔ d ∉ run.routeDBs ∧ n ∈ run.created d := by
    unfold AttachRun.created
    constructor
    · rintro ⟨⟨d, tables⟩, he, rfl, hn⟩
      obtain ⟨hmem, hnew⟩ := mem_filter.1 he
      rw [AList.mem_lookup_iff.2 hmem]
      exact ⟨of_decide_eq_true hnew, hn⟩
    · rintro ⟨hnew, hn⟩
      cases hlookup : run.attachTableList.lookup d with
      | none => simp [hlookup] at hn
      | some tables =>
        rw [hlookup] at hn
        exact ⟨⟨d, tables⟩, mem_filter.2 ⟨AList.mem_lookup_iff.1 hlookup, decide_eq_true hnew⟩, rfl, hn⟩
  unfold AttachRun.rollback
  constructor
  · funext d
    rw [(foldl_deleteDatabase _ _).1, (foldl_dropTables _ _ _).1]
    have hdbs := h.databases d
    split_ifs with hmem
    · exact (h.added d hmem).symm
    · rw [Bool.eq_iff_iff, hdbs]
      simp [hmem]
  · funext d n
    rw [(foldl_deleteDatabase _ _).2, (foldl_dropTables _ _ _).2, h.tables]
    split_ifs with hmem hdropped hcreated
    · exact (hnested d n (h.added d hmem)).symm
    · exact (h.created d n ((hentry d n).1 hdropped).2).symm
    · exact absurd ((hentry d n).2 ⟨hmem, hcreated⟩) hdropped
    · rfl

end AttachRun

/-- The tables that the backend shows in databases that are not system databases. -/
def Listed (dbs : List FoundDatabase) (db table : String) : Prop :=
  ∃ d ∈ dbs, isSystemDB d.name = false ∧ d.name = db ∧ table ∈ d.tables.map FoundTable.name

/-- The backend, its databases and their tables as single tables are added, and nothing else. -/
structure Attached (c : Cluster) (conf : BackendConfig) (dbs : List FoundDatabase) (c' : Cluster) : Prop where
  backends : c'.scatter.confs = c.scatter.confs ++ [{ conf with role := 1 }]
  databases : ∀ db, c'.router.databases db = true ↔
    c.router.databases db = true ∨ ∃ d ∈ dbs, isSystemDB d.name = false ∧ d.name = db
  tables : ∀ db table, Listed dbs db table →
    c.router.tables db table = none ∧ c'.router.tables db table = some (singleTable table conf.name)
  others : ∀ db table, ¬ Listed dbs db table → c'.router.tables db table = c.router.tables db table

theorem Metadata.Backends.add_ok {b b' : Backends} {conf : BackendConfig} (h : b.add conf = .ok b') :
    b'.confs = b.confs ++ [conf] ∧ b'.remove conf.name = b := by
  unfold Metadata.Backends.add at h
  split_ifs at h with hname haddress
  cases h
  have hconfs : (b.confs ++ [conf]).filter (fun c => c.name ≠ conf.name) = b.confs := by simp_all
  refine ⟨rfl, ?_⟩
  cases b
  simpa only [Backends.remove, Backends.mk.injEq] using hconfs

section Handler

variable {c c' : Cluster} {conf : BackendConfig} {removed : String × String → Bool} {flushed : Bool}

/-- An attempt that returns an error leaves the databases, the tables and the backends as they were; one that
succeeds adds what the backend shows. -/
theorem Cluster.addAttachHandler_exact
    (hnested : ∀ db table, c.router.databases db = false → c.router.tables db table = none)
    {shown : Option (List FoundDatabase)} (hnodup : ∀ dbs, shown = some dbs → (dbs.map FoundDatabase.name).Nodup)
    {result : AttachEnd} (h : c.addAttachHandler conf shown removed flushed = (result, c')) :
    (result = .failed → c.router.SameSchemas c'.router ∧ c'.scatter = c.scatter) ∧
      (result = .attached → ∃ dbs, shown = some dbs ∧ Attached c conf dbs c') := by
  unfold Cluster.addAttachHandler at h
  split at h
  · cases h
    exact ⟨fun _ => ⟨⟨rfl, rfl⟩, rfl⟩, AttachEnd.noConfusion⟩
  rename_i hadd
  obtain ⟨hconfs, hremove⟩ := Backends.add_ok hadd
  have honce {dbs : List FoundDatabase} (hshown : shown = some dbs) :
      ((dbs.filter fun d => !isSystemDB d.name).map FoundDatabase.name).Nodup :=
    (hnodup dbs hshown).sublist (filter_sublist.map _)
  have hgrown (run : AttachRun) {more : Bool} (hbody : AttachRun.body c.router conf.name shown = (more, run)) :
      run.Grown c.router conf.name := by
    cases shown with
    | none =>
      cases hbody
      exact .start _ _
    | some dbs =>
      have hrun := AttachRun.addDatabases_grown c.router.databases (.start c.router conf.name)
        (honce rfl) fun _ _ => rfl
      rwa [show AttachRun.addDatabases _ _ _ _ = _ from hbody] at hrun
  split at h
  · rename_i run hbody
    have hrun := hgrown run hbody
    cases h
    refine ⟨fun hfailed => ?_, fun _ => ?_⟩
    · split_ifs at hfailed
    cases shown with
    | none => cases hbody
    | some dbs =>
      obtain ⟨hdbs, htables⟩ := AttachRun.addDatabases_true (show AttachRun.addDatabases _ _ _ _ = _ from hbody)
        (honce rfl) fun _ _ => rfl
      have hlisted (db table : String) : table ∈ run.created db ↔ Listed dbs db table := by
        rw [htables, or_iff_right (by simp [AttachRun.created])]
        simp [Listed, and_assoc]
      refine ⟨dbs, rfl, hconfs, fun db => ?_, fun db table hl => ?_, fun db table hl => ?_⟩
      · rw [hrun.databases, hdbs]
        simp [and_assoc]
      · have hmem := (hlisted db table).2 hl
        exact ⟨hrun.created _ _ hmem, (hrun.tables db table).trans (if_pos hmem)⟩
      · exact (hrun.tables db table).trans (if_neg (hl ∘ (hlisted db table).1))
  · rename_i run hbody
    have hrun := hgrown run hbody
    cases h
    exact ⟨fun _ => ⟨hrun.rollback hnested removed, hremove⟩, AttachEnd.noConfusion⟩

end Handler

/-- A proxy with a database. -/
def oneDatabase : Cluster := (Cluster.init 4 2).step (.createDatabase "db")

/-- A backend to attach. -/
def newBackend : BackendConfig := ⟨"b:3306", "b:3306", "", "u", "p", "", "utf8", 1024, 1⟩

/-- The backend shows a table in the database of the router and a database of its own, whose tables it may show. -/
def shownDatabases (listed : Bool) : List FoundDatabase :=
  [⟨"db", true, true, [⟨"t", true, true⟩]⟩, ⟨"own", true, listed, []⟩]

/-- Where the error comes, the table and the database are in the router, and they are gone afterwards. Without an
error they stay. -/
theorem attach_undone_or_done :
    ((AttachRun.body oneDatabase.router "b:3306" (some (shownDatabases false))).2.created "db" = ["t"] ∧
      oneDatabase.router.SameSchemas
        (oneDatabase.addAttachHandler newBackend (some (shownDatabases false)) (fun _ => true) true).2.router) ∧
      Attached oneDatabase newBackend (shownDatabases true)
        (oneDatabase.addAttachHandler newBackend (some (shownDatabases true)) (fun _ => true) true).2 := by
  have hnodup (listed : Bool) (dbs : List FoundDatabase) (h : some (shownDatabases listed) = some dbs) :
      (dbs.map FoundDatabase.name).Nodup := by
    cases h
    simp [shownDatabases]
  have hfailed : oneDatabase.addAttachHandler newBackend (some (shownDatabases false)) (fun _ => true) true =
      (.failed, _) := Prod.ext (by decide +kernel) rfl
  have hattached : oneDatabase.addAttachHandler newBackend (some (shownDatabases true)) (fun _ => true) true =
      (.attached, _) := Prod.ext (by decide +kernel) rfl
  refine ⟨⟨by decide +kernel, ?_⟩, ?_⟩
  · exact ((Cluster.addAttachHandler_exact (fun _ _ _ => rfl) (hnodup false) hfailed).1 rfl).1
  · obtain ⟨dbs, hdbs, hexact⟩ := (Cluster.addAttachHandler_exact (fun _ _ _ => rfl) (hnodup true) hattached).2 rfl
    cases hdbs
    exact hexact

end Radon
