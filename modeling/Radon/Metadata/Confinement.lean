import Radon.Metadata.Frm
import Radon.Router.PartitionSpec

/-!
# The operations of the router stay inside its metadata directory

The router refuses names with a slash, so that a database is one element of a path. The elements `.` and
`..` pass its check: a database of such a name is the metadata directory itself or the directory above,
and dropping it removes that directory. A database with the name of a file in the metadata directory has no
directory either, and dropping it removes the file. All other names lead to a directory of their own.
-/

namespace Radon.Metadata

open Concurrency FileSystem FileSystem.Location

/-! ## Confined calls -/

/-- The path that a call creates, overwrites or removes. -/
def OsCall.target : OsCall → Option (List Char)
  | .now | .stat _ => none
  | .mkdirAll path | .writeFile path _ | .remove path | .removeAll path => some path

/-- A path to a place below the metadata directory. -/
def StrictlyInside (metadir path : List Char) : Prop :=
  ∃ ns ≠ [], resolve path = (resolve metadir).down ns

/-- A path to the directory of a database in the metadata directory, where no file lies, or to a place below
it. Nothing can be changed below a file. -/
def InDatabase (files : Location → Prop) (metadir : List Char) (db : String) (path : List Char) : Prop :=
  ∃ (n : Name) (ns : List Name), n.1 = db.toList ∧ resolve path = (resolve metadir).down (n :: ns) ∧
    (ns = [] → ¬ files (resolve path))

/-- The new version that an operation leaves. -/
def WritesVersion (metadir : List Char) : OsCall → Prop
  | .writeFile path (.version _) => path = join metadir versionJSONFile
  | _ => False

/-- A call that changes nothing but the directory of a database and the version. -/
def Confined (files : Location → Prop) (metadir : List Char) (db : String) (c : OsCall) : Prop :=
  ∀ path ∈ c.target, StrictlyInside metadir path ∧ (WritesVersion metadir c ∨ InDatabase files metadir db path)

/-- The replies while the metadata directory is there: it is found, and so are all above it and the files. -/
def Standing (files : Location → Prop) (metadir : List Char) : (c : OsCall) → c.Res → Prop
  | .stat path, found => (∃ k, resolve path = up^[k] (resolve metadir)) ∨ files (resolve path) → found = true
  | _, _ => True

/-- The calls are confined while the metadata directory and the files are there. -/
def confinement (files : Location → Prop) (metadir : List Char) (db : String) :
    Monitor OsCall OsCall.Res Unit where
  permits c _ := Confined files metadir db c
  replies := Standing files metadir
  record _ _ h := h

/-- All calls of an operation are confined, where files lie at some places. -/
def FrmOp.Confined (files : Location → Prop) (metadir : List Char) (r : Router) (op : FrmOp) : Prop :=
  (op.frm metadir r).Obeys (confinement files metadir op.database) (fun _ _ => True) ()

/-! ## Accepted operations -/

/-- `createTable` goes on to write the file. -/
def acceptsTable (r : Router) (db table : String) (conf : TableConfig) : Bool :=
  table.utf8ByteSize + 5 ≤ 64 && !checkNameInvalid table && (r.addTable db conf).1 = none

/-- A table is created from a configuration that could be computed. -/
def acceptsFrom (r : Router) (db table : String) : Except String TableConfig → Bool
  | .error _ => false
  | .ok conf => acceptsTable r db table conf

/-- The router accepts the names of an operation. -/
def FrmOp.accepted (r : Router) : FrmOp → Bool
  | .createDatabase db => db.utf8ByteSize ≤ 64 && !checkNameInvalid db && db ≠ "" && !r.databases db
  | .dropDatabase db => r.databases db
  | .createHashTable db table shardKey backends partitionNum =>
    acceptsFrom r db table (r.hashUniform table shardKey backends partitionNum)
  | .createListTable order db table shardKey defs =>
    acceptsFrom r db table (listUniform order table shardKey defs)
  | .createGlobalTable db table backends => acceptsFrom r db table (globalUniform table backends)
  | .createSingleTable db table backends => acceptsFrom r db table (singleUniform table backends)
  | .dropTable db table => r.databases db && (r.tables db table).isSome
  | .renameTable db fromTable toTable =>
    match getRenameTableConfig r db fromTable toTable with
    | .error _ => false
    | .ok (conf, r) => acceptsTable r db toTable conf

/-- An accepted operation on a database whose name leads out of its directory, or that drops a database at
whose path a file lies. A database of such a name is created without a call, since something is there. -/
def FrmOp.Escapes (files : Location → Prop) (metadir : List Char) (r : Router) (op : FrmOp) : Prop :=
  op.accepted r = true ∧ op ≠ .createDatabase op.database ∧
    (op.database = "." ∨ op.database = ".." ∨
      op = .dropDatabase op.database ∧ files (resolve (join metadir op.database.toList)))

/-! ## Names in the router -/

/-- The names of the databases and tables that the router knows are single elements of a path. -/
structure Named (r : Router) : Prop where
  database : ∀ {db}, r.databases db = true → db ≠ "" ∧ '/' ∉ db.toList
  table : ∀ {db t}, (r.tables db t).isSome → r.databases db = true ∧ '/' ∉ t.toList

/-- The routers that a sequence of operations leads to, whatever the operating system replies. -/
inductive Reachable (metadir : List Char) : Router → Prop
  | init (slots blocks : ℕ) : Reachable metadir (Router.init slots blocks)
  | step {r r' : Router} {op : FrmOp} {e : Option String} (h : Reachable metadir r)
      (hop : (op.frm metadir r).Yields (e, r')) : Reachable metadir r'

theorem slash_notMem_of_valid {name : String} (h : checkNameInvalid name = false) : '/' ∉ name.toList := by
  intro hmem
  have := List.any_eq_false.1 h '/' hmem
  simp at this

theorem Named.init (slots blocks : ℕ) : Named (Router.init slots blocks) :=
  ⟨fun h => by simp [Router.init] at h, fun h => by simp [Router.init] at h⟩

variable {conf : TableConfig} {table : String} {backends : List String}
    {Q : Option String × Router → Unit → Prop}

section Named

variable {r : Router}

variable {db : String}

theorem Named.addDatabase {r' : Router} (hr : Named r)
    (hslash : '/' ∉ db.toList) (h : addDatabase r db = .ok r') : Named r' := by
  unfold Metadata.addDatabase at h
  split_ifs at h with hempty hthere
  cases h
  refine ⟨fun {d} hd => ?_, fun {d t} ht => ?_⟩
  · grind [database]
  · grind [table]

theorem Named.deleteDatabase (hr : Named r) (db : String) : Named (deleteDatabase r db) := by
  refine ⟨fun {d} hd => ?_, fun {d t} ht => ?_⟩
  · by_cases heq : d = db
    · simp [Metadata.deleteDatabase, heq] at hd
    · exact hr.database (by simpa [Metadata.deleteDatabase, heq] using hd)
  · by_cases heq : d = db
    · simp [Metadata.deleteDatabase, heq] at ht
    · simp only [Metadata.deleteDatabase, Function.update_of_ne heq] at ht ⊢
      exact hr.table ht

/-- A table under a good name, or none, keeps the names good. -/
theorem Named.putTable {name : String} {x : Option Table} (hr : Named r)
    (hx : x.isSome → r.databases db = true ∧ '/' ∉ name.toList) : Named (r.putTable db name x) := by
  refine ⟨hr.database, fun {d t} ht => ?_⟩
  simp only [Router.putTable, updateEntry] at ht
  split_ifs at ht with heq
  · obtain ⟨rfl, rfl⟩ := heq
    exact hx ht
  · exact hr.table ht

theorem Named.addTable (hr : Named r)
    (hname : '/' ∉ conf.name.toList) : Named (r.addTable db conf).2 := by grind [putTable, Router.addTable]

end Named

/-! ## The name and the slots of a new configuration -/

/-- The configuration has the name of the table, and slots if they are hashed. -/
def Fits (table : String) (conf : TableConfig) : Prop := conf.name = table ∧ (conf.shardType = .hash → conf.slots ≠ 0)

theorem hashUniform_fits {r : Router} {shardkey : String} {partitionNum : Option SQLVal}
    (h : r.hashUniform table shardkey backends partitionNum = .ok conf) : Fits table conf := by
  obtain ⟨-, -, hslots, -, rfl⟩ := hashUniform_eq h
  exact ⟨rfl, fun _ => Nat.ne_zero_of_lt hslots⟩

theorem listUniform_fits {order : ListOrder} {shardkey : String} {defs : List PartitionDefinition}
    (h : listUniform order table shardkey defs = .ok conf) : Fits table conf := by
  obtain ⟨m, -, -, rfl⟩ := listUniform_ok h
  exact ⟨rfl, nofun⟩

theorem globalUniform_fits (h : globalUniform table backends = .ok conf) : Fits table conf := by
  obtain ⟨-, rfl⟩ := globalUniform_eq h
  exact ⟨rfl, nofun⟩

theorem singleUniform_fits (h : singleUniform table backends = .ok conf) : Fits table conf := by
  obtain ⟨backend, -, rfl⟩ := singleUniform_eq h
  exact ⟨rfl, nofun⟩

/-! ## The calls of an operation -/

section Calls

variable {M : Monitor OsCall OsCall.Res Unit} {metadir : List Char} {db table : String}
  {conf : TableConfig} {r : Router}

/-- The calls that every operation may make: to read the clock, to look for a file, and to write the
version. -/
structure Basic (M : Monitor OsCall OsCall.Res Unit) (metadir : List Char) : Prop where
  now : M.permits .now ()
  stat : ∀ path, M.permits (.stat path) ()
  version : ∀ ts, M.permits (.writeFile (join metadir versionJSONFile) (.version ts)) ()

theorem Basic.obeys_updateVersion (hM : Basic M metadir) {Q : Option String → Unit → Prop}
    (hQ : ∀ e, Q e ()) : (updateVersion metadir).Obeys M Q () :=
  ⟨hM.now, fun ts _ => ⟨hM.version ts, fun e _ => hQ e⟩⟩

theorem Basic.obeys_finish (hM : Basic M metadir) {err : Option String} {failed done : Router}
    (hfailed : ∀ e, Q (some e, failed) ())
    (hdone : ∀ e, Q (e, done) ()) : (finish metadir err failed done).Obeys M Q () := by
  cases err with
  | some e => exact hfailed e
  | none => exact (Prog.obeys_bind _ _ _ _).2 (hM.obeys_updateVersion fun e => hdone e)

theorem Basic.obeys_writeDatabaseFrmData (hM : Basic M metadir) {Q : Option String → Unit → Prop}
    (hmkdir : M.replies (.stat (join metadir db.toList)) false →
      M.permits (.mkdirAll (join metadir db.toList)) ()) (hQ : ∀ e, Q e ()) :
    (writeDatabaseFrmData metadir db).Obeys M Q () := by
  refine (Prog.obeys_bind _ _ _ _).2 ⟨hM.stat _, fun (found : Bool) hfound => ?_⟩
  cases found with
  | true => exact hQ none
  | false => exact ⟨hmkdir hfound, fun e _ => hQ e⟩

theorem obeys_createDatabase (hM : Basic M metadir) (hr : Named r)
    (hmkdir : '/' ∉ db.toList → M.replies (.stat (join metadir db.toList)) false →
      M.permits (.mkdirAll (join metadir db.toList)) ()) :
    (createDatabase metadir db r).Obeys M (fun out _ => Named out.2) () := by
  unfold createDatabase
  split_ifs with hlong hinvalid
  · exact hr
  · exact hr
  · have hslash := slash_notMem_of_valid (Bool.eq_false_of_not_eq_true hinvalid)
    split
    · exact hr
    · rename_i r' hadd
      have hr' := hr.addDatabase hslash hadd
      rw [Prog.obeys_bind]
      refine hM.obeys_writeDatabaseFrmData (hmkdir hslash) fun err => ?_
      exact hM.obeys_finish (fun _ => hr'.deleteDatabase db) fun _ => hr'

theorem obeys_dropDatabase (hM : Basic M metadir) (hr : Named r)
    (hremove : r.databases db = true → M.permits (.removeAll (join metadir db.toList)) ()) :
    (dropDatabase metadir db r).Obeys M (fun out _ => Named out.2) () := by
  unfold dropDatabase
  split_ifs with hdb
  · rw [Prog.obeys_bind]
    have hr' := hr.deleteDatabase db
    refine ⟨hremove hdb, fun err _ => ?_⟩
    exact hM.obeys_finish (fun _ => hr') fun _ => hr'
  · exact hr

/-- The file of a table is written when the table is accepted. -/
theorem createTable_of_accepts (h : acceptsTable r db table conf = true) : createTable metadir db table conf r = (do
      let err ← writeTableFrmData metadir db table conf
      finish metadir err ((r.addTable db conf).2.removeTable db table) (r.addTable db conf).2) := by
  simp only [acceptsTable, Bool.and_eq_true, decide_eq_true_eq, Bool.not_eq_true'] at h
  obtain ⟨⟨hlong, hinvalid⟩, hadd⟩ := h
  rw [createTable, if_neg (by omega), if_neg (by simp [hinvalid])]
  grind

/-- Otherwise there is an error, and the names stay good. -/
theorem createTable_of_not_accepts (metadir : List Char) (hr : Named r) (hname : conf.name = table)
    (h : acceptsTable r db table conf = false) :
    ∃ e r', createTable metadir db table conf r = .ret (some e, r') ∧ Named r' := by
  unfold createTable
  split_ifs with hlong hinvalid
  · exact ⟨_, r, rfl, hr⟩
  · exact ⟨_, r, rfl, hr⟩
  · have hvalid : checkNameInvalid table = false := by simpa using hinvalid
    have hr' : Named (r.addTable db conf).2 := hr.addTable (hname ▸ slash_notMem_of_valid hvalid)
    split
    · rename_i e r' hadd
      rw [hadd] at hr'
      exact ⟨e, r', rfl, hr'⟩
    · rename_i r' hadd
      simp [acceptsTable, hvalid, hadd] at h
      omega

/-- An accepted table is written to its file. -/
theorem permits_of_obeys_createTable (hobeys : (createTable metadir db table conf r).Obeys M Q ())
    (h : acceptsTable r db table conf = true) :
    M.permits (.writeFile (join (join metadir db.toList) (jsonFile table)) (.table conf)) () := by
  rw [createTable_of_accepts h, Prog.obeys_bind] at hobeys
  exact hobeys.1

theorem obeys_createTable (hM : Basic M metadir) (hr : Named r) (hname : conf.name = table)
    (hwrite : acceptsTable r db table conf = true → '/' ∉ table.toList →
      M.permits (.writeFile (join (join metadir db.toList) (jsonFile table)) (.table conf)) ()) :
    (createTable metadir db table conf r).Obeys M (fun out _ => Named out.2) () := by
  cases h : acceptsTable r db table conf with
  | true =>
    rw [createTable_of_accepts h, Prog.obeys_bind]
    have hslash : '/' ∉ table.toList := by grind [checkNameInvalid, acceptsTable]
    have hr' : Named (r.addTable db conf).2 := hr.addTable (hname ▸ hslash)
    have hremoved : Named ((r.addTable db conf).2.removeTable db table) :=
      hr'.putTable fun hx => by simp at hx
    refine ⟨hwrite h hslash, fun err _ => ?_⟩
    exact hM.obeys_finish (fun e => hremoved) fun e => hr'
  | false =>
    obtain ⟨e, r', heq, hr'⟩ := createTable_of_not_accepts metadir hr hname h
    rw [heq]
    exact hr'

/-- A table that is there is dropped by removing its file. -/
theorem dropTable_of_isSome (hdb : r.databases db = true) (h : (r.tables db table).isSome) :
    dropTable metadir db table r = (do
      let err ← removeTableFrmData metadir db table
      finish metadir err (r.removeTable db table) (r.removeTable db table)) := by grind [dropTable]

theorem obeys_dropTable (hM : Basic M metadir) (hr : Named r)
    (hremove : r.databases db = true → (r.tables db table).isSome →
      M.permits (.remove (join (join metadir db.toList) (jsonFile table))) ()) :
    (dropTable metadir db table r).Obeys M (fun out _ => Named out.2) () := by
  have hremoved : Named (r.removeTable db table) := hr.putTable fun hx => by simp at hx
  by_cases h : r.databases db = true ∧ (r.tables db table).isSome
  · rw [dropTable_of_isSome h.1 h.2, Prog.obeys_bind]
    refine ⟨hremove h.1 h.2, fun err _ => ?_⟩
    exact hM.obeys_finish (fun _ => hremoved) fun _ => hremoved
  · unfold dropTable
    split_ifs with hdb
    · split
      · exact hr
      · rename_i ht
        simp [hdb, ht] at h
    · exact hr

theorem getRenameTableConfig_ok {fromTable toTable : String} {r' : Router} (hr : Named r)
    (h : getRenameTableConfig r db fromTable toTable = .ok (conf, r')) :
    r.databases db = true ∧ conf.name = toTable ∧ Named r' := by
  unfold getRenameTableConfig at h
  split_ifs at h with hdb
  split at h
  · cases h
  · grind [Named.putTable, Named.table, TableConfig.rename]

/-- The calls for the tables in the directory of a database. -/
structure Own (M : Monitor OsCall OsCall.Res Unit) (metadir : List Char) (db : String) : Prop where
  write : ∀ {t : String} (conf : TableConfig), '/' ∉ t.toList →
    M.permits (.writeFile (join (join metadir db.toList) (jsonFile t)) (.table conf)) ()
  remove : ∀ {t : String}, '/' ∉ t.toList →
    M.permits (.remove (join (join metadir db.toList) (jsonFile t))) ()

theorem obeys_renameTable {fromTable toTable : String} (hM : Basic M metadir) (hr : Named r)
    (hown : FrmOp.accepted r (.renameTable db fromTable toTable) = true → Own M metadir db) :
    (renameTable metadir db fromTable toTable r).Obeys M (fun out _ => Named out.2) () := by
  unfold renameTable
  simp only [FrmOp.accepted] at hown
  split
  · exact hr
  · rename_i conf r' hconf
    obtain ⟨-, hname, hr'⟩ := getRenameTableConfig_ok hr hconf
    simp only [hconf] at hown
    rw [Prog.obeys_bind]
    cases haccepts : acceptsTable r' db toTable conf with
    | false =>
      obtain ⟨e, r'', heq, hr''⟩ := createTable_of_not_accepts metadir hr' hname haccepts
      rw [heq]
      exact hr''
    | true =>
      have hown := hown haccepts
      refine (obeys_createTable hM hr' hname fun _ => hown.write conf).mono fun out _ hout => ?_
      rcases out with ⟨_ | e, r''⟩
      · exact obeys_dropTable hM hout fun _ ht => hown.remove (hout.table ht).2
      · exact hout

theorem obeys_createFrom {conf : Except String TableConfig} (hM : Basic M metadir) (hr : Named r)
    (hname : ∀ c, conf = .ok c → c.name = table) (hown : acceptsFrom r db table conf = true → Own M metadir db) :
    (createFrom metadir db table conf r).Obeys M (fun out _ => Named out.2) () := by
  cases conf with
  | error e => exact hr
  | ok c => exact obeys_createTable hM hr (hname c rfl) fun h => (hown h).write c

/-- The calls of an operation are permitted and keep the names good when an accepted operation may use
the directory of its database. -/
theorem Named.obeys_frm {op : FrmOp} (hr : Named r) (hM : Basic M metadir)
    (hmkdir : '/' ∉ op.database.toList → M.replies (.stat (join metadir op.database.toList)) false →
      M.permits (.mkdirAll (join metadir op.database.toList)) ())
    (hremove : op = .dropDatabase op.database → op.accepted r = true →
      M.permits (.removeAll (join metadir op.database.toList)) ())
    (hown : op ≠ .createDatabase op.database → op.accepted r = true → Own M metadir op.database) :
    (op.frm metadir r).Obeys M (fun out _ => Named out.2) () := by
  cases op with
  | createDatabase db => exact obeys_createDatabase hM hr hmkdir
  | dropDatabase db => exact obeys_dropDatabase hM hr (hremove rfl)
  | createHashTable db table shardKey backends partitionNum =>
    exact obeys_createFrom hM hr (fun _ hc => (hashUniform_fits hc).1) (hown (by simp))
  | createListTable order db table shardKey defs =>
    exact obeys_createFrom hM hr (fun _ hc => (listUniform_fits hc).1) (hown (by simp))
  | createGlobalTable db table backends =>
    exact obeys_createFrom hM hr (fun _ hc => (globalUniform_fits hc).1) (hown (by simp))
  | createSingleTable db table backends =>
    exact obeys_createFrom hM hr (fun _ hc => (singleUniform_fits hc).1) (hown (by simp))
  | dropTable db table =>
    refine obeys_dropTable hM hr fun hdb ht => (hown (by simp) ?_).remove (hr.table ht).2
    simp [FrmOp.accepted, hdb, ht]
  | renameTable db fromTable toTable => exact obeys_renameTable hM hr (hown (by simp))

end Calls

/-! ## Reachable routers -/

/-- Every call is permitted, and any reply may come. -/
def anything : Monitor OsCall OsCall.Res Unit := ⟨fun _ _ => True, fun _ _ => True, fun _ _ h => h⟩

theorem Reachable.named {metadir : List Char} {r : Router} (h : Reachable metadir r) : Named r := by
  induction h with
  | init slots blocks => exact Named.init slots blocks
  | step _ hop ih =>
    refine Prog.Obeys.of_yields (M := anything) (Q := fun out => Named out.2) (h := ()) ?_
      (fun _ _ => trivial) hop
    exact ih.obeys_frm ⟨trivial, fun _ => trivial, fun _ => trivial⟩ (fun _ _ => trivial) (fun _ _ => trivial)
      fun _ _ => ⟨fun _ _ => trivial, fun _ => trivial⟩

/-! ## Confinement -/

section Confinement

variable {files : Location → Prop} {metadir : List Char} {db : String} {r : Router} {op : FrmOp}

/-- The file of a table is one element of a path. -/
theorem jsonFile_isName (h : '/' ∉ table.toList) : IsName (jsonFile table) := by
  have hlen : (jsonFile table).length = table.toList.length + 5 := by simp [jsonFile]
  refine ⟨?_, ?_, ?_, ?_⟩
  · intro heq
    simp [heq] at hlen
  · intro heq
    simp [heq] at hlen
  · intro heq
    simp [heq] at hlen
  · simpa [jsonFile] using h

/-- The path of a database with a name, where no file lies. -/
theorem inDatabase_of_isName (h : IsName db.toList) (hfile : ¬ files (resolve (join metadir db.toList))) :
    InDatabase files metadir db (join metadir db.toList) :=
  ⟨⟨_, h⟩, [], rfl, resolve_join_name metadir ⟨_, h⟩, fun _ => hfile⟩

/-- The file of a table is in the directory of its database. -/
theorem inDatabase_jsonFile {t : String} (h : IsName db.toList) (ht : '/' ∉ t.toList) :
    InDatabase files metadir db (join (join metadir db.toList) (jsonFile t)) := by
  refine ⟨⟨_, h⟩, [⟨_, jsonFile_isName ht⟩], rfl, ?_, by simp⟩
  rw [resolve_join_name _ ⟨_, jsonFile_isName ht⟩, resolve_join_name metadir ⟨_, h⟩, down_down]
  rfl

/-- A call on a path of the database is confined. -/
theorem InDatabase.confined {c : OsCall} {path : List Char} (hc : c.target = some path)
    (h : InDatabase files metadir db path) : Confined files metadir db c := by
  intro path' hpath
  cases (hc.symm.trans hpath : some path = some path')
  obtain ⟨n, ns, hn, heq, hfile⟩ := h
  exact ⟨⟨n :: ns, by simp, heq⟩, .inr ⟨n, ns, hn, heq, hfile⟩⟩

/-- The calls that every operation may make are confined. -/
theorem basic_confinement : Basic (confinement files metadir db) metadir where
  now := by simp [confinement, Metadata.Confined, OsCall.target]
  stat := by simp [confinement, Metadata.Confined, OsCall.target]
  version ts := by
    intro path hpath
    cases hpath
    exact ⟨⟨[⟨versionJSONFile, by decide⟩], by simp, resolve_join_name _ ⟨versionJSONFile, by decide⟩⟩,
      .inl rfl⟩

/-- The calls for the tables of a database with a name are confined. -/
theorem own_confinement (hname : IsName db.toList) : Own (confinement files metadir db) metadir db where
  write _ ht := (inDatabase_jsonFile hname ht).confined rfl
  remove ht := (inDatabase_jsonFile hname ht).confined rfl

/-- A directory that is not there is that of a name. -/
theorem isName_of_not_found (hslash : '/' ∉ db.toList)
    (h : Standing files metadir (.stat (join metadir db.toList)) false) : IsName db.toList := by
  by_contra hname
  have habove : ∃ k, resolve (join metadir db.toList) = up^[k] (resolve metadir) := by
    rw [resolve_join metadir hslash, push, dif_neg hname]
    split_ifs
    · exact ⟨1, rfl⟩
    · exact ⟨0, rfl⟩
  exact absurd (h (.inl habove)) (by simp)

/-- An accepted operation that does not create its database finds it in the router. -/
theorem databases_of_accepted (h : op.accepted r = true) (hop : op ≠ .createDatabase op.database) :
    r.databases op.database = true := by
  have htable {r : Router} {db table : String} {conf : TableConfig}
      (h : acceptsTable r db table conf = true) : r.databases db = true := by
    by_contra hdb
    rw [Bool.not_eq_true] at hdb
    simp [acceptsTable, Router.addTable, hdb] at h
  have hfrom {db table : String} {conf : Except String TableConfig}
      (h : acceptsFrom r db table conf = true) : r.databases db = true := by
    cases conf with
    | error e => simp [acceptsFrom] at h
    | ok conf => exact htable h
  cases op with
  | createDatabase db => exact absurd rfl hop
  | dropDatabase db => exact h
  | createHashTable | createListTable | createGlobalTable | createSingleTable => exact hfrom h
  | dropTable db table =>
    simp only [FrmOp.accepted, Bool.and_eq_true] at h
    exact h.1
  | renameTable db fromTable toTable =>
    simp only [FrmOp.accepted] at h
    grind [getRenameTableConfig, FrmOp.database]

/-- An operation that makes a confined call for its database has a database with a name. -/
theorem isName_of_confined {c : OsCall} {path : List Char} (hc : c.target = some path)
    (hversion : ¬ WritesVersion metadir c) (h : Confined files metadir db c) : IsName db.toList := by
  obtain ⟨-, hversion' | ⟨n, ns, hn, -⟩⟩ := h path hc
  · exact absurd hversion' hversion
  · exact hn ▸ n.2

/-- A table is created in a database with a name. -/
theorem isName_of_createTable (h : (createTable metadir db table conf r).Obeys (confinement files metadir db) Q ())
    (haccepts : acceptsTable r db table conf = true) : IsName db.toList :=
  isName_of_confined rfl id (permits_of_obeys_createTable h haccepts)

/-- An accepted operation that does not create its database makes a call for it. -/
theorem isName_of_accepted (h : op.Confined files metadir r) (haccepted : op.accepted r = true)
    (hop : op ≠ .createDatabase op.database) : IsName op.database.toList := by
  have hfrom {db table : String} {conf : Except String TableConfig}
      (h : (createFrom metadir db table conf r).Obeys (confinement files metadir db) (fun _ _ => True) ())
      (haccepts : acceptsFrom r db table conf = true) : IsName db.toList := by
    cases conf with
    | error e => simp [acceptsFrom] at haccepts
    | ok conf => exact isName_of_createTable h haccepts
  cases op with
  | createDatabase db => exact absurd rfl hop
  | dropDatabase db =>
    simp only [FrmOp.Confined, FrmOp.frm, dropDatabase, if_pos (show r.databases db = true from haccepted),
      Prog.obeys_bind] at h
    exact isName_of_confined rfl id h.1
  | createHashTable | createListTable | createGlobalTable | createSingleTable =>
    exact hfrom h haccepted
  | dropTable db table =>
    simp only [FrmOp.accepted, Bool.and_eq_true] at haccepted
    simp only [FrmOp.Confined, FrmOp.frm, dropTable_of_isSome haccepted.1 haccepted.2,
      Prog.obeys_bind] at h
    exact isName_of_confined rfl id h.1
  | renameTable db fromTable toTable =>
    simp only [FrmOp.accepted] at haccepted
    simp only [FrmOp.Confined, FrmOp.frm, renameTable] at h
    split at haccepted
    · simp at haccepted
    · rename_i hconf
      rw [hconf, Prog.obeys_bind] at h
      exact isName_of_createTable h haccepted

/-- Dropping a database removes what is at its path, which is no file. -/
theorem not_file_of_confined (hdb : r.databases db = true) (h : FrmOp.Confined files metadir r (.dropDatabase db)) :
    ¬ files (resolve (join metadir db.toList)) := by
  simp only [FrmOp.Confined, FrmOp.frm, dropDatabase, if_pos hdb, Prog.obeys_bind] at h
  obtain ⟨-, hversion | ⟨n, ns, hn, heq, hfile⟩⟩ := h.1 _ rfl
  · exact hversion.elim
  · rw [← show n.1 = db.toList from hn, resolve_join_name] at heq hfile ⊢
    exact hfile (List.cons.inj (down_injective _ heq)).2.symm

/-- The calls of an operation on a reachable router change nothing but the directory of its database
and the version, unless the operation is accepted for a database that is not a directory of its own. -/
theorem confined_iff (files : Location → Prop) (hr : Reachable metadir r) (op : FrmOp) :
    op.Confined files metadir r ↔ ¬ op.Escapes files metadir r := by
  constructor
  · rintro h ⟨haccepted, hop, hbad⟩
    obtain ⟨-, hdot, hdotdot, -⟩ := isName_of_accepted h haccepted hop
    obtain heq | heq | ⟨heq, hfile⟩ := hbad
    · exact hdot (by rw [heq]; rfl)
    · exact hdotdot (by rw [heq]; rfl)
    · rw [heq] at h haccepted
      exact not_file_of_confined haccepted h hfile
  · intro h
    have hname (hop : op ≠ .createDatabase op.database) (haccepted : op.accepted r = true) :
        IsName op.database.toList := by
      obtain ⟨hne, hslash⟩ := hr.named.database (databases_of_accepted haccepted hop)
      refine ⟨?_, ?_, ?_, hslash⟩
      · intro heq
        exact hne (String.toList_inj.1 heq)
      · intro heq
        exact h ⟨haccepted, hop, .inl (String.toList_inj.1 heq)⟩
      · intro heq
        exact h ⟨haccepted, hop, .inr (.inl (String.toList_inj.1 heq))⟩
    have hobeys : (op.frm metadir r).Obeys (confinement files metadir op.database)
        (fun out _ => Named out.2) () := by
      refine hr.named.obeys_frm basic_confinement (fun hslash hfound => ?_) (fun hop haccepted => ?_)
        fun hop haccepted => own_confinement (hname hop haccepted)
      · refine (inDatabase_of_isName (isName_of_not_found hslash hfound) fun hfile => ?_).confined rfl
        exact absurd (hfound (.inr hfile)) (by simp)
      · have hne : op ≠ .createDatabase op.database := fun heq => by cases hop.symm.trans heq
        exact (inDatabase_of_isName (hname hne haccepted) fun hfile => h ⟨haccepted, hne,
          .inr (.inr ⟨hop, hfile⟩)⟩).confined rfl
    exact hobeys.mono fun _ _ _ => trivial

/-- A file lies at this place in the metadata directory of the following runs. -/
def versionFile (l : Location) : Prop := l = resolve "/var/lib/radon-meta/version.json".toList

/-- A database with a plain name is dropped with its own directory. -/
theorem confined_dropDatabase_shop :
    ∃ r, Reachable "/var/lib/radon-meta".toList r ∧
      FrmOp.accepted r (.dropDatabase "shop") = true ∧
      FrmOp.Confined versionFile "/var/lib/radon-meta".toList r (.dropDatabase "shop") := by
  have hcreate : (FrmOp.frm "/var/lib/radon-meta".toList (Router.init 4096 128)
      (.createDatabase "shop")).Yields
      (none, { Router.init 4096 128 with databases := Function.update (fun _ => false) "shop" true }) :=
    ⟨false, none, (0 : ℤ), none, rfl⟩
  have hreach := Reachable.step (.init 4096 128) hcreate
  refine ⟨_, hreach, by decide, (confined_iff versionFile hreach _).2 ?_⟩
  rintro ⟨-, -, hdot | hdotdot | ⟨-, hfile⟩⟩
  · exact absurd hdot (by decide)
  · exact absurd hdotdot (by decide)
  · exact absurd hfile (by unfold versionFile; decide)

/-- Create the database `..`, and drop it: the directory above the metadata directory is removed. -/
theorem dropDatabase_dotdot_escapes :
    ∃ r, Reachable "/var/lib/radon-meta".toList r ∧
      FrmOp.accepted r (.dropDatabase "..") = true ∧
      resolve (join "/var/lib/radon-meta".toList "..".toList) = resolve "/var/lib".toList ∧
      ¬ FrmOp.Confined versionFile "/var/lib/radon-meta".toList r (.dropDatabase "..") := by
  have hcreate : (FrmOp.frm "/var/lib/radon-meta".toList (Router.init 4096 128)
      (.createDatabase "..")).Yields
      (none, { Router.init 4096 128 with databases := Function.update (fun _ => false) ".." true }) :=
    ⟨true, (0 : ℤ), none, rfl⟩
  refine ⟨_, .step (.init 4096 128) hcreate, by decide, by decide, fun h => ?_⟩
  obtain ⟨-, -, hdotdot, -⟩ := isName_of_accepted h (by decide) (by simp)
  exact hdotdot rfl

end Confinement

end Radon.Metadata
