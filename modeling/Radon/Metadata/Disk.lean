import Radon.Metadata.Confinement
import Radon.Metadata.RoundTrip
import Radon.Router.Reachable

/-!
# The operations of the router on its metadata directory

The calls of an operation are performed on the metadata directory. A node whose directory holds its
databases and tables keeps this property under every operation that succeeds, unless the name of a new
database is that of a file in the directory or leads out of it.
-/

namespace Radon.Metadata

open Concurrency FileSystem FileSystem.Location List Option

/-! ## Calls on a directory -/

/-- The names that lead from the metadata directory to a path. -/
def locate (metadir path : List Char) : Option (List Name) := (resolve metadir).below? (resolve path)

/-- The directory and the name of a path below the metadata directory. -/
def locateIn (metadir path : List Char) : Option (List Name × Name) := do
  let p ← locate metadir path
  let n ← p.getLast?
  return (p.dropLast, n)

/-- The reply to a call that changes the directory or fails. -/
def reply (disk : FileTree Content) : Except String (FileTree Content) →
    Option String × FileTree Content
  | .ok disk' => (none, disk')
  | .error e => (some e, disk)

/-- A call at a time on the metadata directory; there is no reply to a call that leaves it. -/
def perform (metadir : List Char) : Machine OsCall OsCall.Res (FileTree Content) ℤ
  | .now, now, disk => some (now, disk)
  | .stat path, _, disk => (locate metadir path).map fun p => ((disk.get p).isSome, disk)
  | .mkdirAll path, _, disk => (locate metadir path).map fun p => reply disk (disk.mkdirAll p)
  | .writeFile path content, _, disk =>
    (locateIn metadir path).map fun (p, n) => reply disk (disk.writeFile p n content)
  | .remove path, _, disk => (locateIn metadir path).map fun (p, n) => reply disk (disk.remove p n)
  | .removeAll path, _, disk => (locateIn metadir path).map fun (p, n) => (none, disk.removeAll p n)

/-- A sequence of calls on the metadata directory. -/
def runFrm (metadir : List Char) (now : ℤ) {α : Type} : Frm α → FileTree Content →
    Option (α × FileTree Content)
  | .ret a, disk => some (a, disk)
  | .op c k, disk => (perform metadir c now disk).bind fun out => runFrm metadir now (k out.1) out.2
  | .par _ _ _, _ => none

theorem runFrm_bind (metadir : List Char) (now : ℤ) {α β : Type} (p : Frm α) (next : α → Frm β)
    (disk : FileTree Content) : runFrm metadir now (p >>= next) disk =
      (runFrm metadir now p disk).bind fun out => runFrm metadir now (next out.1) out.2 := by
  induction p generalizing disk with
  | ret a => rfl
  | op c k ih => grind [Prog.op_bind, runFrm]
  | par p q k => rfl

/-! ## Changes of a directory that holds the metadata -/

theorem jsonFile_injective : Function.Injective jsonFile := by
  intro t t' h
  exact String.toList_inj.1 (append_cancel_right h)

theorem toList_nameText (d : Name) : (nameText d).toList = d.1 := String.toList_ofList

variable {d f : Name} {r : Router} {db table : String} {conf : TableConfig} {backends : List String}
    {n : Node}

section Filed

variable {r : Router} {disk disk' : FileTree Content} (hf : Filed r disk)

include hf

/-- Only the files in the directories matter. -/
theorem Filed.congr (hdisk : ∀ d f, disk'.get [d, f] = disk.get [d, f]) : Filed r disk' where
  name := hf.name
  table := hf.table
  file d f c := by rw [hdisk, hf.file]

theorem Filed.addDatabase (d : Name) :
    Filed { r with databases := Function.update r.databases (nameText d) true } disk where
  name {db} hdb := by
    by_cases heq : db = nameText d
    · rw [heq, toList_nameText]
      exact d.2
    · exact hf.name (by simpa [heq] using hdb)
  table {db t T} hT := by
    obtain ⟨hdb, hrest⟩ := hf.table hT
    refine ⟨?_, hrest⟩
    by_cases heq : db = nameText d
    · simp [heq]
    · simpa [heq] using hdb
  file := hf.file

theorem Filed.deleteDatabase
    (hdisk : ∀ q, disk'.get q = if [d] <+: q then none else disk.get q) :
    Filed (deleteDatabase r (nameText d)) disk' where
  name {db} hdb := by
    by_cases heq : db = nameText d
    · simp [Metadata.deleteDatabase, heq] at hdb
    · exact hf.name (by simpa [Metadata.deleteDatabase, heq] using hdb)
  table {db t T} hT := by
    by_cases heq : db = nameText d
    · simp [Metadata.deleteDatabase, heq] at hT
    · simp only [Metadata.deleteDatabase, Function.update_of_ne heq] at hT ⊢
      exact hf.table hT
  file e f c := by
    rw [hdisk]
    by_cases heq : e = d
    · simp [heq, Metadata.deleteDatabase]
    · have hne : nameText e ≠ nameText d := fun h => heq (nameText_injective h)
      simpa [Ne.symm heq, hne, Metadata.deleteDatabase] using hf.file e f c

theorem Filed.putTable {T : Table} (hdb : r.databases (nameText d) = true)
    (hfile : f.1 = jsonFile T.name) (hT : Loaded r.slots T)
    (hdisk : ∀ q, disk'.get q =
      if q = [d, f] then some (.file (.table T.tableConfig)) else disk.get q) :
    Filed (r.putTable (nameText d) T.name (some T)) disk' where
  name := hf.name
  table {db t T'} hT' := by
    simp only [Router.putTable, updateEntry] at hT'
    split_ifs at hT' with heq
    · grind [Router.putTable]
    · exact hf.table hT'
  file e g c := by
    have hother : ¬ (e = d ∧ g = f) → ((∃ T', updateEntry r.tables (nameText d) T.name (some T)
        (nameText e) T'.name = some T' ∧ g.1 = jsonFile T'.name ∧ c = .table T'.tableConfig) ↔
        ∃ T', r.tables (nameText e) T'.name = some T' ∧ g.1 = jsonFile T'.name ∧
          c = .table T'.tableConfig) := by
      intro hne
      refine exists_congr fun T' => ?_
      refine and_congr_left fun hrest => ?_
      rw [updateEntry, if_neg]
      rintro ⟨he, hname⟩
      refine hne ⟨nameText_injective he, Subtype.ext ?_⟩
      rw [hrest.1, hname, hfile]
    rw [hdisk]
    by_cases heq : e = d ∧ g = f
    · obtain ⟨rfl, rfl⟩ := heq
      rw [if_pos rfl]
      constructor
      · rintro ⟨⟩
        exact ⟨T, by simp [Router.putTable, updateEntry], hfile, rfl⟩
      · rintro ⟨T', hT', hg, rfl⟩
        obtain hname := jsonFile_injective (hfile.symm.trans hg)
        simp only [Router.putTable, updateEntry, hname, and_self, if_true, Option.some.injEq] at hT'
        rw [hT']
    · rw [if_neg (by simpa using heq)]
      exact (hf.file e g c).trans (hother heq).symm

theorem Filed.removeTable {t : String} (hfile : f.1 = jsonFile t)
    (hdisk : ∀ q, disk'.get q = if q = [d, f] then none else disk.get q) :
    Filed (r.removeTable (nameText d) t) disk' where
  name := hf.name
  table {db t' T} hT := by
    simp only [Router.removeTable, Router.putTable, updateEntry] at hT
    split_ifs at hT
    exact hf.table hT
  file e g c := by
    simp only [hdisk, Router.removeTable, Router.putTable, updateEntry]
    by_cases heq : e = d ∧ g = f
    · grind [jsonFile_injective]
    · grind [file, nameText_injective]

end Filed

section Written

variable {n : Node} (hw : Written n) {disk : FileTree Content}

include hw

theorem Written.addDatabase (hnew : n.disk.get [d] = none)
    (hdisk : ∀ q, disk.get q = if q = [d] then some .dir else n.disk.get q) :
    Written { n with
      router := { n.router with databases := Function.update n.router.databases (nameText d) true }
      disk := disk } where
  name := (hw.filed.addDatabase d).name
  directory e := by
    rw [hdisk]
    by_cases heq : e = d
    · simp [heq]
    · grind [nameText_injective, directory]
  table := (hw.filed.addDatabase d).table
  file e f c := by
    rw [hdisk, if_neg (by simp)]
    exact hw.file e f c
  flat {e f rest x} h := by
    rw [hdisk, if_neg (by simp)] at h
    exact hw.flat h
  backends := by
    obtain ⟨confs, hget, hperm⟩ := hw.backends
    refine ⟨confs, ?_, hperm⟩
    rw [hdisk, if_neg]
    · exact hget
    · rintro ⟨⟩
      cases hget.symm.trans hnew
  peers {c} h := by
    rw [hdisk] at h
    split_ifs at h
    · cases h
    · exact hw.peers h
  rootFile {f c} h := by
    rw [hdisk] at h
    split_ifs at h
    · cases h
    · exact hw.rootFile h

theorem Written.deleteDatabase (hdb : n.router.databases (nameText d) = true)
    (hdisk : ∀ q, disk.get q = if [d] <+: q then none else n.disk.get q) :
    Written { n with router := deleteDatabase n.router (nameText d), disk := disk } where
  name := (hw.filed.deleteDatabase hdisk).name
  directory e := by
    rw [hdisk]
    by_cases heq : e = d
    · simp [heq, Metadata.deleteDatabase]
    · have hne : nameText e ≠ nameText d := fun h => heq (nameText_injective h)
      simpa [Ne.symm heq, hne, Metadata.deleteDatabase] using hw.directory e
  table := (hw.filed.deleteDatabase hdisk).table
  file := (hw.filed.deleteDatabase hdisk).file
  flat {e f rest x} h := by
    rw [hdisk] at h
    split_ifs at h
    exact hw.flat h
  backends := by
    obtain ⟨confs, hget, hperm⟩ := hw.backends
    refine ⟨confs, ?_, hperm⟩
    rw [hdisk, if_neg]
    · exact hget
    · grind [directory]
  peers {c} h := by
    rw [hdisk] at h
    split_ifs at h
    exact hw.peers h
  rootFile {f c} h := by
    rw [hdisk] at h
    split_ifs at h
    exact hw.rootFile h

theorem Written.putVersion {ts : ℤ} (hfile : n.disk.get [versionJSON] ≠ some .dir)
    (hdisk : ∀ q, disk.get q =
      if q = [versionJSON] then some (.file (.version ts)) else n.disk.get q) :
    Written { n with disk := disk } where
  name := hw.name
  directory e := by
    rw [← hw.directory, hdisk]
    split_ifs with heq
    · cases heq
      simp [hfile]
    · rfl
  table := hw.table
  file e f c := by
    rw [hdisk, if_neg (by simp)]
    exact hw.file e f c
  flat {e f rest x} h := by
    rw [hdisk, if_neg (by simp)] at h
    exact hw.flat h
  backends := by
    obtain ⟨confs, hget, hperm⟩ := hw.backends
    exact ⟨confs, by rw [hdisk, if_neg (by decide), hget], hperm⟩
  peers {c} h := by
    rw [hdisk, if_neg (by decide)] at h
    exact hw.peers h
  rootFile {f c} h := by
    rw [hdisk] at h
    split_ifs at h with heq
    · exact .inl (singleton_inj.1 heq)
    · exact hw.rootFile h

/-- A file in a directory changes nothing else than the table it is for. -/
theorem Written.putFile {x : Option (FileSystem.Node Content)}
    (hfile : ∀ y, x = some y → ∃ c, y = .file c)
    (hdisk : ∀ q, disk.get q = if q = [d, f] then x else n.disk.get q)
    (hdatabases : r.databases = n.router.databases) (hf : Filed r disk) :
    Written { n with router := r, disk := disk } where
  name := hf.name
  directory e := by
    rw [hdisk, if_neg (by simp), hdatabases]
    exact hw.directory e
  table := hf.table
  file := hf.file
  flat {e g rest y} h := by
    rw [hdisk] at h
    split_ifs at h with heq
    · cases heq
      exact ⟨rfl, hfile y h⟩
    · exact hw.flat h
  backends := by
    obtain ⟨confs, hget, hperm⟩ := hw.backends
    exact ⟨confs, by rw [hdisk, if_neg (by simp), hget], hperm⟩
  peers {c} h := by
    rw [hdisk, if_neg (by simp)] at h
    exact hw.peers h
  rootFile {g c} h := by
    rw [hdisk, if_neg (by simp)] at h
    exact hw.rootFile h

end Written

/-! ## Operations that succeed -/

section Run

variable {metadir : List Char} {now : ℤ} {disk disk' : FileTree Content}

theorem locate_join (d : Name) : locate metadir (join metadir d.1) = some [d] := by
  rw [locate, resolve_join_name, below?_down]

theorem locateIn_join (d : Name) : locateIn metadir (join metadir d.1) = some ([], d) := by
  rw [locateIn, locate_join]
  rfl

theorem locateIn_join_join (d f : Name) : locateIn metadir (join (join metadir d.1) f.1) = some ([d], f) := by
  rw [locateIn, locate, resolve_join_name, resolve_join_name, down_down, below?_down]
  rfl

theorem writeFile_ok {p : List Name} {c : Content} (h : disk.writeFile p f c = .ok disk') :
    disk.get (p ++ [f]) ≠ some .dir ∧ ∀ q, disk'.get q = if q = p ++ [f] then some (.file c) else disk.get q := by
  unfold FileTree.writeFile at h
  split_ifs at h with hp hx
  cases h
  exact ⟨hx, FileTree.get_put⟩

theorem reply_none {out : Except String (FileTree Content)} (h : reply disk out = (none, disk')) : out = .ok disk' := by
  cases out with
  | ok u =>
    cases h
    rfl
  | error e => cases h

/-- A version that could be written. -/
theorem runFrm_updateVersion (h : runFrm metadir now (updateVersion metadir) disk = some (none, disk')) :
    disk.writeFile [] versionJSON (.version now) = .ok disk' := by
  have heq : runFrm metadir now (updateVersion metadir) disk =
      ((locateIn metadir (join metadir versionJSON.1)).map fun (p, n) =>
        reply disk (disk.writeFile p n (.version now))).bind some := rfl
  rw [heq, locateIn_join] at h
  exact reply_none (Option.some.inj h)

/-- The directory of a database is made when there is nothing in its place. -/
theorem runFrm_writeDatabaseFrmData (hdb : db.toList = d.1) (hnew : disk.get [d] = none) :
    runFrm metadir now (writeDatabaseFrmData metadir db) disk = some (reply disk (disk.mkdirAll [d])) := by
  have hlocate : locate metadir (join metadir db.toList) = some [d] := by rw [hdb, locate_join]
  have heq : runFrm metadir now (writeDatabaseFrmData metadir db) disk =
      ((locate metadir (join metadir db.toList)).map fun p => ((disk.get p).isSome, disk)).bind fun out =>
        runFrm metadir now (if out.1 then return none else mkdirAll (join metadir db.toList)) out.2 := rfl
  have hmkdir : runFrm metadir now (mkdirAll (join metadir db.toList)) disk =
      ((locate metadir (join metadir db.toList)).map fun p => reply disk (disk.mkdirAll p)).bind some := rfl
  grind

theorem runFrm_removeAll (hdb : db.toList = d.1) :
    runFrm metadir now (removeAll (join metadir db.toList)) disk = some (none, disk.removeAll [] d) := by
  have heq : runFrm metadir now (removeAll (join metadir db.toList)) disk =
      ((locateIn metadir (join metadir db.toList)).map fun (p, n) =>
        ((none : Option String), disk.removeAll p n)).bind some := rfl
  rw [heq, hdb, locateIn_join]
  rfl

theorem runFrm_writeTableFrmData (hdb : db.toList = d.1) (hf : jsonFile table = f.1) :
    runFrm metadir now (writeTableFrmData metadir db table conf) disk =
      some (reply disk (disk.writeFile [d] f (.table conf))) := by
  have heq : runFrm metadir now (writeTableFrmData metadir db table conf) disk =
      ((locateIn metadir (join (join metadir db.toList) (jsonFile table))).map fun (p, n) =>
        reply disk (disk.writeFile p n (.table conf))).bind some := rfl
  rw [heq, hdb, hf, locateIn_join_join]
  rfl

theorem runFrm_removeTableFrmData (hdb : db.toList = d.1) (hf : jsonFile table = f.1) :
    runFrm metadir now (removeTableFrmData metadir db table) disk = some (reply disk (disk.remove [d] f)) := by
  have heq : runFrm metadir now (removeTableFrmData metadir db table) disk =
      ((locateIn metadir (join (join metadir db.toList) (jsonFile table))).map fun (p, n) =>
        reply disk (disk.remove p n)).bind some := rfl
  rw [heq, hdb, hf, locateIn_join_join]
  rfl

/-- An operation that ends without an error has written its version. -/
theorem runFrm_finish {err : Option String} {failed done : Router}
    (h : runFrm metadir now (finish metadir err failed done) disk = some ((none, r), disk')) :
    err = none ∧ r = done ∧ disk.writeFile [] versionJSON (.version now) = .ok disk' := by
  cases err with
  | some e => cases h
  | none =>
    rw [finish, runFrm_bind] at h
    obtain ⟨⟨e, u⟩, hrun, hret⟩ := bind_eq_some_iff.1 h
    cases hret
    exact ⟨rfl, rfl, runFrm_updateVersion hrun⟩

theorem prefix_singleton {q : List Name} : q <+: [d] ↔ q = [] ∨ q = [d] := by
  simp [prefix_cons_iff]

theorem mkdirAll_singleton (hnew : disk.get [d] = none) :
    ∃ u, disk.mkdirAll [d] = .ok u ∧ ∀ q, u.get q = if q = [d] then some .dir else disk.get q := by
  obtain ⟨u, hmkdir, hget⟩ : ∃ u, disk.mkdirFrom [] [d] = .ok u ∧ _ :=
    FileTree.mkdirFrom_ok disk.get_nil fun q (hq : q <+: [d]) c hc => by
      rcases prefix_singleton.1 hq with rfl | rfl
      · simp at hc
      · simp [hnew] at hc
  refine ⟨u, hmkdir, fun q => ?_⟩
  rw [hget]
  by_cases hq : q = []
  · simp [hq]
  · simp [prefix_singleton, hq]

/-- A table that `addTable` accepts is one that it makes of its configuration. -/
theorem loaded_of_addTable {r' : Router} (h : r.addTable db conf = (none, r'))
    (hslots : conf.shardType = .hash → conf.slots ≠ 0) : r.databases db = true ∧ r.tables db conf.name = none ∧
      ∃ T, T.name = conf.name ∧ T.tableConfig = conf ∧ Loaded r.slots T ∧ r' = r.putTable db conf.name (some T) := by
  obtain ⟨hdb, hnone, p, hbuild, rfl⟩ := Router.addTable_ok h
  exact ⟨hdb, hnone, _, rfl, rfl, ⟨rfl, rfl, ⟨p, hbuild, rfl⟩, hslots⟩, rfl⟩

end Run

section Step

/-- The changes that the operations on tables, and the removal of a database, make on disk keep a
property of a node. -/
structure Stable (P : Node → Prop) : Prop where
  filed : ∀ {n}, P n → Filed n.router n.disk
  putVersion : ∀ {n : Node} {disk : FileTree Content} {ts : ℤ}, P n →
    n.disk.get [versionJSON] ≠ some .dir →
    (∀ q, disk.get q = if q = [versionJSON] then some (.file (.version ts)) else n.disk.get q) →
    P { n with disk := disk }
  putFile : ∀ {n : Node} {disk : FileTree Content} {d f : Name} {x : Option (FileSystem.Node Content)}
    {r : Router}, P n → (∀ y, x = some y → ∃ c, y = .file c) →
    (∀ q, disk.get q = if q = [d, f] then x else n.disk.get q) →
    r.databases = n.router.databases → Filed r disk → P { n with router := r, disk := disk }
  deleteDatabase : ∀ {n : Node} {disk : FileTree Content} {d : Name}, P n →
    n.router.databases (nameText d) = true →
    (∀ q, disk.get q = if [d] <+: q then none else n.disk.get q) →
    P { n with router := Metadata.deleteDatabase n.router (nameText d), disk := disk }

theorem stable_written : Stable Written where
  filed := Written.filed
  putVersion hw := hw.putVersion
  putFile hw := hw.putFile
  deleteDatabase hw := hw.deleteDatabase

variable {P : Node → Prop} (hP : Stable P) {n : Node} (hn : P n) {now : ℤ} {disk : FileTree Content}
  {r : Router}

variable {r₀ : Router}

section Stable

include hP hn

/-- The version is written beside the metadata. -/
theorem Stable.version {ts : ℤ} (h : n.disk.writeFile [] versionJSON (.version ts) = .ok disk) :
    P { n with disk := disk } := by
  obtain ⟨hdir, hget⟩ := writeFile_ok h
  exact hP.putVersion hn hdir hget

theorem Stable.dropDatabase (h : runFrm n.metadir now (Metadata.dropDatabase n.metadir db n.router) n.disk =
      some ((none, r), disk)) : P { n with router := r, disk := disk } := by
  unfold Metadata.dropDatabase at h
  split_ifs at h with hdb
  · obtain ⟨d, rfl⟩ : ∃ d : Name, db = nameText d := ⟨⟨_, (hP.filed hn).name hdb⟩, (nameText_mk _).symm⟩
    rw [runFrm_bind] at h
    obtain ⟨⟨err, u⟩, hrun, hrest⟩ := bind_eq_some_iff.1 h
    obtain ⟨rfl, rfl, hversion⟩ := runFrm_finish hrest
    rw [runFrm_removeAll (toList_nameText d)] at hrun
    cases hrun
    exact hP.version (hP.deleteDatabase hn hdb fun q => n.disk.get_removeAll [] d q) hversion
  · cases h

/-- A table of the router and its file are replaced together. -/
theorem Stable.putTable {T : Table} (hdb : n.router.databases (nameText d) = true)
    (hf : f.1 = jsonFile T.name) (hT : Loaded n.router.slots T)
    (hdisk : ∀ q, disk.get q =
      if q = [d, f] then some (.file (.table T.tableConfig)) else n.disk.get q) :
    P { n with router := n.router.putTable (nameText d) T.name (some T), disk := disk } :=
  hP.putFile hn (by simp) hdisk rfl ((hP.filed hn).putTable hdb hf hT hdisk)

/-- A table is created on disk. The router of the operation may differ from that of the node in its
tables, as it does when a table is renamed. -/
theorem Stable.createTable (hdatabases : r₀.databases = n.router.databases) (hslots₀ : r₀.slots = n.router.slots)
    (hname : conf.name = table) (hslots : conf.shardType = .hash → conf.slots ≠ 0)
    (h : runFrm n.metadir now (Metadata.createTable n.metadir db table conf r₀) n.disk =
      some ((none, r), disk)) : ∃ T, r = r₀.putTable db table (some T) ∧
      P { n with router := n.router.putTable db table (some T), disk := disk } := by
  unfold Metadata.createTable at h
  split_ifs at h with hlong hinvalid
  · cases h
  · cases h
  · split at h
    · cases h
    · rename_i r₁ hadd
      obtain ⟨hdb, hnone, T, hTname, hTconf, hT, rfl⟩ := loaded_of_addTable hadd hslots
      rw [hdatabases] at hdb
      rw [hslots₀] at hT
      have hslash := slash_notMem_of_valid (Bool.eq_false_of_not_eq_true hinvalid)
      obtain ⟨d, rfl⟩ : ∃ d : Name, db = nameText d :=
        ⟨⟨_, (hP.filed hn).name hdb⟩, (nameText_mk _).symm⟩
      obtain ⟨f, hf⟩ : ∃ f : Name, jsonFile table = f.1 := ⟨⟨_, jsonFile_isName hslash⟩, rfl⟩
      rw [runFrm_bind, runFrm_writeTableFrmData (toList_nameText d) hf] at h
      obtain ⟨herr, rfl, hversion⟩ := runFrm_finish h
      cases hwrite : n.disk.writeFile [d] f (.table conf) with
      | error e =>
        rw [hwrite] at herr
        cases herr
      | ok u =>
        rw [hwrite] at hversion
        have hfile : f.1 = jsonFile T.name := by rw [hTname, hname, hf]
        have hget := (writeFile_ok hwrite).2
        rw [← hTconf] at hget
        subst hname
        rw [← hTname]
        exact ⟨T, rfl, hP.version (hP.putTable hn hdb hfile hT hget) hversion⟩

theorem Stable.dropTable (htables : (r₀.tables db table).isSome → (n.router.tables db table).isSome)
    (h : runFrm n.metadir now (Metadata.dropTable n.metadir db table r₀) n.disk = some ((none, r), disk)) :
    r = r₀.removeTable db table ∧ P { n with router := n.router.removeTable db table, disk := disk } := by
  by_cases hthere : r₀.databases db = true ∧ (r₀.tables db table).isSome
  · obtain ⟨hdb, hsome⟩ := hthere
    obtain ⟨T, hT⟩ := isSome_iff_exists.1 (htables hsome)
    obtain ⟨d, f, rfl, hf, hget⟩ := (hP.filed hn).exists_file hT
    obtain ⟨u, hremove, hu⟩ := FileTree.remove_file (p := [d]) (n := f) hget
    rw [dropTable_of_isSome hdb hsome, runFrm_bind,
      runFrm_removeTableFrmData (toList_nameText d) hf.symm, hremove] at h
    obtain ⟨-, rfl, hversion⟩ := runFrm_finish h
    have hfiled := (hP.filed hn).removeTable hf hu
    exact ⟨rfl, hP.version (hP.putFile hn (by simp) hu (by rfl) hfiled) hversion⟩
  · unfold Metadata.dropTable at h
    split_ifs at h with hdb
    · split at h
      · cases h
      · rename_i ht
        simp [hdb, ht] at hthere
    · cases h

theorem Stable.createFrom {conf : Except String TableConfig}
    (hconf : ∀ c, conf = .ok c → Fits table c)
    (h : runFrm n.metadir now (Metadata.createFrom n.metadir db table conf n.router) n.disk =
      some ((none, r), disk)) : P { n with router := r, disk := disk } := by
  cases conf with
  | error e => cases h
  | ok c =>
    obtain ⟨T, rfl, hn'⟩ := hP.createTable hn rfl rfl (hconf c rfl).1 (hconf c rfl).2 h
    exact hn'

omit hP hn in
/-- A table in the router is replaced while another one is added and the first one removed. -/
theorem putTable_swap {t t' : String} {x y : Option Table} :
    ((r.putTable db t x).putTable db t' y).removeTable db t = (r.putTable db t' y).removeTable db t := by
  simp only [Router.removeTable, Router.putTable, Router.mk.injEq, true_and, and_true]
  grind [updateEntry]

theorem Stable.renameTable {fromTable toTable : String}
    (h : runFrm n.metadir now (Metadata.renameTable n.metadir db fromTable toTable n.router) n.disk =
      some ((none, r), disk)) : P { n with router := r, disk := disk } := by
  unfold Metadata.renameTable getRenameTableConfig at h
  split at h
  · cases h
  · rename_i conf r₁ hconf
    split_ifs at hconf with hdb
    split at hconf
    · cases hconf
    · rename_i T hT
      split at hconf
      · cases hconf
      · rename_i hnone
        have hne : fromTable ≠ toTable := by
          rintro rfl
          cases hT.symm.trans hnone
        cases hconf
        rw [runFrm_bind] at h
        obtain ⟨⟨⟨err, r₂⟩, u⟩, hcreate, hdrop⟩ := bind_eq_some_iff.1 h
        cases err with
        | some e => cases hdrop
        | none =>
          obtain ⟨T', rfl, hn₂⟩ := hP.createTable hn (by rfl) (by rfl) (by rfl)
            (by exact ((hP.filed hn).table hT).2.2.2.slots_ne_zero) hcreate
          obtain ⟨rfl, hn₃⟩ :=
            hP.dropTable hn₂ (by simp [Router.putTable, updateEntry, hne, hT]) hdrop
          rw [putTable_swap]
          exact hn₃

end Stable

section Written

variable {n : Node} (hw : Written n)

include hw

/-- The place of a new database is free: it is neither that of a database nor that of a file. -/
theorem Written.get_eq_none (hnew : n.router.databases (nameText d) = false)
    (hfile : ∀ f ∈ [versionJSON, backendJSON, peersJSON], nameText d ≠ nameText f) : n.disk.get [d] = none := by
  cases hget : n.disk.get [d] with
  | none => rfl
  | some x =>
    cases x with
    | dir => simp [(hw.directory d).1 hget] at hnew
    | file c => grind [rootFile]

omit hw in
/-- A database that is created has a name, is new in the router, and its directory is written before the
version. -/
theorem runFrm_createDatabase {metadir : List Char} {disk₀ : FileTree Content} (hdots : db ≠ "." ∧ db ≠ "..")
    (h : runFrm metadir now (Metadata.createDatabase metadir db r₀) disk₀ = some ((none, r), disk)) :
    ∃ d u, db = nameText d ∧ r₀.databases db = false ∧
      r = { r₀ with databases := Function.update r₀.databases db true } ∧
      runFrm metadir now (writeDatabaseFrmData metadir db) disk₀ = some (none, u) ∧
      u.writeFile [] versionJSON (.version now) = .ok disk := by
  unfold Metadata.createDatabase at h
  split_ifs at h with hlong hinvalid
  · cases h
  · cases h
  · have hslash := slash_notMem_of_valid (Bool.eq_false_of_not_eq_true hinvalid)
    unfold Metadata.addDatabase at h
    split_ifs at h with hempty hthere
    · cases h
    · cases h
    have hname : IsName db.toList :=
      ⟨fun heq => hempty (String.toList_inj.1 heq), fun heq => hdots.1 (String.toList_inj.1 heq),
        fun heq => hdots.2 (String.toList_inj.1 heq), hslash⟩
    rw [runFrm_bind] at h
    obtain ⟨⟨err, u⟩, hrun, hrest⟩ := bind_eq_some_iff.1 h
    obtain ⟨rfl, rfl, hversion⟩ := runFrm_finish hrest
    exact ⟨⟨_, hname⟩, u, (nameText_mk hname).symm, by simpa using hthere, rfl, hrun, hversion⟩

theorem Written.createDatabase (hdots : db ≠ "." ∧ db ≠ "..")
    (hfile : ∀ f ∈ [versionJSON, backendJSON, peersJSON], db ≠ nameText f)
    (h : runFrm n.metadir now (Metadata.createDatabase n.metadir db n.router) n.disk =
      some ((none, r), disk)) : Written { n with router := r, disk := disk } := by
  obtain ⟨d, u, rfl, hthere, rfl, hrun, hversion⟩ := runFrm_createDatabase hdots h
  have hnew := hw.get_eq_none hthere hfile
  rw [runFrm_writeDatabaseFrmData (toList_nameText d) hnew] at hrun
  obtain ⟨u', hmkdir, hget⟩ := mkdirAll_singleton hnew
  rw [hmkdir] at hrun
  cases hrun
  exact stable_written.version (hw.addDatabase hnew hget) hversion

end Written

end Step

/-! ## Runs -/

/-- The name of a database that is neither that of a file in the metadata directory nor leads out of
it. -/
def Ordinary (db : String) : Prop := db ∉ [".", "..", "version.json", "backend.json", "peers.json"]

instance (db : String) : Decidable (Ordinary db) := inferInstanceAs (Decidable (¬ _))

/-- An operation that succeeds keeps a stable property, unless it creates a database. -/
theorem Stable.step {P : Node → Prop} (hP : Stable P) (hn : P n) {op : FrmOp}
    (hop : ∀ db, op ≠ .createDatabase db) {now : ℤ} {disk : FileTree Content}
    (h : runFrm n.metadir now (op.frm n.metadir n.router) n.disk = some ((none, r), disk)) :
    P { n with router := r, disk := disk } := by
  cases op with
  | createDatabase db => exact absurd rfl (hop db)
  | dropDatabase db => exact hP.dropDatabase hn h
  | createHashTable db table shardKey backends partitionNum =>
    exact hP.createFrom hn (fun _ => hashUniform_fits) h
  | createListTable order db table shardKey defs =>
    exact hP.createFrom hn (fun _ => listUniform_fits) h
  | createGlobalTable db table backends =>
    exact hP.createFrom hn (fun _ => globalUniform_fits) h
  | createSingleTable db table backends =>
    exact hP.createFrom hn (fun _ => singleUniform_fits) h
  | dropTable db table =>
    obtain ⟨rfl, hn'⟩ := hP.dropTable hn id h
    exact hn'
  | renameTable db fromTable toTable => exact hP.renameTable hn h

/-- A successful operation keeps what is on disk and what is in the router the same. -/
theorem Written.step (hw : Written n) {op : FrmOp} (hop : Ordinary op.database) {now : ℤ} {disk : FileTree Content}
    (h : runFrm n.metadir now (op.frm n.metadir n.router) n.disk = some ((none, r), disk)) :
    Written { n with router := r, disk := disk } := by
  by_cases hcreate : ∃ db, op = .createDatabase db
  · obtain ⟨db, rfl⟩ := hcreate
    simp only [Ordinary, FrmOp.database, mem_cons, not_mem_nil, or_false, not_or] at hop
    refine hw.createDatabase ⟨hop.1, hop.2.1⟩ ?_ h
    simp only [mem_cons, not_mem_nil, or_false, forall_eq_or_imp, forall_eq]
    exact hop.2.2
  · exact stable_written.step hw (fun db heq => hcreate ⟨db, heq⟩) h

/-- A sequence of successful operations, each at its time. -/
inductive Runs : Node → List (FrmOp × ℤ) → Node → Prop
  | nil (n : Node) : Runs n [] n
  | cons {n n' : Node} {op : FrmOp} {now : ℤ} {ops : List (FrmOp × ℤ)} {r : Router}
      {disk : FileTree Content}
      (h : runFrm n.metadir now (op.frm n.metadir n.router) n.disk = some ((none, r), disk))
      (hrest : Runs { n with router := r, disk := disk } ops n') : Runs n ((op, now) :: ops) n'

/-- After any sequence of successful operations the metadata directory holds what is in the router. -/
theorem Written.run {n' : Node} {ops : List (FrmOp × ℤ)} (hw : Written n) (h : Runs n ops n')
    (hops : ∀ e ∈ ops, Ordinary e.1.database) : Written n' := by
  induction h with
  | nil n => exact hw
  | cons h _ ih =>
    exact ih (hw.step (hops _ mem_cons_self) h) fun e he => hops e (mem_cons_of_mem _ he)

/-- A node that has just been started for the first time. -/
def Node.start (metadir : List Char) (self : String) (slots blocks : ℕ) : Node where
  metadir := metadir
  self := self
  router := Router.init slots blocks
  backends := Backends.clear
  peers := [self]
  disk := FileTree.empty.put [] backendJSON (.file (.backends [])) FileTree.get_empty_nil
    (.inr (by simp [FileTree.get_empty]))

theorem Node.start_get (metadir : List Char) (self : String) (slots blocks : ℕ) (q : List Name) :
    (Node.start metadir self slots blocks).disk.get q = if q = [backendJSON] then some (.file (.backends []))
      else if q = [] then some .dir else none := by
  rw [Node.start, FileTree.get_put, FileTree.get_empty]
  rfl

theorem written_start (metadir : List Char) (self : String) (slots blocks : ℕ) :
    Written (Node.start metadir self slots blocks) where
  name h := by simp [Node.start, Router.init] at h
  directory d := by
    rw [Node.start_get]
    split_ifs <;> simp_all [Node.start, Router.init]
  table h := by simp [Node.start, Router.init] at h
  file d f c := by
    rw [Node.start_get]
    simp [Node.start, Router.init]
  flat h := by
    rw [Node.start_get] at h
    simp at h
  backends := ⟨[], by simp [Node.start_get], by simp [Node.start, Backends.clear]⟩
  peers h := by
    rw [Node.start_get, if_neg (by decide)] at h
    simp at h
  rootFile {f c} h := by
    rw [Node.start_get] at h
    split_ifs at h with heq heq
    · exact .inr (.inl (singleton_inj.1 heq))
    · cases heq

/-! ## The round trip of a run -/

/-- A node that is started in a directory with a clean name. -/
def shopNode : Node := Node.start "/var/lib/radon-meta".toList "127.0.0.1:8080" 4096 128

theorem spelled_shopNode : Spelled shopNode.metadir :=
  show Spelled (resolve "/var/lib/radon-meta".toList).text from spelled_text (by decide)

/-- A database with a table arrives on every other node. -/
theorem roundTrip_shop : ∃ n, Runs shopNode
    [(.createDatabase "shop", 1), (.createGlobalTable "shop" "t" ["backend1"], 2)] n ∧ RoundTrip n := by
  obtain ⟨n, hrun, hdatabases, ht, hmetadir⟩ : ∃ n, Runs shopNode
      [(.createDatabase "shop", 1), (.createGlobalTable "shop" "t" ["backend1"], 2)] n ∧
      n.router.databases = Function.update (fun _ => false) "shop" true ∧
      (n.router.tables "shop" "t").isSome ∧ n.metadir = shopNode.metadir :=
    ⟨_, .cons rfl (.cons rfl (.nil _)), rfl, rfl, rfl⟩
  have hw : Written n := (written_start _ _ _ _).run hrun (by decide)
  refine ⟨n, hrun, (roundTrip_iff hw (hmetadir ▸ spelled_shopNode)).2 ⟨fun db hdb => ?_, ?_⟩⟩
  · have hshop : db = "shop" := by
      by_contra hne
      simp [hdatabases, hne] at hdb
    exact ⟨"t", hshop ▸ ht⟩
  · rw [hdatabases]
    decide

/-- A database that has just been created does not arrive. -/
theorem not_roundTrip_emptyDatabase : ∃ n, Runs shopNode [(.createDatabase "shop", 1)] n ∧
    Written n ∧ Spelled n.metadir ∧ ¬ RoundTrip n := by
  obtain ⟨n, hrun, hshop, hnone, hmetadir⟩ : ∃ n, Runs shopNode [(.createDatabase "shop", 1)] n ∧
      n.router.databases "shop" = true ∧ (∀ t, n.router.tables "shop" t = none) ∧
      n.metadir = shopNode.metadir := ⟨_, .cons rfl (.nil _), rfl, fun _ => rfl, rfl⟩
  have hw : Written n := (written_start _ _ _ _).run hrun (by decide)
  have hs : Spelled n.metadir := hmetadir ▸ spelled_shopNode
  refine ⟨n, hrun, hw, hs, fun h => ?_⟩
  obtain ⟨t, ht⟩ := (h.arrives hw hs).1 "shop" hshop
  simp [hnone] at ht

/-- With the default name of the metadata directory not even the files of a new node arrive. -/
theorem not_roundTrip_default : ¬ RoundTrip (Node.start "./radon-meta".toList "127.0.0.1:8080" 4096 128) := by
  intro h
  obtain ⟨n, hsync, -⟩ := h shopNode ⟨id, fun _ => .refl _⟩ ⟨id, fun _ => .refl _⟩
  cases hsync

end Radon.Metadata
