import Radon.Metadata.Sync

/-!
# The metadata of a node on another node

What a node has written to its metadata directory arrives on another node, whatever this node had before,
with one loss: `MetaJSON` takes files only, so that a database without tables does not arrive. This needs a
metadata directory whose name the walk repeats, since it is cut off from the paths as it is spelled; the
default `./radon-meta` is not one.
-/

namespace Radon.Metadata

open FileSystem FileSystem.Location List

/-! ## What is written -/

/-- A table as `addTable` makes it of its configuration. -/
structure Loaded (slots : ℕ) (T : Table) : Prop where
  name : T.name = T.tableConfig.name
  shardKey : T.shardKey = T.tableConfig.shardKey
  partition : ∃ p, Partition.build slots T.tableConfig = .ok p ∧ T.partition = some p
  slots_ne_zero : T.tableConfig.shardType = .hash → T.tableConfig.slots ≠ 0

/-- The metadata directory of a node holds its databases, tables and backends, and nothing else but the
version and the peers. -/
structure Written (n : Node) : Prop where
  name : ∀ {db}, n.router.databases db = true → IsName db.toList
  directory : ∀ d : Name, n.disk.get [d] = some .dir ↔ n.router.databases (nameText d) = true
  table : ∀ {db t T}, n.router.tables db t = some T →
    n.router.databases db = true ∧ T.name = t ∧ IsName (jsonFile t) ∧ Loaded n.router.slots T
  file : ∀ (d f : Name) (c : Content), n.disk.get [d, f] = some (.file c) ↔
    ∃ T, n.router.tables (nameText d) T.name = some T ∧ f.1 = jsonFile T.name ∧ c = .table T.tableConfig
  flat : ∀ {d f : Name} {rest : List Name} {x : FileSystem.Node Content},
    n.disk.get (d :: f :: rest) = some x → rest = [] ∧ ∃ c, x = .file c
  backends : ∃ confs, n.disk.get [backendJSON] = some (.file (.backends confs)) ∧
    confs.Perm n.backends.confs
  peers : ∀ {c}, n.disk.get [peersJSON] = some (.file c) → ∃ addresses, c = .peers addresses
  rootFile : ∀ {f c}, n.disk.get [f] = some (.file c) →
    f = versionJSON ∨ f = backendJSON ∨ f = peersJSON

/-- The name of a metadata directory that `MetaJSON` cuts off from every path. -/
def Spelled (metadir : List Char) : Prop :=
  metadir ≠ [] ∧ ∀ p, p ≠ [] → metaKey metadir p = relative p

/-- Two nodes have the same databases, tables with their partitions, and backends. -/
structure Same (n m : Node) : Prop where
  databases : n.router.databases = m.router.databases
  tables : n.router.tables = m.router.tables
  backends : n.backends.confs.Perm m.backends.confs

/-- Every other node that takes the metadata of a node becomes the same. -/
def RoundTrip (source : Node) : Prop :=
  ∀ (n : Node) (order : MapOrder (List Char × Content)) (order' : MapOrder (String × List Content)),
    ∃ n', n.sync source order order' = .ok n' ∧ Same n' source

/-! ## Keys of files -/

/-- A clean name of the metadata directory is cut off. -/
theorem spelled_text {l : Location} (h : l.elements ≠ []) : Spelled l.text := by
  have htext : l.text ≠ [] := by
    intro heq
    have hresolve := resolve_text l
    rw [heq, show resolve [] = base false by decide] at hresolve
    exact h (hresolve ▸ rfl)
  refine ⟨htext, fun p hp => ?_⟩
  grind [resolve_text, text_down, metaKey, trimPrefix]

/-! ## The files on their way -/

/-- A map takes the entries of a list with different keys as they are. -/
theorem foldl_insert_entries {α κ γ : Type} [DecidableEq κ] (key : α → κ) (l : List (α × γ))
    (m : AList fun _ : κ => γ) (hl : (l.map fun e => key e.1).Nodup) (hm : ∀ e ∈ l, key e.1 ∉ m) :
    ((l.foldl (fun m e => m.insert (key e.1) e.2) m).entries.map fun e => (e.1, e.2)).Perm
      (m.entries.map (fun e => (e.1, e.2)) ++ l.map fun e => (key e.1, e.2)) := by
  induction l generalizing m with
  | nil => simp
  | cons e l ih =>
    rw [map_cons, nodup_cons] at hl
    have hnot : ∀ e' ∈ l, key e'.1 ∉ m.insert (key e.1) e.2 := by
      intro e' he' hmem
      rw [AList.mem_insert] at hmem
      grind
    refine (ih _ hl.2 hnot).trans ?_
    rw [AList.entries_insert_of_notMem (hm e mem_cons_self), map_cons, map_cons,
      cons_append]
    exact perm_middle.symm

variable {n : Node} {disk : FileTree Content} {r : Router} {slots : ℕ} {T : Table} {db : String}
    {order : MapOrder (String × List Content)}

theorem metaJSON_ok (hspelled : Spelled n.metadir) : ∃ metas, n.metaJSON = .ok metas ∧
      (metas.entries.map fun e => (e.1, e.2)).Perm (n.disk.files.map fun e => (relative e.1, e.2)) := by
  rw [Node.metaJSON, if_neg hspelled.1]
  have hne (e : List Name × Content) (he : e ∈ n.disk.files) : e.1 ≠ [] := by
    intro heq
    have := FileTree.mem_files.1 he
    simp [heq] at this
  have hkey : (n.disk.files.map fun e => metaKey n.metadir e.1) =
      n.disk.files.map fun e => relative e.1 :=
    map_congr_left fun e he => hspelled.2 _ (hne e he)
  refine ⟨_, rfl, ?_⟩
  refine (foldl_insert_entries (metaKey n.metadir) n.disk.files ∅ ?_ (by simp)).trans ?_
  · rw [hkey]
    simpa only [map_map, Function.comp_def] using n.disk.nodup_files.map relative_injective
  · rw [AList.empty_entries, map_nil, nil_append]
    exact .of_eq (map_congr_left fun e he => by rw [hspelled.2 _ (hne e he)])

/-- The path that the loop of `MetaRebuild` gives to a name. -/
def place (metadir name : List Char) : List Name :=
  ((resolve metadir).below? (resolve (join metadir name))).getD []

theorem below?_join_relative (metadir : List Char) (p : List Name) :
    (resolve metadir).below? (resolve (join metadir (relative p))) = some p := by
  rw [resolve_join_relative, below?_down]

theorem rebuild_eq_addFiles {metadir : List Char} {l : List (List Char × Content)} (hl : ∀ e ∈ l, ∃ p, e.1 = relative p)
    : rebuild metadir disk l = disk.addFiles (l.map fun e => (place metadir e.1, e.2)) := by
  induction l generalizing disk with
  | nil => rfl
  | cons e l ih =>
    obtain ⟨name, data⟩ := e
    obtain ⟨p, rfl⟩ : ∃ p, name = relative p := hl _ mem_cons_self
    have hrest (disk : FileTree Content) : rebuild metadir disk l = _ :=
      ih fun e he => hl e (mem_cons_of_mem _ he)
    simp only [rebuild, below?_join_relative, place, map_cons, FileTree.addFiles,
      Option.getD_some, hrest]

/-- The rebuilt directory has the files of the peer and the directories that they lie in. -/
theorem metaRebuild_ok {source : Node} {metas : Meta} (order : MapOrder (List Char × Content))
    (hmetas : (metas.entries.map fun e => (e.1, e.2)).Perm
      (source.disk.files.map fun e => (relative e.1, e.2))) (hne : source.disk.files ≠ []) :
    ∃ disk, n.metaRebuild order metas = .ok { n with disk := disk } ∧
      (∀ p c, disk.get p = some (.file c) ↔ source.disk.get p = some (.file c)) ∧
      ∀ p, disk.get p = some .dir ↔ p = [] ∨ ∃ q c, source.disk.get q = some (.file c) ∧ p <+: q ∧ p ≠ q := by
  have hperm := (order.perm _).trans hmetas
  have hplace : ((order.arrange (metas.entries.map fun e => (e.1, e.2))).map
      fun e => (place n.metadir e.1, e.2)).Perm source.disk.files := by
    refine (hperm.map _).trans (.of_eq ?_)
    rw [map_map]
    refine (map_congr_left fun e _ => ?_).trans (map_id _)
    simp [place, below?_join_relative]
  obtain ⟨disk, hadd, hfile, hdir⟩ := FileTree.addFiles_files hplace
  refine ⟨disk, ?_, hfile, hdir⟩
  have hrelative : ∀ e ∈ order.arrange (metas.entries.map fun e => (e.1, e.2)), ∃ p, e.1 = relative p := by
    grind
  have hnil : order.arrange (metas.entries.map fun e => (e.1, e.2)) ≠ [] := by
    intro heq
    rw [heq] at hperm
    simp [hne] at hperm
  simp only [Node.metaRebuild, if_neg hnil, rebuild_eq_addFiles hrelative, hadd, bind, Except.bind]
  rfl

/-! ## Loading -/

theorem Backends.addAll_ok {b : Backends} {confs : List BackendConfig}
    (hnames : ((b.confs ++ confs).map BackendConfig.name).Nodup)
    (haddresses : ((b.confs ++ confs).map BackendConfig.address).Nodup) :
    ∃ b', b.addAll confs = .ok b' ∧ b'.confs = b.confs ++ confs := by
  induction confs generalizing b with
  | nil => exact ⟨b, rfl, by simp⟩
  | cons conf confs ih =>
    have hname : conf.name ∉ b.confs.map BackendConfig.name := by grind
    have haddress : conf.address ∉ b.confs.map BackendConfig.address := by grind
    have hadd : ∃ b₁, b.add conf = .ok b₁ ∧ b₁.confs = b.confs ++ [conf] := by grind [add]
    obtain ⟨b₁, hadd, hconfs⟩ := hadd
    obtain ⟨b', hall, hconfs'⟩ := ih (b := b₁) (by rw [hconfs]; simpa using hnames)
      (by rw [hconfs]; simpa using haddresses)
    refine ⟨b', ?_, by simp [hconfs', hconfs]⟩
    rw [Backends.addAll, hadd]
    exact hall

theorem loadBackends_ok {confs : List BackendConfig} {b : Backends}
    (hfile : disk.get [backendJSON] = some (.file (.backends confs))) (hconfs : confs.Perm b.confs) :
    ∃ b', loadBackends disk = .ok (b', disk) ∧ b'.confs.Perm b.confs := by
  obtain ⟨b', hall, hb'⟩ : ∃ b', Backends.clear.addAll confs = .ok b' ∧ b'.confs = [] ++ confs :=
    Backends.addAll_ok ((hconfs.map _).nodup_iff.2 b.names) ((hconfs.map _).nodup_iff.2 b.addresses)
  refine ⟨b', ?_, by rw [hb']; exact hconfs⟩
  simp [loadBackends, ensureBackends, hfile, readBackendsConfig, hall, bind, Except.bind, pure, Except.pure]

theorem addDatabases_ok {dbs : List String} (hnodup : dbs.Nodup) (hdbs : ∀ db ∈ dbs, db ≠ "" ∧ r.databases db = false) :
    ∃ r', addDatabases r dbs = .ok r' ∧ r'.tables = r.tables ∧ r'.slots = r.slots ∧
      ∀ db, r'.databases db = true ↔ r.databases db = true ∨ db ∈ dbs := by
  induction dbs generalizing r with
  | nil => exact ⟨r, rfl, rfl, rfl, by simp⟩
  | cons db dbs ih =>
    obtain ⟨hne, hdb⟩ := hdbs db mem_cons_self
    obtain ⟨hnot, hnodup⟩ := nodup_cons.1 hnodup
    have hadd : addDatabase r db = .ok { r with databases := Function.update r.databases db true } := by
      simp [addDatabase, hne, hdb]
    obtain ⟨r', hrest, htables, hslots, hdatabases⟩ :=
      ih (r := { r with databases := Function.update r.databases db true }) hnodup fun d hd => by
        have hd' : d ≠ db := fun heq => hnot (heq ▸ hd)
        simpa [hd'] using hdbs d (mem_cons_of_mem _ hd)
    refine ⟨r', ?_, htables, hslots, fun d => ?_⟩
    · rw [addDatabases, hadd]
      exact hrest
    · grind

/-- The partition of a table does not depend on the configuration of the router. -/
theorem build_eq_build (slots' : ℕ) {conf : TableConfig} (h : conf.shardType = .hash → conf.slots ≠ 0) :
    Partition.build slots' conf = Partition.build slots conf := by grind [Partition.build]

theorem loadTable_ok (hT : Loaded slots T) (hdb : r.databases db = true) (hnone : r.tables db T.name = none) :
    loadTable r db (.table T.tableConfig) = .ok (r.putTable db T.name (some T)) := by
  obtain ⟨p, hbuild, hp⟩ := hT.partition
  rw [← build_eq_build r.slots hT.slots_ne_zero] at hbuild
  have hadd : r.addTable db T.tableConfig = (none, r.putTable db T.name (some T)) := by
    simp only [Router.addTable, hdb, Bool.true_eq_false, if_false, hbuild, ← hT.name, hnone, ← hT.shardKey,
      ← hp]
  simp only [loadTable, readTableConfig, bind, Except.bind, hadd]

/-- The name of a table that a file holds. -/
def contentName : Content → String
  | .table conf => conf.name
  | .version _ | .backends _ | .peers _ => ""

/-- The database and the table that a file is for. -/
def itemKey (item : String × Content) : String × String := (item.1, contentName item.2)

theorem loadTables_ok {tables : String → String → Option Table}
    {items : List (String × Content)} (hnodup : (items.map itemKey).Nodup)
    (hitems : ∀ item ∈ items, r.databases item.1 = true ∧ ∃ T, tables item.1 T.name = some T ∧
      item.2 = .table T.tableConfig ∧ Loaded slots T)
    (hnone : ∀ item ∈ items, r.tables item.1 (contentName item.2) = none) :
    ∃ r', loadTables r items = .ok r' ∧ r'.databases = r.databases ∧
      ∀ db t, r'.tables db t = if (db, t) ∈ items.map itemKey then tables db t else r.tables db t := by
  induction items generalizing r with
  | nil => exact ⟨r, rfl, rfl, by simp⟩
  | cons item items ih =>
    obtain ⟨db, content⟩ := item
    obtain ⟨hdb, T, hT, rfl, hloaded⟩ := hitems _ mem_cons_self
    rw [map_cons, nodup_cons] at hnodup
    have hkey : itemKey (db, .table T.tableConfig) = (db, T.name) := by
      rw [itemKey, contentName, hloaded.name]
    rw [hkey] at hnodup
    have hfresh : r.tables db T.name = none := by
      rw [hloaded.name]
      exact hnone _ mem_cons_self
    have hload := loadTable_ok hloaded hdb hfresh
    obtain ⟨r', hrest, hdatabases, htables⟩ := ih (r := r.putTable db T.name (some T)) hnodup.2
      (fun item hitem => hitems item (mem_cons_of_mem _ hitem)) fun item hitem => by
        have hne : ¬ (item.1 = db ∧ contentName item.2 = T.name) := by grind [itemKey]
        simp only [Router.putTable, updateEntry, if_neg hne]
        exact hnone item (mem_cons_of_mem _ hitem)
    refine ⟨r', ?_, hdatabases, fun d t => ?_⟩
    · rw [loadTables, hload]
      exact hrest
    · rw [htables, map_cons, hkey]
      simp only [mem_cons, Prod.mk.injEq, Router.putTable, updateEntry]
      grind

/-! ## The files that are loaded -/

theorem nameText_injective : Function.Injective nameText := by
  intro d d' h
  exact Subtype.ext (String.ofList_injective h)

theorem nameText_mk (h : IsName db.toList) : nameText ⟨db.toList, h⟩ = db :=
  String.ofList_toList

theorem mem_jsons {d : Name} {c : Content} : c ∈ jsons disk d ↔ ∃ f, disk.get [d, f] = some (.file c) := by
  rw [jsons, mem_filterMap]
  constructor
  · grind [FileTree.mem_readDir]
  · rintro ⟨f, hf⟩
    exact ⟨(f, .file c), FileTree.mem_readDir.2 hf, rfl⟩

theorem mem_frms {e : String × List Content} :
    e ∈ frms disk ↔ ∃ d, disk.get [d] = some .dir ∧ e = (nameText d, jsons disk d) := by
  rw [frms, mem_filterMap]
  constructor
  · grind [FileTree.mem_readDir]
  · rintro ⟨d, hd, rfl⟩
    exact ⟨(d, .dir), FileTree.mem_readDir.2 hd, rfl⟩

theorem nodup_frms (disk : FileTree Content) : ((frms disk).map Prod.fst).Nodup := by
  refine ((disk.nodup_readDir []).map nameText_injective).sublist ?_
  rw [frms]
  induction disk.readDir [] with
  | nil => simp
  | cons e l ih => grind

/-- Files whose names tell the tables that they hold are for different tables. -/
theorem nodup_jsons {d : Name} (h : ∀ f c, disk.get [d, f] = some (.file c) → f.1 = jsonFile (contentName c))
    : ((jsons disk d).map contentName).Nodup := by
  have hnodup := disk.nodup_readDir [d]
  rw [List.Nodup, pairwise_map] at hnodup
  rw [List.Nodup, pairwise_map, jsons, pairwise_filterMap]
  -- two files with one table would have one name
  refine hnodup.imp_of_mem fun {e e'} he he' hne c hc c' hc' heq => hne (Subtype.ext ?_)
  obtain ⟨f, x⟩ := e
  obtain ⟨f', x'⟩ := e'
  cases x with
  | dir => cases hc
  | file _ => grind [FileTree.mem_readDir]

theorem mem_items {c : Content} : (db, c) ∈ items order disk ↔
      ∃ d f, db = nameText d ∧ disk.get [d, f] = some (.file c) := by
  simp only [items, mem_flatMap, (order.perm _).mem_iff, mem_frms]
  constructor
  · grind [mem_jsons]
  · rintro ⟨d, f, rfl, hf⟩
    have hdir : disk.get [d] = some .dir :=
      FileTree.get_of_get_append (p := [d]) (q := [f]) (by simp [hf]) (by simp)
    grind [mem_jsons]

theorem nodup_items (h : ∀ d f c, disk.get [d, f] = some (.file c) → f.1 = jsonFile (contentName c)) :
    ((items order disk).map itemKey).Nodup := by
  rw [items, map_flatMap, nodup_flatMap]
  constructor
  · intro e he
    obtain ⟨d, -, rfl⟩ := mem_frms.1 ((order.perm _).mem_iff.1 he)
    rw [map_map, show itemKey ∘ Prod.mk (nameText d) = Prod.mk (nameText d) ∘ contentName from rfl,
      ← map_map]
    exact (nodup_jsons (h d)).map (Prod.mk_right_injective _)
  · have hnodup : ((order.arrange (frms disk)).map Prod.fst).Nodup :=
      ((order.perm _).map _).nodup_iff.2 (nodup_frms disk)
    refine (pairwise_map.1 hnodup).imp fun {e e'} hne => ?_
    intro k hk hk'
    grind [itemKey]

/-! ## Loading the files of tables -/

/-- The files in the directories of the metadata directory are those of the tables. -/
structure Filed (r : Router) (disk : FileTree Content) : Prop where
  name : ∀ {db}, r.databases db = true → IsName db.toList
  table : ∀ {db t T}, r.tables db t = some T →
    r.databases db = true ∧ T.name = t ∧ IsName (jsonFile t) ∧ Loaded r.slots T
  file : ∀ (d f : Name) (c : Content), disk.get [d, f] = some (.file c) ↔
    ∃ T, r.tables (nameText d) T.name = some T ∧ f.1 = jsonFile T.name ∧ c = .table T.tableConfig

section Filed

variable {r : Router} {disk : FileTree Content} (hf : Filed r disk)

include hf

/-- The file of a table. -/
theorem Filed.exists_file {t : String} (hT : r.tables db t = some T) :
    ∃ d f, nameText d = db ∧ f.1 = jsonFile t ∧ disk.get [d, f] = some (.file (.table T.tableConfig)) := by
  obtain ⟨hdb, hname, hfile, -⟩ := hf.table hT
  refine ⟨⟨_, hf.name hdb⟩, ⟨_, hfile⟩, nameText_mk _, rfl, ?_⟩
  rw [hf.file]
  exact ⟨T, by rwa [nameText_mk, hname], by rw [hname], rfl⟩

theorem Filed.nodup_items (order : MapOrder (String × List Content)) : ((items order disk).map itemKey).Nodup := by
  refine Metadata.nodup_items fun d f c h => ?_
  obtain ⟨T, hT, hfile, rfl⟩ := (hf.file d f c).1 h
  rw [hfile, contentName, (hf.table hT).2.2.2.name]

theorem Filed.mem_items {item : String × Content} (h : item ∈ items order disk)
    : ∃ T, r.tables item.1 T.name = some T ∧ item.2 = .table T.tableConfig ∧ Loaded r.slots T := by
  obtain ⟨d, f, hd, hfile⟩ := Metadata.mem_items.1 h
  obtain ⟨T, hT, -, hcontent⟩ := (hf.file d f _).1 hfile
  rw [← hd] at hT
  exact ⟨T, hT, hcontent, (hf.table hT).2.2.2⟩

theorem Filed.mem_itemKeys {t : String} (hT : r.tables db t = some T) : (db, t) ∈ (items order disk).map itemKey := by
  obtain ⟨d, f, rfl, -, hfile⟩ := hf.exists_file hT
  refine mem_map.2 ⟨_, Metadata.mem_items.2 ⟨d, f, rfl, hfile⟩, ?_⟩
  rw [itemKey, contentName, ← (hf.table hT).2.2.2.name, (hf.table hT).2.1]

/-- The directories are loaded as databases, and their files as the tables. -/
theorem Filed.loadRouter_ok (order : MapOrder (String × List Content)) (r₀ : Router) :
    ∃ r', loadRouter order disk r₀ = .ok r' ∧ r'.tables = r.tables ∧
      ∀ db, r'.databases db = true ↔ ∃ d, nameText d = db ∧ disk.get [d] = some .dir := by
  have hdbs (db : String) (hdb : db ∈ (frms disk).map Prod.fst) :
      db ≠ "" ∧ (clear r₀).databases db = false := by
    obtain ⟨e, he, rfl⟩ := mem_map.1 hdb
    obtain ⟨d, -, rfl⟩ := mem_frms.1 he
    exact ⟨fun heq => d.2.1 (String.ofList_injective (heq.trans rfl)), rfl⟩
  obtain ⟨r₁, hadd, htables, -, hdatabases⟩ := addDatabases_ok (nodup_frms disk) hdbs
  have hdb₁ (db : String) :
      r₁.databases db = true ↔ ∃ d, nameText d = db ∧ disk.get [d] = some .dir := by
    rw [hdatabases]
    simp only [clear, Bool.false_eq_true, false_or, mem_map, mem_frms]
    constructor
    · rintro ⟨e, ⟨d, hd, rfl⟩, rfl⟩
      exact ⟨d, rfl, hd⟩
    · rintro ⟨d, rfl, hd⟩
      exact ⟨_, ⟨d, hd, rfl⟩, rfl⟩
  have hitems (item : String × Content) (h : item ∈ items order disk) :
      r₁.databases item.1 = true ∧ ∃ T, r.tables item.1 T.name = some T ∧
        item.2 = .table T.tableConfig ∧ Loaded r.slots T := by
    obtain ⟨d, f, hd, hfile⟩ := Metadata.mem_items.1 h
    have hdir : disk.get [d] = some .dir :=
      FileTree.get_of_get_append (p := [d]) (q := [f]) (by simp [hfile]) (by simp)
    exact ⟨(hdb₁ _).2 ⟨d, hd.symm, hdir⟩, hf.mem_items h⟩
  have hnone (item : String × Content) (_ : item ∈ items order disk) :
      r₁.tables item.1 (contentName item.2) = none := by
    rw [htables]
    rfl
  obtain ⟨r', hload, hdatabases', htables'⟩ := loadTables_ok (hf.nodup_items order) hitems hnone
  refine ⟨r', ?_, ?_, fun db => by rw [hdatabases', hdb₁]⟩
  · simp only [loadRouter, hadd, bind, Except.bind]
    exact hload
  · funext db t
    rw [htables']
    split_ifs with hkey
    · rfl
    · rw [htables]
      cases hT : r.tables db t with
      | none => rfl
      | some T => exact absurd (hf.mem_itemKeys hT) hkey

end Filed

/-! ## The copy -/

theorem Written.filed (hw : Written n) : Filed n.router n.disk :=
  ⟨hw.name, hw.table, hw.file⟩

/-- A directory with the files of a node and the directories that they lie in. -/
structure Copied (source : Node) (disk : FileTree Content) : Prop where
  file : ∀ p c, disk.get p = some (.file c) ↔ source.disk.get p = some (.file c)
  dir : ∀ p, disk.get p = some .dir ↔
    p = [] ∨ ∃ q c, source.disk.get q = some (.file c) ∧ p <+: q ∧ p ≠ q

section Copied

variable {source : Node} {disk : FileTree Content} (hw : Written source) (hc : Copied source disk)

include hw hc in
theorem Copied.filed : Filed source.router disk :=
  ⟨hw.name, hw.table, fun d f c => (hc.file _ c).trans (hw.file d f c)⟩

include hw hc in
/-- The directory of a database arrives when the database has a table. -/
theorem Copied.dir_iff (d : Name) : disk.get [d] = some .dir ↔ ∃ t, (source.router.tables (nameText d) t).isSome := by
  rw [hc.dir]
  constructor
  · rintro (heq | ⟨q, c, hq, ⟨rest, rfl⟩, hne⟩)
    · cases heq
    · obtain _ | ⟨f, rest⟩ := rest
      · exact absurd rfl hne
      · grind [Written.flat, Written.file]
  · rintro ⟨t, ht⟩
    obtain ⟨T, hT⟩ := Option.isSome_iff_exists.1 ht
    grind [Filed.exists_file, Written.filed, nameText_injective]

include hw hc in
/-- The databases with tables, and all tables, are loaded from the copy. -/
theorem loadRouter_ok (order : MapOrder (String × List Content)) (r : Router) :
    ∃ r', loadRouter order disk r = .ok r' ∧ r'.tables = source.router.tables ∧
      ∀ db, r'.databases db = true ↔ ∃ t, (source.router.tables db t).isSome := by
  obtain ⟨r', hload, htables, hdatabases⟩ := (hc.filed hw).loadRouter_ok order r
  refine ⟨r', hload, htables, fun db => (hdatabases db).trans ⟨?_, ?_⟩⟩
  · rintro ⟨d, rfl, hd⟩
    exact (hc.dir_iff hw d).1 hd
  · rintro ⟨t, ht⟩
    obtain ⟨T, hT⟩ := Option.isSome_iff_exists.1 ht
    grind [Filed.exists_file, Written.filed, Copied.dir_iff]

include hw hc in
/-- The peers are loaded unless `peers.json` is the directory of a database. -/
theorem loadPeers_ok (self : String) (peers : List String)
    (h : ∀ t, source.router.tables "peers.json" t = none) : ∃ ps, loadPeers self peers disk = .ok ps := by
  unfold loadPeers
  split
  · exact ⟨_, rfl⟩
  · rename_i hdir
    obtain ⟨t, ht⟩ := (hc.dir_iff hw peersJSON).1 hdir
    rw [show nameText peersJSON = "peers.json" from rfl, h t] at ht
    cases ht
  · exact ⟨_, rfl⟩
  · grind [Written.peers, Copied.file]

include hw hc in
theorem loadPeers_error (self : String) (peers : List String)
    (h : ∃ t, (source.router.tables "peers.json" t).isSome) : ∃ e, loadPeers self peers disk = .error e := by
  have hdir := (hc.dir_iff hw peersJSON).2 h
  exact ⟨_, by rw [loadPeers, hdir]⟩

end Copied

/-! ## The round trip -/

/-- No database of the node is lost on the way: every database has a table, and none is in the place of
the peers. -/
def Arrives (n : Node) : Prop :=
  (∀ db, n.router.databases db = true → ∃ t, (n.router.tables db t).isSome) ∧
    n.router.databases "peers.json" = false

/-- A node takes the metadata of a peer up to the peers: it has its backends, its tables and its databases
with tables. -/
theorem exists_sync_eq (n : Node) {source : Node} (hw : Written source) (hs : Spelled source.metadir)
    (order : MapOrder (List Char × Content)) (order' : MapOrder (String × List Content)) :
    ∃ disk b r, Copied source disk ∧ b.confs.Perm source.backends.confs ∧ r.tables = source.router.tables ∧
      (∀ db, r.databases db = true ↔ ∃ t, (source.router.tables db t).isSome) ∧
      n.sync source order order' = (loadPeers n.self n.peers disk).map fun ps =>
        { n with backends := b, router := r, peers := ps, disk := disk } := by
  obtain ⟨metas, hmetas, hperm⟩ := metaJSON_ok hs
  obtain ⟨confs, hbackends, hconfs⟩ := hw.backends
  have hfiles : source.disk.files ≠ [] := ne_nil_of_mem (FileTree.mem_files.2 hbackends)
  obtain ⟨disk, hrebuild, hfile, hdir⟩ := metaRebuild_ok (n := n) order hperm hfiles
  have hc : Copied source disk := ⟨hfile, hdir⟩
  obtain ⟨b, hb, hbconfs⟩ := loadBackends_ok ((hc.file _ _).2 hbackends) hconfs
  obtain ⟨r, hr, htables, hdatabases⟩ := loadRouter_ok hw hc order' n.router
  refine ⟨disk, b, r, hc, hbconfs, htables, hdatabases, ?_⟩
  simp only [Node.sync, hmetas, hrebuild, Node.metaReload, hb, hr, bind, Except.bind]
  cases loadPeers n.self n.peers disk <;> rfl

theorem RoundTrip.arrives (h : RoundTrip n) (hw : Written n) (hs : Spelled n.metadir) : Arrives n := by
  obtain ⟨n', hsync, hsame⟩ := h n ⟨id, fun _ => .refl _⟩ ⟨id, fun _ => .refl _⟩
  obtain ⟨disk, b, r, hc, -, -, hdatabases, heq⟩ :=
    exists_sync_eq n hw hs ⟨id, fun _ => .refl _⟩ ⟨id, fun _ => .refl _⟩
  rw [heq] at hsync
  cases hpeers : loadPeers n.self n.peers disk with
  | error e =>
    rw [hpeers] at hsync
    cases hsync
  | ok ps =>
    rw [hpeers] at hsync
    cases hsync
    have htable (db : String) (hdb : n.router.databases db = true) :
        ∃ t, (n.router.tables db t).isSome := by
      rw [← hsame.databases] at hdb
      exact (hdatabases db).1 hdb
    refine ⟨htable, ?_⟩
    by_contra hdb
    obtain ⟨e, he⟩ := loadPeers_error hw hc n.self n.peers (htable _ (by simpa using hdb))
    cases hpeers.symm.trans he

theorem Arrives.roundTrip (h : Arrives n) (hw : Written n) (hs : Spelled n.metadir) : RoundTrip n := by
  obtain ⟨htable, hpeers⟩ := h
  intro m order order'
  obtain ⟨disk, b, r, hc, hbackends, htables, hdatabases, heq⟩ := exists_sync_eq m hw hs order order'
  have hnone (t : String) : n.router.tables "peers.json" t = none := by
    by_contra hT
    obtain ⟨T, hT⟩ := Option.ne_none_iff_exists'.1 hT
    simp [(hw.table hT).1] at hpeers
  obtain ⟨ps, hps⟩ := loadPeers_ok hw hc m.self m.peers hnone
  refine ⟨_, by rw [heq, hps]; rfl, ⟨?_, htables, hbackends⟩⟩
  funext db
  rw [Bool.eq_iff_iff]
  refine (hdatabases db).trans ⟨?_, htable db⟩
  rintro ⟨t, ht⟩
  obtain ⟨T, hT⟩ := Option.isSome_iff_exists.1 ht
  exact (hw.table hT).1

/-- The metadata of a node arrives on every other node exactly when each of its databases has a table and
none is named `peers.json`. -/
theorem roundTrip_iff {n : Node} (hw : Written n) (hs : Spelled n.metadir) : RoundTrip n ↔ Arrives n :=
  ⟨fun h => h.arrives hw hs, fun h => h.roundTrip hw hs⟩

end Radon.Metadata
