import Radon.FileSystem.Tree
import Radon.Metadata.Frm

/-!
# Copying the metadata of a peer

`MetaJSON` takes all files of the metadata directory, by their paths without the directory itself.
`MetaRebuild` moves the own directory away and writes the files of a peer into a new one. `MetaReload`
then loads the backends, the databases and tables and the peers from it. A loop over a Go map takes the
order in which it meets the entries.
-/

namespace Radon.Metadata

open FileSystem

/-! ## Names -/

/-- The name of an entry of a directory, as a text. -/
def nameText (n : Name) : String := String.ofList n.1

/-- `versionJSONFile`. -/
def versionJSON : Name := ⟨versionJSONFile, by decide⟩

/-- `backendjson`. -/
def backendJSON : Name := ⟨"backend.json".toList, by decide⟩

/-- `peersJSONFile`. -/
def peersJSON : Name := ⟨"peers.json".toList, by decide⟩

/-- The order in which a loop meets the entries of a map. -/
structure MapOrder (α : Type) where
  arrange : List α → List α
  perm : ∀ l, (arrange l).Perm l

/-! ## Backends -/

/-- The backends of `backend.Scatter`: no two of them share a name or an address. -/
structure Backends where
  confs : List BackendConfig
  names : (confs.map BackendConfig.name).Nodup
  addresses : (confs.map BackendConfig.address).Nodup

/-- No backends. -/
def Backends.clear : Backends := ⟨[], List.nodup_nil, List.nodup_nil⟩

/-- `Scatter.add`. -/
def Backends.add (b : Backends) (conf : BackendConfig) : Except String Backends :=
  if hname : conf.name ∈ b.confs.map BackendConfig.name then
    .error ("scatter.backend[" ++ conf.name ++ "].duplicate")
  else if haddress : conf.address ∈ b.confs.map BackendConfig.address then
    .error ("scatter.address[" ++ conf.address ++ "].already.exists.in.backends")
  else .ok ⟨b.confs ++ [conf],
    by simpa [List.nodup_append, b.names] using hname,
    by simpa [List.nodup_append, b.addresses] using haddress⟩

/-- The loop of `Scatter.LoadConfig`. -/
def Backends.addAll (b : Backends) : List BackendConfig → Except String Backends
  | [] => .ok b
  | conf :: confs => do
    let b ← b.add conf
    b.addAll confs

/-- `config.ReadBackendsConfig`; an object without backends has none. -/
def readBackendsConfig : Content → Except String (List BackendConfig)
  | .backends confs => .ok confs
  | .table _ | .version _ => .ok []
  | .peers _ => .error "json: cannot unmarshal array into Go value of type config.BackendsConfig"

/-- The file of the backends is written when it is not there. -/
def ensureBackends (disk : FileTree Content) : Except String (FileTree Content) :=
  match disk.get [backendJSON] with
  | none => disk.writeFile [] backendJSON (.backends [])
  | some _ => .ok disk

/-- `Scatter.LoadConfig`. -/
def loadBackends (disk : FileTree Content) : Except String (Backends × FileTree Content) := do
  let disk ← ensureBackends disk
  match disk.get [backendJSON] with
  | some (.file content) =>
    let confs ← readBackendsConfig content
    let b ← Backends.clear.addAll confs
    return (b, disk)
  | _ => .error "read backend.json: is a directory"

/-! ## Databases and tables -/

/-- `config.ReadTableConfig`; what is not a table is refused here or by `addTable`, since it has no shard
type. -/
def readTableConfig : Content → Except String TableConfig
  | .table conf => .ok conf
  | .version _ | .backends _ => .error "router.unsupport.shardtype:[]"
  | .peers _ => .error "json: cannot unmarshal array into Go value of type config.TableConfig"

/-- What the files in a directory of the metadata directory hold. -/
def jsons (disk : FileTree Content) (n : Name) : List Content :=
  (disk.readDir [n]).filterMap fun e =>
    match e.2 with
    | .dir => none
    | .file content => some content

/-- The directories of the metadata directory with what the files in them hold. -/
def frms (disk : FileTree Content) : List (String × List Content) :=
  (disk.readDir []).filterMap fun e =>
    match e.2 with
    | .dir => some (nameText e.1, jsons disk e.1)
    | .file _ => none

/-- The databases of `LoadConfig`. -/
def addDatabases (r : Router) : List String → Except String Router
  | [] => .ok r
  | db :: dbs => do
    let r ← addDatabase r db
    addDatabases r dbs

/-- `Router.loadTableFromFile`. -/
def loadTable (r : Router) (db : String) (content : Content) : Except String Router := do
  let conf ← readTableConfig content
  match r.addTable db conf with
  | (some e, _) => .error e
  | (none, r) => .ok r

/-- The tables of `LoadConfig`. -/
def loadTables (r : Router) : List (String × Content) → Except String Router
  | [] => .ok r
  | (db, content) :: rest => do
    let r ← loadTable r db content
    loadTables r rest

/-- `Router.clear`. -/
def clear (r : Router) : Router :=
  { r with databases := fun _ => false, tables := fun _ _ => none }

/-- The files of `LoadConfig` in the order in which they are loaded. -/
def items (order : MapOrder (String × List Content)) (disk : FileTree Content) :
    List (String × Content) :=
  (order.arrange (frms disk)).flatMap fun (db, contents) => contents.map (Prod.mk db)

/-- `Router.LoadConfig`. -/
def loadRouter (order : MapOrder (String × List Content)) (disk : FileTree Content) (r : Router) :
    Except String Router := do
  let r ← addDatabases (clear r) ((frms disk).map Prod.fst)
  loadTables r (items order disk)

/-! ## Peers -/

/-- `Peer.LoadConfig`: the peers of `peers.json`, which are written back to it. -/
def loadPeers (self : String) (peers : List String) (disk : FileTree Content) :
    Except String (List String) :=
  match disk.get [peersJSON] with
  | none => .ok (peers ++ [self])
  | some .dir => .error "read peers.json: is a directory"
  | some (.file (.peers addresses)) => .ok addresses
  | some (.file _) => .error "json: cannot unmarshal object into Go value of type []string"

/-! ## Synchronisation -/

/-- A proxy with its metadata directory. -/
structure Node where
  metadir : List Char
  self : String
  router : Router
  backends : Backends
  peers : List String
  disk : FileTree Content

/-- `strings.TrimPrefix`. -/
def trimPrefix (s pre : List Char) : List Char :=
  if pre <+: s then s.drop pre.length else s

/-- The key of a file in `MetaJSON`; `filepath.Walk` joins the names to the metadata directory. -/
def metaKey (metadir : List Char) (p : List Name) : List Char :=
  trimPrefix (trimPrefix ((resolve metadir).down p).text metadir) ['/']

/-- `syncer.Meta`. -/
abbrev Meta := AList fun _ : List Char => Content

/-- `Syncer.MetaJSON`. -/
def Node.metaJSON (n : Node) : Except String Meta :=
  if n.metadir = [] then .error "lstat : no such file or directory"
  else .ok (n.disk.files.foldl (fun metas (p, content) => metas.insert (metaKey n.metadir p) content) ∅)

/-- The loop of `Syncer.MetaRebuild`. A file that is joined to a place outside leaves nothing in the
metadata directory. -/
def rebuild (metadir : List Char) (disk : FileTree Content) : List (List Char × Content) →
    Except String (FileTree Content)
  | [] => .ok disk
  | (name, data) :: rest =>
    match (resolve metadir).below? (resolve (join metadir name)) with
    | none => rebuild metadir disk rest
    | some p => do
      let disk ← disk.addFile p data
      rebuild metadir disk rest

/-- `Syncer.MetaRebuild`. The directory is moved away and made again with its first file; without a file
it is missing, and nothing can be loaded. -/
def Node.metaRebuild (n : Node) (order : MapOrder (List Char × Content)) (metas : Meta) :
    Except String Node := do
  let files := order.arrange (metas.entries.map fun e => (e.1, e.2))
  if files = [] then .error "open backend.json: no such file or directory"
  else
    let disk ← rebuild n.metadir FileTree.empty files
    return { n with disk := disk }

/-- `Syncer.MetaReload`. -/
def Node.metaReload (n : Node) (order : MapOrder (String × List Content)) : Except String Node := do
  let (backends, disk) ← loadBackends n.disk
  let router ← loadRouter order disk n.router
  let peers ← loadPeers n.self n.peers disk
  return { n with backends := backends, router := router, peers := peers, disk := disk }

/-- A node takes the metadata of a peer: `MetaJSON` there, `MetaRebuild` and `MetaReload` here. -/
def Node.sync (n source : Node) (order : MapOrder (List Char × Content))
    (order' : MapOrder (String × List Content)) : Except String Node := do
  let metas ← source.metaJSON
  let n ← n.metaRebuild order metas
  n.metaReload order'

end Radon.Metadata
