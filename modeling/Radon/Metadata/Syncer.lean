import Mathlib.Logic.Function.Basic
import Radon.Metadata.Sync

/-!
# The check for newer metadata

Every node asks its peers for their versions, compares the largest with its own version, fetches the
metadata of the peer, rebuilds its directory and reloads it. Each of these is one step; between two of them
other nodes and the clients of the node go on. A change by a client writes its files in one step and the
version in another.

The model records which changes have their files in the directory, which were acknowledged and under
which version, and which were replaced by the metadata of a peer and by which version.
-/

namespace Radon.Metadata

open FileSystem

/-- `config.ReadVersion`. -/
def readVersion (disk : FileTree Content) : ℤ :=
  match disk.get [versionJSON] with
  | some (.file (.version ts)) => ts
  | _ => 0

/-- A change of the files in the metadata directory, other than the version. -/
structure Change where
  apply : FileTree Content → FileTree Content
  version : ∀ disk, readVersion (apply disk) = readVersion disk

/-- Where `Syncer.check` is. -/
inductive Phase (ι : Type)
  | idle
  | asking (peers : List ι) (maxVer : ℤ) (maxPeer : Option ι)
  | behind (maxPeer : Option ι)
  | fetched (metas : Meta)
  | rebuilt

/-- A node with its check and the history of its changes. -/
structure Host (ι : Type) where
  node : Node
  phase : Phase ι
  changes : ℕ
  live : List ℕ
  pending : List ℕ
  acked : List (ℕ × ℤ)
  lost : List (ℕ × ℤ)

/-- The stored version of a node. -/
def Host.version {ι : Type} (h : Host ι) : ℤ := readVersion h.node.disk

/-- The outcome of a request to a peer. -/
inductive Reply
  | ok
  | failed
  | garbled

/-- A step of the check of a node, or of a change by one of its clients. -/
inductive Event (ι : Type)
  | start (i : ι) (peers : List ι)
  | ask (i : ι) (reply : Reply)
  | compare (i : ι)
  | fetch (i : ι) (reply : Reply)
  | rebuild (i : ι) (order : MapOrder (List Char × Content))
  | reload (i : ι) (order : MapOrder (String × List Content))
  | write (i : ι) (change : Change)
  | update (i : ι) (c : ℕ) (ts : ℤ)

variable {ι : Type} [DecidableEq ι]

/-- One round of the loop over the peers in `Syncer.check`. -/
def askPeer (s : ι → Host ι) (i p : ι) (peers : List ι) (maxVer : ℤ) (maxPeer : Option ι) :
    Reply → Phase ι
  | .failed => .asking peers maxVer maxPeer
  | .garbled => if p = i then .asking peers maxVer maxPeer else .idle
  | .ok =>
    if p ≠ i ∧ (s p).version > maxVer then .asking peers (s p).version (some p)
    else .asking peers maxVer maxPeer

/-- The metadata of a peer. -/
def fetchMeta (s : ι → Host ι) : Option ι → Reply → Phase ι
  | some p, .ok =>
    match (s p).node.metaJSON with
    | .ok metas => .fetched metas
    | .error _ => .idle
  | _, _ => .idle

/-- The host after its directory was rebuilt: what was changed in the old one is replaced. -/
def Host.adopt (h : Host ι) (n : Node) : Host ι :=
  { h with
    node := n
    phase := .rebuilt
    live := []
    lost := h.lost ++ h.live.map fun c => (c, readVersion n.disk) }

/-- The host after the files of a new change were written. -/
def Host.write (h : Host ι) (change : Change) : Host ι :=
  { h with
    node := { h.node with disk := change.apply h.node.disk }
    changes := h.changes + 1
    live := h.changes :: h.live
    pending := h.changes :: h.pending }

/-- The host after a change was acknowledged with its version. -/
def Host.acknowledge (h : Host ι) (c : ℕ) (ts : ℤ) (disk : FileTree Content) : Host ι :=
  { h with
    node := { h.node with disk := disk }
    pending := h.pending.erase c
    acked := (c, ts) :: h.acked }

/-- The host that a step leaves, if the step can be made; a panic has no next step. -/
def hostStep (s : ι → Host ι) (i : ι) : Event ι → Option (Host ι)
  | .start _ peers =>
    match (s i).phase with
    | .idle => some { s i with phase := .asking peers 0 none }
    | _ => none
  | .ask _ reply =>
    match (s i).phase with
    | .asking (p :: peers) maxVer maxPeer =>
      some { s i with phase := askPeer s i p peers maxVer maxPeer reply }
    | _ => none
  | .compare _ =>
    match (s i).phase with
    | .asking [] maxVer maxPeer =>
      some { s i with phase := if maxVer > (s i).version then .behind maxPeer else .idle }
    | _ => none
  | .fetch _ reply =>
    match (s i).phase with
    | .behind maxPeer => some { s i with phase := fetchMeta s maxPeer reply }
    | _ => none
  | .rebuild _ order =>
    match (s i).phase with
    | .fetched metas =>
      match (s i).node.metaRebuild order metas with
      | .ok n => some ((s i).adopt n)
      | .error _ => none
    | _ => none
  | .reload _ order =>
    match (s i).phase with
    | .rebuilt =>
      match (s i).node.metaReload order with
      | .ok n => some { s i with node := n, phase := .idle }
      | .error _ => none
    | _ => none
  | .write _ change => some ((s i).write change)
  | .update _ c ts =>
    if c ∈ (s i).pending then
      match (s i).node.disk.writeFile [] versionJSON (.version ts) with
      | .ok disk => some ((s i).acknowledge c ts disk)
      | .error _ => none
    else none

/-- The node of a step. -/
def Event.host : Event ι → ι
  | .start i _ | .ask i _ | .compare i | .fetch i _ | .rebuild i _ | .reload i _ | .write i _
  | .update i _ _ => i

/-- A step of the system. -/
def step (s : ι → Host ι) (e : Event ι) : Option (ι → Host ι) :=
  (hostStep s e.host e).map fun h => Function.update s e.host h

/-- Nodes whose checks have not started. -/
def boot (nodes : ι → Node) : ι → Host ι := fun i => ⟨nodes i, .idle, 0, [], [], [], []⟩

end Radon.Metadata
