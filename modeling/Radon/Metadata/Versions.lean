import Radon.Metadata.RoundTrip
import Radon.Metadata.Syncer
import Radon.Router.PartitionSpec

/-!
# Local changes under synchronisation

The own version is compared before the metadata of the peer is fetched, and the directory is rebuilt after
that. A change that is made in between is replaced, although its version may be larger than that of the
peer. The versions never decrease and no acknowledged change is replaced by an older version when no change
falls between a comparison and the rebuild that follows from it and every clock reading is ahead of the
version in the directory; `UpdateVersion` itself does not look at the old version.
-/

namespace Radon.Metadata

open FileSystem List

variable {ι : Type} [DecidableEq ι]

/-! ## What is to be kept -/

/-- No stored version decreases. -/
def Increasing (s s' : ι → Host ι) : Prop := ∀ i, (s i).version ≤ (s' i).version

/-- No change that was acknowledged with a version was replaced by a smaller version. -/
def NoneLost (s : ι → Host ι) : Prop :=
  ∀ i c v w, (c, v) ∈ (s i).acked → (c, w) ∈ (s i).lost → v ≤ w

/-- Along a run no version decreases and no acknowledged change is lost. -/
def Kept : (ι → Host ι) → List (Event ι) → Prop
  | _, [] => True
  | s, e :: es => ∀ s', step s e = some s' → Increasing s s' ∧ NoneLost s' ∧ Kept s' es

/-- A rebuild brings a version that is not smaller, and a larger version is written for a change that is
still there. -/
def InTime (s : ι → Host ι) : Event ι → Prop
  | .rebuild i order => ∀ metas n, (s i).phase = .fetched metas →
      (s i).node.metaRebuild order metas = .ok n → (s i).version ≤ readVersion n.disk
  | .update i c ts => (s i).version < ts ∧ ∀ w, (c, w) ∉ (s i).lost
  | _ => True

/-! ## What a step does -/

variable {s : ι → Host ι} {e : Event ι} {n n' : Node}

theorem step_eq_some {s' : ι → Host ι} (h : step s e = some s') :
    ∃ host, hostStep s e.host e = some host ∧ s' = Function.update s e.host host := by
  obtain ⟨host, hhost, rfl⟩ := Option.map_eq_some_iff.1 h
  exact ⟨host, hhost, rfl⟩

/-- The version that is written is the one that is read. -/
theorem readVersion_writeFile {disk disk' : FileTree Content} {ts : ℤ}
    (h : disk.writeFile [] versionJSON (.version ts) = .ok disk') : readVersion disk' = ts := by
  unfold FileTree.writeFile at h
  split_ifs at h
  cases h
  simp [readVersion]

theorem readVersion_loadBackends {disk disk' : FileTree Content} {b : Backends}
    (h : loadBackends disk = .ok (b, disk')) : readVersion disk' = readVersion disk := by
  obtain ⟨disk₁, hdisk₁, hrest⟩ := except_bind_ok h
  have heq : disk' = disk₁ := by
    split at hrest
    · obtain ⟨confs, -, hconfs⟩ := except_bind_ok hrest
      obtain ⟨b', -, hb'⟩ := except_bind_ok hconfs
      cases hb'
      rfl
    · cases hrest
  rw [heq]
  unfold ensureBackends at hdisk₁
  split at hdisk₁
  · unfold FileTree.writeFile at hdisk₁
    split_ifs at hdisk₁
    cases hdisk₁
    have hne : [versionJSON] ≠ [backendJSON] := by decide
    simp [readVersion, hne]
  · cases hdisk₁
    rfl

/-- A reload keeps the version. -/
theorem readVersion_metaReload {order : MapOrder (String × List Content)}
    (h : n.metaReload order = .ok n') : readVersion n'.disk = readVersion n.disk := by
  obtain ⟨⟨b, disk⟩, hload, hrest⟩ := except_bind_ok h
  obtain ⟨router, -, hrest⟩ := except_bind_ok hrest
  obtain ⟨peers, -, hrest⟩ := except_bind_ok hrest
  cases hrest
  exact readVersion_loadBackends hload

/-- What the step of a host can do: it leaves the version and the record of acknowledged and replaced
changes, or it rebuilds the directory, or it acknowledges a change. -/
inductive Effect (h : Host ι) : Event ι → Host ι → Prop
  | quiet {e : Event ι} {h' : Host ι} (hversion : h'.version = h.version) (hacked : h'.acked = h.acked)
      (hlost : h'.lost = h.lost) (he : ∀ s : ι → Host ι, InTime s e) : Effect h e h'
  | rebuild (i : ι) (order : MapOrder (List Char × Content)) {metas : Meta} {n : Node}
      (hphase : h.phase = .fetched metas) (hrebuild : h.node.metaRebuild order metas = .ok n) :
      Effect h (.rebuild i order) (h.adopt n)
  | update (i : ι) {c : ℕ} {ts : ℤ} {disk : FileTree Content} (hpending : c ∈ h.pending)
      (hdisk : readVersion disk = ts) :
      Effect h (.update i c ts) (h.acknowledge c ts disk)

theorem effect_of_hostStep {i : ι} {h' : Host ι} (h : hostStep s i e = some h') : Effect (s i) e h' := by
  cases e with
  | start j peers =>
    simp only [hostStep] at h
    split at h
    · cases h
      exact .quiet rfl rfl rfl fun _ => trivial
    · cases h
  | ask j reply =>
    simp only [hostStep] at h
    split at h
    · cases h
      exact .quiet rfl rfl rfl fun _ => trivial
    · cases h
  | compare j =>
    simp only [hostStep] at h
    split at h
    · cases h
      exact .quiet rfl rfl rfl fun _ => trivial
    · cases h
  | fetch j reply =>
    simp only [hostStep] at h
    split at h
    · cases h
      exact .quiet rfl rfl rfl fun _ => trivial
    · cases h
  | rebuild j order =>
    simp only [hostStep] at h
    split at h
    · rename_i metas hphase
      split at h
      · rename_i n hn
        cases h
        exact .rebuild j order hphase hn
      · cases h
    · cases h
  | reload j order =>
    simp only [hostStep] at h
    split at h
    · split at h
      · rename_i n hn
        cases h
        exact .quiet (readVersion_metaReload hn) rfl rfl fun _ => trivial
      · cases h
    · cases h
  | write j change =>
    cases h
    exact .quiet (change.version _) rfl rfl fun _ => trivial
  | update j c ts =>
    simp only [hostStep] at h
    split_ifs at h with hcond
    split at h
    · rename_i disk hdisk
      cases h
      exact .update j hcond (readVersion_writeFile hdisk)
    · cases h

/-! ## Runs -/

/-- The version of a node is not smaller than those under which its changes were acknowledged or
replaced. -/
structure Recorded (s : ι → Host ι) : Prop where
  noneLost : NoneLost s
  acked : ∀ i c v, (c, v) ∈ (s i).acked → v ≤ (s i).version
  lost : ∀ i c w, (c, w) ∈ (s i).lost → w ≤ (s i).version

omit [DecidableEq ι] in
theorem recorded_boot (nodes : ι → Node) : Recorded (boot nodes) where
  noneLost i c v w h := by simp [boot] at h
  acked i c v h := by simp [boot] at h
  lost i c w h := by simp [boot] at h

/-- A step in time keeps the record, and no version decreases. -/
theorem Recorded.after {s s' : ι → Host ι} (hs : Recorded s) (h : step s e = some s') (he : InTime s e) :
    Recorded s' ∧ Increasing s s' := by
  obtain ⟨host, hhost, rfl⟩ := step_eq_some h
  -- it is enough to look at the host of the step
  suffices hnew : (∀ c v w, (c, v) ∈ host.acked → (c, w) ∈ host.lost → v ≤ w) ∧
      (∀ c v, (c, v) ∈ host.acked → v ≤ host.version) ∧
      (∀ c w, (c, w) ∈ host.lost → w ≤ host.version) ∧ (s e.host).version ≤ host.version by
    obtain ⟨hlost, hacked, hlostle, hle⟩ := hnew
    refine ⟨⟨fun i => ?_, fun i => ?_, fun i => ?_⟩, fun i => ?_⟩ <;>
      by_cases hi : i = e.host
    · subst hi
      simpa using hlost
    · simpa [hi] using hs.noneLost i
    · subst hi
      simpa using hacked
    · simpa [hi] using hs.acked i
    · subst hi
      simpa using hlostle
    · simpa [hi] using hs.lost i
    · subst hi
      simpa using hle
    · simp [hi]
  cases effect_of_hostStep hhost with
  | quiet hversion hacked hlost _ =>
    rw [hversion, hacked, hlost]
    exact ⟨hs.noneLost _, hs.acked _, hs.lost _, le_rfl⟩
  | rebuild i order hphase hrebuild =>
    have hle := he _ _ hphase hrebuild
    refine ⟨fun c v w hc hw => ?_, fun c v hc => (hs.acked i c v hc).trans hle, fun c w hw => ?_, hle⟩
    · rcases mem_append.1 hw with hw | hw
      · exact hs.noneLost i c v w hc hw
      · obtain ⟨c', -, heq⟩ := mem_map.1 hw
        cases heq
        exact (hs.acked i c v hc).trans hle
    · rcases mem_append.1 hw with hw | hw
      · exact (hs.lost i c w hw).trans hle
      · obtain ⟨c', -, heq⟩ := mem_map.1 hw
        cases heq
        exact le_rfl
  | update i hpending hdisk =>
    rename_i c ts disk
    obtain ⟨hts, hkept⟩ := he
    have hversion (h : Host ι) : (h.acknowledge c ts disk).version = ts := hdisk
    refine ⟨fun c' v w hc hw => ?_, fun c' v hc => ?_, fun c' w hw => ?_, ?_⟩
    · rcases mem_cons.1 hc with heq | hc
      · cases heq
        exact absurd hw (hkept w)
      · exact hs.noneLost i c' v w hc hw
    · rw [hversion]
      rcases mem_cons.1 hc with heq | hc
      · cases heq
        exact le_rfl
      · exact (hs.acked i c' v hc).trans hts.le
    · rw [hversion]
      exact (hs.lost i c' w hw).trans hts.le
    · rw [hversion]
      exact hts.le

/-- A file that is written, other than the version. -/
def Change.writeFile (p : List Name) (f : Name) (c : Content) (hne : p ++ [f] ≠ [versionJSON]) : Change where
  apply disk := (disk.writeFile p f c).toOption.getD disk
  version disk := by
    unfold FileTree.writeFile
    split_ifs
    · simp [readVersion, Except.toOption, hne.symm]
    · rfl
    · rfl

/-- A node with a version in its directory. -/
def versionNode (self : String) (ts : ℤ) : Node where
  metadir := "/var/lib/radon-meta".toList
  self := self
  router := Router.init 4096 128
  backends := Backends.clear
  peers := [self]
  disk := FileTree.empty.put [] versionJSON (.file (.version ts)) FileTree.get_empty_nil
    (.inr (by simp [FileTree.get_empty]))

/-- Between the comparison of a node with version 1 and its rebuild from a peer with version 5, a change is
made and acknowledged with version 9. The rebuild replaces it and takes the version back to 5. -/
theorem not_kept_of_change_before_rebuild : ¬ Kept
    (boot fun | false => versionNode "192.168.0.1:8080" 1 | true => versionNode "192.168.0.2:8080" 5)
    [.start false [true], .ask false .ok, .compare false,
      .write false (.writeFile [] backendJSON (.backends []) (by decide)), .update false 0 9,
      .fetch false .ok, .rebuild false ⟨id, fun _ => .refl _⟩] := by
  intro h
  obtain ⟨-, -, h⟩ := h _ rfl
  obtain ⟨-, -, h⟩ := h _ rfl
  obtain ⟨-, -, h⟩ := h _ rfl
  obtain ⟨-, -, h⟩ := h _ rfl
  obtain ⟨-, -, h⟩ := h _ rfl
  obtain ⟨-, -, h⟩ := h _ rfl
  have hle : (9 : ℤ) ≤ 5 := (h _ rfl).1 false
  exact absurd hle (by decide)

/-! ## Runs in which no change falls between a comparison and a rebuild -/

/-- A check has compared the versions and not yet rebuilt the directory. -/
def Phase.InWindow : Phase ι → Prop
  | .behind _ | .fetched _ => True
  | .idle | .asking _ _ _ | .rebuilt => False

/-- A step of a client does not fall between a comparison and a rebuild, a comparison does not fall between
the two steps of a change, and the clock is ahead of the stored version when a version is written. -/
def Undisturbed (s : ι → Host ι) : Event ι → Prop
  | .write i _ => ¬ (s i).phase.InWindow
  | .update i _ ts => ¬ (s i).phase.InWindow ∧ (s i).version < ts
  | .compare i => (s i).pending = []
  | _ => True

/-- All steps of a run are undisturbed. -/
def AllUndisturbed : (ι → Host ι) → List (Event ι) → Prop
  | _, [] => True
  | s, e :: es => ∀ s', step s e = some s' → Undisturbed s e ∧ AllUndisturbed s' es

/-- What the check of a host with a version and changes under way knows: the largest version is that of a
peer, and after the comparison it is larger than the own one. -/
def Phase.Informed (s : ι → Host ι) (version : ℤ) (pending : List ℕ) : Phase ι → Prop
  | .idle | .rebuilt | .asking _ _ none => True
  | .asking _ maxVer (some p) => maxVer ≤ (s p).version
  | .behind maxPeer => pending = [] ∧ ∀ p, maxPeer = some p → version < (s p).version
  | .fetched metas => pending = [] ∧ ∃ n : Node, Spelled n.metadir ∧ n.metaJSON = .ok metas ∧
      version < readVersion n.disk

/-- The changes of a host are numbered, and none that was replaced waits for its version. -/
structure Host.Numbered (h : Host ι) : Prop where
  live : ∀ c ∈ h.live, c < h.changes
  lost : ∀ c w, (c, w) ∈ h.lost → c < h.changes ∧ c ∉ h.pending

/-- A host whose check and changes are in order. -/
structure Host.Orderly (s : ι → Host ι) (h : Host ι) : Prop where
  spelled : Spelled h.node.metadir
  informed : h.phase.Informed s h.version h.pending
  numbered : h.Numbered

section Informed

variable {s s' : ι → Host ι} {version : ℤ} {pending : List ℕ} {phase : Phase ι}

omit [DecidableEq ι] in
theorem Phase.Informed.mono (hi : phase.Informed s version pending) (hle : Increasing s s') :
    phase.Informed s' version pending := by
  unfold Phase.Informed at hi ⊢
  split at hi
  · trivial
  · trivial
  · trivial
  · exact hi.trans (hle _)
  · exact ⟨hi.1, fun p hp => (hi.2 p hp).trans_le (hle p)⟩
  · exact hi

omit [DecidableEq ι] in
/-- Outside the window the own version and changes do not matter. -/
theorem Phase.Informed.outside (hi : phase.Informed s version pending) (hw : ¬ phase.InWindow)
    (version' : ℤ) (pending' : List ℕ) : phase.Informed s version' pending' := by
  unfold Phase.Informed at hi ⊢
  split at hi
  · trivial
  · trivial
  · trivial
  · exact hi
  · exact absurd trivial hw
  · exact absurd trivial hw

end Informed

omit [DecidableEq ι] in
theorem Host.Orderly.mono {s' : ι → Host ι} {h : Host ι} (hh : h.Orderly s) (hle : Increasing s s') : h.Orderly s' :=
  ⟨hh.spelled, hh.informed.mono hle, hh.numbered⟩

theorem metaRebuild_metadir {order : MapOrder (List Char × Content)} {metas : Meta}
    (h : n.metaRebuild order metas = .ok n') : n'.metadir = n.metadir := by
  unfold Node.metaRebuild at h
  dsimp only at h
  split_ifs at h
  obtain ⟨disk, -, hrest⟩ := except_bind_ok h
  cases hrest
  rfl

theorem metaReload_metadir {order : MapOrder (String × List Content)}
    (h : n.metaReload order = .ok n') : n'.metadir = n.metadir := by
  obtain ⟨⟨b, disk⟩, -, hrest⟩ := except_bind_ok h
  obtain ⟨router, -, hrest⟩ := except_bind_ok hrest
  obtain ⟨peers, -, hrest⟩ := except_bind_ok hrest
  cases hrest
  rfl

/-- A rebuild brings the version that the peer had when it sent its metadata. -/
theorem readVersion_metaRebuild {source : Node} {order : MapOrder (List Char × Content)}
    {metas : Meta} (hs : Spelled source.metadir) (hmetas : source.metaJSON = .ok metas)
    (h : n.metaRebuild order metas = .ok n') : readVersion n'.disk = readVersion source.disk := by
  obtain ⟨metas', hmetas', hperm⟩ := metaJSON_ok hs
  cases hmetas.symm.trans hmetas'
  have hne : source.disk.files ≠ [] := by
    intro hnil
    rw [hnil, map_nil, perm_nil] at hperm
    have harrange : order.arrange [] = [] := perm_nil.1 (order.perm [])
    rw [Node.metaRebuild, hperm, if_pos harrange] at h
    cases h
  obtain ⟨disk, hdisk, hfile, -⟩ := metaRebuild_ok (n := n) order hperm hne
  cases hdisk.symm.trans h
  have hversion (ts : ℤ) : disk.get [versionJSON] = some (.file (.version ts)) ↔
      source.disk.get [versionJSON] = some (.file (.version ts)) := hfile _ _
  unfold readVersion
  split
  · rename_i ts hts
    rw [(hversion ts).1 hts]
  · rename_i hnot
    split
    · rename_i ts hts
      exact absurd ((hversion ts).2 hts) (hnot ts)
    · rfl

section Undisturbed

variable {s : ι → Host ι} {i : ι} {h' : Host ι}

/-- A step that is not disturbed leaves the host in order. -/
theorem orderly_of_hostStep (hi : e.host = i) (hall : ∀ j, (s j).Orderly s)
    (hu : Undisturbed s e) (h : hostStep s i e = some h') : h'.Orderly s := by
  obtain ⟨hspelled, hinformed, hnumbered⟩ := hall i
  subst hi
  cases e with
  | start i peers =>
    simp only [hostStep] at h
    split at h
    · cases h
      exact ⟨hspelled, trivial, ⟨hnumbered.live, hnumbered.lost⟩⟩
    · cases h
  | ask i reply =>
    simp only [hostStep] at h
    split at h
    · rename_i p peers maxVer maxPeer hphase
      cases h
      rw [hphase] at hinformed
      have hkeep : (Phase.asking peers maxVer maxPeer).Informed s (s i).version (s i).pending := by
        cases maxPeer with
        | none => trivial
        | some q => exact hinformed
      refine ⟨hspelled, ?_, ⟨hnumbered.live, hnumbered.lost⟩⟩
      change (askPeer s i p peers maxVer maxPeer reply).Informed s (s i).version (s i).pending
      cases reply with
      | failed => exact hkeep
      | garbled =>
        simp only [askPeer]
        split_ifs
        · exact hkeep
        · trivial
      | ok =>
        simp only [askPeer]
        split_ifs
        · exact le_rfl
        · exact hkeep
    · cases h
  | compare i =>
    simp only [hostStep] at h
    split at h
    · rename_i maxVer maxPeer hphase
      cases h
      rw [hphase] at hinformed
      refine ⟨hspelled, ?_, ⟨hnumbered.live, hnumbered.lost⟩⟩
      change (if maxVer > (s i).version then Phase.behind maxPeer else .idle).Informed s (s i).version
        (s i).pending
      split_ifs with hlarger
      · refine ⟨hu, fun p hp => ?_⟩
        subst hp
        exact lt_of_lt_of_le hlarger hinformed
      · trivial
    · cases h
  | fetch i reply =>
    simp only [hostStep] at h
    split at h
    · rename_i maxPeer hphase
      cases h
      rw [hphase] at hinformed
      refine ⟨hspelled, ?_, ⟨hnumbered.live, hnumbered.lost⟩⟩
      change (fetchMeta s maxPeer reply).Informed s (s i).version (s i).pending
      unfold fetchMeta
      split
      · rename_i p
        split
        · rename_i metas hmetas
          exact ⟨hinformed.1, (s p).node, (hall p).spelled, hmetas, hinformed.2 p rfl⟩
        · trivial
      · trivial
    · cases h
  | rebuild i order =>
    simp only [hostStep] at h
    split at h
    · rename_i metas hphase
      split at h
      · rename_i n hn
        cases h
        rw [hphase] at hinformed
        refine ⟨?_, trivial, ⟨by simp [Host.adopt], fun c w hw => ?_⟩⟩
        · rw [Host.adopt, metaRebuild_metadir hn]
          exact hspelled
        · have hpending : c ∉ (s i).pending := by
            rw [show (s i).pending = [] from hinformed.1]
            exact not_mem_nil
          refine ⟨?_, hpending⟩
          rcases mem_append.1 hw with hw | hw
          · exact (hnumbered.lost c w hw).1
          · obtain ⟨c', hc', heq⟩ := mem_map.1 hw
            cases heq
            exact hnumbered.live c hc'
      · cases h
    · cases h
  | reload i order =>
    simp only [hostStep] at h
    split at h
    · split at h
      · rename_i n hn
        cases h
        refine ⟨?_, trivial, ⟨hnumbered.live, hnumbered.lost⟩⟩
        rw [metaReload_metadir hn]
        exact hspelled
      · cases h
    · cases h
  | write i change =>
    cases h
    refine ⟨hspelled, hinformed.outside hu _ _, ⟨fun c hc => ?_, fun c w hw => ?_⟩⟩
    · rcases mem_cons.1 hc with rfl | hc
      · exact Nat.lt_succ_self _
      · exact (hnumbered.live c hc).trans (Nat.lt_succ_self _)
    · obtain ⟨hlt, hnot⟩ := hnumbered.lost c w hw
      refine ⟨hlt.trans (Nat.lt_succ_self _), fun hmem => ?_⟩
      rcases mem_cons.1 hmem with heq | hmem
      · exact hlt.ne heq
      · exact hnot hmem
  | update i c ts =>
    simp only [hostStep] at h
    split_ifs at h with hcond
    split at h
    · cases h
      refine ⟨hspelled, hinformed.outside hu.1 _ _, ⟨hnumbered.live, fun c' w hw => ?_⟩⟩
      obtain ⟨hlt, hnot⟩ := hnumbered.lost c' w hw
      exact ⟨hlt, fun hmem => hnot (mem_of_mem_erase hmem)⟩
    · cases h

/-- A step that is not disturbed is in time. -/
theorem inTime_of_undisturbed (hall : ∀ j, (s j).Orderly s) (hu : Undisturbed s e)
    (h : hostStep s e.host e = some h') : InTime s e := by
  cases effect_of_hostStep h with
  | quiet _ _ _ he => exact he s
  | rebuild i order hphase hrebuild =>
    intro metas n hmetas hn
    have hinformed := (hall i).informed
    rw [hmetas] at hinformed
    obtain ⟨-, source, hs, hjson, hlt⟩ := hinformed
    rw [readVersion_metaRebuild hs hjson hn]
    exact hlt.le
  | update i hpending _ => exact ⟨hu.2, fun w hw => ((hall i).numbered.lost _ w hw).2 hpending⟩

end Undisturbed

/-- From hosts that are in order a run without disturbances keeps the versions and the changes. -/
theorem kept_of_orderly (hs : Recorded s) (hall : ∀ i, (s i).Orderly s) {es : List (Event ι)}
    (hes : AllUndisturbed s es) : Kept s es := by
  induction es generalizing s with
  | nil => trivial
  | cons e es ih =>
    intro s' h
    obtain ⟨hu, hrest⟩ := hes s' h
    obtain ⟨host, hhost, hs'⟩ := step_eq_some h
    obtain ⟨hrecorded, hle⟩ := hs.after h (inTime_of_undisturbed hall hu hhost)
    have hhost' := orderly_of_hostStep rfl hall hu hhost
    refine ⟨hle, hrecorded.noneLost, ih hrecorded (fun i => ?_) hrest⟩
    have hi : (s' i).Orderly s := by
      rw [hs', Function.update_apply]
      split_ifs
      · exact hhost'
      · exact hall i
    exact hi.mono hle

/-- In a run of nodes with clean metadata directories, in which no change falls between a comparison and the
rebuild that follows from it and every version that is written is larger than the stored one, no version
decreases and no acknowledged change is lost. -/
theorem kept_of_allUndisturbed {nodes : ι → Node} (hspelled : ∀ i, Spelled (nodes i).metadir)
    {es : List (Event ι)} (hes : AllUndisturbed (boot nodes) es) : Kept (boot nodes) es := by
  refine kept_of_orderly (recorded_boot nodes) (fun i => ⟨hspelled i, trivial, ⟨?_, ?_⟩⟩) hes
  · simp [boot]
  · simp [boot]

/-- A change is acknowledged by the peer, and a node that is behind takes it over. -/
theorem kept_of_sync : Kept
    (boot fun | false => versionNode "192.168.0.1:8080" 1 | true => versionNode "192.168.0.2:8080" 5)
    [.write true (.writeFile [] backendJSON (.backends []) (by decide)), .update true 0 9,
      .start false [true], .ask false .ok, .compare false, .fetch false .ok,
      .rebuild false ⟨id, fun _ => .refl _⟩] := by
  refine kept_of_allUndisturbed (fun i => ?_) fun _ h => ⟨id, ?_⟩
  · cases i <;> exact show Spelled (resolve "/var/lib/radon-meta".toList).text from spelled_text (by decide)
  · cases Option.some.inj h
    refine fun _ h => ⟨⟨id, show (5 : ℤ) < 9 by decide⟩, ?_⟩
    cases Option.some.inj h
    refine fun _ h => ⟨trivial, ?_⟩
    cases Option.some.inj h
    refine fun _ h => ⟨trivial, ?_⟩
    cases Option.some.inj h
    exact fun _ _ => ⟨rfl, fun _ _ => ⟨trivial, fun _ _ => ⟨trivial, trivial⟩⟩⟩

end Radon.Metadata
