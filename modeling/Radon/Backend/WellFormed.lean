import Radon.Backend.Discipline
import Radon.Backend.History

/-!
# The allowed operations keep the world well formed
-/

namespace Radon

open Concurrency List Function

variable {t : TxnId} {log log' : List Event} {txn txn' : Txn} {w w' : World} {g h : Goroutine} {n : ℕ}
    {c : Conn} {b : Backend} {choice : Choice} {o : Op} {r : o.Res}

theorem Overwritten.mono (h : Overwritten t log) (hlog : log <:+ log') : Overwritten t log' := by
  obtain ⟨s, hs, hmem⟩ := h
  exact ⟨s, hs, hlog.mem hmem⟩

theorem Disturbed.mono (h : Disturbed t log)
    (hlog : log <:+ log') : Disturbed t log' := by grind [Overwritten, Disturbed]

/-- A deadline that kills a connection disturbs its transaction. -/
theorem disturbed_of_deadline (h : Event.deadline t ∈ log) : Disturbed t log :=
  .inr (.inr (.inr (.inr (.inr h))))

theorem Marked.mono (h : Marked t txn log) (hlog : log <:+ log') : Marked t txn log' :=
  fun k hmu hp => (h k hmu hp).imp id fun ho => ho.mono hlog

/-- A record that differs from the empty one belongs to a transaction that exists. -/
theorem Consistent.le_of_field (hw : Consistent w) {β : Type} (field : Txn → β)
    (h : field (w.txns t) ≠ field {}) : t ≤ w.txnid := by grind [unborn]

theorem Consistent.le_of_owner (hw : Consistent w) (h : (w.txns t).owner = some g) : t ≤ w.txnid :=
  hw.le_of_field Txn.owner (by simp [h])

theorem Consistent.le_of_served (hw : Consistent w) (h : (w.txns t).ServedBy g) : t ≤ w.txnid := by
  obtain ⟨o, ho, _⟩ := h
  exact hw.le_of_owner ho

theorem Txn.PlannedBy.served (h : txn.PlannedBy g) : txn.ServedBy g := by
  grind [PlannedBy, ServedBy]

theorem Consistent.le_of_mu (hw : Consistent w) {who : MuHolder} (h : (w.txns t).mu = some who) : t ≤ w.txnid :=
  hw.le_of_field Txn.mu (by simp [h])

theorem Consistent.le_of_added (hw : Consistent w) (h : (w.txns t).added = true) : t ≤ w.txnid :=
  hw.le_of_field Txn.added (by simp [h])

/-- Two records agree on the owner, the backends and every place of a connection. -/
structure SameConns (txn txn' : Txn) : Prop where
  owner : txn'.owner = txn.owner
  backends : txn'.backends = txn.backends
  twopc : txn'.twopcConnections = txn.twopcConnections
  normal : txn'.normalConnections = txn.normalConnections
  replica : txn'.replicaConnections = txn.replicaConnections
  inHand : txn'.inHand = txn.inHand

theorem SameConns.places (h : SameConns txn txn') (c : Conn) : txn'.Places c ↔ txn.Places c := by
  rw [Txn.Places, Txn.Places, h.twopc, h.normal, h.replica, h.inHand]

/-- A record with the same connections is well formed if its other fields are. -/
theorem TxnWf.of_sameConns (h : TxnWf t txn) (hs : SameConns txn txn') (howned : txn'.added = true → txn.owner ≠ none)
    (hxid : ∀ x, txn'.xid = some x → x.id = t) (hparts : ∀ b ∈ txn'.parts, b ∈ txn.backends.names)
    (hmu : ∀ k, txn'.mu = some (.finish k) → txn'.owner = some k ∧ txn'.stage = .ended)
    (hfin : txn'.state = .finshing → txn'.stage = .ended) (habort : txn'.state = .aborting → 0 < txn'.aborts)
    : TxnWf t txn' where
  owned := by rw [hs.owner]; exact howned
  xid_id := hxid
  parts_mem := by rw [hs.backends]; exact hparts
  mu_finish := hmu
  finshing := hfin
  aborting := habort
  twopc_pool := by rw [hs.twopc, hs.backends]; exact h.twopc_pool
  normal_pool := by rw [hs.normal]; exact h.normal_pool
  replica_pool := by rw [hs.replica]; exact h.replica_pool
  normal_nodup := by rw [hs.normal]; exact h.normal_nodup
  replica_nodup := by rw [hs.replica]; exact h.replica_nodup
  twopc_normal := by rw [hs.twopc, hs.normal]; exact h.twopc_normal
  hand_free := by rw [hs.twopc, hs.normal, hs.replica, hs.inHand]; exact h.hand_free
  hand_nodup := by rw [hs.inHand]; exact h.hand_nodup
  hand_served := by rw [hs.inHand]; simp only [Txn.ServedBy, hs.owner]; exact h.hand_served

theorem World.conns_eq (h : w'.servers = w.servers) : w'.conn = w.conn ∧ w'.released = w.released := by
  have hconn : w'.conn = w.conn := by funext c; rw [World.conn, World.conn, h]
  exact ⟨hconn, by funext c; rw [World.released, World.released, hconn]⟩

section

variable (hw : Consistent w) (htxns : w'.txns = update w.txns t txn') (hid : w'.txnid = w.txnid) (hborn : t ≤ w.txnid)
    (hservers : w'.servers = w.servers) (hsessions : w'.sessions = w.sessions) (hretrys : w'.retrys = w.retrys)
    (hlog : w.log <:+ w'.log) (hlock : w'.commitLock.writer ≠ none → w'.commitLock.readers = []) (hwf : TxnWf t txn')
    (hadded : (w.txns t).added = true → txn'.added = true)

include hw htxns hid hborn hsessions hretrys hlog hlock hwf hadded

/-- A change of one record and of the connections handed to that transaction. -/
theorem Consistent.of_conns (hmarked : Marked t txn' w'.log)
    (hissued : ∀ p i, (w'.servers p).issued ≤ i → (w'.servers p).conns i = {})
    (hother : ∀ c t', t' ≠ t → ((w'.conn c).holder = some t' ↔ (w.conn c).holder = some t') ∧
      ((w.conn c).holder = some t' → w'.released c = w.released c))
    (hplaced : ∀ c, txn'.Places c → (w'.conn c).holder = some t)
    (hunreleased : ¬ Disturbed t w'.log → Txn.ending txn'.state = false → ∀ c, (w'.conn c).holder = some t →
        (txn'.Places c → w'.released c = 0) ∧ (¬ txn'.Places c → w'.released c = 1)) : Consistent w' := by
  have hself : w'.txns t = txn' := by rw [htxns, update_self]
  have hrest : ∀ t', t' ≠ t → w'.txns t' = w.txns t' := fun t' h => by
    rw [htxns, update_of_ne h]
  refine ⟨fun t' => ?_, fun t' => ?_, fun t' h => ?_, hissued, fun t' c h => ?_, fun c t' h => ?_,
    fun t' hd he c hc => ?_, fun sid t' h => ?_, fun e he => ?_, hlock⟩
  · grind [txn]
  · grind [Marked.mono, marked]
  · grind [unborn]
  · grind [placed]
  · rw [hid]
    by_cases h' : t' = t
    · subst h'; exact hborn
    · exact hw.holder_le c t' (((hother c t' h').1).mp h)
  · grind [unreleased, Disturbed.mono]
  · rw [hsessions] at h
    grind [slot]
  · rw [hretrys] at he
    exact hlog.mem (hw.retrys e he)

include hservers

/-- A change of the places of one transaction's connections, without a change of the servers. -/
theorem Consistent.of_places (hmarked : Marked t txn' w'.log)
    (hplaces : ∀ c, txn'.Places c → (w.txns t).Places c) (hback : ¬ Disturbed t w'.log → Txn.ending txn'.state = false →
      Txn.ending (w.txns t).state = false ∧ ∀ c, (w.txns t).Places c → txn'.Places c) : Consistent w' := by
  obtain ⟨hconn, hreleased⟩ := World.conns_eq hservers
  refine hw.of_conns htxns hid hborn hsessions hretrys hlog hlock hwf hadded hmarked ?_ ?_ ?_ ?_
  · rw [hservers]; exact hw.issued
  · simp_all
  · rw [hconn]; exact fun c h => hw.placed t c (hplaces c h)
  · intro hd he c hc
    obtain ⟨hstate, hback⟩ := hback hd he
    rw [hconn] at hc
    rw [hreleased]
    have hrel := hw.unreleased t (fun h' => hd (h'.mono hlog)) hstate c hc
    exact ⟨fun h' => hrel.1 (hplaces c h'), fun h' => hrel.2 fun h'' => h' (hback c h'')⟩

/-- A change of one record that leaves the servers and the connections alone. -/
theorem Consistent.of_record (hsame : SameConns (w.txns t) txn')
    (hstate : ¬ Disturbed t w'.log → Txn.ending txn'.state = false → Txn.ending (w.txns t).state = false)
    (hmarked : Marked t txn' w'.log) : Consistent w' :=
  hw.of_places htxns hid hborn hservers hsessions hretrys hlog hlock hwf hadded hmarked
    (fun c => (hsame.places c).mp) fun hd he => ⟨hstate hd he, fun c => (hsame.places c).mpr⟩

end

/-- Fields of a record that its well-formedness does not look at. -/
theorem TxnWf.of_eq (h : TxnWf t txn) (hs : SameConns txn txn') (hadded : txn'.added = txn.added)
    (hxid : txn'.xid = txn.xid) (hparts : txn'.parts = txn.parts) (hmu : txn'.mu = txn.mu) (hstage : txn'.stage = txn.stage)
    (hstate : txn'.state = txn.state) (haborts : txn.aborts ≤ txn'.aborts) : TxnWf t txn' := by
  refine h.of_sameConns hs ?_ ?_ ?_ ?_ ?_ ?_
  · rw [hadded]; exact h.owned
  · rw [hxid]; exact h.xid_id
  · rw [hparts]; exact h.parts_mem
  · rw [hmu, hstage, hs.owner]; exact h.mu_finish
  · rw [hstate, hstage]; exact h.finshing
  · grind [aborting]

theorem Marked.of_eq (h : Marked t txn log) (hlog : log <:+ log') (hmu : txn'.mu = txn.mu)
    (hstate : txn'.state = txn.state) (hprogress : txn'.progress = txn.progress) : Marked t txn' log' := by
  unfold Marked
  rw [hmu, hstate, hprogress]
  exact h.mono hlog

/-- A transaction whose stage is not the last one is not being finished. -/
theorem TxnWf.not_finish (h : TxnWf t txn) (hs : txn.stage ≠ .ended) :
    (∀ k, txn.mu ≠ some (.finish k)) ∧ txn.state ≠ .finshing :=
  ⟨fun k hmu => hs (h.mu_finish k hmu).2, fun hst => hs (h.finshing hst)⟩

variable {w : World} {g : Goroutine} {t : TxnId}

theorem consistent_mgrAdd (hw : Consistent w) (h : Allowed g (.mgrAdd t) w) :
    Consistent { w.updTxn t fun txn => { txn with added := true } with txnNums := w.txnNums + 1 } := by
  have hsame : SameConns (w.txns t) { w.txns t with added := true } := ⟨rfl, rfl, rfl, rfl, rfl, rfl⟩
  exact hw.of_record rfl rfl (hw.le_of_owner h.1) rfl rfl rfl suffix_rfl hw.lock
    ((hw.txn t).of_sameConns hsame (fun _ => by rw [h.1]; exact nofun) (hw.txn t).xid_id
      (hw.txn t).parts_mem (hw.txn t).mu_finish (hw.txn t).finshing (hw.txn t).aborting) (fun _ => rfl) hsame
    (fun _ he => he) (hw.marked t)

theorem consistent_mgrRemove (hw : Consistent w) (h : Allowed g (.mgrRemove t) w) :
    Consistent { w.updTxn t Txn.remove with txnNums := w.txnNums - 1 } := by
  have hsame : SameConns (w.txns t) (w.txns t).remove := ⟨rfl, rfl, rfl, rfl, rfl, rfl⟩
  refine hw.of_record rfl rfl (hw.le_of_added h.2.1) rfl rfl rfl suffix_rfl hw.lock
    ((hw.txn t).of_eq hsame rfl rfl rfl rfl rfl rfl (Nat.le_refl _)) id hsame (fun _ he => he) fun k hmu _ => ?_
  exact hw.marked t k hmu (by rw [h.1.2]; exact Section.noConfusion)

theorem consistent_commitLock (hw : Consistent w) {d : Decision} (h : Allowed g (.commitLock t d) w) :
    Consistent { w.updTxn t fun txn => { txn with stage := .decided d } with commitLock := ⟨some t, []⟩ } := by
  have hsame : SameConns (w.txns t) { w.txns t with stage := .decided d } :=
    ⟨rfl, rfl, rfl, rfl, rfl, rfl⟩
  obtain ⟨hmu, hstate⟩ := (hw.txn t).not_finish (by rw [h.2.1]; exact Stage.noConfusion)
  refine hw.of_record rfl rfl (hw.le_of_owner h.1) rfl rfl rfl suffix_rfl (fun _ => rfl)
    ((hw.txn t).of_sameConns hsame (hw.txn t).owned (hw.txn t).xid_id (hw.txn t).parts_mem ?_ ?_ (hw.txn t).aborting) id
    hsame (fun _ he => he) (hw.marked t)
  · exact fun k hk => absurd hk (hmu k)
  · exact fun hk => absurd hk hstate

theorem le_of_write (hw : Consistent w) {u : TxnWrite} (h : WriteAllowed g t (w.txns t) u) : t ≤ w.txnid := by
  cases u with
  | xid x parts => exact hw.le_of_owner h.1
  | req r => exact hw.le_of_served h.1.served
  | twopc b => exact h.elim hw.le_of_served hw.le_of_mu
  | isMultiStmtTxn b => exact h.elim hw.le_of_served hw.le_of_mu
  | xaState s => exact hw.le_of_served h.1
  | _ => exact hw.le_of_served h

theorem consistent_writeTxn (hw : Consistent w) {u : TxnWrite} (h : Allowed g (.writeTxn t u) w) :
    Consistent (w.updTxn t u.apply) := by
  have hsame : SameConns (w.txns t) (u.apply (w.txns t)) := by
    cases u <;> exact ⟨rfl, rfl, rfl, rfl, rfl, rfl⟩
  refine hw.of_record rfl rfl (le_of_write hw h) rfl rfl rfl suffix_rfl hw.lock ?_ ?_ hsame ?_ ?_
  · cases u with
    | xid x parts =>
      refine (hw.txn t).of_sameConns hsame (hw.txn t).owned ?_ ?_ (hw.txn t).mu_finish (hw.txn t).finshing
        (hw.txn t).aborting
      · intro y hy
        obtain rfl : x = y := Option.some.inj hy
        exact h.2.2.1
      · intro b hb
        exact (mem_append.mp hb).elim ((hw.txn t).parts_mem b) (h.2.2.2 b)
    | _ => exact (hw.txn t).of_eq hsame rfl rfl rfl rfl rfl rfl (Nat.le_refl _)
  · cases u <;> exact id
  · cases u <;> exact fun _ he => he
  · cases u <;> exact hw.marked t

/-- An owner that writes over an ending state writes over an abort. -/
theorem overwritten_of_write {s : TxnState} (h : TxnWf t txn)
    (hstage : txn.stage ≠ .ended) (hs : Txn.ending s = false) (hold : Txn.ending txn.state = true) :
    Overwritten t (.stateSet t txn.state s :: log) := by grind [TxnWf.finshing, Overwritten, Txn.ending]

theorem consistent_setState (hw : Consistent w) {s : TxnState} (h : Allowed g (.setState t s) w) :
    Consistent ((w.updTxn t fun txn => txn.setState s).emit (.stateSet t (w.txns t).state s)) := by
  have hsame : SameConns (w.txns t) ((w.txns t).setState s) := ⟨rfl, rfl, rfl, rfl, rfl, rfl⟩
  have hlog : w.log <:+ Event.stateSet t (w.txns t).state s :: w.log := suffix_cons _ _
  have hborn : t ≤ w.txnid := by
    rcases h with ⟨hserved, _⟩ | ⟨hmu, _⟩ | ⟨hmu, _⟩
    · exact hw.le_of_served hserved
    · exact hw.le_of_mu hmu
    · exact hw.le_of_mu hmu
  refine hw.of_record rfl rfl hborn rfl rfl rfl hlog hw.lock
    ((hw.txn t).of_sameConns hsame (hw.txn t).owned (hw.txn t).xid_id (hw.txn t).parts_mem (hw.txn t).mu_finish ?_ ?_)
    id hsame ?_ ?_
  · rintro rfl
    rcases h with ⟨_, _, he⟩ | ⟨hmu, _⟩ | ⟨_, _, hs, _⟩
    · cases he
    · exact ((hw.txn t).mu_finish g hmu).2
    · cases hs
  · rintro rfl
    rcases h with ⟨_, _, he⟩ | ⟨_, _, hs, _⟩ | ⟨_, _, _, _, ha, _⟩
    · cases he
    · cases hs
    · exact ha
  · intro hd he
    rcases h with ⟨_, hstage, hs⟩ | ⟨_, _, rfl, _⟩ | ⟨_, _, rfl, _⟩
    · by_contra hend
      exact hd (.inl (overwritten_of_write (hw.txn t) hstage hs (by simpa using hend)))
    · cases he
    · cases he
  · intro k hmu hp
    by_cases hs : Txn.ending s = true
    · exact .inl hs
    · have hp' : (w.txns t).progress ≠ .entered := by grind [Txn.setState]
      rcases hw.marked t k hmu hp' with hold | hold
      · rcases h with ⟨_, hstage, hs'⟩ | ⟨_, _, rfl, _⟩ | ⟨_, _, rfl, _⟩
        · exact .inr (overwritten_of_write (hw.txn t) hstage hs' hold)
        · exact absurd rfl hs
        · exact absurd rfl hs
      · exact .inr (hold.mono hlog)

theorem consistent_abortCheck (hw : Consistent w) (h : Allowed g (.abortCheck t) w) :
    Consistent ((w.updTxn t Txn.abortCheck).emit (.abortSees t (w.txns t).state (w.txns t).clean)) := by
  have hsame : SameConns (w.txns t) (w.txns t).abortCheck := ⟨rfl, rfl, rfl, rfl, rfl, rfl⟩
  have haborts : (w.txns t).aborts ≤ (w.txns t).abortCheck.aborts := by grind [Txn.abortCheck]
  have hlog := suffix_cons (Event.abortSees t (w.txns t).state (w.txns t).clean) w.log
  exact hw.of_record rfl rfl (hw.le_of_mu h.1) rfl rfl rfl hlog hw.lock
    ((hw.txn t).of_eq hsame rfl rfl rfl rfl rfl rfl haborts) id hsame (fun _ he => he)
    ((hw.marked t).of_eq hlog rfl rfl rfl)

theorem consistent_lockMu (hw : Consistent w) {who : MuHolder} (h : Allowed g (.lockMu t who) w) :
    Consistent (w.updTxn t fun txn => txn.lock who) := by
  have hsame : SameConns (w.txns t) ((w.txns t).lock who) := by
    cases who <;> exact ⟨rfl, rfl, rfl, rfl, rfl, rfl⟩
  have hborn : t ≤ w.txnid := by
    cases who with
    | execute k => exact hw.le_of_served h.2
    | finish k => exact hw.le_of_owner h.2.1
    | abort k => exact hw.le_of_added h.2
  refine hw.of_record rfl rfl hborn rfl rfl rfl suffix_rfl hw.lock
    ((hw.txn t).of_sameConns hsame ?_ ?_ ?_ ?_ ?_ ?_) ?_ hsame ?_ ?_
  · cases who <;> exact (hw.txn t).owned
  · cases who <;> exact (hw.txn t).xid_id
  · cases who <;> exact (hw.txn t).parts_mem
  · intro k hk
    cases who with
    | execute k' => cases hk
    | finish k' =>
      cases hk
      rw [h.1]
      exact ⟨h.2.1, rfl⟩
    | abort k' => cases hk
  · cases who with
    | finish k => exact fun _ => rfl
    | _ => exact (hw.txn t).finshing
  · cases who <;> exact (hw.txn t).aborting
  · cases who <;> exact id
  · cases who <;> exact fun _ he => he
  · intro k hmu hp
    cases who with
    | execute k' => rcases hmu with hmu | hmu <;> cases hmu
    | finish k' => exact absurd rfl hp
    | abort k' => exact absurd rfl hp

/-- The fields that releasing the mutex leaves alone. -/
theorem Txn.unlock_fields (txn : Txn) : SameConns txn txn.unlock ∧ txn.unlock.mu = none ∧
    txn.unlock.xid = txn.xid ∧ txn.unlock.stage = txn.stage ∧ txn.unlock.state = txn.state ∧
    txn.unlock.aborts = txn.aborts ∧ txn.unlock.added = txn.added ∧ txn.unlock.parts = txn.parts ∧
    txn.unlock.req = txn.req := by
  unfold Txn.unlock
  split <;> exact ⟨⟨rfl, rfl, rfl, rfl, rfl, rfl⟩, rfl, rfl, rfl, rfl, rfl, rfl, rfl, rfl⟩

theorem consistent_unlockMu (hw : Consistent w) (h : Allowed g (.unlockMu t) w) :
    Consistent (w.updTxn t Txn.unlock) := by
  obtain ⟨hsame, hmu, hxid, hstage, hstate, haborts, hadded, hparts, _⟩ := (w.txns t).unlock_fields
  have hborn : t ≤ w.txnid := by
    rcases h with hmu | ⟨hmu, _⟩ | ⟨hmu, _⟩ <;> exact hw.le_of_mu hmu
  refine hw.of_record rfl rfl hborn rfl rfl rfl suffix_rfl hw.lock
    ((hw.txn t).of_sameConns hsame ?_ ?_ ?_ ?_ ?_ ?_) ?_ hsame ?_ ?_
  · rw [hadded]; exact (hw.txn t).owned
  · rw [hxid]; exact (hw.txn t).xid_id
  · rw [hparts]; exact (hw.txn t).parts_mem
  · rw [hmu]; exact fun k hk => nomatch hk
  · rw [hstate, hstage]; exact (hw.txn t).finshing
  · rw [hstate, haborts]; exact (hw.txn t).aborting
  · rw [hadded]; exact id
  · rw [hstate]; exact fun _ he => he
  · intro k hk
    rw [hmu] at hk
    rcases hk with hk | hk <;> cases hk

/-- Only connection `c` changes in the servers; it keeps its holder and is released `n` more times. -/
structure World.Touches (n : ℕ) (c : Conn) (w w' : World) : Prop where
  issued : ∀ p, (w'.servers p).issued = (w.servers p).issued
  other : ∀ c', c' ≠ c → w'.conn c' = w.conn c'
  holder : (w'.conn c).holder = (w.conn c).holder
  released : w'.released c = w.released c + n

theorem World.Touches.of_server {s' : Server} (hservers : w'.servers = update w.servers c.pool s')
    (h : (w.servers c.pool).Touches n c.index s') : w.Touches n c w' := by
  have hself : w'.servers c.pool = s' := by rw [hservers, update_self]
  refine ⟨fun p => ?_, fun c' hne => ?_, ?_, ?_⟩
  · by_cases hp : p = c.pool
    · subst hp; rw [hself, h.issued]
    · rw [hservers, update_of_ne hp]
  · by_cases hp : c'.pool = c.pool
    · have hi : c'.index ≠ c.index := fun hi => hne (by cases c; cases c'; simp_all)
      rw [World.conn, World.conn, hp, hself, h.other _ hi]
    · rw [World.conn, World.conn, hservers, update_of_ne hp]
  · rw [World.conn, World.conn, hself, h.holder]
  · rw [World.released, World.released, World.conn, World.conn, hself, h.released]

theorem World.Touches.holder_iff (h : w.Touches n c w') (c' : Conn) : (w'.conn c').holder = (w.conn c').holder := by
  by_cases hc : c' = c
  · rw [hc, h.holder]
  · rw [h.other c' hc]

/-- A connection that is handed out stays within the issued ones. -/
theorem World.Touches.wf_issued (h : w.Touches n c w') (hw : Consistent w) (hc : (w.conn c).holder = some t)
    (p : PoolRef) (i : ℕ) (hi : (w'.servers p).issued ≤ i) : (w'.servers p).conns i = {} := by
  rw [h.issued] at hi
  have hnone := hw.issued p i hi
  have hne : (⟨p, i⟩ : Conn) ≠ c := by
    rintro rfl
    rw [World.conn, hnone] at hc
    cases hc
  have := h.other ⟨p, i⟩ hne
  rw [World.conn, World.conn] at this
  rw [this, hnone]

/-- The connections of other transactions are released as often as before. -/
theorem World.Touches.released_other (h : w.Touches n c w') (hc : (w.conn c).holder = some t) {t' : TxnId}
    (ht : t' ≠ t) {c' : Conn} (hc' : (w.conn c').holder = some t') : w'.released c' = w.released c' := by
  have hne : c' ≠ c := by
    rintro rfl
    exact ht (Option.some.inj (hc'.symm.trans hc))
  rw [World.released, World.released, h.other c' hne]

/-- A change of one handed-out connection that leaves the records alone. Its transaction is over if
the connection is released. -/
theorem Consistent.of_touch (hw : Consistent w) (h : w.Touches n c w') (hc : (w.conn c).holder = some t)
    (htxns : w'.txns = w.txns) (hid : w'.txnid = w.txnid) (hsessions : w'.sessions = w.sessions)
    (hretrys : w'.retrys = w.retrys) (hlog : w.log <:+ w'.log) (hlock : w'.commitLock = w.commitLock)
    (hn : n = 0 ∨ Txn.ending (w.txns t).state = true ∨ Disturbed t w'.log) : Consistent w' := by
  have hsame : w'.txns = update w.txns t (w.txns t) := by rw [htxns, update_eq_self]
  refine hw.of_conns hsame hid (hw.holder_le c t hc) hsessions hretrys hlog ?_
    (hw.txn t) id ((hw.marked t).mono hlog) (h.wf_issued hw hc) ?_ ?_ ?_
  · rw [hlock]; exact hw.lock
  · intro c' t' ht'
    rw [h.holder_iff]
    exact ⟨Iff.rfl, h.released_other hc ht'⟩
  · intro c' hp
    rw [h.holder_iff]
    exact hw.placed t c' hp
  · intro hd he c' hc'
    rw [h.holder_iff] at hc'
    have hsame : w'.released c' = w.released c' := by
      rcases hn with rfl | hn | hn
      · by_cases hne : c' = c
        · rw [hne, h.released, Nat.add_zero]
        · rw [World.released, World.released, h.other c' hne]
      · rw [hn] at he
        cases he
      · exact absurd hn hd
    rw [hsame]
    exact hw.unreleased t (fun h' => hd (h'.mono hlog)) he c' hc'

/-- Taking a connection out of hand. -/
theorem mem_erase_hand {hand : List (Conn × Goroutine)} (hnodup : (hand.map Prod.fst).Nodup)
    (hmem : (c, h) ∈ hand) (x : Conn × Goroutine) : x ∈ hand.erase (c, h) ↔ x ∈ hand ∧ x.1 ≠ c := by
  rw [hnodup.of_map.mem_erase_iff, and_comm]
  refine and_congr_right fun hx => not_congr ⟨fun heq => by rw [heq], fun heq => ?_⟩
  exact inj_on_of_nodup_map hnodup hx hmem heq

theorem nodup_erase_hand {hand : List (Conn × Goroutine)} (x : Conn × Goroutine)
    (hnodup : (hand.map Prod.fst).Nodup) : ((hand.erase x).map Prod.fst).Nodup :=
  hnodup.sublist (erase_sublist.map _)

section Storing

variable (hwf : TxnWf t txn) (hmem : (c, h) ∈ txn.inHand)

include hwf hmem

theorem TxnWf.putTwopc (hpool : c.pool = ⟨b, false⟩)
    (hb : b ∈ txn.backends.names) : TxnWf t (txn.putTwopc b c h) := by
  have herase := mem_erase_hand hwf.hand_nodup hmem
  have hnodup := nodup_erase_hand (c, h) hwf.hand_nodup
  constructor <;> simp only [Txn.putTwopc] <;> grind [TxnWf, Txn.ServedBy, update_apply]

theorem TxnWf.appendNormal (hpool : c.pool.replica = false) : TxnWf t (txn.appendNormal c h) := by
  have herase := mem_erase_hand hwf.hand_nodup hmem
  have hnodup := nodup_erase_hand (c, h) hwf.hand_nodup
  constructor <;> simp only [Txn.appendNormal] <;> grind [TxnWf, Txn.ServedBy]

theorem TxnWf.appendReplica (hpool : c.pool.replica = true) : TxnWf t (txn.appendReplica c h) := by
  have herase := mem_erase_hand hwf.hand_nodup hmem
  have hnodup := nodup_erase_hand (c, h) hwf.hand_nodup
  constructor <;> simp only [Txn.appendReplica] <;> grind [TxnWf, Txn.ServedBy]

/-- Storing a connection in a free entry keeps the set of places. -/
theorem places_putTwopc (hfree : txn.twopcConnections b = none) (c' : Conn) :
    (txn.putTwopc b c h).Places c' ↔ txn.Places c' := by
  have herase := mem_erase_hand hwf.hand_nodup hmem
  simp only [Txn.Places, Txn.putTwopc, update_apply, herase]
  grind

theorem places_appendNormal (c' : Conn) :
    (txn.appendNormal c h).Places c' ↔ txn.Places c' := by
  have herase := mem_erase_hand hwf.hand_nodup hmem
  simp only [Txn.Places, Txn.appendNormal, herase]
  grind

theorem places_appendReplica (c' : Conn) :
    (txn.appendReplica c h).Places c' ↔ txn.Places c' := by
  have herase := mem_erase_hand hwf.hand_nodup hmem
  simp only [Txn.Places, Txn.appendReplica, herase]
  grind

end Storing

theorem TxnWf.take (hwf : TxnWf t txn) (hnew : ¬ txn.Places c) (hserved : txn.ServedBy h) : TxnWf t (txn.take c h) := by
  simp only [Txn.Places, not_or, not_exists] at hnew
  constructor <;> simp only [Txn.take] <;> grind [TxnWf, Txn.ServedBy]

theorem places_take (c' : Conn) : (txn.take c h).Places c' ↔ c' = c ∨ txn.Places c' := by
  simp only [Txn.Places, Txn.take]
  grind

theorem TxnWf.deleteTwopc (hwf : TxnWf t txn) (b : Backend) : TxnWf t (txn.deleteTwopc b) := by
  constructor <;> simp only [Txn.deleteTwopc] <;> grind [TxnWf, Txn.ServedBy, update_apply]

/-- The places that remain when an entry is deleted. -/
theorem places_deleteTwopc (hwf : TxnWf t txn) (hb : txn.twopcConnections b = some c) (c' : Conn) :
    (txn.deleteTwopc b).Places c' ↔ txn.Places c' ∧ c' ≠ c := by
  have hpool := hwf.twopc_pool
  simp only [Txn.Places, Txn.deleteTwopc, update_apply]
  grind [TxnWf]

/-- The connections after one is handed out. -/
theorem conn_issue (p : PoolRef) (c : Conn) : (w.updServer p fun s => s.issue t).conn c =
      if c = ⟨p, (w.servers p).issued⟩ then { live := true, holder := some t } else w.conn c := by
  unfold World.conn World.updServer
  by_cases hp : c.pool = p
  · subst hp
    simp only [update_self, Server.issue]
    by_cases hi : c.index = (w.servers c.pool).issued
    · rw [hi, update_self, if_pos]
      cases c
      simp_all
    · grind
  · grind

theorem World.touches_released (w : World) (c : Conn) :
    w.Touches 1 c (w.closeConn c) ∧ w.Touches 1 c (w.killConn c) := by
  constructor
  all_goals
    refine .of_server rfl ((Server.touches_disconnect _ _).trans (m := 1) (Server.touches_setConn _ rfl ?_))
    simp only [ConnState.released]
    omega

/-- A deadline releases one connection. -/
theorem World.touches_deadline (w : World) (t : TxnId) (c : Conn) :
    w.Touches 1 c ((w.killConn c).emit (.deadline t)) :=
  have h := (w.touches_released c).2
  ⟨h.issued, h.other, h.holder, h.released⟩

theorem World.touches_recycleConn (w : World) (c : Conn) : w.Touches 1 c (w.recycleConn c) := by
  refine .of_server rfl (Server.touches_setConn _ rfl ?_)
  simp only [ConnState.released]
  omega

section Steps

variable (hw : Consistent w)

include hw

/-- While the connections are being released the state is an ending one, or was written over. -/
theorem Consistent.releasing_ending (h : Releasing g (w.txns t)) :
    Txn.ending (w.txns t).state = true ∨ Disturbed t w.log := by
  have hp : (w.txns t).progress ≠ .entered := by rw [h.2]; exact Section.noConfusion
  rcases h.1 with hmu | ⟨hmu, _⟩
  · exact (hw.marked t g (.inl hmu) hp).imp id .inl
  · exact (hw.marked t g (.inr hmu) hp).imp id .inl

theorem Consistent.le_of_releasing (h : Releasing g (w.txns t)) : t ≤ w.txnid := by
  rcases h.1 with hmu | ⟨hmu, _⟩ <;> exact hw.le_of_mu hmu

theorem consistent_twopcPut (hallow : Allowed g (.twopcPut t b c h) w) :
    Consistent (((if ((w.txns t).twopcConnections b).isSome then w.emit (.overwrite t b) else w).updTxn t
      fun txn => txn.putTwopc b c h).connMoved t) := by
  obtain ⟨⟨_, hserved, _⟩, hmem, hpool, hb⟩ := hallow
  have hborn := hw.le_of_served hserved
  have hput := (hw.txn t).putTwopc hmem hpool hb
  split
  · rename_i hsome
    refine hw.of_places rfl rfl hborn rfl rfl rfl ?_ hw.lock hput id ((hw.marked t).of_eq ?_ rfl rfl rfl) ?_ ?_
    iterate 2 exact (suffix_cons _ _).trans (suffix_cons _ _)
    · grind [Txn.putTwopc_self, Txn.putTwopc_of_ne, Txn.Places, Txn.putTwopc, World.emit]
    · refine fun hd => absurd (.inr (.inr (.inr (.inl ⟨b, ?_⟩)))) hd
      exact mem_cons_of_mem _ mem_cons_self
  · rename_i hnone
    have hfree : (w.txns t).twopcConnections b = none := by simpa using hnone
    have hplaces := places_putTwopc (hw.txn t) hmem hfree
    exact hw.of_places rfl rfl hborn rfl rfl rfl (suffix_cons _ _) hw.lock hput id
      ((hw.marked t).of_eq (suffix_cons _ _) rfl rfl rfl) (fun c' => (hplaces c').mp)
      fun _ he => ⟨he, fun c' => (hplaces c').mpr⟩

theorem consistent_appendNormal (hallow : Allowed g (.appendNormal t c h) w) :
    Consistent ((w.updTxn t fun txn => txn.appendNormal c h).connMoved t) := by
  obtain ⟨⟨_, hserved, _⟩, hmem, hpool⟩ := hallow
  have hplaces := places_appendNormal (hw.txn t) hmem
  exact hw.of_places rfl rfl (hw.le_of_served hserved) rfl rfl rfl (suffix_cons _ _) hw.lock
    ((hw.txn t).appendNormal hmem hpool) id ((hw.marked t).of_eq (suffix_cons _ _) rfl rfl rfl)
    (fun c' => (hplaces c').mp) fun _ he => ⟨he, fun c' => (hplaces c').mpr⟩

theorem consistent_appendReplica (hallow : Allowed g (.appendReplica t c h) w) :
    Consistent ((w.updTxn t fun txn => txn.appendReplica c h).connMoved t) := by
  obtain ⟨⟨_, hserved, _⟩, hmem, hpool⟩ := hallow
  have hplaces := places_appendReplica (hw.txn t) hmem
  exact hw.of_places rfl rfl (hw.le_of_served hserved) rfl rfl rfl (suffix_cons _ _) hw.lock
    ((hw.txn t).appendReplica hmem hpool) id ((hw.marked t).of_eq (suffix_cons _ _) rfl rfl rfl)
    (fun c' => (hplaces c').mp) fun _ he => ⟨he, fun c' => (hplaces c').mpr⟩

theorem consistent_twopcDelete (h : Allowed g (.twopcDelete t b) w) :
    Consistent (w.updTxn t fun txn => txn.deleteTwopc b) := by
  refine hw.of_places rfl rfl (hw.le_of_releasing h.1) rfl rfl rfl suffix_rfl hw.lock
    ((hw.txn t).deleteTwopc b) id (hw.marked t) ?_ ?_
  · grind [Txn.deleteTwopc_self, Txn.deleteTwopc_of_ne, Txn.Places, Txn.deleteTwopc]
  · intro hd he
    rcases hw.releasing_ending h.1 with hend | hend
    · cases hend.symm.trans he
    · exact absurd hend hd

/-- A connection that was never handed out has no place anywhere. -/
theorem Consistent.not_places_of_issued (p : PoolRef) :
    ¬ (w.txns t).Places ⟨p, (w.servers p).issued⟩ := by
  intro hp
  have hholder := hw.placed t _ hp
  rw [World.conn, hw.issued p _ (Nat.le_refl _)] at hholder
  cases hholder

theorem consistent_poolGet {p : PoolRef} (hallow : Allowed g (.poolGet t p h) w) :
    Consistent (((w.updServer p fun s => s.issue t).updTxn t
      fun txn => txn.take ⟨p, (w.servers p).issued⟩ h).connMoved t) := by
  obtain ⟨rfl, hserved, _⟩ := hallow
  have hnew : ¬ (w.txns t).Places ⟨p, (w.servers p).issued⟩ := hw.not_places_of_issued p
  have hconn : ∀ c, (((w.updServer p fun s => s.issue t).updTxn t
      fun txn => txn.take ⟨p, (w.servers p).issued⟩ h).connMoved t).conn c =
      if c = ⟨p, (w.servers p).issued⟩ then { live := true, holder := some t } else w.conn c :=
    conn_issue p
  have hold : (w.conn ⟨p, (w.servers p).issued⟩).holder = none := by
    rw [World.conn, hw.issued p _ (Nat.le_refl _)]
  refine hw.of_conns rfl rfl (hw.le_of_served hserved) rfl rfl (suffix_cons _ _) hw.lock
    ((hw.txn t).take hnew hserved) id ((hw.marked t).of_eq (suffix_cons _ _) rfl rfl rfl)
    ?_ ?_ ?_ ?_
  · intro p' i hi
    by_cases hp : p' = p
    · subst hp
      have hserver : (((w.updServer p' fun s => s.issue t).updTxn t
          fun txn => txn.take ⟨p', (w.servers p').issued⟩ h).connMoved t).servers p' =
          (w.servers p').issue t := update_self _ _ _
      rw [hserver] at hi ⊢
      have hlt : (w.servers p').issued < i := hi
      have hne : i ≠ (w.servers p').issued := (Nat.ne_of_lt hlt).symm
      exact (update_of_ne hne _ _).trans (hw.issued p' i (Nat.le_of_lt hlt))
    · have hserver : (((w.updServer p fun s => s.issue t).updTxn t
          fun txn => txn.take ⟨p, (w.servers p).issued⟩ h).connMoved t).servers p' =
          w.servers p' := update_of_ne hp _ _
      rw [hserver] at hi ⊢
      exact hw.issued p' i hi
  · intro c t' ht'
    rw [World.released, World.released, hconn c]
    grind
  · intro c hp
    rw [hconn c]
    rcases (places_take c).mp hp with rfl | hp
    · rw [if_pos rfl]
    · grind [Consistent.placed, World.updServer]
  · intro hd he c hc
    rw [hconn c] at hc
    rw [World.released, hconn c]
    by_cases hnewc : c = ⟨p, (w.servers p).issued⟩
    · grind [Txn.Places, Txn.take, ConnState.released]
    · rw [if_neg hnewc] at hc ⊢
      have hrel := hw.unreleased t (fun h' => hd (h'.mono (suffix_cons _ _))) he c hc
      refine ⟨fun h' => hrel.1 (((places_take c).mp h').resolve_left hnewc), fun h' => hrel.2 fun h'' => ?_⟩
      exact h' ((places_take c).mpr (.inr h''))

/-- A release of a connection. -/
theorem consistent_release {f : Server → Server} (h : w.Touches 1 c (w.updServer c.pool f))
    (hc : (w.conn c).holder = some t) (hrel : Releasing g (w.txns t)) : Consistent (w.updServer c.pool f) :=
  hw.of_touch h hc rfl rfl rfl rfl suffix_rfl rfl (.inr (hw.releasing_ending hrel))

theorem consistent_twopcDrop (hallow : Allowed g (.twopcDrop t b) w)
    (hb : (w.txns t).twopcConnections b = some c) :
    Consistent (((w.closeConn c).updTxn t fun txn => txn.deleteTwopc b).connMoved t) := by
  have hplace : (w.txns t).Places c := .inr (.inl ⟨b, hb⟩)
  have hc := hw.placed t c hplace
  have htouch : w.Touches 1 c (((w.closeConn c).updTxn t fun txn => txn.deleteTwopc b).connMoved t) :=
    have h := (w.touches_released c).1
    ⟨h.issued, h.other, h.holder, h.released⟩
  have hplaces := places_deleteTwopc (hw.txn t) hb
  refine hw.of_conns rfl rfl (hw.le_of_served hallow.2.1) rfl rfl (suffix_cons _ _) hw.lock
    ((hw.txn t).deleteTwopc b) id ((hw.marked t).of_eq (suffix_cons _ _) rfl rfl rfl)
    (htouch.wf_issued hw hc) ?_ ?_ ?_
  · intro c' t' ht'
    rw [htouch.holder_iff]
    exact ⟨Iff.rfl, htouch.released_other hc ht'⟩
  · intro c' hp
    rw [htouch.holder_iff]
    exact hw.placed t c' ((hplaces c').mp hp).1
  · intro hd he c' hc'
    rw [htouch.holder_iff] at hc'
    have hrel := hw.unreleased t (fun h' => hd (h'.mono (suffix_cons _ _))) he
    by_cases hne : c' = c
    · subst hne
      rw [htouch.released, (hrel c' hc).1 hplace]
      exact ⟨fun hp => absurd rfl ((hplaces c').mp hp).2, fun _ => rfl⟩
    · rw [World.released, htouch.other c' hne]
      exact ⟨fun hp => (hrel c' hc').1 ((hplaces c').mp hp).1,
        fun hp => (hrel c' hc').2 fun hp' => hp ((hplaces c').mpr ⟨hp', hne⟩)⟩

theorem consistent_newTxn {backends : Backends}
    (htxns : w'.txns = update w.txns (w.txnid + 1) { backends := backends, owner := some g })
    (hid : w'.txnid = w.txnid + 1) (hservers : w'.servers = w.servers)
    (hsessions : w'.sessions = w.sessions) (hretrys : w'.retrys = w.retrys) (hlog : w'.log = w.log)
    (hlock : w'.commitLock = w.commitLock) : Consistent w' := by
  have hself : w'.txns (w.txnid + 1) = { backends := backends, owner := some g } := by
    rw [htxns, update_self]
  have hrest : ∀ t, t ≠ w.txnid + 1 → w'.txns t = w.txns t := fun t h => by
    rw [htxns, update_of_ne h]
  obtain ⟨hconn, hreleased⟩ := World.conns_eq hservers
  have hempty : ∀ c, ¬ ({ backends := backends, owner := some g } : Txn).Places c := by grind [Txn.Places]
  refine ⟨fun t => ?_, fun t => ?_, fun t h => ?_, ?_, fun t c h => ?_, fun c t h => ?_,
    fun t hd he c hc => ?_, fun sid t h => ?_, ?_, ?_⟩
  · by_cases h : t = w.txnid + 1
    · subst h
      rw [hself]
      constructor <;> simp
    · rw [hrest t h]
      exact hw.txn t
  · grind [Consistent.marked, Marked]
  · grind [Consistent.unborn]
  · rw [hservers]; exact hw.issued
  · rw [hconn]
    grind [Consistent.placed]
  · rw [hconn] at h
    rw [hid]
    exact Nat.le_succ_of_le (hw.holder_le c t h)
  · rw [hconn] at hc
    rw [hreleased]
    have hne : t ≠ w.txnid + 1 := by
      rintro rfl
      exact Nat.not_succ_le_self _ (hw.holder_le c _ hc)
    grind [Consistent.unreleased]
  · rw [hsessions] at h
    have hadded := hw.slot sid t h
    have hne : t ≠ w.txnid + 1 := by
      rintro rfl
      exact Nat.not_succ_le_self _ (hw.le_of_added hadded)
    rw [hrest t hne, hadded]
  · rw [hretrys, hlog]; exact hw.retrys
  · rw [hlock]; exact hw.lock

/-- A change that leaves the transactions and the servers alone. -/
theorem Consistent.of_rest (htxns : w'.txns = w.txns) (hid : w'.txnid = w.txnid)
    (hservers : w'.servers = w.servers) (hlog : w.log <:+ w'.log)
    (hslot : ∀ sid t, (w'.sessions sid).transaction = some t → (w.txns t).added = true)
    (hretrys : ∀ e ∈ w'.retrys, Event.logged e.xaid e.state ∈ w'.log)
    (hlock : w'.commitLock.writer ≠ none → w'.commitLock.readers = []) : Consistent w' := by
  obtain ⟨hconn, hreleased⟩ := World.conns_eq hservers
  constructor
  · rw [htxns]; exact hw.txn
  · rw [htxns]; exact fun t => (hw.marked t).mono hlog
  · rw [htxns, hid]; exact hw.unborn
  · rw [hservers]; exact hw.issued
  · rw [htxns, hconn]; exact hw.placed
  · rw [hconn, hid]; exact hw.holder_le
  · rw [htxns, hconn, hreleased]
    exact fun t hd => hw.unreleased t fun h' => hd (h'.mono hlog)
  · rw [htxns]; exact hslot
  · exact hretrys
  · exact hlock

/-- A change of one session. -/
theorem consistent_updSession (sid : SessionId) (f : Session → Session)
    (h : ∀ t, (f (w.sessions sid)).transaction = some t → (w.txns t).added = true) :
    Consistent (w.updSession sid f) := by
  refine hw.of_rest rfl rfl rfl suffix_rfl ?_ hw.retrys hw.lock
  intro sid' t ht
  by_cases hsid : sid' = sid
  · simp_all
  · exact hw.slot sid' t ((congrArg Session.transaction (update_of_ne hsid _ _)).symm.trans ht)

/-- Every allowed operation keeps the world consistent. -/
theorem consistent_step (h : Allowed g o w)
    (hrun : exec o choice w = some (r, w')) : Consistent w' := by
  cases exec_outcome hrun with
  | same => exact hw
  | newTxn h' backends => grind [consistent_newTxn, World.updTxn]
  | mgrAdd => exact consistent_mgrAdd hw h
  | mgrRemove => exact consistent_mgrRemove hw h
  | commitLock => exact consistent_commitLock hw h
  | commitUnlock => exact hw.of_rest rfl rfl rfl suffix_rfl hw.slot hw.retrys fun hne => absurd rfl hne
  | commitRLock k hfree =>
    exact hw.of_rest rfl rfl rfl suffix_rfl hw.slot hw.retrys fun hne => absurd hfree hne
  | commitRUnlock call =>
    refine hw.of_rest rfl rfl rfl suffix_rfl hw.slot hw.retrys fun hne => ?_
    have := hw.lock hne
    simp only [this, erase_nil]
  | writeTxn => exact consistent_writeTxn hw h
  | setState => exact consistent_setState hw h
  | abortCheck => exact consistent_abortCheck hw h
  | lockMu => exact consistent_lockMu hw h
  | unlockMu => exact consistent_unlockMu hw h
  | twopcPut => exact consistent_twopcPut hw h
  | twopcDrop t b hb => exact consistent_twopcDrop hw h hb
  | twopcDelete => exact consistent_twopcDelete hw h
  | appendNormal => exact consistent_appendNormal hw h
  | appendReplica => exact consistent_appendReplica hw h
  | poolGet => exact consistent_poolGet hw h
  | close =>
    obtain ⟨t, hc, hrel, _⟩ := h
    exact consistent_release hw (w.touches_released _).1 hc hrel
  | recycle =>
    obtain ⟨t, hc, hrel, _⟩ := h
    exact consistent_release hw (w.touches_recycleConn _) hc hrel
  | kill => exact consistent_release hw (w.touches_released _).2 h.1 h.2.1
  | deadline t c =>
    exact hw.of_touch (w.touches_deadline t c) h rfl rfl rfl rfl (suffix_cons _ _) rfl
      (.inr (.inr (disturbed_of_deadline mem_cons_self)))
  | killFailed =>
    exact hw.of_rest rfl rfl rfl (suffix_cons _ _) hw.slot (fun e he => mem_cons_of_mem _ (hw.retrys e he))
      hw.lock
  | query call c q hquery =>
    obtain ⟨⟨t, hc, _⟩, _⟩ := h
    obtain ⟨s', acked, applied, htouch, rfl, _⟩ := World.runQuery_spec hquery
    exact hw.of_touch (.of_server rfl htouch) hc rfl rfl rfl rfl (suffix_cons _ _) rfl (.inl rfl)
  | xcAdd x d =>
    refine hw.of_rest rfl rfl rfl (suffix_cons _ _) hw.slot ?_ hw.lock
    grind [Consistent.retrys, World.emit]
  | xcDelete x | xcDecTimes x => grind [Consistent.of_rest, Consistent.slot, Consistent.retrys, Consistent.lock]
  | writeSession sid u =>
    refine consistent_updSession hw sid _ fun t ht => ?_
    cases u with
    | transaction t' => exact h.2 t (congrArg SessionWrite.transaction ht)
    | streamingFetch b => exact hw.slot sid t ht
  | addSession sid => exact consistent_updSession hw sid _ fun t ht => by cases ht
  | removeSession sid => exact consistent_updSession hw sid _ fun t ht => hw.slot sid t ht
  | xcLock | xcUnlock | xcTimedOut => exact hw.of_rest rfl rfl rfl suffix_rfl hw.slot hw.retrys hw.lock

/-- A backend that was asked to prepare has been asked from then on. -/
theorem voted_step (hrun : exec o choice w = some (r, w')) (hb : b ∈ (w.txns t).voted) :
    b ∈ (w'.txns t).voted := by
  have hrecord : ∀ (t' : TxnId) {txn' : Txn}, w'.txns = update w.txns t' txn' →
      (t' = t → b ∈ (w.txns t).voted → b ∈ txn'.voted) → b ∈ (w'.txns t).voted := by
    intro t' txn' htxns hsame
    rw [htxns]
    by_cases heq : t = t'
    · subst heq
      rw [update_self]
      exact hsame rfl hb
    · rw [update_of_ne heq]
      exact hb
  cases exec_outcome hrun with
  | newTxn k backends => grind [Consistent.unborn, World.updTxn]
  | writeTxn t' u =>
    refine hrecord _ rfl fun heq hb => ?_
    rw [← heq] at hb
    cases u with
    | xaState s => grind [TxnWrite.apply]
    | _ => exact hb
  | lockMu t' who =>
    refine hrecord _ rfl fun heq => ?_
    rw [heq]
    cases who <;> exact id
  | unlockMu t' => grind [Txn.unlock, World.updTxn]
  | twopcPut t' b' c k => grind [Txn.putTwopc, World.connMoved, World.updTxn, World.emit]
  | mgrAdd | mgrRemove | commitLock | setState | abortCheck | twopcDrop | twopcDelete | appendNormal | appendReplica
  | poolGet => exact hrecord _ rfl fun heq => by rw [heq]; exact id
  | query call c q hquery => grind [World.runQuery_spec]
  | _ => exact hb

/-- A new `XA PREPARE` in the log is the command of an operation. -/
theorem prepare_step (h : Allowed g o w) (hrun : exec o choice w = some (r, w')) {x : Xid}
    {e : Event} (he : e ∈ w'.log) (hprepare : e.isQuery (.xaPrepare x) b = true) :
    e ∈ w.log ∨ ∃ c, c.pool.backend = b ∧ VoteAllowed g (w.txns x.id) c x := by
  obtain ⟨es, hlog, hes⟩ := emits_step hrun
  rw [hlog] at he
  rcases mem_append.mp he with he | he
  · refine .inr ?_
    have hemit := hes e he
    cases o with
    | query call c q =>
      obtain ⟨acked, applied, rfl⟩ := hemit
      obtain ⟨rfl, hb⟩ : q = .xaPrepare x ∧ c.pool.backend = b := of_decide_eq_true hprepare
      grind [TxnWf.xid_id, Consistent.txn, VoteAllowed.xid, QueryAllowed, Allowed]
    | xcAdd x' d => cases hemit; cases hprepare
    | setState t s => cases hemit; cases hprepare
    | abortCheck t => cases hemit; cases hprepare
    | twopcPut t b' c k =>
      rcases hemit with rfl | ⟨late, rfl⟩ <;> cases hprepare
    | twopcDrop t b' => obtain ⟨late, rfl⟩ := hemit; cases hprepare
    | appendNormal t c k => obtain ⟨late, rfl⟩ := hemit; cases hprepare
    | appendReplica t c k => obtain ⟨late, rfl⟩ := hemit; cases hprepare
    | poolGet t p k => obtain ⟨late, rfl⟩ := hemit; cases hprepare
    | kill t c => cases hemit; cases hprepare
    | deadline t c => cases hemit; cases hprepare
    | _ => exact hemit.elim
  · exact .inl he

end Steps

/-- Every allowed operation keeps the world well formed. -/
theorem wf_step (hw : Wf w) (h : Allowed g o w) (hrun : exec o choice w = some (r, w')) : Wf w' := by
  refine ⟨consistent_step hw.toConsistent h hrun, fun x b hsent => ?_⟩
  refine voted_step hw.toConsistent hrun ?_
  obtain ⟨call, rep, i, acked, applied, hmem⟩ := hsent
  rcases prepare_step hw.toConsistent h hrun (x := x) (b := b) hmem (by simp [Event.isQuery]) with hold | hnew
  · exact hw.asked x b ⟨call, rep, i, acked, applied, hold⟩
  · obtain ⟨c, rfl, hvote⟩ := hnew
    exact hvote.asked

end Radon
