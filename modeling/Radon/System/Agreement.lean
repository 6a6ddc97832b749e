import Radon.Proxy.SpannerSpec

/-!
# Agreement

A transaction decides once. `XA COMMIT` of an xid is sent only after every backend that takes part has
acknowledged its `XA PREPARE`, and an xid is never committed on one backend and rolled back on another,
whatever fails, whichever goroutine is faster, and however often the retry loop runs.
-/

namespace Radon

open Concurrency List

variable {w w' : World} {t : TxnId} {x : Xid} {b : Backend} {d d' : Decision} {log : List Event} {e : Event}

/-- The decision an event carries out or records. -/
def Event.shows : Event → Option (Xid × Decision)
  | .query _ _ (.xaCommit x) _ _ => some (x, .commit)
  | .query _ _ (.xaRollback x) _ _ => some (x, .rollback)
  | .logged x d => some (x, d)
  | _ => none

/-- A decision on the xid has been carried out or recorded. -/
def Decides (x : Xid) (d : Decision) (log : List Event) : Prop := ∃ e ∈ log, e.shows = some (x, d)

theorem decides_cons : Decides x d (e :: log) ↔ e.shows = some (x, d) ∨ Decides x d log := by
  simp [Decides]

theorem Sent.decides (h : Sent (d.query x) b log) : Decides x d log := by
  obtain ⟨call, rep, i, acked, applied, hmem⟩ := h
  refine ⟨_, hmem, ?_⟩
  cases d <;> rfl

theorem Acked.cons {q : Query} (h : Acked q b log) : Acked q b (e :: log) :=
  grows_acked q b log _ (suffix_cons e log) h

theorem sent_cons {q : Query} : Sent q b (e :: log) ↔
    (∃ call rep i acked applied, e = .query call ⟨⟨b, rep⟩, i⟩ q acked applied) ∨ Sent q b log := by
  grind [Sent]

/-- The backends that take part in the transaction have acknowledged its preparation. -/
def Prepared (txns : TxnId → Txn) (x : Xid) (log : List Event) : Prop :=
  ∀ b ∈ (txns x.id).parts, Acked (.xaPrepare x) b log

/-- Every `XA COMMIT` in the log comes after the acknowledgements. -/
def CommitsLate (txns : TxnId → Txn) (log : List Event) : Prop :=
  ∀ later earlier call c x acked applied,
    log = later ++ .query call c (.xaCommit x) acked applied :: earlier → Prepared txns x earlier

theorem CommitsLate.cons {txns : TxnId → Txn} (h : CommitsLate txns log)
    (he : ∀ x, e.shows = some (x, .commit) → Prepared txns x log) : CommitsLate txns (e :: log) := by
  intro later earlier call c x acked applied heq
  cases later with
  | nil =>
    obtain ⟨rfl, rfl⟩ := List.cons.inj heq
    exact he x rfl
  | cons e' later => exact h later earlier call c x acked applied (List.cons.inj heq).2

/-- What holds of the decisions in every reachable world. -/
structure Agreed (w : World) : Prop where
  undecided : ∀ t x d, (w.txns t).stage = .opened → x.id = t → ¬ Decides x d w.log
  decided : ∀ t x d d', (w.txns t).stage = .decided d → x.id = t → Decides x d' w.log → d' = d
  ready : ∀ t x, (w.txns t).stage = .decided .commit → (w.txns t).xid = some x → Prepared w.txns x w.log
  single : ∀ x d d', Decides x d w.log → Decides x d' w.log → d = d'
  prepared : ∀ x, Decides x .commit w.log → Prepared w.txns x w.log
  late : CommitsLate w.txns w.log
  started : ∀ x b, Sent (.xaStart x) b w.log → b ∈ (w.txns x.id).parts

/-- The fields of a record that the decisions depend on. -/
def Txn.deal (txn : Txn) : Stage × Option Xid × List Backend := (txn.stage, txn.xid, txn.parts)

theorem Prepared.of_deal (h : Prepared w.txns x log) (hdeal : ∀ t, (w'.txns t).deal = (w.txns t).deal) :
    Prepared w'.txns x log := by grind [Txn.deal, Prepared]

/-- Agreement depends on the log and on the fields of `Txn.deal`. -/
theorem Agreed.of_deal (h : Agreed w) (hdeal : ∀ t, (w'.txns t).deal = (w.txns t).deal)
    (hlog : w'.log = w.log) : Agreed w' := by
  have hstage : ∀ t, (w'.txns t).stage = (w.txns t).stage := fun t => congrArg (·.1) (hdeal t)
  have hxid : ∀ t, (w'.txns t).xid = (w.txns t).xid := fun t => congrArg (·.2.1) (hdeal t)
  have hparts : ∀ t, (w'.txns t).parts = (w.txns t).parts := fun t => congrArg (·.2.2) (hdeal t)
  constructor
  · intro t x d
    rw [hstage, hlog]
    exact h.undecided t x d
  · intro t x d d'
    rw [hstage, hlog]
    exact h.decided t x d d'
  · grind [Prepared.of_deal, ready]
  · rw [hlog]
    exact h.single
  · intro x hx
    rw [hlog] at hx ⊢
    exact (h.prepared x hx).of_deal hdeal
  · intro later earlier call c x acked applied heq
    rw [hlog] at heq
    exact (h.late later earlier call c x acked applied heq).of_deal hdeal
  · intro x b
    rw [hparts, hlog]
    exact h.started x b

theorem Prepared.cons {txns : TxnId → Txn} (h : Prepared txns x log) : Prepared txns x (e :: log) :=
  fun b hb => (h b hb).cons

/-- An event is added to the log. It may open a branch where the transaction takes part, and it may show
a decision that was taken by the transaction or shown before. -/
theorem Agreed.emit (h : Agreed w)
    (hstart : ∀ x b call rep i acked applied, e = .query call ⟨⟨b, rep⟩, i⟩ (.xaStart x) acked applied →
      b ∈ (w.txns x.id).parts) (hshows : ∀ x d, e.shows = some (x, d) → Decides x d w.log ∨
      ∃ t, (w.txns t).stage = .decided d ∧ (w.txns t).xid = some x ∧ x.id = t) : Agreed (w.emit e) := by
  constructor
  · rintro t x d hs hid hdec
    rcases decides_cons.mp hdec with he | hdec
    · rcases hshows x d he with hdec | ⟨t', hs', _, hid'⟩
      · exact h.undecided t x d hs hid hdec
      · grind [World.emit]
    · exact h.undecided t x d hs hid hdec
  · intro t x d d' hs hid hdec
    rcases decides_cons.mp hdec with he | hdec
    · rcases hshows x d' he with hdec | ⟨t', hs', _, hid'⟩
      · exact h.decided t x d d' hs hid hdec
      · grind [World.emit]
    · exact h.decided t x d d' hs hid hdec
  · exact fun t x hs hx => (h.ready t x hs hx).cons
  · have hnew : ∀ x d d', e.shows = some (x, d) → Decides x d' w.log → d = d' := by
      intro x d d' he hdec'
      grind [single, decided]
    grind [single, Decides, World.emit]
  · grind [Prepared.cons, prepared, ready, Decides, World.emit]
  · refine h.late.cons fun x he => ?_
    grind [prepared, ready]
  · intro x b hsent
    rcases sent_cons.mp hsent with ⟨call, rep, i, acked, applied, rfl⟩ | hsent
    · exact hstart x b call rep i acked applied rfl
    · exact h.started x b hsent

/-- An event that says nothing about commands and decisions. -/
def Event.Silent : Event → Prop
  | .query _ _ _ _ _ => False
  | .logged _ _ => False
  | _ => True

theorem Agreed.emit_silent (h : Agreed w) (he : e.Silent) : Agreed (w.emit e) := by
  refine h.emit ?_ fun x d hx => ?_
  · rintro x b call rep i acked applied rfl
    exact he.elim
  · cases e with
    | query _ _ _ _ _ => exact he.elim
    | logged _ _ => exact he.elim
    | _ => cases hx

/-- The record of one transaction changes. Only before the decision may backends join, and a decision
to commit needs their acknowledgements. -/
theorem Agreed.of_record {txn' : Txn} (h : Agreed w) (hw : Wf w) (htxns : w'.txns = Function.update w.txns t txn')
    (hlog : w'.log = w.log) (hopen : txn'.stage = .opened → (w.txns t).stage = .opened)
    (hdecided : ∀ d, txn'.stage = .decided d → (w.txns t).stage = .opened ∧
      (d = .commit → ∀ x, txn'.xid = some x → x.id = t ∧ ∀ b ∈ txn'.parts, Acked (.xaPrepare x) b w.log))
    (hgrow : ∀ b ∈ (w.txns t).parts, b ∈ txn'.parts)
    (hparts : (w.txns t).stage ≠ .opened → txn'.parts = (w.txns t).parts) : Agreed w' := by
  have hself : w'.txns t = txn' := by rw [htxns, Function.update_self]
  have hother : ∀ {t'}, t' ≠ t → w'.txns t' = w.txns t' := fun hne => by
    rw [htxns, Function.update_of_ne hne]
  have hprep : ∀ {x log}, x.id ≠ t ∨ (w.txns t).stage ≠ .opened → Prepared w.txns x log →
      Prepared w'.txns x log := by
    intro x log hx hp
    unfold Prepared
    by_cases hid : x.id = t
    · rw [hid, hself, hparts (hx.resolve_left fun hne => hne hid), ← hid]
      exact hp
    · rw [hother hid]
      exact hp
  have hstage : ∀ {x d}, Decides x d w.log → x.id ≠ t ∨ (w.txns t).stage ≠ .opened := by grind [undecided]
  constructor
  · grind [undecided]
  · grind [decided]
  · grind [TxnWf.xid_id, Consistent.txn, Wf.toConsistent, ready, Prepared]
  · rw [hlog]
    exact h.single
  · grind [prepared]
  · intro later earlier call c x acked applied heq
    rw [hlog] at heq
    have hdec : Decides x .commit w.log := by
      refine ⟨.query call c (.xaCommit x) acked applied, ?_, rfl⟩
      rw [heq]
      exact mem_append_right _ mem_cons_self
    exact hprep (hstage hdec) (h.late later earlier call c x acked applied heq)
  · grind [started]

theorem deal_update {txn' : Txn} (htxns : w'.txns = Function.update w.txns t txn')
    (hdeal : txn'.deal = (w.txns t).deal) (t' : TxnId) : (w'.txns t').deal = (w.txns t').deal := by
  rw [htxns]
  grind

/-- A command on a connection shows a decision only if the discipline allows it. -/
theorem Agreed.query {g : Goroutine} {call : Option Call} {c : Conn} {q : Query} (acked applied : Bool) (h : Agreed w)
    (hw : Wf w) (hallow : Allowed g (.query call c q) w) : Agreed (w.emit (.query call c q acked applied)) := by
  obtain ⟨⟨t, hholder, _, _, hq⟩, _⟩ := hallow
  refine h.emit ?_ fun x d hx => ?_
  · grind [TxnWf.xid_id, Consistent.txn, Wf.toConsistent, QueryAllowed]
  · cases q with
    | xaCommit y => grind [TxnWf.xid_id, Consistent.txn, Wf.toConsistent, Event.shows, Decides, QueryAllowed]
    | xaRollback y =>
      grind [TxnWf.xid_id, Consistent.txn, Wf.toConsistent, Event.shows, Decides, QueryAllowed]
    | _ => cases hx

/-- Every allowed operation keeps the agreement. -/
theorem agreed_step {g : Goroutine} {o : Op} {choice : Choice} {r : o.Res} (hw : Wf w)
    (hallow : Allowed g o w) (hrun : exec o choice w = some (r, w')) (h : Agreed w) : Agreed w' := by
  cases exec_outcome hrun with
  | same => exact h
  | newTxn k bs =>
    refine h.of_deal (deal_update (t := w.txnid + 1) rfl ?_) rfl
    rw [hw.unborn _ (Nat.lt_succ_self _)]
    rfl
  | mgrAdd | mgrRemove | twopcDelete => exact h.of_deal (deal_update rfl rfl) rfl
  | commitLock t d =>
    obtain ⟨_, hstage, hacked⟩ := hallow
    refine h.of_record hw (t := t) rfl rfl nofun (fun d' hd => ⟨hstage, fun hc x hx => ?_⟩)
      (fun _ hb => hb) fun _ => rfl
    grind [TxnWf.xid_id, Consistent.txn, Wf.toConsistent]
  | writeTxn t u =>
    cases u with
    | xid x parts =>
      obtain ⟨_, hstage, _⟩ := hallow
      refine h.of_record hw (t := t) rfl rfl (fun _ => hstage) (fun d hd => ?_)
        (fun _ hb => mem_append_left _ hb) fun hne => absurd hstage hne
      cases hstage.symm.trans hd
    | _ => exact h.of_deal (deal_update rfl rfl) rfl
  | setState t s => exact (h.emit_silent (e := .stateSet t _ s) trivial).of_deal (deal_update rfl rfl) rfl
  | abortCheck t => exact (h.emit_silent (e := .abortSees t _ _) trivial).of_deal (deal_update rfl rfl) rfl
  | lockMu t who =>
    cases who with
    | finish k => exact h.of_record hw (t := t) rfl rfl nofun nofun (fun _ hb => hb) fun _ => rfl
    | _ => exact h.of_deal (deal_update rfl rfl) rfl
  | unlockMu t =>
    refine h.of_deal (deal_update rfl ?_) rfl
    unfold Txn.unlock
    split <;> rfl
  | twopcPut t b c k =>
    have hmove : ∀ {w₁ : World}, Agreed w₁ → Agreed ((w₁.updTxn t fun txn => txn.putTwopc b c k).connMoved t) :=
      fun h₁ => (h₁.emit_silent (e := .connMove t _) trivial).of_deal (deal_update rfl rfl) rfl
    split
    · exact hmove (h.emit_silent trivial)
    · exact hmove h
  | twopcDrop t | appendNormal t | appendReplica t | poolGet t =>
    exact (h.emit_silent (e := .connMove t _) trivial).of_deal (deal_update rfl rfl) rfl
  | killFailed => exact h.emit_silent trivial
  | deadline t => exact (h.emit_silent (e := .deadline t) trivial).of_deal (fun _ => rfl) rfl
  | query call c q hquery =>
    obtain ⟨s', acked, applied, _, rfl, _⟩ := World.runQuery_spec hquery
    exact (h.query acked applied hw hallow).of_deal (fun _ => rfl) rfl
  | xcAdd x d =>
    obtain ⟨t, _, hxid, hstage⟩ := hallow
    refine (h.emit (e := .logged x d) nofun fun y d' hy => .inr ?_).of_deal (fun _ => rfl) rfl
    cases hy
    exact ⟨t, hstage, hxid, (hw.txn t).xid_id x hxid⟩
  | _ => exact h.of_deal (fun _ => rfl) rfl

/-- Nothing has been decided before the first step. -/
theorem Boot.agreed (h : Boot w) : Agreed w := by
  have hno : ∀ {x d}, ¬ Decides x d w.log := by
    rintro x d ⟨e, he, _⟩
    rw [h.log] at he
    cases he
  constructor
  · exact fun _ _ _ _ _ => hno
  · exact fun _ _ _ _ _ _ hdec => absurd hdec hno
  · intro t x hs
    rw [congrFun h.txns t] at hs
    cases hs
  · exact fun _ _ _ hdec => absurd hdec hno
  · exact fun _ hdec => absurd hdec hno
  · intro later earlier call c x acked applied heq
    rw [h.log] at heq
    cases later <;> cases heq
  · grind [log, Sent]

/-- The backend takes part in the transaction with this xid: a branch was opened on it, or its request
goes there. -/
def Participates (w : World) (x : Xid) (b : Backend) : Prop :=
  Sent (.xaStart x) b w.log ∨ b ∈ (w.txns x.id).parts

/-- Two-phase commit, in every run of a process. -/
theorem commit_after_prepare {tasks : ℕ → Task} {n : ℕ} {w₀ : World} {p : Go (List Unit)} (hboot : Boot w₀)
    (hrun : Prog.Steps exec (process tasks n) w₀ p w) :
    (∀ later earlier call c x acked applied,
      w.log = later ++ .query call c (.xaCommit x) acked applied :: earlier →
      ∀ b, Participates w x b → Acked (.xaPrepare x) b earlier) ∧
    ∀ x b b', ¬ (Sent (.xaCommit x) b w.log ∧ Sent (.xaRollback x) b' w.log) := by
  have h : Agreed w := process_invariant (fun g o c w r w' => agreed_step) hboot hboot.agreed hrun
  refine ⟨fun later earlier call c x acked applied heq b hb => ?_, fun x b b' ⟨hc, hr⟩ => ?_⟩
  · exact h.late later earlier call c x acked applied heq b (hb.elim (h.started x b) id)
  · have := h.single x .commit .rollback (hc.decides (d := .commit)) (hr.decides (d := .rollback))
    cases this

/-- A client that inserts rows on two backends, with the retry loop beside it. -/
def insertTasks : ℕ → Task
  | 0 => .client [.dml false (.ok (.write "insert" [⟨"insert a", "a"⟩, ⟨"insert b", "b"⟩]))]
  | _ => .xaCheck 1

/-- The xid of the first transaction of a single statement, at the clock's origin. -/
def firstXid : Xid := ⟨false, ({} : Choice).now, 1⟩

theorem exists_query_of_head? {q : Query} (h : log.head?.any (Event.isQuery q b) = true) :
    ∃ call c acked applied earlier, log = .query call c q acked applied :: earlier := by
  cases log with
  | nil => cases h
  | cons e earlier =>
    cases e with
    | query call c q' acked applied => grind [Event.isQuery]
    | _ => cases h

/-- A run in which the first `XA COMMIT` has just been sent. -/
theorem commit_after_prepare_insert : ∃ p w call c acked applied earlier,
    Prog.Steps exec (process insertTasks 2) emptyWorld p w ∧
    w.log = .query call c (.xaCommit firstXid) acked applied :: earlier ∧
    (∀ b ∈ ["a", "b"], Participates w firstXid b ∧ Acked (.xaPrepare firstXid) b earlier) ∧
    ¬ Sent (.xaRollback firstXid) "b" w.log := by
  obtain ⟨p, w, hrun, hcheck⟩ := Prog.exists_steps exec (turns 81 [])
    (p := process insertTasks 2) (s := emptyWorld) (fun _ w =>
      w.log.head?.any (Event.isQuery (.xaCommit firstXid) "a") ∧
        ∀ b ∈ ["a", "b"], Sent (.xaStart firstXid) b w.log) (by decide +kernel)
  obtain ⟨hhead, hstart⟩ := of_decide_eq_true hcheck
  obtain ⟨call, c, acked, applied, earlier, hlog⟩ := exists_query_of_head? hhead
  obtain ⟨hlate, hagree⟩ := commit_after_prepare boot_emptyWorld hrun
  refine ⟨p, w, call, c, acked, applied, earlier, hrun, hlog, fun b hb => ⟨.inl (hstart b hb), ?_⟩, fun hr => ?_⟩
  · exact hlate [] earlier call c firstXid acked applied hlog b (.inl (hstart b hb))
  · refine hagree firstXid c.pool.backend "b" ⟨⟨call, c.pool.replica, c.index, acked, applied, ?_⟩, hr⟩
    rw [hlog]
    exact List.mem_cons_self

end Radon
