import Radon.Proxy.PlanSpec
import Radon.Proxy.Spanner

/-!
# The process follows the discipline

Between two commands a connection knows one thing: the transaction bound to its session, if any, is
its own and open. Every command keeps this up. A session that another goroutine has removed from the
session map is never bound again, so nothing is claimed about it, unless the connection looked it up
before.
-/

namespace Radon

open Concurrency Protocol List

variable {sid : SessionId} {t : TxnId} {w w' : World}

variable {g : Goroutine} {o : Option TxnId} {α : Type} {A : World → Prop}

section Slot

/-- An open transaction is recognised by its core. -/
theorem opened_iff : Opened g t w ↔ (w.txns t).core.owner = some g ∧
    (w.txns t).core.stage = .opened ∧ (w.txns t).core.added = true ∧
    (∀ b ∈ (w.txns t).core.voted, b ∈ (w.txns t).core.backends.names) ∧
    ∀ c k, g <:+ k → (c, k) ∉ (w.txns t).core.inHand := by
  constructor
  · rintro ⟨v, howner, hstage, hhand, _, hvoted, hk⟩
    refine ⟨howner ▸ hk.owner, hk.stage.trans hstage, hk.added, ?_, hk.empty_hand hhand⟩
    rw [← hk.voted, ← hk.backends] at hvoted
    exact hvoted
  · rintro ⟨howner, hstage, hadded, hvoted, hhand⟩
    let v : View := {
      owner := g
      backends := (w.txns t).backends
      xid := (w.txns t).xid
      parts := (w.txns t).parts
      voted := (w.txns t).voted
      req := (w.txns t).req }
    refine ⟨v, rfl, rfl, rfl, rfl, hvoted, ⟨howner, suffix_rfl, rfl, hstage, rfl, rfl, rfl, hadded,
      fun _ => rfl, nil_suffix, nofun, nofun⟩, fun c k hk => ?_⟩
    exact ⟨fun hmem => absurd hmem (hhand c k hk), fun h => nomatch h.2⟩

theorem Opened.of_core (h : Opened g t w) (hcore : (w'.txns t).core = (w.txns t).core) :
    Opened g t w' := by
  rw [opened_iff, hcore, ← opened_iff]
  exact h

/-- The transaction bound to the session is the connection's own, open, and not the one set apart. This
is known while the session is listed, or once the connection has seen it listed. -/
def Slot (sid : SessionId) (seen : Prop) (apart : Option TxnId) (w : World) : Prop :=
  seen ∨ (w.sessions sid).listed = true → ∀ t, (w.sessions sid).transaction = some t →
    apart ≠ some t ∧ Opened [.task sid] t w

variable {seen : Prop} {apart : Option TxnId}

theorem Slot.stable : discipline.Stable [.task sid] (Slot sid seen apart) := by
  intro w w' hw hK h hseen t ht
  obtain ⟨htxn, hlisted⟩ := hK.slot sid suffix_rfl
  obtain ⟨hne, hopen⟩ := h (hseen.imp id hlisted) t (htxn ▸ ht)
  exact ⟨hne, Opened.stable w w' hw hK hopen⟩

/-- What the connection has not seen it need not know. -/
theorem Slot.weaken (h : Slot sid seen apart w) : Slot sid False none w := by
  intro hseen t ht
  exact ⟨nofun, (h (.inr (hseen.resolve_left id)) t ht).2⟩

theorem Slot.of_core (h : Slot sid seen apart w) (hsessions : w'.sessions = w.sessions)
    (hcore : ∀ t', apart ≠ some t' → (w'.txns t').core = (w.txns t').core) : Slot sid seen apart w' := by
  intro hseen t' ht'
  rw [hsessions] at hseen ht'
  obtain ⟨hne, hopen⟩ := h hseen t' ht'
  exact ⟨hne, hopen.of_core (hcore t' hne)⟩

/-- What is bound to the session, while it is listed. -/
def Bound (sid : SessionId) (o : Option TxnId) (w : World) : Prop :=
  (w.sessions sid).listed = true → (w.sessions sid).transaction = o

theorem Bound.stable : discipline.Stable [.task sid] (Bound sid o) := by
  intro w w' _ hK h hlisted
  obtain ⟨htxn, hlisted'⟩ := hK.slot sid suffix_rfl
  exact htxn.trans (h (hlisted' hlisted))

theorem Bound.slot (h : Bound sid none w) : Slot sid False none w := by
  intro hseen t ht
  cases (h (hseen.resolve_left id)).symm.trans ht

theorem Bound.slot_opened (h : Bound sid (some t) w) (hopen : Opened [.task sid] t w) :
    Slot sid False none w := by
  intro hseen t' ht'
  cases (h (hseen.resolve_left id)).symm.trans ht'
  exact ⟨nofun, hopen⟩

/-- The calls on a transaction leave the sessions alone. -/
theorem frame_bound {p : Go α} {Q : α → World → Prop}
    (h : Spec [.task sid] A p Q) (hon : p.All (Op.On t)) :
    Spec [.task sid] (fun w => A w ∧ Bound sid o w) p fun r w => Q r w ∧ Bound sid o w := by
  refine h.frame hon Bound.stable fun op c w r w' hop hrun hb => ?_
  unfold Bound
  rw [(on_step hop hrun).1]
  exact hb

/-- The calls on another transaction leave the one bound to the session alone. -/
theorem frame_slot {p : Go α} {Q : α → World → Prop}
    (h : Spec [.task sid] A p Q) (hon : p.All (Op.On t)) :
    Spec [.task sid] (fun w => A w ∧ Slot sid seen (some t) w) p
      fun r w => Q r w ∧ Slot sid seen (some t) w := by
  refine h.frame hon Slot.stable fun op c w r w' hop hrun hs => ?_
  obtain ⟨hsessions, hcore⟩ := on_step hop hrun
  exact hs.of_core hsessions fun t' hne => hcore t' fun heq => hne (congrArg some heq.symm)

/-- An operation that changes nothing of the slot. -/
theorem slot_quiet {o : Op} (hq : o.Quiet) (hallow : ∀ w, Allowed [.task sid] o w) :
    Spec [.task sid] (Slot sid seen apart) (act o) fun _ => Slot sid seen apart := by
  refine Triple.perform Slot.stable (fun _ => Slot.stable) fun w _ h => ⟨hallow w, ?_⟩
  grind [quiet_step, Slot.of_core]

/-- Looking the session up. -/
theorem sessionListed_spec : Spec [.task sid] (Slot sid False none) (act (.sessionListed sid))
    fun r => Slot sid (r = true) none := by
  refine Triple.perform Slot.stable (fun _ => Slot.stable) fun w _ h => ⟨trivial, ?_⟩
  grind [exec, Slot]

end Slot

/-- A command of the connection keeps the slot in order. -/
abbrev Keeping (sid : SessionId) {α : Type} (p : Go α) : Prop :=
  Spec [.task sid] (Slot sid False none) p fun _ => Slot sid False none

theorem keeping_ret (a : α) : Keeping sid (Prog.ret a) := .ret Slot.stable fun _ _ h => h

section Transactions

/-- A new transaction is not the one bound to the session. -/
theorem createTransaction_slot : Spec [.task sid] (Slot sid False none) (createTransaction [.task sid])
    fun r w =>
      match r with
      | .error _ => Slot sid False none w
      | .ok t => Slot sid False (some t) w ∧ Created [.task sid] t w := by
  refine createTransaction_spec (J := fun t => Slot sid False (some t)) Slot.stable (fun _ => Slot.stable) ?_
    fun t w w' hsessions hcore h => h.of_core hsessions fun t' hne => hcore t' fun heq => hne (congrArg some heq.symm)
  intro w w' hw h hsessions hcore hseen t ht
  rw [hsessions] at hseen ht
  obtain ⟨_, hopen⟩ := h hseen t ht
  have hle : t ≤ w.txnid := by grind [opened_iff, Consistent.unborn, Wf.toConsistent, Txn.core]
  refine ⟨fun heq => ?_, hopen.of_core (hcore t hle)⟩
  cases heq
  exact Nat.not_succ_le_self _ hle

theorem Created.inUse (h : Created g t w) : InUse g t w := by
  obtain ⟨bs, hk⟩ := h
  exact hk.inUse rfl nofun rfl rfl

/-- A transaction that no session sees leaves the bound one alone. -/
theorem freeTransaction_spec {body : TxnId → Go (Except Err Result)}
    (hbody : ∀ t, Spec [.task sid] (Created [.task sid] t) (body t) fun _ => InUse [.task sid] t)
    (hon : ∀ t, (body t).All (Op.On t)) :
    Keeping sid (freeTransaction [.task sid] body) := by
  refine createTransaction_slot.bind fun r => ?_
  cases r with
  | error e => exact keeping_ret _
  | ok t =>
    refine ((frame_slot (hbody t) (hon t)).pre fun w _ h => ⟨h.2, h.1⟩).bind fun r => ?_
    refine (frame_slot finish_spec finish_on).bind fun _ => ?_
    exact .ret ((Stable.of_pure True).and Slot.stable) fun _ _ h => h.2.weaken

theorem freeExecute_spec (req : RequestContext) (hraw : ∃ text, req.rawQuery = .sql text)
    (hquerys : ∀ qt ∈ req.querys, ∃ text, qt.query = .sql text) (hmode : req.txnMode ≠ .txnWrite) :
    Keeping sid (freeTransaction [.task sid] fun t => txnExecute [.task sid] t req) := by
  refine freeTransaction_spec (fun t => Triple.exists fun bs => ?_) fun t => txnExecute_on req
  refine (txnExecute_read_spec (v := { owner := [.task sid], backends := bs }) nofun rfl rfl
    (View.plannedBy_self _) (.sql hraw hquerys) hmode).post fun _ w _ h => ?_
  obtain ⟨r, _, hk⟩ := h
  exact hk.inUse rfl nofun rfl rfl

/-- Knowledge that session writes do not touch. -/
def SessionFree (A : World → Prop) : Prop :=
  ∀ w w', w'.txns = w.txns → w'.log = w.log → w'.commitLock = w.commitLock → A w → A w'

theorem sessionFree_knows {v : View} : SessionFree (Knows g t v) := by
  intro w w' htxns hlog hlock h
  exact h.of_core (by rw [htxns]) (hlog ▸ suffix_rfl) hlock

theorem sessionFree_inUse : SessionFree (InUse g t) := by
  rintro w w' htxns hlog hlock ⟨v, howner, hstage, hhand, hresolved, hk⟩
  refine ⟨v, howner, hstage, hhand, ?_, sessionFree_knows w w' htxns hlog hlock hk⟩
  rw [htxns, hlog]
  exact hresolved

/-- Binding and unbinding: a session that is not listed any more stays so. -/
theorem bind_spec {p : Go Unit} (hA : discipline.Stable [.task sid] A)
    (hp : Spec [.task sid] A p fun _ w => A w ∧ Bound sid o w) :
    Spec [.task sid] A (do if ← act (.sessionListed sid) then p else return ())
      fun _ w => A w ∧ Bound sid o w := by
  have hlook : Spec [.task sid] A (act (.sessionListed sid)) fun r w => A w ∧ (r = false → Bound sid o w) := by
    refine Triple.perform hA (fun r => hA.and (.imp fun _ => Bound.stable)) fun w _ h => ⟨trivial, ?_⟩
    grind [exec, Bound]
  refine hlook.bind fun r => ?_
  cases r with
  | false => exact .ret (hA.and (.imp fun _ => Bound.stable)) fun _ _ h => ⟨h.1, h.2 rfl⟩
  | true => exact hp.pre fun w _ h => h.1

/-- A session write of the connection. -/
theorem writeSession_spec (hA : discipline.Stable [.task sid] A)
    (hfree : SessionFree A) (hadded : ∀ t w, o = some t → A w → (w.txns t).added = true) :
    Spec [.task sid] A (act (.writeSession sid (.transaction o))) fun _ w => A w ∧ Bound sid o w := by
  refine Triple.perform hA (fun _ => hA.and Bound.stable) fun w _ h => ⟨⟨rfl, fun t ht => ?_⟩, ?_⟩
  · exact hadded t w (SessionWrite.transaction.inj ht) h
  · intro choice r w' hrun _
    cases hrun
    refine ⟨hfree w _ rfl rfl rfl h, fun _ => ?_⟩
    exact congrArg Session.transaction (World.updSession_self w sid _)

theorem txnBinding_spec {v : View} : Spec [.task sid] (Knows [.task sid] t v) (txnBinding sid t)
    fun _ w => Knows [.task sid] t v w ∧ Bound sid (some t) w := by
  refine bind_spec Knows.stable ((writeTxn_spec (u := .sessionID sid) trivial).bind fun _ => ?_)
  exact writeSession_spec Knows.stable sessionFree_knows fun t' w ht h => by cases ht; exact h.added

theorem txnUnBinding_spec (hA : discipline.Stable [.task sid] A) (hfree : SessionFree A) :
    Spec [.task sid] A (txnUnBinding sid) fun _ w => A w ∧ Bound sid none w :=
  bind_spec hA (writeSession_spec hA hfree fun _ _ h => nomatch h)

variable {onRep : Bool}

/-- A transaction of one statement, bound and unbound again. -/
theorem bound_spec {body : Go α}
    (hbody : Spec [.task sid] (Created [.task sid] t) body fun _ => InUse [.task sid] t) :
    Spec [.task sid] (Created [.task sid] t) (do
      act (.writeTxn t (.isExecOnRep onRep))
      txnBinding sid t
      let r ← body
      txnUnBinding sid
      finish [.task sid] t
      return r) fun _ => Slot sid False none := by
  refine Triple.exists fun bs => (writeTxn_spec (u := .isExecOnRep onRep) trivial).bind fun _ => ?_
  refine txnBinding_spec.bind fun _ => ?_
  refine (hbody.pre fun w _ h => ⟨bs, h.1⟩).bind fun r => ?_
  refine (txnUnBinding_spec InUse.stable sessionFree_inUse).bind fun _ => ?_
  refine (frame_bound finish_spec finish_on).bind fun _ => ?_
  exact .ret ((Stable.of_pure True).and Bound.stable) fun _ _ h => h.2.slot

theorem boundTransaction_spec {body : TxnId → Go (Option Err)}
    (hbody : ∀ t, Spec [.task sid] (Created [.task sid] t) (body t) fun _ => InUse [.task sid] t) :
    Keeping sid (boundTransaction [.task sid] sid onRep body) := by
  refine createTransaction_slot.bind fun r => ?_
  cases r with
  | error e => exact keeping_ret _
  | ok t => exact (bound_spec (hbody t)).pre fun w _ h => h.2

theorem planBody_spec (plan : Except Err Plan) :
    Spec g (Created g t) (planBody g t plan) fun _ => InUse g t := by
  cases plan with
  | error e => exact .ret Created.stable fun _ _ h => h.inUse
  | ok p =>
    refine Triple.exists fun bs => ?_
    exact (executeTree_spec (v := { owner := g, backends := bs }) rfl rfl rfl rfl p).post
      fun _ w _ h => h.inUse rfl

theorem streamBody_spec (plan : Except Err (List PlanQuery)) :
    Spec g (Created g t) (streamBody g t plan) fun _ => InUse g t := by
  cases plan with
  | error e => exact .ret Created.stable fun _ _ h => h.inUse
  | ok querys =>
    refine Triple.exists fun bs => ?_
    refine (txnExecuteStreamFetch_spec (v := { owner := g, backends := bs }) nofun rfl fun qt hqt => ?_).post
      fun _ w _ h => ?_
    · obtain ⟨q, _, rfl⟩ := mem_map.mp hqt
      trivial
    · obtain ⟨r, _, hk⟩ := h
      exact hk.inUse rfl nofun rfl rfl

theorem singleStmtBody_spec (plan : Except Err Plan) :
    Spec g (Created g t) (singleStmtBody g t plan) fun _ => InUse g t := by
  refine Triple.exists fun bs => begin_spec.bind fun _ => ?_
  cases plan with
  | error e => exact .ret Knows.stable fun _ _ hk => hk.inUse rfl nofun rfl rfl
  | ok p =>
    refine (executeTree_spec (v := { owner := g, backends := bs }) rfl rfl rfl rfl p).bind fun r => ?_
    refine Triple.exists fun v => ?_
    refine Triple.assume fun howner => Triple.assume fun hstage => Triple.assume fun hhand =>
      Triple.assume fun hcall => Triple.assume fun hsame => Triple.assume fun hcovered => ?_
    cases r with
    | some e =>
      exact (rollbackPhaseOne_spec howner hstage hhand hcall hsame.1).bind fun r =>
        .ret InUse.stable fun _ _ h => h
    | none =>
      refine (commit_spec howner hstage hhand hcall hsame.1 (hcovered rfl)).bind fun r => ?_
      cases r with
      | some e => exact .ret InUse.stable fun _ _ h => h
      | none => exact .ret InUse.stable fun _ _ h => h

theorem executeSingleStmtTxnTwoPC_spec (plan : Except Err Plan) :
    Keeping sid (executeSingleStmtTxnTwoPC [.task sid] sid onRep plan) := by
  refine createTransaction_slot.bind fun r => ?_
  cases r with
  | error e => exact keeping_ret _
  | ok t => exact (bound_spec (singleStmtBody_spec plan)).pre fun w _ h => h.2

end Transactions

section Bound

/-- The transaction that the connection has read from its session. -/
def ReadSlot (sid : SessionId) (o : Option TxnId) (w : World) : Prop :=
  (w.sessions sid).transaction = o ∧ ∀ t, o = some t → Opened [.task sid] t w

theorem ReadSlot.stable : discipline.Stable [.task sid] (ReadSlot sid o) := by
  intro w w' hw hK h
  refine ⟨(hK.slot sid suffix_rfl).1.trans h.1, fun t ht => ?_⟩
  exact Opened.stable w w' hw hK (h.2 t ht)

theorem ReadSlot.slot (h : ReadSlot sid o w) : Slot sid False none w := by
  intro _ t ht
  exact ⟨nofun, h.2 t (h.1.symm.trans ht)⟩

theorem ReadSlot.bound (h : ReadSlot sid o w) : Bound sid o w := fun _ => h.1

theorem boundTxn_spec {listed : Bool} : Spec [.task sid] (Slot sid (listed = true) none)
    (boundTxn sid listed) (ReadSlot sid) := by
  cases listed with
  | false => exact panic_spec Slot.stable
  | true =>
    have hread : Spec [.task sid] (Slot sid (true = true) none) (act (.readSession sid))
        fun s => ReadSlot sid s.transaction := by
      refine Triple.perform Slot.stable (fun _ => ReadSlot.stable) fun w _ h => ⟨trivial, ?_⟩
      intro choice r w' hrun _
      cases hrun
      exact ⟨rfl, fun t ht => (h (.inl rfl) t ht).2⟩
    exact hread.bind fun s => .ret ReadSlot.stable fun _ _ h => h

theorem sessionTransaction_spec : Spec [.task sid] (Slot sid False none) (sessionTransaction sid)
    (ReadSlot sid) :=
  sessionListed_spec.bind fun _ => boundTxn_spec

theorem executeMultiStmtsInTxn_spec (plan : Except Err Plan) :
    Keeping sid (executeMultiStmtsInTxn [.task sid] sid plan) := by
  refine sessionListed_spec.bind fun listed => ?_
  refine Triple.bind (B := fun _ => Slot sid (listed = true) none) (.ret Slot.stable fun _ _ h => h)
    fun _ => ?_
  cases plan with
  | error e => exact .ret Slot.stable fun _ _ h => h.weaken
  | ok p =>
    refine boundTxn_spec.bind fun o => ?_
    cases o with
    | none => exact panic_spec ReadSlot.stable
    | some t =>
      have htree : Spec [.task sid] (Opened [.task sid] t) (executeTree [.task sid] t p)
          fun _ => Opened [.task sid] t := by
        refine Triple.exists fun v => Triple.assume fun howner => Triple.assume fun hstage =>
          Triple.assume fun hhand => Triple.assume fun hcall => Triple.assume fun hvoted => ?_
        exact (executeTree_spec howner hstage hhand hcall p).post fun _ w _ h => h.opened hvoted
      refine ((frame_bound htree (executeTree_on p)).pre fun w _ h => ⟨h.2 t rfl, h.bound⟩).bind fun r => ?_
      cases r with
      | some e => exact .ret (Opened.stable.and Bound.stable) fun _ _ h => h.2.slot_opened h.1
      | none => exact .ret (Opened.stable.and Bound.stable) fun _ _ h => h.2.slot_opened h.1

/-- The part of `COMMIT` and `ROLLBACK` after the checks. -/
theorem executeEnd_spec {call : Goroutine → TxnId → Go (Option Err)} {disabled missing : String}
    (hcall : ∀ t, Spec [.task sid] (Opened [.task sid] t) (call [.task sid] t) (Scattered [.task sid] t))
    (hon : ∀ t, (call [.task sid] t).All (Op.On t)) :
    Keeping sid (executeEnd [.task sid] sid call disabled missing) := by
  refine (slot_quiet (o := .twopcEnable) trivial fun _ => trivial).bind fun twopc => ?_
  cases twopc with
  | false => exact keeping_ret _
  | true =>
    refine sessionTransaction_spec.bind fun o => ?_
    cases o with
    | none => exact .ret ReadSlot.stable fun _ _ h => h.slot
    | some t =>
      refine Triple.bind (B := fun _ => ReadSlot sid (some t)) (.ret ReadSlot.stable fun _ _ h => h)
        fun _ => ?_
      refine ((frame_bound (hcall t) (hon t)).pre fun w _ h => ⟨h.2 t rfl, h.bound⟩).bind fun r => ?_
      have hend : discipline.Stable [.task sid] (Scattered [.task sid] t r) := .ex fun _ => Ending.stable
      cases r with
      | some e =>
        refine .ret (hend.and Bound.stable) fun _ _ h => ?_
        grind [Bound.slot_opened, Ending.opened]
      | none =>
        refine ((txnUnBinding_spec (A := InUse [.task sid] t) InUse.stable sessionFree_inUse).pre
          fun w _ h => ?_).bind fun _ => ?_
        · grind [Ending.inUse]
        refine (frame_bound finish_spec finish_on).bind fun _ => ?_
        exact .ret ((Stable.of_pure True).and Bound.stable) fun _ _ h => h.2.slot

theorem beginMultiStmt_spec : Keeping sid (beginMultiStmt [.task sid] sid) := by
  refine createTransaction_slot.bind fun r => ?_
  cases r with
  | error e => exact keeping_ret _
  | ok t =>
    refine Triple.pre (A := Created [.task sid] t) (Triple.exists fun bs => ?_) fun w _ h => h.2
    refine (writeTxn_spec (u := .isMultiStmtTxn true) trivial).bind fun _ => ?_
    refine (writeTxn_spec (u := .isExecOnRep false) trivial).bind fun _ => ?_
    refine txnBinding_spec.bind fun _ => ?_
    refine (frame_bound (beginScatter_spec rfl rfl rfl rfl rfl) beginScatter_on).bind fun r => ?_
    cases r with
    | none =>
      exact .ret ((Opened.stable.and InUse.stable).and Bound.stable) fun _ _ h => h.2.slot_opened h.1.1
    | some e =>
      refine (finish_spec.pre fun w _ h => h.1.2).bind fun _ => ?_
      refine (txnUnBinding_spec (A := fun _ => True) (.of_pure True) fun _ _ _ _ _ h => h).bind fun _ => ?_
      exact .ret ((Stable.of_pure True).and Bound.stable) fun _ _ h => h.2.slot

end Bound

section Commands

theorem twopcEnable_keeping : Keeping sid (act .twopcEnable) := slot_quiet trivial fun _ => trivial

theorem choose_keeping : Keeping sid (act .choose) := slot_quiet trivial fun _ => trivial

theorem executeWithTimeout_keeping (onRep : Bool) (plan : Except Err Plan) :
    Keeping sid (executeWithTimeout [.task sid] sid onRep plan) :=
  boundTransaction_spec fun _ => planBody_spec plan

theorem executeStreamFetch_keeping (onRep : Bool) (plan : Except Err (List PlanQuery)) :
    Keeping sid (executeStreamFetch [.task sid] sid onRep plan) :=
  boundTransaction_spec fun _ => streamBody_spec plan

theorem executeDDL_keeping (query : String) (plan : Except Err Plan) :
    Keeping sid (executeDDL [.task sid] sid query plan) := by
  refine twopcEnable_keeping.bind fun twopc => ?_
  cases twopc with
  | false => exact executeWithTimeout_keeping false plan
  | true =>
    refine sessionTransaction_spec.bind fun o => Triple.pre ?_ fun w _ h => h.slot
    cases o with
    | some t => exact keeping_ret _
    | none => exact executeWithTimeout_keeping false plan

theorem executeDML_keeping (onRep : Bool) (plan : Except Err Plan) :
    Keeping sid (executeDML [.task sid] sid onRep plan) := by
  refine twopcEnable_keeping.bind fun twopc => ?_
  cases twopc with
  | false => exact executeWithTimeout_keeping onRep plan
  | true =>
    refine sessionTransaction_spec.bind fun o => Triple.pre ?_ fun w _ h => h.slot
    cases o with
    | some t => exact executeMultiStmtsInTxn_spec plan
    | none => exact (executeSingleStmtTxnTwoPC_spec plan).bind fun r => keeping_ret _

theorem executeBegin_keeping : Keeping sid (executeBegin [.task sid] sid) := by
  refine twopcEnable_keeping.bind fun twopc => ?_
  cases twopc with
  | false => exact keeping_ret _
  | true =>
    refine sessionTransaction_spec.bind fun o => Triple.pre ?_ fun w _ h => h.slot
    cases o with
    | some t => exact keeping_ret _
    | none => exact beginMultiStmt_spec

theorem handleSelect_keeping (hint onRep : Bool) (plan : Except Err Plan)
    (stream : Except Err (List PlanQuery)) :
    Keeping sid (handleSelect [.task sid] sid hint onRep plan stream) := by
  refine sessionListed_spec.bind fun listed => ?_
  cases listed with
  | false => exact panic_spec Slot.stable
  | true =>
    refine (slot_quiet (o := .readSession sid) trivial fun _ => trivial).bind fun s =>
      Triple.pre ?_ fun w _ h => h.weaken
    grind [executeDML_keeping, executeStreamFetch_keeping]

theorem handleTables_keeping (tables : List (Except Err Plan)) :
    Keeping sid (handleTables [.task sid] sid tables) := by
  induction tables with
  | nil => exact keeping_ret _
  | cons plan tables ih =>
    refine (executeWithTimeout_keeping false plan).bind fun r => ?_
    cases r with
    | some e => exact keeping_ret _
    | none => exact ih

theorem handleChecksumTable_keeping (quick : Bool) (tables : List (Except Err Plan)) :
    Keeping sid (handleChecksumTable [.task sid] sid quick tables) := by
  induction tables with
  | nil => exact keeping_ret _
  | cons plan tables ih =>
    unfold handleChecksumTable
    split
    · exact ih
    · refine (executeWithTimeout_keeping false plan).bind fun r => ?_
      cases r with
      | none => exact ih
      | some e =>
        refine choose_keeping.bind fun missing => ?_
        split
        · exact keeping_ret _
        · exact ih

/-- Closing a session aborts its transaction, which takes nothing from the other sessions. -/
theorem sessionClose_keeping (id : SessionId) : Keeping sid (sessionClose [.task sid] id) := by
  have hread : Spec [.task sid] (Slot sid False none) (act (.readSession id)) fun s w =>
      Slot sid False none w ∧ ∀ t, s.transaction = some t → Added t w := by
    refine Triple.perform Slot.stable (fun s => Slot.stable.and (.all fun t => .imp fun _ => Added.stable))
      fun w hw h => ⟨trivial, fun choice r w' hrun _ => ?_⟩
    cases hrun
    exact ⟨h, fun t ht => hw.slot id t ht⟩
  refine hread.bind fun s => ?_
  cases htxn : s.transaction with
  | none =>
    exact .ret (Slot.stable.and (.all fun t => .imp fun _ => Added.stable)) fun _ _ h => h.1
  | some t =>
    refine (abort_spec.frame abort_quiet Slot.stable fun o c w r w' ho hrun h => ?_).conseq
      (fun w _ h => ⟨h.2 t rfl, h.1⟩) fun _ w _ h => h.2
    grind [quiet_step, Slot.of_core]

theorem sessionsKill_keeping (id : SessionId) : Keeping sid (sessionsKill [.task sid] id) := by
  have hremove : Keeping sid (act (.removeSession id)) := by
    refine Triple.perform Slot.stable (fun _ => Slot.stable) fun w _ h => ⟨trivial, ?_⟩
    intro choice r w' hrun _
    cases hrun
    by_cases hid : sid = id
    · grind [World.updSession_self, Slot]
    · intro hlisted t ht
      rw [World.updSession_of_ne _ hid] at hlisted ht
      obtain ⟨hne, hopen⟩ := h hlisted t ht
      exact ⟨hne, hopen.of_core rfl⟩
  refine hremove.bind fun listed => ?_
  cases listed with
  | false => exact keeping_ret _
  | true => exact sessionClose_keeping id

theorem handleKill_keeping (id : SessionId) : Keeping sid (handleKill [.task sid] id) := by
  refine choose_keeping.bind fun denied => ?_
  split
  · exact (sessionsKill_keeping id).bind fun _ => keeping_ret _
  · exact keeping_ret _

theorem handleStreamingFetch_keeping (b : Bool) : Keeping sid (handleStreamingFetch sid b) := by
  refine sessionListed_spec.bind fun listed => ?_
  cases listed with
  | false => exact panic_spec Slot.stable
  | true =>
    have hwrite : Keeping sid (act (.writeSession sid (.streamingFetch b))) := by
      refine Triple.perform Slot.stable (fun _ => Slot.stable) fun w _ h => ⟨⟨rfl, nofun⟩, ?_⟩
      intro choice r w' hrun _
      cases hrun
      intro hlisted t ht
      rw [World.updSession_self] at hlisted ht
      obtain ⟨hne, hopen⟩ := h hlisted t ht
      exact ⟨hne, hopen.of_core rfl⟩
    exact (hwrite.pre fun w _ h => h.weaken).bind fun _ => keeping_ret _

theorem comQuery_keeping (cmd : Command) : Keeping sid (comQuery [.task sid] sid cmd) := by
  cases cmd with
  | begin => exact executeBegin_keeping
  | commit => exact executeEnd_spec (fun _ => commitScatter_spec) fun _ => commitScatter_on
  | rollback => exact executeEnd_spec (fun _ => rollbackScatter_spec) fun _ => rollbackScatter_on
  | dml onRep plan => exact executeDML_keeping onRep plan
  | select hint onRep plan stream => exact handleSelect_keeping hint onRep plan stream
  | ddl query plan => exact executeDDL_keeping query plan
  | checksum quick tables => exact handleChecksumTable_keeping quick tables
  | tables tables => exact handleTables_keeping tables
  | single query => exact freeExecute_spec _ ⟨query, rfl⟩ nofun nofun
  | scatter query => exact freeExecute_spec _ ⟨query, rfl⟩ nofun nofun
  | onBackend back query =>
    refine freeExecute_spec { querys := [⟨.sql query, back⟩] } ⟨"", rfl⟩ (fun qt hqt => ?_) nofun
    rw [mem_singleton.mp hqt]
    exact ⟨query, rfl⟩
  | setStreaming b => exact handleStreamingFetch_keeping b
  | autocommitOff isTxn =>
    cases isTxn with
    | true => exact executeBegin_keeping
    | false => exact keeping_ret _
  | kill id => exact handleKill_keeping id
  | quit => exact (sessionsKill_keeping sid).bind fun _ => keeping_ret _

theorem runCommands_keeping (cmds : List Command) : Keeping sid (runCommands [.task sid] sid cmds) := by
  induction cmds with
  | nil => exact keeping_ret _
  | cons cmd cmds ih => exact (comQuery_keeping cmd).bind fun r => ih.bind fun rest => keeping_ret _

theorem sessionsClose_keeping (sids : List SessionId) : Keeping sid (sessionsClose [.task sid] sids) := by
  induction sids with
  | nil => exact keeping_ret _
  | cons id sids ih =>
    refine (slot_quiet (o := .sessionListed id) trivial fun _ => trivial).bind fun listed => ?_
    grind [Triple.bind, sessionClose_keeping]

/-- A task follows the discipline. -/
theorem runTask_spec (k : ℕ) (task : Task) :
    Spec [.task k] (Slot k False none) (runTask k task) fun _ _ => True := by
  cases task with
  | client cmds =>
    have hadd : Keeping k (act (.addSession k)) := by
      refine Triple.perform Slot.stable (fun _ => Slot.stable) fun w _ h => ⟨rfl, ?_⟩
      grind [World.updSession_self, exec, Slot]
    refine hadd.bind fun _ => (runCommands_keeping cmds).bind fun _ => ?_
    exact .ret Slot.stable fun _ _ _ => trivial
  | xaCheck ticks => exact (xaCommitCheck_spec ticks).pre fun _ _ _ => trivial
  | shutdown sids => exact (sessionsClose_keeping sids).post fun _ _ _ _ => trivial

end Commands

/-- A process before its first step. The servers may hold any data and any branches, and the
transaction counter may have any value. -/
structure Boot (w : World) : Prop where
  txns : w.txns = fun _ => {}
  conns : ∀ p i, (w.servers p).conns i = {}
  sessions : w.sessions = fun _ => {}
  retrys : w.retrys = []
  lock : w.commitLock = {}
  nums : w.txnNums = 0
  log : w.log = []

theorem Boot.wf (h : Boot w) : Wf w := by
  have htxn : ∀ t, w.txns t = {} := fun t => congrFun h.txns t
  have hholder : ∀ c, (w.conn c).holder = none := fun c => congrArg ConnState.holder (h.conns c.pool c.index)
  refine ⟨⟨?_, ?_, ?_, ?_, ?_, ?_, ?_, ?_, ?_, ?_⟩, ?_⟩
  · intro t
    rw [htxn]
    constructor <;> intros <;> simp_all
  · intro t k hmu
    rw [htxn] at hmu
    rcases hmu with hmu | hmu <;> cases hmu
  · exact fun t _ => htxn t
  · exact fun p i _ => h.conns p i
  · intro t c hp
    rw [htxn] at hp
    rcases hp with ⟨_, hp⟩ | ⟨_, hp⟩ | hp | hp <;> cases hp
  · intro c t hc
    cases (hholder c).symm.trans hc
  · intro t _ _ c hc
    cases (hholder c).symm.trans hc
  · intro sid t ht
    rw [h.sessions] at ht
    cases ht
  · rw [h.retrys]
    exact fun e he => absurd he not_mem_nil
  · rw [h.lock]
    exact fun h => absurd rfl h
  · grind [log, Sent]

/-- Two backends. -/
def twoBackends : Backends := ⟨[{ name := "a" }, { name := "b" }], by decide⟩

/-- A process over two empty backends, before its first step. -/
def emptyWorld : World := { scatter := twoBackends }

/-- A number of turns for the branch named by `path`, in an environment that fails nowhere. -/
def turns (n : ℕ) (path : List Bool) : List (List Bool × Choice) := List.replicate n (path, {})

theorem boot_emptyWorld : Boot emptyWorld := ⟨rfl, fun _ _ => rfl, rfl, rfl, rfl, rfl, rfl⟩

/-- A process follows the discipline. -/
theorem process_spec (tasks : ℕ → Task) (n : ℕ) : Spec [] Boot (process tasks n) fun _ _ => True := by
  refine (Triple.forkAll Fork.task (A := fun k => Slot k False none) (Q := fun _ _ _ => True)
    (I := fun _ => True) nodup_range (fun k k' hne heq => hne (Fork.task.inj heq))
    ⟨.of_pure True, fun _ _ _ _ _ _ => trivial⟩ (fun _ _ => .of_pure True)
    fun k _ => runTask_spec k (tasks k)).conseq (fun w _ h => ⟨fun k _ => ?_, trivial⟩)
    fun _ _ _ _ => trivial
  intro _ t ht
  rw [h.sessions] at ht
  cases ht

/-- What every allowed operation preserves holds in every world that a process reaches. -/
theorem process_invariant {I : World → Prop} {tasks : ℕ → Task} {n : ℕ} {p : Go (List Unit)}
    (hI : ∀ g o c w r w', Wf w → Allowed g o w → exec o c w = some (r, w') → I w → I w')
    (hboot : Boot w) (hs : I w) (hrun : Prog.Steps exec (process tasks n) w p w') : I w' :=
  (process_spec tasks n).invariant hI hboot.wf hboot hs hrun

end Radon
