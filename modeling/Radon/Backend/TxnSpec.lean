import Radon.Backend.VoteSpec

/-!
# The calls of a transaction follow the discipline

The calls that the owner makes, up to `Finish`. A write leaves the backends that take part among the
targets of its request, which is what a later commit relies on.
-/

namespace Radon

open Concurrency Protocol List

variable {g : Goroutine} {t : TxnId} {v : View}

/-- The owner has not decided on the transaction yet. -/
def Opened (g : Goroutine) (t : TxnId) (w : World) : Prop :=
  ∃ v : View, v.owner = g ∧ v.stage = .opened ∧ v.hand = none ∧ v.call = none ∧
    (∀ b ∈ v.voted, b ∈ v.backends.names) ∧ Knows g t v w

theorem Opened.stable : discipline.Stable g (Opened g t) :=
  .ex fun _ => (Stable.of_pure _).and ((Stable.of_pure _).and ((Stable.of_pure _).and
    ((Stable.of_pure _).and ((Stable.of_pure _).and Knows.stable))))

variable {w : World}

theorem Knows.opened (hk : Knows g t v w) (howner : v.owner = g) (hstage : v.stage = .opened)
    (hhand : v.hand = none) (hcall : v.call = none) (hvoted : ∀ b ∈ v.voted, b ∈ v.backends.names) :
    Opened g t w :=
  ⟨v, howner, hstage, hhand, hcall, hvoted, hk⟩

/-- What the owner knows about the fate of the branches does not change behind its back. -/
theorem resolved_stable {P : Prop} (howner : v.owner = g) :
    discipline.Stable g fun w => (P → Resolved (w.txns t) w.log) ∧ Knows g t v w := by
  rintro w w' hw hK ⟨hres, hk⟩
  refine ⟨fun hP x hx => ?_, Knows.stable w w' hw hK hk⟩
  obtain ⟨_, hxid, _⟩ := (hK.txns t).owned _ hk.owner (.inl hk.below)
  have hid : x.id = t := (hw.txn t).xid_id x (hxid ▸ hx)
  rw [(hK.txns t).voted _ hk.owner (.inl hk.below)]
  rcases hres hP x (hxid ▸ hx) with ⟨b, hb, hnot⟩ | ⟨d, hd⟩ | ⟨d, hall⟩
  · refine .inl ⟨b, hb, fun hacked => hnot ?_⟩
    obtain ⟨call, rep, i, applied, hmem⟩ := hacked
    refine ⟨call, rep, i, applied, hK.prepares x b v.owner (hid ▸ hk.owner) (.inr ?_) _ hmem ?_⟩
    · rw [howner]
      exact suffix_cons _ _
    · simp [Event.isQuery]
  · exact .inr (.inl ⟨d, hK.log.mem hd⟩)
  · exact .inr (.inr ⟨d, fun b hb => grows_ackedBy _ _ _ _ hK.log (hall b hb)⟩)

/-- The owner has not finished the transaction yet, and may do so. -/
def InUse (g : Goroutine) (t : TxnId) (w : World) : Prop :=
  ∃ v : View, v.owner = g ∧ v.stage ≠ .ended ∧ v.hand = none ∧
    (True → Resolved (w.txns t) w.log) ∧ Knows g t v w

theorem InUse.stable : discipline.Stable g (InUse g t) := by
  rintro w w' hw hK ⟨v, howner, hstage, hhand, h⟩
  exact ⟨v, howner, hstage, hhand, resolved_stable howner w w' hw hK h⟩

/-- No backend has been asked to prepare. -/
theorem Knows.resolved (hk : Knows g t v w) (hvoted : v.voted = []) :
    Resolved (w.txns t) w.log := by
  refine fun x _ => .inr (.inr ⟨.commit, ?_⟩)
  rw [hk.voted, hvoted]
  exact nofun

theorem Knows.inUse (hk : Knows g t v w) (howner : v.owner = g) (hstage : v.stage ≠ .ended)
    (hhand : v.hand = none) (hvoted : v.voted = []) : InUse g t w :=
  ⟨v, howner, hstage, hhand, fun _ => hk.resolved hvoted, hk⟩

/-- What a call that ends the transaction leaves: an error means that nothing was decided. `fresh` says
that no backend had been asked to prepare before. -/
def Ending (g : Goroutine) (t : TxnId) (req : Option RequestContext) (fresh : Prop) (err : Option Err)
    (w : World) : Prop :=
  ∃ v : View, v.owner = g ∧ v.req = req ∧ v.stage ≠ .ended ∧ (err ≠ none → v.stage = .opened) ∧
    v.hand = none ∧ v.call = none ∧ (∀ b ∈ v.voted, b ∈ xaTargets v.req v.backends) ∧
    (err = none ∨ fresh → Resolved (w.txns t) w.log) ∧ Knows g t v w

section Ending

variable {req : Option RequestContext} {fresh : Prop} {err : Option Err} {w : World}

theorem Ending.stable : discipline.Stable g (Ending g t req fresh err) := by
  rintro w w' hw hK ⟨v, howner, hreq, hstage, herr, hhand, hcall, hvoted, h⟩
  exact ⟨v, howner, hreq, hstage, herr, hhand, hcall, hvoted, resolved_stable howner w w' hw hK h⟩

theorem Ending.inUse (h : Ending g t req fresh err w) (hdone : err = none ∨ fresh) : InUse g t w := by
  grind [Ending, InUse]

/-- After an error the statements of the user may go on. -/
theorem Ending.opened (h : Ending g t (some { mode := .reqScatter }) fresh err w) (herr : err ≠ none) :
    Opened g t w := by grind [xaTargets, Ending, Opened]

/-- Nothing was decided, and no backend has been asked to prepare in this call. -/
theorem Knows.ending (hk : Knows g t v w) (howner : v.owner = g) (hstage : v.stage = .opened)
    (hhand : v.hand = none) (hcall : v.call = none)
    (hvoted : ∀ b ∈ v.voted, b ∈ xaTargets v.req v.backends) (hdone : err = none ∨ fresh → v.voted = []) :
    Ending g t v.req fresh err w :=
  ⟨v, howner, rfl, by rw [hstage]; exact Stage.noConfusion, fun _ => hstage, hhand, hcall, hvoted,
    fun h => hk.resolved (hdone h), hk⟩

end Ending

theorem begin_spec : Spec g (Knows g t v) (begin t) fun _ => Knows g t v := writeTxn_spec trivial

/-- A phase that ends the transaction. -/
theorem sequence_spec {first second : Go (Option Err)} {A : World → Prop}
    {B : Option Err → World → Prop} {Q : Option Err → World → Prop} (hfirst : Spec g A first B)
    (hB : ∀ e, discipline.Stable g (B e)) (herr : ∀ e w, Wf w → B (some e) w → Q (some e) w)
    (hsecond : Spec g (B none) second Q) : Spec g A (sequence first second) Q := by
  refine hfirst.bind fun r => ?_
  cases r with
  | some e => exact .ret (hB _) fun w hw h => herr e w hw h
  | none => exact hsecond

/-- A backend that was asked did not acknowledge. -/
theorem Polled.resolved {x : Xid} {fresh : Prop} {bs : List Backend} {e : Err}
    (h : Polled g t x fresh bs (some e) w) (hfresh : fresh) (hw : Wf w) (hk : Knows g t v w)
    (hx : v.xid = some x) (hbs : ∀ b ∈ bs, b ∈ v.voted) : Resolved (w.txns t) w.log := by
  intro y hy
  obtain rfl : y = x := Option.some.inj (hy.symm.trans (hk.xid.trans hx))
  obtain ⟨b, hb, hvotes⟩ := h.2 nofun hfresh
  refine .inl ⟨b, by rw [hk.voted]; exact hbs b hb, ?_⟩
  rintro ⟨call, rep, i, applied, hmem⟩
  cases hvotes.all y call rep i true applied ((hw.txn t).xid_id y hy) hmem

variable {d : Decision} {state finished : TxnXAState}

section Owner

variable (howner : v.owner = g) (hstage : v.stage = .opened) (hhand : v.hand = none)

include howner hstage hhand

/-- `Commit`, `Rollback` and `RollbackPhaseOne` do their work for writes only. -/
theorem onWrite_spec {s : TxnState} {phase : Go (Option Err)} (hvoted : v.voted = [])
    (hs : Txn.ending s = false) (hphase : ∀ r, v.req = some r → r.txnMode = .txnWrite →
      Spec g (Knows g t v) phase (Ending g t v.req (v.voted = []))) :
    Spec g (Knows g t v) (do
      act (.setState t s)
      let txn ← act (.readTxn t)
      match txn.req with
      | none => panic
      | some req => if req.txnMode = .txnWrite then phase else return none) fun _ => InUse g t := by
  refine (setState_spec (by rw [hstage]; exact Stage.noConfusion) hs).bind fun _ => ?_
  refine readTxn_spec.bind_pure fun txn hsees => ?_
  rw [hsees.2.2 howner]
  cases hreq : v.req with
  | none => exact panic_spec Knows.stable
  | some req =>
    dsimp only
    split
    · grind [Triple.post, Ending.inUse]
    · refine .ret Knows.stable fun w _ hk => ?_
      exact hk.inUse howner (by rw [hstage]; exact Stage.noConfusion) hhand hvoted

variable (hcall : v.call = none)

include hcall

/-- The owner may take a decision, which ends its use of the transaction. -/
theorem decide_spec {fresh : Prop}
    (hstate : state.decision = some d) (hfinished : finished ≠ .prepare)
    (hvoted : ∀ b ∈ v.voted, b ∈ xaTargets v.req v.backends)
    (hacked : d = .commit → ∀ x, v.xid = some x → ∀ b ∈ v.parts, Acked (.xaPrepare x) b v.past) :
    Spec g (Knows g t v) (do xaDecide g t d state finished; return none) (Ending g t v.req fresh) := by
  refine (xaDecide_spec howner hstage hhand hstate hfinished hacked).bind fun _ => ?_
  refine .ret (.ex fun _ => .ex fun _ => (Stable.of_pure _).and ((grows_recorded v d).stable.and Knows.stable))
    fun w _ h => ?_
  obtain ⟨s, l, hs, hrec, hk⟩ := h
  refine ⟨{ v with stage := s, locked := l }, howner, rfl, hs, fun h => absurd rfl h, hhand, hcall, hvoted,
    fun _ x hx => ?_, hk⟩
  rcases hrec x (hk.xid.symm.trans hx) with hlogged | hall
  · exact .inr (.inl hlogged)
  · refine .inr (.inr ⟨d, fun b hb => hall b (hvoted b ?_)⟩)
    rw [hk.voted] at hb
    exact hb

/-- `XA END`, `XA PREPARE` and the decision, for a request that reaches every backend that takes part. -/
theorem endPrepare_spec
    (hstate : state.decision = some d) (hfinished : finished ≠ .prepare)
    (hvoted : ∀ b ∈ v.voted, b ∈ xaTargets v.req v.backends)
    (hparts : ∀ b ∈ v.parts, b ∈ xaTargets v.req v.backends) :
    Spec g (Knows g t v) (endPrepare g t fun g t => xaDecide g t d state finished)
      (Ending g t v.req (v.voted = [])) := by
  refine sequence_spec (B := fun _ => Knows g t v) (xaEnd_spec howner hstage hhand) (fun _ => Knows.stable)
    (fun e w _ hk => hk.ending howner hstage hhand hcall hvoted fun h => h.resolve_left nofun) ?_
  have hasked : ∀ b ∈ v.voted ++ xaTargets v.req v.backends, b ∈ xaTargets v.req v.backends :=
    fun b hb => (mem_append.mp hb).elim (hvoted b) id
  refine sequence_spec (xaPrepare_spec howner hstage hhand) (fun e => ?_) (fun e w hw h => ?_) ?_
  · exact .ex fun x => (Stable.of_pure _).and (Polled.stable.and Knows.stable)
  · grind [Polled.resolved, Ending]
  · refine Triple.exists fun x => Triple.assume fun hx => ?_
    refine Triple.pre (A := fun w => (∀ b ∈ xaTargets v.req v.backends, Acked (.xaPrepare x) b w.log) ∧
      Knows g t { v with voted := v.voted ++ xaTargets v.req v.backends } w) ?_ fun w _ h => ⟨h.1.1 rfl, h.2⟩
    refine spec_of_log (P := fun log => ∀ b ∈ xaTargets v.req v.backends, Acked (.xaPrepare x) b log)
      fun past _ hacked => ?_
    refine decide_spec (v := { v with voted := v.voted ++ xaTargets v.req v.backends, past := past }) howner
      hstage hhand hcall hstate hfinished hasked fun _ y hy b hb => ?_
    grind

/-- The request of a single statement reaches every backend that takes part. -/
def Covered (v : View) : Prop :=
  ∀ r, v.req = some r → r.txnMode = .txnWrite → ∀ b ∈ v.parts, b ∈ xaTargets v.req v.backends

theorem commit_spec (hvoted : v.voted = []) (hcovered : Covered v) :
    Spec g (Knows g t v) (commit g t) fun _ => InUse g t :=
  onWrite_spec howner hstage hhand hvoted rfl fun r hr hmode =>
    endPrepare_spec howner hstage hhand hcall rfl nofun (by rw [hvoted]; exact nofun) (hcovered r hr hmode)

theorem rollbackPhaseOne_spec (hvoted : v.voted = []) :
    Spec g (Knows g t v) (rollbackPhaseOne g t) fun _ => InUse g t := by
  have hempty : ∀ b ∈ v.voted, b ∈ xaTargets v.req v.backends := by rw [hvoted]; exact nofun
  refine onWrite_spec howner hstage hhand hvoted rfl fun _ _ _ => ?_
  exact sequence_spec (B := fun _ => Knows g t v) (xaEnd_spec howner hstage hhand) (fun _ => Knows.stable)
    (fun e w _ hk => hk.ending howner hstage hhand hcall hempty fun _ => hvoted)
    (decide_spec howner hstage hhand hcall rfl nofun hempty fun hd => nomatch hd)

end Owner

/-- The goroutine is the owner's or runs a side of its plan. -/
def View.PlannedBy (v : View) (g : Goroutine) : Prop :=
  ∃ sides, g = sides ++ v.owner ∧ ∀ f ∈ sides, f = .left ∨ f = .right

theorem View.plannedBy_self (v : View) : v.PlannedBy v.owner := ⟨[], rfl, nofun⟩

theorem View.PlannedBy.side {f : Fork} (h : v.PlannedBy g) (hf : f = .left ∨ f = .right) :
    v.PlannedBy (f :: g) := by grind [PlannedBy]

/-- `Execute` holds the transaction's mutex, if `on`. -/
def Executing (g : Goroutine) (t : TxnId) (on : Bool) (w : World) : Prop :=
  on = true → (w.txns t).mu = some (.execute g)

theorem Executing.stable {on : Bool} : discipline.Stable g (Executing g t on) :=
  fun _ _ _ hK h hon => ((hK.txns t).executing g (h hon) suffix_rfl).trans (h hon)

/-- The goroutine sets the request. -/
theorem writeReq_spec (req : RequestContext) (on : Bool) (hplan : v.PlannedBy g)
    (hwrite : req.txnMode = .txnWrite → v.owner = g) :
    Spec g (fun w => Executing g t on w ∧ Knows g t v w) (act (.writeTxn t (.req req)))
      fun _ w => Executing g t on w ∧ Knows g t { v with req := some req } w := by
  refine Triple.perform (Executing.stable.and Knows.stable) (fun _ => Executing.stable.and Knows.stable)
    fun w hw ⟨hex, hk⟩ => ⟨⟨?_, fun hmode => ?_⟩, ?_⟩
  · obtain ⟨sides, hg, hsides⟩ := hplan
    exact ⟨v.owner, sides, hk.owner, hg, hsides⟩
  · exact hk.owner.trans (congrArg some (hwrite hmode))
  · intro choice r w' hrun _
    cases hrun
    refine ⟨fun hon => ?_, hk.write (.req req) hk.xid hk.parts hk.voted fun _ => rfl⟩
    rw [World.updTxn_self]
    exact hex hon

/-- The owner sets a request that is sent to all backends. -/
theorem scatterReq_spec (howner : v.owner = g) :
    Spec g (Knows g t v) (act (.writeTxn t (.req { mode := .reqScatter })))
      fun _ => Knows g t { v with req := some { mode := .reqScatter } } := by
  refine (writeReq_spec { mode := .reqScatter } false (howner ▸ v.plannedBy_self) nofun).conseq
    (fun w _ hk => ⟨nofun, hk⟩) fun _ w _ h => h.2

/-- Only known backends take part. -/
theorem spec_of_parts {α : Type} {p : Go α} {Q : α → World → Prop}
    (h : (∀ b ∈ v.parts, b ∈ v.backends.names) → Spec g (Knows g t v) p Q) :
    Spec g (Knows g t v) p Q := by
  intro w hw hk
  refine h ?_ w hw hk
  have hmem := (hw.txn t).parts_mem
  rw [hk.parts, hk.backends] at hmem
  exact hmem

theorem beginScatter_spec (howner : v.owner = g) (hstage : v.stage = .opened) (hhand : v.hand = none)
    (hcall : v.call = none) (hvoted : v.voted = []) :
    Spec g (Knows g t v) (beginScatter g t) fun _ w => Opened g t w ∧ InUse g t w := by
  refine (writeTxn_spec (u := .twopc true) trivial).bind fun _ => ?_
  grind [Triple.bind, scatterReq_spec, Triple.post, xaStart_spec, Knows.opened, Knows.inUse]

/-- What `COMMIT` and `ROLLBACK` leave of a transaction of several statements. -/
abbrev Scattered (g : Goroutine) (t : TxnId) (err : Option Err) (w : World) : Prop :=
  ∃ fresh, Ending g t (some { mode := .reqScatter }) fresh err w

/-- `CommitScatter` and `RollbackScatter`: every backend that takes part is reached. -/
theorem endScatter_spec {s : TxnState}
    (hs : Txn.ending s = false) (hstate : state.decision = some d) (hfinished : finished ≠ .prepare) :
    Spec g (Opened g t) (do
      act (.setState t s)
      act (.writeTxn t (.twopc true))
      act (.writeTxn t (.req { mode := .reqScatter }))
      endPrepare g t fun g t => xaDecide g t d state finished) (Scattered g t) := by
  refine Triple.exists fun v => Triple.assume fun howner => Triple.assume fun hstage =>
    Triple.assume fun hhand => Triple.assume fun hcall => Triple.assume fun hvoted => ?_
  refine (setState_spec (by rw [hstage]; exact Stage.noConfusion) hs).bind fun _ => ?_
  refine (writeTxn_spec (u := .twopc true) trivial).bind fun _ => ?_
  refine (scatterReq_spec howner).bind fun _ => ?_
  refine spec_of_parts fun hparts => ?_
  exact (endPrepare_spec (v := { v with req := some { mode := .reqScatter } }) howner hstage hhand hcall
    hstate hfinished hvoted hparts).post fun _ w _ h => ⟨_, h⟩

theorem commitScatter_spec : Spec g (Opened g t) (commitScatter g t) (Scattered g t) :=
  endScatter_spec rfl rfl nofun

theorem rollbackScatter_spec : Spec g (Opened g t) (rollbackScatter g t) (Scattered g t) :=
  endScatter_spec rfl rfl nofun

variable {call : Option Call}

/-- The queries of one backend. -/
theorem runQuerys_spec {c : Conn} (hstage : v.stage ≠ .ended)
    (hcall : call = none ∨ call = v.call) {querys : List Query}
    (hq : ∀ q ∈ querys, MaySend v c.pool.backend q) (qr : Result) :
    Spec g (fun w => Knows g t v w ∧ Holds t c w) (runQuerys t call c querys qr) fun _ => Knows g t v := by
  induction querys generalizing qr with
  | nil => exact .ret (Knows.stable.and Holds.stable) fun _ _ h => h.1
  | cons q querys ih =>
    refine (query_spec hstage (hq q mem_cons_self) hcall).bind fun r => ?_
    refine Triple.pre (A := fun w => Knows g t v w ∧ Holds t c w) ?_ fun w _ h => ⟨h.2, h.1.2⟩
    refine deadline_spec.bind fun _ => ?_
    refine Triple.pre (A := fun w => Knows g t v w ∧ Holds t c w) ?_ fun w _ h => h.symm
    cases r with
    | error e => exact .ret (Knows.stable.and Holds.stable) fun _ _ h => h.1
    | ok innerqr => exact ih (fun q hmem => hq q (mem_cons_of_mem _ hmem)) _

/-- One goroutine per backend, or a plain call. -/
theorem shards_spec {several : Bool} {bs : List Backend} {shard : Goroutine → Backend → Go (Except Err Result)}
    (hhand : v.hand = none) (hnodup : bs.Nodup)
    (hshard : ∀ g' b, b ∈ bs → Spec g' (Knows g' t v) (shard g' b) fun _ => Knows g' t v) :
    Spec g (Knows g t v) (shards g several bs shard) fun _ => Knows g t v := by
  unfold shards
  split
  · refine (forkShards_spec (Ψ := fun _ _ _ => True) hnodup hhand (fun _ _ _ _ _ h => h) fun b hb =>
      (hshard _ b hb).post fun _ _ _ hk => ⟨trivial, hk⟩).bind fun out => ?_
    refine Triple.pre (A := Knows g t v) (.ret Knows.stable fun _ _ h => h) fun w _ h => h.2
  · cases bs with
    | nil => exact .ret Knows.stable fun _ _ h => h
    | cons b bs => exact hshard g b mem_cons_self

/-- Every query of the request may be sent to its backend. -/
def Sendable (v : View) (req : RequestContext) : Prop :=
  (∀ b, MaySend v b req.rawQuery) ∧ ∀ qt ∈ req.querys, MaySend v qt.backend qt.query

variable {req : RequestContext}

theorem Sendable.on (h : Sendable v req) (b : Backend) :
    ∀ q ∈ req.querysOn b, MaySend v b q := by
  intro q hq
  obtain ⟨qt, hqt, rfl⟩ := mem_map.mp hq
  obtain ⟨hmem, hb⟩ := mem_filter.mp hqt
  have hb : qt.backend = b := of_decide_eq_true hb
  rw [← hb]
  exact h.2 qt hmem

theorem Backends.normalNames_nodup (bs : Backends) : bs.normalNames.Nodup :=
  bs.nodup.sublist (filter_sublist.map _)

section Execute

variable (hstage : v.stage ≠ .ended) (hhand : v.hand = none) (hcall : call = none ∨ call = v.call)

include hstage hhand hcall

theorem oneShard_spec {b : Backend} {querys : List Query} (hq : ∀ q ∈ querys, MaySend v b q) :
    Spec g (Knows g t v) (oneShard g t call b querys) fun _ => Knows g t v := by
  refine (fetchOneConnection_spec hstage hhand b).bind fun r => ?_
  cases r with
  | error e => exact .ret (Got.stable.and Knows.stable) fun _ _ h => h.2
  | ok c =>
    refine Triple.pre (A := fun w => c.pool.backend = b ∧ Knows g t v w ∧ Holds t c w)
      (Triple.assume fun hb => ?_) fun w _ h => ⟨(h.1 c rfl).1.1, h.2, (h.1 c rfl).2⟩
    subst hb
    exact runQuerys_spec hstage hcall hq {}

theorem execute_spec (hq : Sendable v req) :
    Spec g (Knows g t v) (execute g t call req) fun _ => Knows g t v := by
  have hraw : ∀ b, ∀ q ∈ [req.rawQuery], MaySend v b q := by
    intro b q hmem
    rw [mem_singleton.mp hmem]
    exact hq.1 b
  refine readTxn_spec.bind_pure fun txn hsees => ?_
  refine (setState_spec hstage (by split <;> rfl)).bind fun _ => ?_
  rw [hsees.1]
  cases req.mode with
  | reqSingle =>
    refine choose_spec.bind fun pick => ?_
    split
    · exact .ret Knows.stable fun _ _ h => h
    · exact oneShard_spec hstage hhand hcall (hraw _)
  | reqScatter => grind [shards_spec, Backends.normalNames_nodup, oneShard_spec]
  | reqNormal =>
    exact shards_spec hhand (nodup_dedup _) fun g' b _ =>
      oneShard_spec hstage hhand hcall (hq.on b)

theorem executeCounted_spec (hq : Sendable v req) :
    Spec g (Knows g t v) (executeCounted g t call req) fun _ => Knows g t v := by
  refine (execute_spec hstage hhand hcall hq).bind fun r => (countErr_spec _).bind fun _ => ?_
  exact .ret Knows.stable fun _ _ h => h

end Execute

theorem lockMu_execute_spec : Spec g (Knows g t v) (act (.lockMu t (.execute g)))
    fun _ w => Executing g t true w ∧ Knows g t v w := by
  refine (quiet_spec (o := .lockMu t (.execute g)) (B := fun _ => True) trivial (.of_pure True)
    (fun _ => Executing.stable) fun w _ hk _ => ⟨⟨rfl, hk.served⟩, ?_⟩).pre fun w _ hk => ⟨hk, trivial⟩
  intro choice r w' hrun _ _ _
  simp only [exec] at hrun
  grind [World.updTxn_self, Txn.lock]

theorem unlockMu_execute_spec : Spec g (fun w => Executing g t true w ∧ Knows g t v w) (act (.unlockMu t))
    fun _ => Knows g t v := by
  refine (quiet_spec (o := .unlockMu t) (Φ := fun _ _ => True) trivial Executing.stable
    (fun _ => .of_pure True) fun w _ _ hex => ⟨.inl (hex rfl), fun _ _ _ _ _ _ => trivial⟩).conseq
    (fun w _ h => ⟨h.2, h.1⟩) fun _ w _ h => h.2

/-- A read call enters the read side of the commit lock. -/
theorem commitRLock_spec : Spec g (Knows g t v) (act (.commitRLock g))
    fun call w => call.go = g ∧ Knows g t { v with call := some call } w := by
  refine Triple.perform Knows.stable (fun _ => (Stable.of_pure _).and Knows.stable) fun w hw hk => ⟨rfl, ?_⟩
  intro choice r w' hrun _
  simp only [exec] at hrun
  split at hrun
  · rename_i hfree
    cases hrun
    refine ⟨rfl, { hk with locked := fun h => ?_, call := fun r hr => ?_ }⟩
    · have := (hk.locked h).symm.trans hfree
      cases this
    · cases hr
      exact ⟨mem_cons_self, suffix_rfl⟩
  · cases hrun

/-- A read call leaves the commit lock. -/
theorem commitRUnlock_spec {call : Call} (hgo : call.go = g) (hcall : v.call = none) :
    Spec g (Knows g t { v with call := some call }) (act (.commitRUnlock call)) fun _ => Knows g t v := by
  refine Triple.perform Knows.stable (fun _ => Knows.stable) fun w hw hk =>
    ⟨⟨hgo, (hk.call call rfl).1⟩, ?_⟩
  intro choice r w' hrun _
  cases hrun
  exact { hk with call := fun r hr => by rw [hcall] at hr; cases hr }

/-- Taking a new view of what may be sent. -/
theorem Sendable.of_eq {v' : View} (h : Sendable v req) (hx : v'.xid = v.xid)
    (hs : v'.stage = v.stage) (hp : v'.parts = v.parts) (hl : v'.locked = v.locked)
    (hpast : v'.past = v.past) : Sendable v' req := by
  have hmay : ∀ b q, MaySend v b q → MaySend v' b q := by
    intro b q
    cases q <;> simp only [MaySend, hx, hs, hp, hl, hpast, imp_self]
  exact ⟨fun b => hmay b _ (h.1 b), fun qt hqt => hmay _ _ (h.2 qt hqt)⟩

/-- A request that is no write leaves the picture as it is, except for the request. -/
theorem txnExecute_read_spec (hstage : v.stage ≠ .ended) (hhand : v.hand = none)
    (hcall : v.call = none) (hplan : v.PlannedBy g) (hq : Sendable v req) (hmode : req.txnMode ≠ .txnWrite) :
    Spec g (Knows g t v) (txnExecute g t req) fun _ => KnowsRead g t v := by
  have hread : ReadReq v.req (some req) := .inr fun r hr => Option.some.inj hr ▸ hmode
  refine readTxn_spec.bind_pure fun txn _ => ?_
  split
  · refine lockMu_execute_spec.bind fun _ => ?_
    refine (writeReq_spec _ true hplan fun h => absurd h hmode).bind fun _ => ?_
    refine unlockMu_execute_spec.bind fun _ => ?_
    have hq' : Sendable { v with req := some req } req := hq.of_eq rfl rfl rfl rfl rfl
    cases hm : req.txnMode with
    | txnWrite => exact absurd hm hmode
    | txnNone => grind [Triple.post, executeCounted_spec, KnowsRead]
    | txnRead =>
      refine commitRLock_spec.bind_pure fun call hgo => ?_
      refine (executeCounted_spec (v := { v with req := some req, call := some call }) hstage hhand
        (.inr rfl) (hq.of_eq rfl rfl rfl rfl rfl)).bind fun r => ?_
      refine (commitRUnlock_spec (v := { v with req := some req }) hgo hcall).bind fun _ => ?_
      exact .ret Knows.stable fun w _ hk => ⟨_, hread, hk⟩
  · exact (executeCounted_spec hstage hhand (.inl rfl) hq).post fun _ w _ hk => hk.read

/-- What a write of the owner leaves of its picture `u`: the branches it may have opened are among its
targets. -/
def Wrote (g : Goroutine) (t : TxnId) (u : View) (w : World) : Prop :=
  ∃ v : View, v.owner = g ∧ v.stage = .opened ∧ v.hand = none ∧ v.call = none ∧
    (v.voted = u.voted ∧ v.backends = u.backends) ∧ (u.parts = [] → Covered v) ∧ Knows g t v w

variable {u : View}

theorem Wrote.stable : discipline.Stable g (Wrote g t u) :=
  .ex fun _ => (Stable.of_pure _).and ((Stable.of_pure _).and ((Stable.of_pure _).and
    ((Stable.of_pure _).and ((Stable.of_pure _).and ((Stable.of_pure _).and Knows.stable)))))

theorem Wrote.opened (h : Wrote g t u w) (hvoted : ∀ b ∈ u.voted, b ∈ u.backends.names) :
    Opened g t w := by grind [Wrote, Opened]

theorem Wrote.inUse (h : Wrote g t u w) (hvoted : u.voted = []) : InUse g t w := by grind [Knows.inUse, Wrote]

theorem Knows.wrote (hk : Knows g t v w) (howner : v.owner = g)
    (hstage : v.stage = .opened) (hhand : v.hand = none) (hcall : v.call = none)
    (hsame : v.voted = u.voted ∧ v.backends = u.backends) (hcovered : u.parts = [] → Covered v) :
    Wrote g t u w :=
  ⟨v, howner, hstage, hhand, hcall, hsame, hcovered, hk⟩

theorem Sendable.sql
    (hraw : ∃ text, req.rawQuery = .sql text) (hq : ∀ qt ∈ req.querys, ∃ text, qt.query = .sql text) :
    Sendable v req := by grind [Sendable, MaySend]

theorem txnExecute_write_spec (howner : v.owner = g) (hstage : v.stage = .opened)
    (hhand : v.hand = none) (hcall : v.call = none) (hmode : req.txnMode = .txnWrite)
    (hq : ∀ v', Sendable v' req) :
    Spec g (Knows g t v) (txnExecute g t req) fun _ => Wrote g t v := by
  have hne : v.stage ≠ .ended := by rw [hstage]; exact Stage.noConfusion
  have hempty : ∀ {v' : View}, v'.parts = v.parts → v.parts = [] → Covered v' := by
    intro v' hp hnil r _ _ b hb
    rw [hp, hnil] at hb
    cases hb
  refine readTxn_spec.bind_pure fun txn _ => ?_
  split
  · refine lockMu_execute_spec.bind fun _ => ?_
    refine (writeReq_spec _ true (howner ▸ v.plannedBy_self) fun _ => howner).bind fun _ => ?_
    refine unlockMu_execute_spec.bind fun _ => ?_
    rw [hmode]
    refine readTxn_spec.bind_pure fun txn _ => ?_
    split
    · grind [Triple.post, executeCounted_spec, Knows.wrote]
    · refine (xaStart_spec (v := { v with req := some req }) howner hstage hhand).bind fun r => ?_
      refine Triple.exists fun x => ?_
      have hcovered : v.parts = [] → Covered { v with
          req := some req, xid := some x, parts := v.parts ++ xaParts (some req) v.backends } := by
        intro hnil r _ _ b hb
        rw [hnil] at hb
        exact (mem_filter.mp hb).1
      cases r with
      | some e =>
        exact .ret Knows.stable fun w _ hk => hk.wrote howner hstage hhand hcall ⟨rfl, rfl⟩ hcovered
      | none => grind [Triple.post, executeCounted_spec, Knows.wrote]
  · grind [Triple.post, executeCounted_spec, Knows.wrote]

/-- The cursors of a streaming read, opened one after the other and left running. -/
theorem streamCursors_spec (hstage : v.stage ≠ .ended) (hhand : v.hand = none) {querys : List QueryTuple}
    (hq : ∀ qt ∈ querys, MaySend v qt.backend qt.query) :
    Spec g (Knows g t v) (streamCursors g t querys) fun _ => KnowsRead g t v := by
  induction querys generalizing g with
  | nil => exact .ret Knows.stable fun _ _ hk => hk.read
  | cons qt querys ih =>
    refine (fetchOneConnection_spec hstage hhand qt.backend).bind fun r => ?_
    cases r with
    | error e => exact .ret (Got.stable.and Knows.stable) fun _ _ h => h.2.read
    | ok c =>
      refine Triple.pre (A := fun w => c.pool.backend = qt.backend ∧ Knows g t v w ∧ Holds t c w)
        (Triple.assume fun hb => ?_) fun w _ h => ⟨(h.1 c rfl).1.1, h.2, (h.1 c rfl).2⟩
      refine sides_spec hhand ?_ ?_ fun _ _ => .ret KnowsRead.stable fun _ _ h => h
      · refine (query_spec hstage ?_ (.inl rfl)).post fun _ w _ h => h.2.read
        rw [hb]
        exact hq qt mem_cons_self
      · exact ih fun qt' hqt' => hq qt' (mem_cons_of_mem _ hqt')

theorem txnExecuteStreamFetch_spec (hstage : v.stage ≠ .ended) (hhand : v.hand = none)
    (hq : ∀ qt ∈ req.querys, MaySend v qt.backend qt.query) :
    Spec g (Knows g t v) (txnExecuteStreamFetch g t req) fun _ => KnowsRead g t v := by
  refine (streamCursors_spec hstage hhand hq).bind fun r => ?_
  cases r with
  | some e => exact .ret KnowsRead.stable fun _ _ h => h
  | none =>
    refine Triple.exists fun req' => Triple.assume fun hread => choose_spec.bind fun failed => ?_
    exact .ret Knows.stable fun w _ hk => ⟨req', hread, hk⟩

end Radon
