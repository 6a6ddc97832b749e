import Radon.Backend.XaSpec

/-!
# Asking the backends to prepare

`XA PREPARE` is sent to a backend by the goroutine of that backend only. What the log shows about it does
not change behind that goroutine's back, so that the owner of the transaction also knows where the
command was not acknowledged.
-/

namespace Radon

open Concurrency Protocol List

variable {g : Goroutine} {t : TxnId} {v : View} {w w' : World}

/-- What holds of the acknowledgement of every `XA PREPARE` that the transaction of owner `o` has sent to
the backend. -/
structure Votes (t : TxnId) (o : Goroutine) (b : Backend) (P : Bool → Prop) (w : World) : Prop where
  owner : (w.txns t).owner = some o
  all : ∀ x call rep i acked applied, x.id = t →
    Event.query call ⟨⟨b, rep⟩, i⟩ (.xaPrepare x) acked applied ∈ w.log → P acked

variable {o : Goroutine} {b : Backend} {P : Bool → Prop}

theorem Votes.stable (hrel : .shard b :: o <:+ g ∨ g <:+ .shard b :: o) : discipline.Stable g (Votes t o b P) := by
  rintro w w' _ hK ⟨howner, hall⟩
  refine ⟨((hK.txns t).born o howner).1, ?_⟩
  rintro x call rep i acked applied rfl hmem
  refine hall x call rep i acked applied rfl (hK.prepares x b o howner hrel _ hmem ?_)
  simp [Event.isQuery]

theorem Votes.imp {P' : Bool → Prop} (h : Votes t o b P w) (hP : ∀ acked, P acked → P' acked) : Votes t o b P' w :=
  ⟨h.owner, fun x call rep i acked applied hx hmem => hP _ (h.all x call rep i acked applied hx hmem)⟩

/-- The operations around a command: they send nothing and create no transaction. -/
def Op.Tame : Op → Prop
  | .readTxn _ => True
  | .writeTxn _ _ => True
  | .setState _ _ => True
  | .twopcGet _ _ => True
  | .twopcPut _ _ _ _ => True
  | .poolGet _ _ _ => True
  | _ => False

theorem owner_update {t' : TxnId} {txn' : Txn} (htxns : w'.txns = Function.update w.txns t' txn')
    (howner : txn'.owner = (w.txns t').owner) : (w'.txns t).owner = (w.txns t).owner := by
  rw [htxns]
  grind

variable {op : Op} {choice : Choice} {x : Xid} {bs : List Backend} {r : Option Err}

/-- Tame operations keep the owners and add no command to the log. -/
theorem tame_step {r : op.Res} (hop : op.Tame) (hrun : exec op choice w = some (r, w'))
    : (w'.txns t).owner = (w.txns t).owner ∧ ∀ call c q acked applied, Event.query call c q acked applied ∈ w'.log →
        Event.query call c q acked applied ∈ w.log := by
  cases exec_outcome hrun with
  | same => exact ⟨rfl, fun _ _ _ _ _ h => h⟩
  | writeTxn t' u =>
    refine ⟨owner_update rfl ?_, fun _ _ _ _ _ h => h⟩
    cases u <;> rfl
  | setState | poolGet => exact ⟨owner_update rfl rfl, fun _ _ _ _ _ h => (mem_cons.mp h).resolve_left nofun⟩
  | twopcPut t' b' c k => grind [owner_update, World.connMoved, World.updTxn, World.emit, Txn.putTwopc]
  | _ => exact hop.elim

theorem Votes.tame {r : op.Res} (hop : op.Tame)
    (hrun : exec op choice w = some (r, w')) (h : Votes t o b P w) : Votes t o b P w' := by
  obtain ⟨howner, hlog⟩ := tame_step (t := t) hop hrun
  exact ⟨howner.trans h.owner, fun x call rep i acked applied hx hmem =>
    h.all x call rep i acked applied hx (hlog _ _ _ _ _ hmem)⟩

theorem twopcConnection_tame (b : Backend) : (twopcConnection g t b).All Op.Tame := by
  refine Prog.All.bind ((Prog.all_perform _ _).mpr trivial) fun r => ?_
  cases r with
  | some c => trivial
  | none =>
    refine Prog.All.bind ((Prog.all_perform _ _).mpr trivial) fun txn => ?_
    split
    · refine Prog.All.bind ((Prog.all_perform _ _).mpr trivial) fun r => ?_
      cases r with
      | error e => trivial
      | ok c => exact Prog.All.bind ((Prog.all_perform _ _).mpr trivial) fun _ => trivial
    · trivial

/-- No backend has been asked yet, if `fresh`. -/
def Unasked (g : Goroutine) (t : TxnId) (fresh : Prop) (w : World) : Prop :=
  fresh → ∀ b, Votes t g b (fun _ => False) w

variable {fresh : Prop}

theorem Unasked.stable : discipline.Stable g (Unasked g t fresh) :=
  .imp fun _ => .all fun _ => Votes.stable (.inr (suffix_cons _ _))

theorem frame_unasked {α : Type} {p : Go α} {A : World → Prop} {Q : α → World → Prop} (h : Spec g A p Q)
    (hp : p.All Op.Tame) : Spec g (fun w => A w ∧ Unasked g t fresh w) p fun a w => Q a w ∧ Unasked g t fresh w :=
  h.frame hp Unasked.stable fun _ _ _ _ _ hop hrun hu hf b => (hu hf b).tame hop hrun

/-- The owner asks the targets of its request to prepare. -/
theorem askVotes_spec (howner : v.owner = g) (hstage : v.stage = .opened) :
    Spec g (Knows g t v) (act (.writeTxn t (.xaState .prepare))) fun _ w =>
      Knows g t { v with voted := v.voted ++ xaTargets v.req v.backends } w ∧ Unasked g t (v.voted = []) w := by
  refine Triple.perform Knows.stable (fun _ => Knows.stable.and Unasked.stable) fun w hw hk => ⟨?_, ?_⟩
  · exact ⟨hk.served, fun _ => ⟨hk.owner.trans (congrArg some howner), hk.stage.trans hstage⟩⟩
  · intro choice r w' hrun _
    cases hrun
    have hself := World.updTxn_self w t (TxnWrite.xaState .prepare).apply
    refine ⟨hk.write (.xaState .prepare) hk.xid hk.parts ?_ hk.req, fun hf b => ⟨?_, ?_⟩⟩
    · rw [← hk.req howner, ← hk.backends, ← hk.voted]
      simp only [TxnWrite.apply, if_pos]
    · rw [hself]; exact hk.owner.trans (congrArg some howner)
    · rintro x call rep i acked applied rfl hmem
      have hasked := hw.asked x b ⟨call, rep, i, acked, applied, hmem⟩
      rw [hk.voted, hf] at hasked
      cases hasked

/-- What the goroutine of a backend finds out about its vote. -/
def Voted (g : Goroutine) (t : TxnId) (x : Xid) (fresh : Prop) (b : Backend) (refused : Prop) (w : World) :
    Prop :=
  (¬ refused → Acked (.xaPrepare x) b w.log) ∧ (refused → fresh → Votes t g b (· = false) w)

theorem Voted.stable {refused : Prop} {k : Goroutine} (hrel : .shard b :: g <:+ k ∨ k <:+ .shard b :: g) :
    discipline.Stable k (Voted g t x fresh b refused) :=
  (Stable.imp fun _ => (grows_acked _ b).stable).and (.imp fun _ => .imp fun _ => Votes.stable hrel)

/-- `XA PREPARE` on the connection that the goroutine of the backend has got. -/
theorem vote_spec {c : Conn} (howner : v.owner = g) (hstage : v.stage = .opened) (hx : v.xid = some x)
    (hb : b ∈ v.voted) : Spec (.shard b :: g) (fun w => Knows (.shard b :: g) t v w ∧ Got t v b true (.ok c) w ∧
        (fresh → Votes t g b (fun _ => False) w)) (act (.query none c (.xaPrepare x)))
      fun r w => Voted g t x fresh b (errOf r ≠ none) w ∧ Knows (.shard b :: g) t v w := by
  have hvotes : discipline.Stable (.shard b :: g) fun w => fresh → Votes t g b (fun _ => False) w :=
    .imp fun _ => Votes.stable (.inl suffix_rfl)
  refine quiet_spec (o := .query none c (.xaPrepare x)) trivial (Got.stable.and hvotes)
    (fun _ => Voted.stable (.inl suffix_rfl)) fun w hw hk ⟨hgot, hfresh⟩ => ?_
  obtain ⟨⟨rfl, hprimary, _⟩, hc⟩ := hgot c rfl
  refine ⟨⟨⟨t, hc, hk.served, ?_, hk.xid.trans hx, hk.stage.trans hstage, ?_, hprimary rfl, g, ?_, rfl⟩, nofun⟩,
    fun choice r w' hrun _ _ => ?_⟩
  · rw [hk.stage, hstage]
    exact Stage.noConfusion
  · rw [hk.voted]
    exact hb
  · exact hk.owner.trans (congrArg some howner)
  · obtain ⟨s', acked, applied, _, rfl, hacked⟩ := World.runQuery_spec hrun
    refine ⟨fun hr => ?_, fun hr hf => ⟨(hfresh hf).owner, ?_⟩⟩
    · obtain rfl : acked = true := by
        refine hacked.mpr ?_
        cases r with
        | ok qr => exact ⟨qr, rfl⟩
        | error e => exact absurd nofun hr
      exact ⟨none, c.pool.replica, c.index, applied, mem_cons_self⟩
    · grind [Votes.all, errOf]

/-- The goroutine of a backend asks for its vote. -/
theorem voteShard_spec (howner : v.owner = g) (hstage : v.stage = .opened) (hhand : v.hand = none)
    (hx : v.xid = some x) (hb : b ∈ v.voted) : Spec (.shard b :: g)
      (fun w => (fresh → Votes t g b (fun _ => False) w) ∧ Knows (.shard b :: g) t v w)
      (xaOneShard (.shard b :: g) t b (.xaPrepare x))
      fun r w => Voted g t x fresh b (r ≠ none) w ∧ Knows (.shard b :: g) t v w := by
  have hne : v.stage ≠ .ended := by rw [hstage]; exact Stage.noConfusion
  have hvotes : discipline.Stable (.shard b :: g) fun w => fresh → Votes t g b (fun _ => False) w :=
    .imp fun _ => Votes.stable (.inl suffix_rfl)
  have hconn := (twopcConnection_spec (g := .shard b :: g) (t := t) hne hhand b).frame
    (twopcConnection_tame b) hvotes fun _ _ _ _ _ hop hrun hv hf => (hv hf).tame hop hrun
  refine (hconn.pre fun w _ h => ⟨h.2, h.1⟩).bind fun r => ?_
  cases r with
  | error e =>
    refine .ret ((Got.stable.and Knows.stable).and hvotes) fun w _ h => ⟨⟨fun hr => ?_, fun _ hf => ?_⟩, h.1.2⟩
    · exact absurd nofun hr
    · exact (h.2 hf).imp fun _ => False.elim
  | ok c =>
    refine ((vote_spec howner hstage hx hb).pre fun w _ h => ⟨h.1.2, h.1.1, h.2⟩).bind fun r => ?_
    exact .ret ((Voted.stable (.inl suffix_rfl)).and Knows.stable) fun _ _ h => h

/-- What the owner finds out about the votes of the backends. -/
def Polled (g : Goroutine) (t : TxnId) (x : Xid) (fresh : Prop) (bs : List Backend) (r : Option Err)
    (w : World) : Prop :=
  (r = none → ∀ b ∈ bs, Acked (.xaPrepare x) b w.log) ∧
    (r ≠ none → fresh → ∃ b ∈ bs, Votes t g b (· = false) w)

theorem Polled.stable : discipline.Stable g (Polled g t x fresh bs r) := by
  refine (Stable.imp fun _ => .all fun b => .imp fun _ => (grows_acked _ b).stable).and
    (.imp fun _ => .imp fun _ => .ex fun b => (Stable.of_pure _).and ?_)
  exact Votes.stable (.inr (suffix_cons _ _))

theorem Polled.tame {res : op.Res} (hop : op.Tame) (hrun : exec op choice w = some (res, w'))
    (hlog : w.log <:+ w'.log) (h : Polled g t x fresh bs r w) : Polled g t x fresh bs r w' := by
  refine ⟨fun hr b hb => grows_acked _ b _ _ hlog (h.1 hr b hb), fun hr hf => ?_⟩
  obtain ⟨b, hb, hvotes⟩ := h.2 hr hf
  exact ⟨b, hb, hvotes.tame hop hrun⟩

/-- `XA PREPARE` on every backend. -/
theorem xaFanOut_prepare_spec (howner : v.owner = g) (hstage : v.stage = .opened)
    (hhand : v.hand = none) (hx : v.xid = some x) (hnodup : bs.Nodup) (hbs : ∀ b ∈ bs, b ∈ v.voted) :
    Spec g (fun w => Knows g t v w ∧ Unasked g t fresh w) (xaFanOut g t (.xaPrepare x) .prepare bs)
      fun r w => Polled g t x fresh bs r w ∧ Knows g t v w := by
  refine ((forkWith_spec (Φ := fun b w => fresh → Votes t g b (fun _ => False) w)
    (Ψ := fun b r => Voted g t x fresh b (r ≠ none)) hnodup hhand
    (fun b r => (Voted.stable (.inl suffix_rfl)).and Knows.stable)
    fun b hb => voteShard_spec howner hstage hhand hx (hbs b hb)).pre
    fun w _ h => ⟨fun b _ hf => h.2 hf b, h.1⟩).bind fun out => ?_
  have hstable : discipline.Stable g fun w =>
      List.Forall₂ (fun b r => Voted g t x fresh b (r ≠ none) w) bs out :=
    fun w w' hw hK h => h.imp fun b r hb =>
      Voted.stable (.inr (suffix_cons _ _)) w w' hw hK hb
  refine .ret (hstable.and Knows.stable) fun w _ h => ⟨⟨fun hnone b hb => ?_, fun hsome hf => ?_⟩, h.2⟩
  · obtain ⟨r, hr, hvoted⟩ := Prog.forall₂_exists h.1 hb
    exact hvoted.1 fun hne => hne (firstErr_eq_none.mp hnone r hr)
  · obtain ⟨r, hr, hne⟩ : ∃ r ∈ out, r ≠ none := by grind [firstErr_eq_none]
    obtain ⟨b, hb, hvoted⟩ := Prog.forall₂_exists h.1.flip hr
    exact ⟨b, hb, hvoted.2 hne hf⟩

/-- The owner's knowledge while it asks. -/
theorem carried_unasked (hstage : v.stage ≠ .ended) : Carried g t v fun w => Knows g t v w ∧ Unasked g t fresh w where
  knows _ h := h.1
  stable := Knows.stable.and Unasked.stable
  read := (frame_unasked readTxn_spec ((Prog.all_perform _ _).mpr trivial)).post fun _ _ _ h =>
    ⟨h.1.1, h.1.2, h.2⟩
  set := frame_unasked (setState_spec hstage rfl) ((Prog.all_perform _ _).mpr trivial)

/-- An assignment of the owner keeps what it found out. -/
theorem polled_write {u : TxnWrite} (hu : u.Quiet) :
    Spec g (fun w => Polled g t x fresh bs r w ∧ Knows g t v w) (act (.writeTxn t u))
      fun _ w => Polled g t x fresh bs r w ∧ Knows g t v w := by
  refine ((writeTxn_spec hu).frame (O := (· = .writeTxn t u)) ((Prog.all_perform _ _).mpr rfl) Polled.stable
    ?_).conseq (fun w _ h => ⟨h.2, h.1⟩) fun _ w _ h => ⟨h.2, h.1⟩
  rintro _ c w r w' rfl hrun h
  have htame : Op.Tame (.writeTxn t u) := trivial
  refine h.tame htame hrun ?_
  cases hrun
  exact suffix_rfl

theorem xaPrepare_spec (howner : v.owner = g) (hstage : v.stage = .opened) (hhand : v.hand = none) :
    Spec g (Knows g t v) (xaPrepare g t) fun r w => ∃ x, v.xid = some x ∧
      Polled g t x (v.voted = []) (xaTargets v.req v.backends) r w ∧
      Knows g t { v with voted := v.voted ++ xaTargets v.req v.backends } w := by
  have hne : v.stage ≠ .ended := by rw [hstage]; exact Stage.noConfusion
  refine (askVotes_spec howner hstage).bind fun _ => ?_
  obtain ⟨v', hv'⟩ : ∃ v', v' = { v with voted := v.voted ++ xaTargets v.req v.backends } := ⟨_, rfl⟩
  have hcarried : Carried g t v' fun w => Knows g t v' w ∧ Unasked g t (v.voted = []) w :=
    carried_unasked (by rw [hv']; exact hne)
  rw [← hv']
  refine hcarried.read.bind_pure fun txn hsees => ?_
  rw [hsees.2.1]
  have hxid : v'.xid = v.xid := by rw [hv']
  have htargets : xaTargets v'.req v'.backends = xaTargets v.req v.backends := by rw [hv']
  rw [hxid]
  cases hx : v.xid with
  | none => exact panic_spec hcarried.stable
  | some x =>
    refine (executeXACommand_spec (Q := fun r w => Polled g t x (v.voted = []) (xaTargets v.req v.backends) r w ∧
      Knows g t v' w) (by rw [hv']; exact howner) hcarried ?_ ?_).bind fun r => ?_
    · rw [htargets]
      refine xaFanOut_prepare_spec (by rw [hv']; exact howner) (by rw [hv']; exact hstage)
        (by rw [hv']; exact hhand) (hxid.trans hx) (xaTargets_nodup _ _) fun b hb => ?_
      rw [hv']
      exact mem_append_right _ hb
    · grind [Polled]
    · have hcount : Spec g (fun w => Polled g t x (v.voted = []) (xaTargets v.req v.backends) r w ∧
          Knows g t v' w) (countErr t r) fun _ w =>
            Polled g t x (v.voted = []) (xaTargets v.req v.backends) r w ∧ Knows g t v' w := by
        cases r with
        | none => exact .ret (Polled.stable.and Knows.stable) fun _ _ h => h
        | some e => exact polled_write trivial
      refine hcount.bind fun _ => (polled_write (u := .xaState .prepareFinished) nofun).bind fun _ => ?_
      exact .ret (Polled.stable.and Knows.stable) fun w _ h => ⟨x, rfl, h⟩

end Radon
