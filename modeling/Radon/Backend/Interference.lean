import Radon.Backend.WellFormed

/-!
# What a goroutine can count on

An allowed operation of one goroutine leaves alone what an unrelated goroutine relies on. With the
preservation of well-formedness this makes the discipline a protocol.
-/

namespace Radon

open Concurrency List Function

variable {h : Goroutine}

section Relation

variable {g : Goroutine} {w w' w'' : World} {t : TxnId}

theorem TxnFrame.refl (near mine : Goroutine → Prop) (d : Prop) (txn : Txn) : TxnFrame near mine d txn txn where
  added := id
  born _ h := ⟨h, rfl⟩
  registered _ _ _ := rfl
  owned _ _ _ := ⟨rfl, rfl, rfl⟩
  voted _ _ _ := rfl
  hand _ _ _ := Iff.rfl
  executing _ _ _ := rfl
  holding _ _ _ := ⟨rfl, rfl, rfl, Iff.rfl, id⟩
  finishing _ _ _ := rfl
  still _ _ _ := .inr ⟨rfl, rfl, rfl, rfl⟩

theorem Frame.refl (near mine : Goroutine → Prop) (w : World) : Frame near mine w w where
  log := suffix_rfl
  holder _ _ h := h
  conns _ _ _ _ := .inr fun _ h => ⟨h, rfl⟩
  readers _ h _ := h
  writer _ _ h _ _ := h
  slot _ _ := ⟨rfl, id⟩

variable {d : Prop} {txn txn' : Txn}

theorem TxnKeeps.trans {d' : Prop} {txn'' : Txn} (h : TxnKeeps g d txn txn')
    (h' : TxnKeeps g d' txn' txn'') (hd : d → d') : TxnKeeps g d' txn txn'' where
  added ha := h'.added (h.added ha)
  born o ho := by
    obtain ⟨ho', hb⟩ := h.born o ho
    obtain ⟨ho'', hb'⟩ := h'.born o ho'
    exact ⟨ho'', hb'.trans hb⟩
  registered o ho hrel := (h'.registered o (h.born o ho).1 hrel).trans (h.registered o ho hrel)
  owned o ho hrel := by
    obtain ⟨hs, hx, hp⟩ := h.owned o ho hrel
    obtain ⟨hs', hx', hp'⟩ := h'.owned o (h.born o ho).1 hrel
    exact ⟨hs'.trans hs, hx'.trans hx, hp'.trans hp⟩
  voted o ho hrel := (h'.voted o (h.born o ho).1 hrel).trans (h.voted o ho hrel)
  req o ho hg := (h'.req o (h.born o ho).1 hg).trans (h.req o ho hg)
  hand c k hg := (h'.hand c k hg).trans (h.hand c k hg)
  executing k hmu hg := by
    have hmu' := h.executing k hmu hg
    exact (h'.executing k (hmu'.trans hmu) hg).trans hmu'
  holding k hmu hg := by
    obtain ⟨hm, hp, ha, hf, hab⟩ := h.holding k hmu hg
    obtain ⟨hm', hp', ha', hf', hab'⟩ := h'.holding k (by rw [hm]; exact hmu) hg
    exact ⟨hm'.trans hm, hp'.trans hp, ha'.trans ha, hf'.trans hf, fun hs => hab (hab' hs)⟩
  finishing k hmu hg := by
    obtain ⟨hm, _⟩ := h.holding k (.inl hmu) hg
    exact (h'.finishing k (hm.trans hmu) hg).trans (h.finishing k hmu hg)
  still k hmu hg := by
    have hold : txn.mu = some (.finish k) ∨ txn.mu = some (.abort k) := hmu.imp id And.left
    obtain ⟨hm, _, ha, _⟩ := h.holding k hold hg
    rcases h.still k hmu hg with hd' | ⟨h₁, h₂, h₃, h₄⟩
    · exact .inl (hd hd')
    · refine (h'.still k (by rw [hm, ha]; exact hmu) hg).imp id fun h'' => ?_
      exact ⟨h''.1.trans h₁, h''.2.1.trans h₂, h''.2.2.1.trans h₃, h''.2.2.2.trans h₄⟩

theorem Keeps.refl (g : Goroutine) (w : World) : Keeps g w w where
  toFrame := .refl _ _ w
  txns _ := ⟨.refl _ _ _ _, fun _ _ _ => rfl⟩
  prepares _ _ _ _ _ _ h _ := h

theorem Keeps.trans (h : Keeps g w w') (h' : Keeps g w' w'') : Keeps g w w'' where
  log := h.log.trans h'.log
  txns t := (h.txns t).trans (h'.txns t) fun hd => hd.mono h'.log
  holder c t hc := h'.holder c t (h.holder c t hc)
  conns t k hmu hg := by
    have hold : (w.txns t).mu = some (.finish k) ∨ (w.txns t).mu = some (.abort k) :=
      hmu.imp id And.left
    obtain ⟨hm, _, ha, _⟩ := (h.txns t).holding k hold hg
    rcases h.conns t k hmu hg with hd | hconns
    · exact .inl (hd.mono h'.log)
    · refine (h'.conns t k (by rw [hm, ha]; exact hmu) hg).imp id fun hconns' c hc => ?_
      obtain ⟨hc', hrel'⟩ := hconns' c hc
      obtain ⟨hc, hrel⟩ := hconns c hc'
      exact ⟨hc, hrel'.trans hrel⟩
  readers r hr hg := h'.readers r (h.readers r hr hg) hg
  writer t o hwr ho hrel := h'.writer t o (h.writer t o hwr ho hrel) ((h.txns t).born o ho).1 hrel
  prepares x b o ho hrel e he hq :=
    h.prepares x b o ho hrel e (h'.prepares x b o ((h.txns x.id).born o ho).1 hrel e he hq) hq
  slot sid hg :=
    ⟨(h'.slot sid hg).1.trans (h.slot sid hg).1, fun hl => (h.slot sid hg).2 ((h'.slot sid hg).2 hl)⟩

section Mono

variable {near near' mine mine' : Goroutine → Prop} (hnear : ∀ o, near' o → near o) (hmine : ∀ k, mine' k → mine k)
include hnear hmine

/-- Less stays for fewer goroutines. -/
theorem TxnFrame.mono (hf : TxnFrame near mine d txn txn') : TxnFrame near' mine' d txn txn' where
  added := hf.added
  born := hf.born
  registered o ho hn := hf.registered o ho (hnear o hn)
  owned o ho hn := hf.owned o ho (hnear o hn)
  voted o ho hn := hf.voted o ho (hnear o hn)
  hand c k hm := hf.hand c k (hmine k hm)
  executing k hmu hm := hf.executing k hmu (hmine k hm)
  holding k hmu hm := hf.holding k hmu (hmine k hm)
  finishing k hmu hm := hf.finishing k hmu (hmine k hm)
  still k hmu hm := hf.still k hmu (hmine k hm)

theorem Frame.mono (hf : Frame near mine w w') : Frame near' mine' w w' where
  log := hf.log
  holder := hf.holder
  conns t k hmu hm := hf.conns t k hmu (hmine k hm)
  readers r hr hn := hf.readers r hr (hnear _ hn)
  writer t o hwr ho hn := hf.writer t o hwr ho (hnear o hn)
  slot sid hm := hf.slot sid (hmine _ hm)

end Mono

/-- Two names that lie on the way to a third one are related. -/
theorem related_of_suffix {g o : Goroutine} (hgh : g <:+ h) (hrel : Related h o) : Related g o := by
  rcases hrel with hoh | hho
  · exact suffix_or_suffix_of_suffix hoh hgh
  · exact .inr (hgh.trans hho)

theorem Keeps.mono (hgh : g <:+ h) (hk : Keeps g w w') : Keeps h w w' where
  toFrame := hk.toFrame.mono (fun _ => related_of_suffix hgh) fun _ => hgh.trans
  txns t := ⟨(hk.txns t).toTxnFrame.mono (fun _ => related_of_suffix hgh) fun _ => hgh.trans,
    fun o ho hho => (hk.txns t).req o ho (hgh.trans hho)⟩
  prepares x b o ho hrel := hk.prepares x b o ho (related_of_suffix hgh hrel)

/-- What an operation of an unrelated goroutine leaves alone includes what `g` counts on. -/
theorem Guar.keeps (hgh : ¬ g <:+ h) (hhg : ¬ h <:+ g) (hG : Guar h w w')
    (hprepares : ∀ x b o, (w.txns x.id).owner = some o → .shard b :: o ≠ h →
      ∀ e ∈ w'.log, e.isQuery (.xaPrepare x) b = true → e ∈ w.log) : Keeps g w w' := by
  have hne : ∀ k, g <:+ k → k ≠ h := fun k hk heq => hgh (heq ▸ hk)
  have hne' : ∀ o, Related g o → o ≠ h := fun o hrel heq => by
    subst heq
    exact hrel.elim hhg hgh
  refine ⟨hG.toFrame.mono hne' hne, fun t => ⟨(hG.txns t).toTxnFrame.mono hne' hne, fun o ho hg => ?_⟩,
    fun x b o ho hrel => hprepares x b o ho (hne' _ hrel)⟩
  refine ((hG.txns t).req o ho (hne o hg)).resolve_right fun hplan => ?_
  obtain ⟨o', sides, ho', rfl, _⟩ := hplan.1
  obtain rfl : o' = o := Option.some.inj (ho'.symm.trans ho)
  exact hgh (hg.trans (suffix_append sides o'))

end Relation

section Step

variable {h : Goroutine} {w w' : World} {t : TxnId} {txn txn' : Txn}

theorem TxnGuar.refl (h : Goroutine) (d : Prop) (txn : Txn) : TxnGuar h d txn txn :=
  ⟨.refl _ _ d txn, fun _ _ _ => .inl rfl⟩

/-- An operation on one transaction: its record, the connections it holds, and the rest. -/
theorem Guar.of_parts (hlog : w.log <:+ w'.log) (htxns : w'.txns = update w.txns t txn')
    (ht : TxnGuar h (Disturbed t w'.log) (w.txns t) txn')
    (hholder : ∀ c t', (w.conn c).holder = some t' → (w'.conn c).holder = some t')
    (hconns : ∀ k, (w.txns t).mu = some (.finish k) ∨
        (w.txns t).mu = some (.abort k) ∧ 0 < (w.txns t).aborts → k ≠ h →
      Disturbed t w'.log ∨ ∀ c, (w'.conn c).holder = some t →
        (w.conn c).holder = some t ∧ w'.released c = w.released c)
    (hother : ∀ t', t' ≠ t → ∀ c, (w'.conn c).holder = some t' →
      (w.conn c).holder = some t' ∧ w'.released c = w.released c)
    (hlock : w'.commitLock = w.commitLock) (hsessions : w'.sessions = w.sessions) : Guar h w w' where
  log := hlog
  txns t' := by
    rw [htxns]
    by_cases heq : t' = t
    · subst heq
      rw [update_self]
      exact ht
    · rw [update_of_ne heq]
      exact .refl h _ _
  holder := hholder
  conns t' k hmu hk := by
    by_cases h : t' = t
    · subst h
      exact hconns k hmu hk
    · exact .inr (hother t' h)
  readers := by rw [hlock]; exact fun _ h _ => h
  writer := by rw [hlock]; exact fun _ _ h _ _ => h
  slot := by rw [hsessions]; exact fun _ _ => ⟨rfl, id⟩

/-- A change of one record. -/
theorem Guar.of_record (hlog : w.log <:+ w'.log) (htxns : w'.txns = update w.txns t txn')
    (ht : TxnGuar h (Disturbed t w'.log) (w.txns t) txn') (hservers : w'.servers = w.servers)
    (hlock : w'.commitLock = w.commitLock) (hsessions : w'.sessions = w.sessions) : Guar h w w' := by
  obtain ⟨hconn, hreleased⟩ := World.conns_eq hservers
  refine .of_parts hlog htxns ht ?_ ?_ ?_ hlock hsessions
  · rw [hconn]; exact fun _ _ h => h
  · simp_all
  · rw [hconn, hreleased]; exact fun _ _ _ h => ⟨h, rfl⟩

/-- A change outside the transactions and the servers. -/
theorem Guar.of_rest (hlog : w.log <:+ w'.log) (htxns : w'.txns = w.txns)
    (hservers : w'.servers = w.servers)
    (hreaders : ∀ r ∈ w.commitLock.readers, r.go ≠ h → r ∈ w'.commitLock.readers)
    (hwriter : ∀ t o, w.commitLock.writer = some t → (w.txns t).owner = some o → o ≠ h →
      w'.commitLock.writer = some t)
    (hslot : ∀ sid, [.task sid] ≠ h → (w'.sessions sid).transaction = (w.sessions sid).transaction ∧
      ((w'.sessions sid).listed = true → (w.sessions sid).listed = true)) :
    Guar h w w' where
  log := hlog
  txns t := by rw [htxns]; exact .refl h _ _
  holder := by
    rw [(World.conns_eq hservers).1]
    exact fun _ _ h => h
  conns t k _ _ := by
    obtain ⟨hconn, hreleased⟩ := World.conns_eq hservers
    rw [hconn, hreleased]
    exact .inr fun c hc => ⟨hc, rfl⟩
  readers := hreaders
  writer := hwriter
  slot := hslot

theorem Guar.refl (h : Goroutine) (w : World) : Guar h w w := ⟨.refl _ _ w, fun _ => .refl h _ _⟩

/-- The owner is one goroutine. -/
theorem owner_eq {o : Goroutine} (ho : txn.owner = some h) (ho' : txn.owner = some o) : o = h :=
  Option.some.inj (ho'.symm.trans ho)

variable {k : Goroutine} {c : Conn}

/-- At most one goroutine is in a section of `Finish` or `Abort`. -/
theorem section_eq (hmu : txn.mu = some (.finish h) ∨ txn.mu = some (.abort h))
    (hmu' : txn.mu = some (.finish k) ∨ txn.mu = some (.abort k)) : k = h := by grind

theorem guar_newTxn (hw : Wf w) (backends : Backends) (hlog : w'.log = w.log)
    (htxns : w'.txns = update w.txns (w.txnid + 1) { backends := backends, owner := some k })
    (hservers : w'.servers = w.servers) (hlock : w'.commitLock = w.commitLock)
    (hsessions : w'.sessions = w.sessions) : Guar h w w' := by
  refine .of_record (hlog ▸ suffix_rfl) htxns ?_ hservers hlock hsessions
  rw [hw.unborn _ (Nat.lt_succ_self _)]
  exact {
    added := fun h => h
    born := fun _ h => nomatch h
    registered := fun _ h => nomatch h
    owned := fun _ h => nomatch h
    voted := fun _ h => nomatch h
    req := fun _ h => nomatch h
    hand := fun _ _ _ => Iff.rfl
    executing := fun _ h => nomatch h
    holding := fun _ h => h.elim (fun h => nomatch h) fun h => nomatch h
    finishing := fun _ h => nomatch h
    still := fun _ _ _ => .inr ⟨rfl, rfl, rfl, rfl⟩ }

theorem txnGuar_writeTxn (d : Prop) {u : TxnWrite}
    (hu : WriteAllowed h t txn u) : TxnGuar h d txn (u.apply txn) := by
  have hrefl := TxnGuar.refl h d txn
  cases u with
  | xid x parts => exact { hrefl with owned := fun o ho hrel => absurd (owner_eq hu.1 ho) hrel }
  | req r =>
    refine { hrefl with req := fun o ho hne => .inr ⟨hu.1, fun r' hr' hmode => hne ?_⟩ }
    obtain rfl : r = r' := Option.some.inj hr'
    exact owner_eq (hu.2 hmode) ho
  | xaState s =>
    refine { hrefl with voted := fun o ho hrel => if_neg fun hs => ?_ }
    exact hrel (owner_eq ((hu.2 hs).1) ho)
  | _ => exact { hrefl with }

theorem txnGuar_setState (hwf : TxnWf t txn) (d : Prop) {log : List Event}
    {s : TxnState} (hs : StateAllowed h t txn log s) : TxnGuar h d txn (txn.setState s) := by
  have hrefl := TxnGuar.refl h d txn
  rcases hs with ⟨_, hstage, hend⟩ | ⟨hmu, _⟩ | ⟨hmu, _⟩
  · have hprog : (txn.setState s).progress = txn.progress := if_neg (by rw [hend]; exact Bool.noConfusion)
    have hne : s ≠ .finshing ∧ s ≠ .aborting := by
      constructor <;> rintro rfl <;> cases hend
    refine { hrefl with
      holding := fun k hk hg => ⟨rfl, hprog, rfl, ⟨fun h' => absurd h' hne.1, fun h' => ?_⟩,
        fun h' => absurd h' hne.2⟩
      finishing := fun k hk hg => absurd hk ((hwf.not_finish hstage).1 k) }
    exact absurd h' (hwf.not_finish hstage).2
  · exact { hrefl with
      holding := fun k hk hg => absurd (section_eq (.inl hmu) hk) hg
      finishing := fun k hk hg => absurd (section_eq (.inl hmu) (.inl hk)) hg }
  · exact { hrefl with
      holding := fun k hk hg => absurd (section_eq (.inr hmu) hk) hg
      finishing := fun k hk hg => absurd (section_eq (.inr hmu) (.inl hk)) hg }

theorem txnGuar_lock (d : Prop) {who : MuHolder} {log : List Event}
    (hfree : txn.mu = none) (hwho : LockAllowed h txn log who) : TxnGuar h d txn (txn.lock who) := by
  have hno : ∀ {k}, txn.mu ≠ some k := fun hk => nomatch hfree.symm.trans hk
  have hrefl := TxnGuar.refl h d txn
  have hopen : TxnGuar h d txn { txn with mu := some who } := { hrefl with
    executing := fun _ hk => absurd hk hno
    holding := fun _ hk => hk.elim (absurd · hno) (absurd · hno) }
  cases who with
  | execute k => exact hopen
  | finish k => exact { hopen with
      owned := fun o ho hrel => absurd (owner_eq hwho.2.1 ho) hrel
      holding := fun _ hk => hk.elim (absurd · hno) (absurd · hno) }
  | abort k => exact { hopen with holding := fun _ hk => hk.elim (absurd · hno) (absurd · hno) }

theorem txnGuar_unlock (d : Prop) (hallow : UnlockAllowed h txn) :
    TxnGuar h d txn txn.unlock := by
  have hrefl := TxnGuar.refl h d txn
  have hmine : txn.mu = some (.execute h) ∨ txn.mu = some (.finish h) ∨ txn.mu = some (.abort h) :=
    hallow.imp id (Or.imp And.left And.left)
  have hexec : ∀ k, txn.mu = some (.execute k) → k ≠ h → False := by grind
  have hsect : ∀ k, txn.mu = some (.finish k) ∨ txn.mu = some (.abort k) → k ≠ h → False := by grind
  unfold Txn.unlock
  split <;> exact { hrefl with
    executing := fun k hk hg => (hexec k hk hg).elim
    holding := fun k hk hg => (hsect k hk hg).elim }

/-- While a section of `Finish` or `Abort` is open, no connection of the transaction moves unnoticed. -/
theorem disturbed_of_move (hwf : TxnWf t (w.txns t)) (hstage : (w.txns t).stage ≠ .ended)
    (hk : (w.txns t).mu = some (.finish k) ∨ (w.txns t).mu = some (.abort k) ∧ 0 < (w.txns t).aborts)
    (hmove : Event.connMove t (0 < (w.txns t).aborts) ∈ w'.log) : Disturbed t w'.log := by
  rcases hk with hk | ⟨_, ha⟩
  · exact absurd hk ((hwf.not_finish hstage).1 k)
  · rw [decide_eq_true ha] at hmove
    exact .inr (.inr (.inl hmove))

/-- The mark that a moved connection leaves in the log. -/
theorem mem_connMoved (w₁ : World) (htxns : w₁.txns = w.txns) {f : Txn → Txn}
    (hf : (f (w.txns t)).aborts = (w.txns t).aborts) :
    Event.connMove t (0 < (w.txns t).aborts) ∈ ((w₁.updTxn t f).connMoved t).log := by
  rw [World.connMoved, World.updTxn_self, htxns, hf]
  exact mem_cons_self

/-- A change of the places of the owner's connections, which leaves a mark in the log. -/
theorem txnGuar_conns (hwf : TxnWf t (w.txns t)) (hstage : (w.txns t).stage ≠ .ended)
    (hmove : Event.connMove t (0 < (w.txns t).aborts) ∈ w'.log)
    {twopc : Backend → Option Conn} {normal replica : List Conn} {inHand : List (Conn × Goroutine)}
    (hhand : ∀ c k, k ≠ h → ((c, k) ∈ inHand ↔ (c, k) ∈ (w.txns t).inHand)) :
    TxnGuar h (Disturbed t w'.log) (w.txns t) { w.txns t with
      twopcConnections := twopc
      normalConnections := normal
      replicaConnections := replica
      inHand := inHand } := by
  have hrefl := TxnGuar.refl h (Disturbed t w'.log) (w.txns t)
  exact { hrefl with
    hand := hhand
    still := fun k hk _ => .inl (disturbed_of_move hwf hstage hk hmove) }

/-- Taking its own connection out of hand does not touch those of other goroutines. -/
theorem mem_erase_of_unrelated {hand : List (Conn × Goroutine)} (c c' : Conn)
    (hk : k ≠ h) : (c', k) ∈ hand.erase (c, h) ↔ (c', k) ∈ hand :=
  mem_erase_of_ne fun heq => hk (Prod.mk.inj heq).2

/-- Storing a connection that the goroutine has in hand. -/
theorem guar_store (hw : Wf w) (hstage : (w.txns t).stage ≠ .ended)
    {twopc : Backend → Option Conn} {normal replica : List Conn}
    (htxns : w'.txns = update w.txns t { w.txns t with
      twopcConnections := twopc
      normalConnections := normal
      replicaConnections := replica
      inHand := (w.txns t).inHand.erase (c, h) })
    (hlog : w.log <:+ w'.log) (hmove : Event.connMove t (0 < (w.txns t).aborts) ∈ w'.log)
    (hservers : w'.servers = w.servers) (hlock : w'.commitLock = w.commitLock)
    (hsessions : w'.sessions = w.sessions) : Guar h w w' :=
  .of_record hlog htxns (txnGuar_conns (hw.txn t) hstage hmove fun c' _ hk =>
    mem_erase_of_unrelated c c' hk) hservers hlock hsessions

theorem guar_poolGet (hw : Wf w) (hstage : (w.txns t).stage ≠ .ended) {p : PoolRef} :
    Guar h w (((w.updServer p fun s => s.issue t).updTxn t
      fun txn => txn.take ⟨p, (w.servers p).issued⟩ h).connMoved t) := by
  have hmove := mem_connMoved (w := w) (w.updServer p fun s => s.issue t) rfl (t := t)
    (f := fun txn => txn.take ⟨p, (w.servers p).issued⟩ h) rfl
  have hnew : ∀ t', (w.conn ⟨p, (w.servers p).issued⟩).holder ≠ some t' := by
    grind [Consistent.issued, Wf.toConsistent, World.conn]
  refine .of_parts (suffix_cons _ _) rfl (txnGuar_conns (hw.txn t) hstage hmove ?_) ?_ ?_ ?_ rfl rfl
  · grind [World.updServer]
  · intro c t' hc
    have hne : c ≠ ⟨p, (w.servers p).issued⟩ := by
      rintro rfl
      exact hnew t' hc
    exact (congrArg ConnState.holder ((conn_issue p c).trans (if_neg hne))).trans hc
  · exact fun k hk _ => .inl (disturbed_of_move (hw.txn t) hstage hk hmove)
  · intro t' ht' c hc
    have hconn := conn_issue (w := w) (t := t) p c
    by_cases hne : c = ⟨p, (w.servers p).issued⟩
    · rw [if_pos hne] at hconn
      have := (congrArg ConnState.holder hconn).symm.trans hc
      exact absurd (Option.some.inj this).symm ht'
    · rw [if_neg hne] at hconn
      exact ⟨(congrArg ConnState.holder hconn).symm.trans hc, congrArg ConnState.released hconn⟩

/-- A change of one connection, whose transaction it does not leave in the middle of a release. -/
theorem guar_touch {n : ℕ} (htouch : w.Touches n c w') (hc : (w.conn c).holder = some t)
    (hlog : w.log <:+ w'.log) (htxns : w'.txns = update w.txns t txn')
    (ht : TxnGuar h (Disturbed t w'.log) (w.txns t) txn')
    (hn : n = 0 ∨ ∀ k, (w.txns t).mu = some (.finish k) ∨
      (w.txns t).mu = some (.abort k) ∧ 0 < (w.txns t).aborts → k ≠ h → Disturbed t w'.log)
    (hlock : w'.commitLock = w.commitLock) (hsessions : w'.sessions = w.sessions) : Guar h w w' := by
  refine .of_parts hlog htxns ht ?_ ?_ ?_ hlock hsessions
  · intro c' t' hc'
    rw [htouch.holder_iff]
    exact hc'
  · intro k hk hg
    rcases hn with rfl | hn
    · refine .inr fun c' hc' => ?_
      rw [htouch.holder_iff] at hc'
      refine ⟨hc', ?_⟩
      by_cases hne : c' = c
      · rw [hne, htouch.released, Nat.add_zero]
      · rw [World.released, World.released, htouch.other c' hne]
    · exact .inl (hn k hk hg)
  · intro t' ht' c' hc'
    rw [htouch.holder_iff] at hc'
    exact ⟨hc', htouch.released_other hc ht' hc'⟩

/-- Releasing a connection, by whoever is in the section of its transaction. -/
theorem guar_release {n : ℕ} (htouch : w.Touches n c w')
    (hc : (w.conn c).holder = some t) (hrel : Releasing h (w.txns t)) (hlog : w.log <:+ w'.log)
    (htxns : w'.txns = w.txns) (hlock : w'.commitLock = w.commitLock)
    (hsessions : w'.sessions = w.sessions) : Guar h w w' := by
  refine guar_touch htouch hc hlog (by rw [htxns, update_eq_self]) (.refl h _ _)
    (.inr fun k hk hg => ?_) hlock hsessions
  exact absurd (section_eq (hrel.1.imp id And.left) (hk.imp id And.left)) hg

theorem guar_twopcDrop (hw : Wf w) {b : Backend} (hstage : (w.txns t).stage ≠ .ended)
    (hb : (w.txns t).twopcConnections b = some c) :
    Guar h w (((w.closeConn c).updTxn t fun txn => txn.deleteTwopc b).connMoved t) := by
  have hmove := mem_connMoved (w.closeConn c) rfl (t := t) (f := fun txn => txn.deleteTwopc b) rfl
  have htouch := (w.touches_released c).1
  refine guar_touch ⟨htouch.issued, htouch.other, htouch.holder, htouch.released⟩
    (hw.placed t c (.inr (.inl ⟨b, hb⟩))) (suffix_cons _ _) rfl
    (txnGuar_conns (hw.txn t) hstage hmove fun _ _ _ => Iff.rfl) (.inr fun k hk _ => ?_) rfl rfl
  exact disturbed_of_move (hw.txn t) hstage hk hmove

/-- What an allowed operation leaves alone. -/
theorem guar_step {o : Op} {choice : Choice} {r : o.Res} (hw : Wf w) (hallow : Allowed h o w)
    (hrun : exec o choice w = some (r, w')) : Guar h w w' := by
  cases exec_outcome hrun with
  | same => exact .refl h w
  | newTxn k backends =>
    exact guar_newTxn hw backends rfl rfl rfl rfl rfl
  | mgrAdd t =>
    exact .of_record suffix_rfl rfl { TxnGuar.refl h _ (w.txns t) with
      added := fun _ => rfl
      registered := fun o ho hrel => absurd (owner_eq hallow.1 ho) hrel } rfl rfl rfl
  | mgrRemove t =>
    have hsect := hallow.1.1.imp id And.left
    exact .of_record suffix_rfl rfl { TxnGuar.refl h _ (w.txns t) with
      holding := fun k hk hg => absurd (section_eq hsect hk) hg } rfl rfl rfl
  | commitLock t d hfree =>
    have hkeep : Guar h w (w.updTxn t fun txn => { txn with stage := .decided d }) :=
      .of_record suffix_rfl rfl { TxnGuar.refl h _ (w.txns t) with
        owned := fun o ho hrel => absurd (owner_eq hallow.1 ho) hrel } rfl rfl rfl
    exact { hkeep with
      readers := fun r hr => by rw [hfree.2] at hr; cases hr
      writer := fun t' o hwr => by rw [hfree.1] at hwr; cases hwr }
  | commitUnlock t =>
    refine .of_rest suffix_rfl rfl rfl (fun _ h _ => h) (fun t' o hwr ho hrel => ?_) fun _ _ => ⟨rfl, id⟩
    grind [Allowed]
  | commitRLock k =>
    exact .of_rest suffix_rfl rfl rfl (fun _ h _ => mem_cons_of_mem _ h)
      (fun _ _ h _ _ => h) fun _ _ => ⟨rfl, id⟩
  | commitRUnlock call =>
    refine .of_rest suffix_rfl rfl rfl (fun r hr hg => ?_) (fun _ _ h _ _ => h) fun _ _ => ⟨rfl, id⟩
    refine (mem_erase_of_ne ?_).mpr hr
    rintro rfl
    exact hg hallow.1
  | writeTxn t u =>
    exact .of_record suffix_rfl rfl (txnGuar_writeTxn _ hallow) rfl rfl rfl
  | setState t s =>
    exact .of_record (suffix_cons _ _) rfl (txnGuar_setState (hw.txn t) _ hallow) rfl rfl rfl
  | abortCheck t =>
    refine .of_record (suffix_cons _ _) rfl { TxnGuar.refl h _ (w.txns t) with
      holding := fun k hk hg => absurd (section_eq (.inr hallow.1) hk) hg } rfl rfl rfl
  | lockMu t who hfree => exact .of_record suffix_rfl rfl (txnGuar_lock _ hfree hallow) rfl rfl rfl
  | unlockMu t =>
    exact .of_record suffix_rfl rfl (txnGuar_unlock _ hallow) rfl rfl rfl
  | twopcPut t b c k =>
    obtain ⟨⟨rfl, _, hstage⟩, _⟩ := hallow
    split
    · exact guar_store hw hstage (c := c) rfl ((suffix_cons _ _).trans (suffix_cons _ _))
        (mem_connMoved _ rfl rfl) rfl rfl rfl
    · exact guar_store hw hstage (c := c) rfl (suffix_cons _ _) (mem_connMoved _ rfl rfl) rfl rfl rfl
  | twopcDrop t b hb => exact guar_twopcDrop hw hallow.2.2 hb
  | twopcDelete t b =>
    have hsect := hallow.1.1.imp id And.left
    exact .of_record suffix_rfl rfl { TxnGuar.refl h (Disturbed t w.log) (w.txns t) with
      still := fun k hk hg => absurd (section_eq hsect (hk.imp id And.left)) hg } rfl rfl rfl
  | appendNormal t c k =>
    obtain ⟨⟨rfl, _, hstage⟩, _⟩ := hallow
    exact guar_store hw hstage (c := c) rfl (suffix_cons _ _) (mem_connMoved _ rfl rfl) rfl rfl rfl
  | appendReplica t c k =>
    obtain ⟨⟨rfl, _, hstage⟩, _⟩ := hallow
    exact guar_store hw hstage (c := c) rfl (suffix_cons _ _) (mem_connMoved _ rfl rfl) rfl rfl rfl
  | poolGet t p k =>
    obtain ⟨rfl, _, hstage⟩ := hallow
    exact guar_poolGet hw hstage
  | close c =>
    obtain ⟨t, hc, hrel, _⟩ := hallow
    exact guar_release (w.touches_released c).1 hc hrel suffix_rfl rfl rfl rfl
  | recycle c =>
    obtain ⟨t, hc, hrel, _⟩ := hallow
    exact guar_release (w.touches_recycleConn c) hc hrel suffix_rfl rfl rfl rfl
  | kill t c => exact guar_release (w.touches_released c).2 hallow.1 hallow.2.1 suffix_rfl rfl rfl rfl
  | deadline t c =>
    exact guar_touch (w.touches_deadline t c) hallow (suffix_cons _ _) (update_eq_self t w.txns).symm (.refl h _ _)
      (.inr fun _ _ _ => disturbed_of_deadline mem_cons_self) rfl rfl
  | killFailed | xcAdd =>
    exact .of_rest (suffix_cons _ _) rfl rfl (fun _ h _ => h) (fun _ _ h _ _ => h) fun _ _ => ⟨rfl, id⟩
  | query call c q hquery =>
    obtain ⟨⟨t, hc, _⟩, _⟩ := hallow
    obtain ⟨s', acked, applied, htouch, rfl, _⟩ := World.runQuery_spec hquery
    exact guar_touch (.of_server rfl htouch) hc (suffix_cons _ _)
      (update_eq_self t w.txns).symm (.refl h _ _) (.inl rfl) rfl rfl
  | writeSession sid u =>
    refine .of_rest suffix_rfl rfl rfl (fun _ h _ => h) (fun _ _ h _ _ => h) fun sid' hg => ?_
    grind [World.updSession_of_ne, Allowed]
  | addSession sid =>
    refine .of_rest suffix_rfl rfl rfl (fun _ h _ => h) (fun _ _ h _ _ => h) fun sid' hg => ?_
    grind [World.updSession_of_ne, Allowed]
  | removeSession sid =>
    refine .of_rest suffix_rfl rfl rfl (fun _ h _ => h) (fun _ _ h _ _ => h) fun sid' _ => ?_
    grind [World.updSession_self, World.updSession_of_ne]
  | _ => exact .of_rest suffix_rfl rfl rfl (fun _ h _ => h) (fun _ _ h _ _ => h) fun _ _ => ⟨rfl, id⟩

end Step

/-- `XA PREPARE` of a transaction is only sent by the goroutines of its backends. -/
theorem prepares_step {w w' : World} {o : Op} {choice : Choice} {r : o.Res} (hw : Wf w)
    (hallow : Allowed h o w) (hrun : exec o choice w = some (r, w')) (x : Xid) (b : Backend)
    (k : Goroutine) (hk : (w.txns x.id).owner = some k) (hne : .shard b :: k ≠ h) (e : Event)
    (he : e ∈ w'.log) (hprepare : e.isQuery (.xaPrepare x) b = true) : e ∈ w.log := by
  grind [prepare_step, Wf.toConsistent, VoteAllowed.shard]

/-- The discipline of the goroutines as a protocol. -/
def discipline : Protocol exec Fork where
  wf := Wf
  allowed := Allowed
  keeps g := ⟨Keeps g, Keeps.refl g, Keeps.trans⟩
  wf_step := wf_step
  keeps_step hw hallow hrun hgh hhg :=
    (guar_step hw hallow hrun).keeps hgh hhg (prepares_step hw hallow hrun)
  keeps_mono := Keeps.mono

end Radon
