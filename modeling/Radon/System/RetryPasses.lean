import Mathlib.Algebra.Order.Ring.Int
import Mathlib.Data.Finset.Dedup
import Radon.Backend.RetryLog

/-!
# Retry passes over the XA log

What one visit does to the log, what a pass does by meeting every entry once, and what follows for
every history of logged decisions, passes and restarts: how an entry leaves the log, how many passes
it takes, and that the file always has the decisions of the map.
-/

namespace Radon.RetryLog

open List

variable {codec : Codec} {xc : XaCheck} {v : Visit} {visit : String → Visit}

/-! ## One visit -/

variable {xaid : String} {need : List String} {e : XaCommitErr} {T : ℤ} {ops : List Op}

theorem mem_needCommitBackends {backends : List String} (h : v.needCommitBackends xaid backends = .ok need)
    (back : String) : back ∈ need ↔ back ∈ backends ∧ v.Lists back xaid := by
  induction backends generalizing need with
  | nil =>
    cases h
    simp
  | cons b backends ih =>
    simp only [Visit.needCommitBackends] at h
    cases hr : v.recover b with
    | error e => simp [hr, bind, Except.bind] at h
    | ok r =>
      cases hn : v.needCommitBackends xaid backends with
      | error e => simp [hr, hn, bind, Except.bind] at h
      | ok rest =>
        simp only [hr, hn, bind, Except.bind, pure, Except.pure, Except.ok.injEq] at h
        have hhead : back ∈ (r.matches xaid).map (fun _ => b) ↔ back = b ∧ v.Lists b xaid := by
          rw [map_const', mem_replicate, and_comm, ne_eq, length_eq_zero_iff,
            ← ne_eq, r.matches_ne_nil_iff]
          simp [Visit.Lists, hr]
        grind

theorem send_length (query : String) (n : ℕ) (need : List String) : (v.send query n need).length = need.length := by
  induction need generalizing n with
  | nil => rfl
  | cons b need ih => simp [Visit.send, ih]

theorem exists_mem_send (query : String) {back : String} (n : ℕ)
    (h : back ∈ need) : ∃ c ∈ v.send query n need, c.backend = back ∧ c.query = query := by
  induction need generalizing n with
  | nil => cases h
  | cons b need ih =>
    obtain rfl | h := mem_cons.1 h
    · exact ⟨_, mem_cons_self, rfl, rfl⟩
    · obtain ⟨c, hc, hb⟩ := ih (n + 1) h
      exact ⟨c, mem_cons_of_mem _ hc, hb⟩

/-- At least one backend listed the xid, and every backend that did accepted the command. -/
def Delivered (v : Visit) (e : XaCommitErr) : Prop :=
  (∃ back ∈ v.backends, v.Lists back e.xaid) ∧
    ∀ back ∈ v.backends, v.Lists back e.xaid →
      ∃ c ∈ v.sent e, c.backend = back ∧ c.query = e.query ∧ c.err = none

theorem delivered_of_count (hneed : v.needCommitBackends e.xaid v.backends = .ok need)
    (hpos : 0 < (v.send e.query 0 need).countP Sent.ok)
    (hall : (v.send e.query 0 need).countP Sent.ok = need.length) : Delivered v e := by
  have hok : ∀ c ∈ v.send e.query 0 need, c.ok = true := by
    rw [← send_length (v := v) e.query 0 need] at hall
    exact countP_eq_length.1 hall
  constructor
  · obtain ⟨back, hback⟩ := exists_mem_of_length_pos (hall ▸ hpos)
    exact ⟨back, (mem_needCommitBackends hneed back).1 hback⟩
  · intro back hmem hlists
    obtain ⟨c, hc, hb, hq⟩ := exists_mem_send (v := v) e.query 0
      ((mem_needCommitBackends hneed back).2 ⟨hmem, hlists⟩)
    refine ⟨c, ?_, hb, hq, by simpa [Sent.ok] using hok c hc⟩
    rw [Visit.sent, hneed]
    exact hc

/-- What a visit of an entry does to the log. -/
inductive Visited (codec : Codec) (v : Visit) (e : XaCommitErr) (xc : XaCheck) :
    Except Err Bool × XaCheck → Prop
  | failed (err : Err) : Visited codec v e xc (.error err, xc)
  | delivered (h : Delivered v e) : Visited codec v e xc (.ok true, xc)
  | timedOut (h : e.times ≤ 0) :
    Visited codec v e xc (.ok true, { xc with timesOut := xc.timesOut ++ codec.entry.marshal e })
  | kept (h : 0 < e.times) :
    Visited codec v e xc (.ok false, { xc with retrys := xc.retrys.decTimes e.xaid })

theorem commitRetryBackends_visited (v : Visit) (e : XaCommitErr) (xc : XaCheck) :
    Visited codec v e xc (commitRetryBackends codec v e xc) := by
  unfold commitRetryBackends
  split
  · exact .failed _
  · cases v.create with
    | some err => exact .failed _
    | none =>
      simp only [retryBackends]
      cases hneed : v.needCommitBackends e.xaid v.backends with
      | error err => exact .failed _
      | ok need =>
        simp only
        split
        case isTrue h => exact .delivered (delivered_of_count hneed h.1 h.2)
        case isFalse =>
          split
          case isTrue h => exact .timedOut h
          case isFalse h => exact .kept (lt_of_not_ge h)

/-! ## The map -/

@[simp] theorem mem_delete {m : Retrys} : e ∈ (m.delete xaid).entries ↔ e ∈ m.entries ∧ e.xaid ≠ xaid := by
  simp [Retrys.delete]

theorem mem_decTimes_of_ne {m : Retrys} (h : e ∈ m.entries) (hne : e.xaid ≠ xaid) : e ∈ (m.decTimes xaid).entries :=
  mem_map.2 ⟨e, h, by rw [countDown, if_neg hne]⟩

theorem decTimes_decision (m : Retrys) (xaid : String) :
    (m.decTimes xaid).entries.map XaCommitErr.decision = m.entries.map XaCommitErr.decision := by
  rw [Retrys.decTimes, map_map]
  exact map_congr_left fun e _ => countDown_decision xaid e

/-- The decisions that a list of entries stands for. -/
def decisions (l : List XaCommitErr) : Finset (String × Decision) :=
  (l.map XaCommitErr.decision).toFinset

theorem mem_decisions {l : List XaCommitErr} {p : String × Decision} : p ∈ decisions l ↔ ∃ e ∈ l, e.decision = p := by
  simp [decisions]

/-! ## What the file has -/

/-- The file can be read and has the decisions of the map, and no entry has more than `T` retries
left. -/
structure Saved (codec : Codec) (T : ℤ) (xc : XaCheck) : Prop where
  readable : ∀ data, xc.file = some data → ∃ logs, codec.logs.unmarshal data = .ok logs
  same : ((xc.persisted codec).map XaCommitErr.decision).Perm
    (xc.retrys.entries.map XaCommitErr.decision)
  configured : xc.times ≤ T
  memory : ∀ e ∈ xc.retrys.entries, e.times ≤ T
  disk : ∀ e ∈ xc.persisted codec, e.times ≤ T

theorem persisted_flush (order : Order) (xc : XaCheck) :
    (flushXaCommitErrLog codec order xc).persisted codec = order.arrange xc.retrys.entries := by
  simp [flushXaCommitErrLog, XaCheck.persisted, codec.logs.unmarshal_marshal]

theorem Saved.flush (order : Order) (hT : xc.times ≤ T)
    (h : ∀ e ∈ xc.retrys.entries, e.times ≤ T) : Saved codec T (flushXaCommitErrLog codec order xc) where
  readable data hdata := by
    cases hdata
    exact ⟨_, codec.logs.unmarshal_marshal _⟩
  same := by
    rw [persisted_flush]
    exact (order.perm _).map _
  configured := hT
  memory := h
  disk e he := by
    rw [persisted_flush] at he
    exact h e ((order.perm _).mem_iff.1 he)

theorem Saved.timesOut (h : Saved codec T xc) (text : String) : Saved codec T { xc with timesOut := text } :=
  ⟨h.readable, h.same, h.configured, h.memory, h.disk⟩

theorem Saved.decTimes (h : Saved codec T xc) (xaid : String) :
    Saved codec T { xc with retrys := xc.retrys.decTimes xaid } where
  readable := h.readable
  same := by
    rw [decTimes_decision]
    exact h.same
  configured := h.configured
  memory e he := by
    obtain ⟨e', he', rfl⟩ := mem_map.1 he
    have := h.memory e' he'
    unfold countDown
    split
    · exact le_trans (Int.sub_le_self _ one_pos.le) this
    · exact this
  disk := h.disk

/-! ## A pass -/

/-- How an entry goes through the visits of a pass that ends with the error `err` in the state `xc'`:
it stays untouched if the pass stops early, it stays with one retry less, or it leaves. -/
inductive Passed (codec : Codec) (visit : String → Visit) (e : XaCommitErr) (err : Option Err)
    (xc xc' : XaCheck) : Prop
  | missed (h : e ∈ xc'.retrys.entries) (herr : err ≠ none)
  | kept (h : countDown e.xaid e ∈ xc'.retrys.entries) (hpos : 0 < e.times)
  | delivered (hgone : e.xaid ∉ xc'.retrys.entries.map XaCommitErr.xaid)
    (h : Delivered (visit e.xaid) e)
  | timedOut (hgone : e.xaid ∉ xc'.retrys.entries.map XaCommitErr.xaid) (h : e.times ≤ 0)
    (hlog : ∃ before after, xc'.timesOut = xc.timesOut ++ before ++ codec.entry.marshal e ++ after)

/-- What a pass over `todo` leaves as it is, and what becomes of the entries in `todo`. -/
structure PassSpec (codec : Codec) (visit : String → Visit) (todo : List XaCommitErr) (xc : XaCheck)
    (r : Option Err × XaCheck) : Prop where
  frame : ∀ e ∈ xc.retrys.entries, e.xaid ∉ todo.map XaCommitErr.xaid → e ∈ r.2.retrys.entries
  nothingNew : ∀ x ∈ r.2.retrys.entries.map XaCommitErr.xaid,
    x ∈ xc.retrys.entries.map XaCommitErr.xaid
  appends : ∃ text, r.2.timesOut = xc.timesOut ++ text
  saved : ∀ T, Saved codec T xc → Saved codec T r.2
  passed : ∀ e ∈ todo, Passed codec visit e r.1 xc r.2

theorem Passed.earlier {err : Option Err} {xc₀ xc' : XaCheck} (h : Passed codec visit e err xc xc')
    (happ : ∃ text, xc.timesOut = xc₀.timesOut ++ text) : Passed codec visit e err xc₀ xc' := by
  cases h with
  | missed h herr => exact .missed h herr
  | kept h hpos => exact .kept h hpos
  | delivered hgone h => exact .delivered hgone h
  | timedOut hgone h hlog =>
    obtain ⟨text, htext⟩ := happ
    obtain ⟨before, after, hlog⟩ := hlog
    exact .timedOut hgone h ⟨text ++ before, after, by rw [hlog, htext]; simp [String.append_assoc]⟩

/-- A visit followed by the rest of the pass. -/
theorem PassSpec.cons {rest : List XaCommitErr} (xc₁ : XaCheck) {r : Option Err × XaCheck}
    (hframe : ∀ e' ∈ xc.retrys.entries, e'.xaid ≠ e.xaid → e' ∈ xc₁.retrys.entries)
    (hnew : ∀ x ∈ xc₁.retrys.entries.map XaCommitErr.xaid, x ∈ xc.retrys.entries.map XaCommitErr.xaid)
    (happ : ∃ text, xc₁.timesOut = xc.timesOut ++ text) (hsaved : ∀ T, Saved codec T xc → Saved codec T xc₁)
    (hrest : PassSpec codec visit rest xc₁ r) (he : Passed codec visit e r.1 xc r.2) :
    PassSpec codec visit (e :: rest) xc r where
  frame e' he' hne := by
    rw [map_cons, mem_cons, not_or] at hne
    exact hrest.frame e' (hframe e' he' hne.1) hne.2
  nothingNew x hx := hnew x (hrest.nothingNew x hx)
  appends := by
    obtain ⟨text, htext⟩ := happ
    obtain ⟨more, hmore⟩ := hrest.appends
    exact ⟨text ++ more, by rw [hmore, htext, String.append_assoc]⟩
  saved T h := hrest.saved T (hsaved T h)
  passed e' he' := by
    obtain rfl | he' := mem_cons.1 he'
    · exact he
    · exact (hrest.passed e' he').earlier happ

theorem saved_delete_flush (order : Order) (xaid : String) (h : Saved codec T xc) :
    Saved codec T (flushXaCommitErrLog codec order { xc with retrys := xc.retrys.delete xaid }) :=
  .flush order h.configured fun e he => h.memory e (mem_delete.1 he).1

theorem notMem_keys_delete (m : Retrys) (xaid : String) : xaid ∉ (m.delete xaid).entries.map XaCommitErr.xaid := by simp

theorem keys_delete_subset (m : Retrys) (xaid x : String)
    (h : x ∈ (m.delete xaid).entries.map XaCommitErr.xaid) : x ∈ m.entries.map XaCommitErr.xaid := by
  grind [mem_delete]

/-- A pass over distinct entries of the map meets every one of them. -/
theorem xaCommitsRetryMain_spec (visit : String → Visit) (todo : List XaCommitErr) (xc : XaCheck)
    (hnodup : (todo.map XaCommitErr.xaid).Nodup) (hmem : ∀ e ∈ todo, e ∈ xc.retrys.entries) :
    PassSpec codec visit todo xc (xaCommitsRetryMain codec visit todo xc) := by
  induction todo generalizing xc with
  | nil => exact ⟨fun e he _ => he, fun x hx => hx, ⟨"", by simp [xaCommitsRetryMain]⟩,
      fun T h => h, fun e he => nomatch he⟩
  | cons e rest ih =>
    have he : e ∈ xc.retrys.entries := hmem e mem_cons_self
    obtain ⟨hfresh, hrest⟩ := nodup_cons.1 hnodup
    have hne : ∀ e' ∈ rest, e'.xaid ≠ e.xaid := fun e' he' hx =>
      hfresh (mem_map.2 ⟨e', he', hx⟩)
    have hvisit : Visited codec (visit e.xaid) e xc _ := commitRetryBackends_visited _ _ _
    -- the entry is gone from the map that the rest of the pass starts from
    have hleave : ∀ xc₁ : XaCheck, xc₁.retrys = xc.retrys →
        (∃ text, xc₁.timesOut = xc.timesOut ++ text) → (∀ T, Saved codec T xc → Saved codec T xc₁) →
        let xc₂ := flushXaCommitErrLog codec (visit e.xaid).order
          { xc₁ with retrys := xc₁.retrys.delete e.xaid }
        (∀ r, PassSpec codec visit rest xc₂ r → Passed codec visit e r.1 xc r.2) →
        PassSpec codec visit (e :: rest) xc (xaCommitsRetryMain codec visit rest xc₂) := by
      intro xc₁ hretrys happ hsaved xc₂ hpassed
      have hspec := ih xc₂ hrest fun e' he' => mem_delete.2
        ⟨hretrys ▸ hmem e' (mem_cons_of_mem _ he'), hne e' he'⟩
      refine .cons xc₂ (fun e' he' hx => mem_delete.2 ⟨hretrys ▸ he', hx⟩) (fun x hx => ?_)
        happ (fun T h => saved_delete_flush _ _ (hsaved T h)) hspec (hpassed _ hspec)
      rw [← hretrys]
      exact keys_delete_subset _ _ _ hx
    simp only [xaCommitsRetryMain]
    generalize commitRetryBackends codec (visit e.xaid) e xc = result at hvisit
    cases hvisit with
    | failed err =>
      exact ⟨fun e he _ => he, fun x hx => hx, ⟨"", by simp⟩, fun T h => h,
        fun e' he' => .missed (hmem e' he') (by simp)⟩
    | delivered h =>
      exact hleave xc rfl ⟨"", by simp⟩ (fun T h => h) fun r hr =>
        .delivered (fun hx => notMem_keys_delete _ _ (hr.nothingNew _ hx)) h
    | timedOut h =>
      refine hleave { xc with timesOut := xc.timesOut ++ codec.entry.marshal e } rfl ⟨_, rfl⟩
        (fun T hs => hs.timesOut _) fun r hr =>
          .timedOut (fun hx => notMem_keys_delete _ _ (hr.nothingNew _ hx)) h ?_
      obtain ⟨text, htext⟩ := hr.appends
      exact ⟨"", text, by simpa [flushXaCommitErrLog] using htext⟩
    | kept h =>
      have hspec := ih { xc with retrys := xc.retrys.decTimes e.xaid } hrest fun e' he' =>
        mem_decTimes_of_ne (hmem e' (mem_cons_of_mem _ he')) (hne e' he')
      refine .cons _ (fun e' he' hx => mem_decTimes_of_ne he' hx) (fun x hx => ?_) ⟨"", by simp⟩
        (fun T hs => hs.decTimes _) hspec (.kept ?_ h)
      · simpa [Retrys.decTimes, Function.comp_def] using hx
      · exact hspec.frame _ (mem_map_of_mem he) (by simpa using hfresh)

theorem xaCommitsRetry_spec (order : Order) (visit : String → Visit) (xc : XaCheck) :
    PassSpec codec visit (order.arrange xc.retrys.entries) xc (xaCommitsRetry codec order visit xc) :=
  xaCommitsRetryMain_spec visit _ xc (((order.perm _).map _).nodup_iff.2 xc.retrys.nodup)
    fun _ he => (order.perm _).mem_iff.1 he

/-- What becomes of an entry in a pass. -/
theorem xaCommitsRetry_passed (order : Order) (visit : String → Visit) (he : e ∈ xc.retrys.entries) :
    Passed codec visit e (xaCommitsRetry codec order visit xc).1 xc (xaCommitsRetry codec order visit xc).2 :=
  (xaCommitsRetry_spec order visit xc).passed e ((order.perm _).mem_iff.2 he)

/-! ## Loading the file -/

theorem loadLogs_of_nodup (logs : List XaCommitErr) (xc : XaCheck)
    (h : ((logs ++ xc.retrys.entries).map XaCommitErr.xaid).Nodup) :
    ∃ m : Retrys, m.entries = logs.reverse ++ xc.retrys.entries ∧
      loadLogs logs xc = (none, { xc with retrys := m }) := by
  induction logs generalizing xc with
  | nil => exact ⟨xc.retrys, rfl, rfl⟩
  | cons new logs ih =>
    have hperm : (logs ++ new :: xc.retrys.entries).Perm (new :: logs ++ xc.retrys.entries) :=
      perm_middle
    have hnew : new.xaid ∉ xc.retrys.entries.map XaCommitErr.xaid := fun hx =>
      (nodup_cons.1 h).1 (by
        obtain ⟨e, he, hx⟩ := mem_map.1 hx
        exact mem_map.2 ⟨e, mem_append_right _ he, hx⟩)
    obtain ⟨m, hm, hload⟩ := ih { xc with retrys := xc.retrys.insert new hnew }
      ((hperm.map XaCommitErr.xaid).nodup_iff.2 h)
    grind [loadLogs, addXaCommitErrLog, Retrys.insert]

/-- A restart finds the decisions that the earlier process had in memory. -/
theorem restart_spec (times : ℤ) (h : Saved codec T xc) : ∃ m : Retrys, m.entries.Perm (xc.persisted codec) ∧
      loadXaCommitErrLogs codec (newXaCheck times xc) = (none, { newXaCheck times xc with retrys := m }) := by
  have hkeys : ((xc.persisted codec).map XaCommitErr.xaid).Nodup := by
    have := h.same.map Prod.fst
    simp only [map_map] at this
    exact this.nodup_iff.2 xc.retrys.nodup
  unfold loadXaCommitErrLogs
  cases hfile : xc.file with
  | none => grind [XaCheck.persisted, newXaCheck, Retrys.empty]
  | some data =>
    obtain ⟨logs, hlogs⟩ := h.readable data hfile
    have hp : xc.persisted codec = logs := by simp [XaCheck.persisted, hfile, hlogs]
    obtain ⟨m, hm, hload⟩ := loadLogs_of_nodup logs (newXaCheck times xc)
      (by simpa [newXaCheck, Retrys.empty, hp] using hkeys)
    grind [newXaCheck, Retrys.empty]

/-! ## Histories -/

/-- The configured times of every process in the history are at most `T`. -/
def ConfiguredUpTo (T : ℤ) (ops : List Op) : Prop := ∀ times, Op.restart times ∈ ops → times ≤ T

theorem step_saved {op : Op} (hop : ConfiguredUpTo T [op]) (h : Saved codec T xc) :
    Saved codec T (step codec op xc).2 := by
  cases op with
  | write order time xid state =>
    simp only [step, writeXaCommitErrLog, addXaCommitErrLog]
    split
    case h_1 heq =>
      split at heq
      · cases heq
        exact h
      · cases heq
    case h_2 heq =>
      split at heq
      · cases heq
      · grind [Saved.flush, Saved.configured, Saved.memory, Retrys.insert]
  | retry order visit => exact (xaCommitsRetry_spec order visit xc).saved T h
  | restart times =>
    have hT : times ≤ T := hop times mem_cons_self
    obtain ⟨m, hm, hload⟩ := restart_spec times h
    have hbound : ∀ e ∈ m.entries, e.times ≤ T := fun e he => h.disk e (hm.mem_iff.1 he)
    simp only [step, hload]
    exact ⟨h.readable, (hm.map _).symm, hT, hbound, h.disk⟩

theorem run_saved (hops : ConfiguredUpTo T ops) (h : Saved codec T xc) : Saved codec T (run codec ops xc) := by
  induction ops generalizing xc with
  | nil => exact h
  | cons op ops ih =>
    refine ih (fun t ht => hops t (mem_cons_of_mem _ ht)) (step_saved (fun t ht => ?_) h)
    exact hops t (mem_singleton.1 ht ▸ mem_cons_self)

theorem start_saved {times : ℤ} (hT : times ≤ T) : Saved codec T (start times) where
  readable _ h := nomatch h
  same := .nil
  configured := hT
  memory _ h := nomatch h
  disk _ h := nomatch h

theorem exists_configuredUpTo (ops : List Op) (times : ℤ) : ∃ T, times ≤ T ∧ ConfiguredUpTo T ops := by
  induction ops with
  | nil => exact ⟨times, le_rfl, fun _ h => nomatch h⟩
  | cons op ops ih =>
    obtain ⟨T, hT, hops⟩ := ih
    cases op with
    | restart t =>
      refine ⟨max T t, le_max_of_le_left hT, fun t' ht' => ?_⟩
      obtain heq | ht' := mem_cons.1 ht'
      · cases heq
        exact le_max_right _ _
      · exact le_max_of_le_left (hops t' ht')
    | write | retry =>
      refine ⟨T, hT, fun t' ht' => hops t' ?_⟩
      simpa using ht'

/-- Every state of a history is saved. -/
theorem run_start_saved (ops : List Op) (times : ℤ) : ∃ T, Saved codec T (run codec ops (start times)) := by
  obtain ⟨T, hT, hops⟩ := exists_configuredUpTo ops times
  exact ⟨T, run_saved hops (start_saved hT)⟩

/-- A logged decision leaves the entries of the map alone. -/
theorem write_keeps (order : Order) (time xid : String) (state : Decision) (he : e ∈ xc.retrys.entries) :
    e ∈ (writeXaCommitErrLog codec order time xid state xc).2.retrys.entries := by
  simp only [writeXaCommitErrLog, addXaCommitErrLog]
  grind [Retrys.insert, flushXaCommitErrLog]

/-- Whether the operation is a retry pass. -/
def Op.isPass : Op → Bool
  | .retry .. => true
  | _ => false

/-- Whether the operation is a restart. -/
def Op.isRestart : Op → Bool
  | .restart _ => true
  | _ => false

/-- The number of passes in a period. -/
def passes (ops : List Op) : ℕ := ops.countP Op.isPass

/-- Every pass of the period returns without error. -/
def PassesReturn (codec : Codec) : List Op → XaCheck → Prop
  | [], _ => True
  | op :: ops, xc =>
    (op.isPass = true → (step codec op xc).1 = none) ∧ PassesReturn codec ops (step codec op xc).2

/-- The entries of the xid have left the map at some point of the period, after at most `n` passes. -/
def LeavesWithin (codec : Codec) (n : ℕ) (xaid : String) (period : List Op) (xc : XaCheck) : Prop :=
  ∃ pre, pre <+: period ∧ passes pre ≤ n ∧
    xaid ∉ (run codec pre xc).retrys.entries.map XaCommitErr.xaid

theorem LeavesWithin.cons {n : ℕ} {op : Op} (h : LeavesWithin codec n xaid ops (step codec op xc).2) :
    LeavesWithin codec (n + passes [op]) xaid (op :: ops) xc := by
  obtain ⟨pre, hpre, hn, hgone⟩ := h
  refine ⟨op :: pre, (prefix_cons_inj op).2 hpre, ?_, hgone⟩
  simp only [passes, countP_cons, countP_nil] at hn ⊢
  omega

theorem LeavesWithin.mono {n k : ℕ} (hnk : n ≤ k)
    (h : LeavesWithin codec n xaid ops xc) : LeavesWithin codec k xaid ops xc := by grind [LeavesWithin]

/-- Without restarts and with error-free passes only, an entry leaves after as many passes as it has
retries left, and one more. -/
theorem leavesWithin_times {period : List Op} (hrestart : ∀ op ∈ period, op.isRestart = false)
    (hreturn : PassesReturn codec period xc) (hpasses : e.times.toNat + 1 ≤ passes period)
    (he : e ∈ xc.retrys.entries) : LeavesWithin codec (e.times.toNat + 1) e.xaid period xc := by
  induction period generalizing xc e with
  | nil => simp [passes] at hpasses
  | cons op ops ih =>
    have hrest := fun op' h => hrestart op' (mem_cons_of_mem _ h)
    cases op with
    | restart times => exact absurd (hrestart _ mem_cons_self) (by simp [Op.isRestart])
    | write order time xid state =>
      have hkeep : e ∈ (writeXaCommitErrLog codec order time xid state xc).2.retrys.entries :=
        write_keeps order time xid state he
      refine (ih hrest hreturn.2 ?_ hkeep).cons
      simpa [passes, Op.isPass] using hpasses
    | retry order visit =>
      have hnone : (xaCommitsRetry codec order visit xc).1 = none := hreturn.1 rfl
      have hleft : e.xaid ∉ (xaCommitsRetry codec order visit xc).2.retrys.entries.map
          XaCommitErr.xaid → LeavesWithin codec (e.times.toNat + 1) e.xaid (.retry order visit :: ops) xc :=
        fun hgone => ⟨[.retry order visit], ⟨ops, rfl⟩, by simp [passes, Op.isPass], hgone⟩
      have hpassed : Passed codec visit e _ xc _ := xaCommitsRetry_passed order visit he
      cases hpassed with
      | missed _ herr => exact absurd hnone herr
      | delivered hgone _ => exact hleft hgone
      | timedOut hgone _ _ => exact hleft hgone
      | kept hmem hpos =>
        have htimes : (countDown e.xaid e).times.toNat + 1 = e.times.toNat := by
          rw [countDown, if_pos rfl]
          simp only
          omega
        have hone : passes [Op.retry order visit] = 1 := rfl
        grind [LeavesWithin.cons, passes, countDown, step, PassesReturn]

/-- The entry `e` leaves the map from `xc` to `xc'` because the pass delivered its decision, or
because its retries were used up, and then the file of timed-out entries has got it. -/
def LeavesByPass (codec : Codec) (op : Op) (e : XaCommitErr) (xc xc' : XaCheck) : Prop :=
  ∃ order visit, op = .retry order visit ∧
    (Delivered (visit e.xaid) e ∨
      e.times ≤ 0 ∧ ∃ before after,
        xc'.timesOut = xc.timesOut ++ before ++ codec.entry.marshal e ++ after)

theorem step_leaves (h : Saved codec T xc) (op : Op)
    (he : e ∈ xc.retrys.entries) (hgone : e.decision ∉ decisions (step codec op xc).2.retrys.entries) :
    LeavesByPass codec op e xc (step codec op xc).2 := by
  cases op with
  | write order time xid state => grind [mem_decisions, write_keeps, step]
  | restart times =>
    obtain ⟨m, hm, hload⟩ := restart_spec times h
    simp only [step, hload] at hgone
    refine absurd ?_ hgone
    obtain ⟨e', he', hd⟩ := mem_map.1 (h.same.mem_iff.2 (mem_map_of_mem he))
    exact mem_decisions.2 ⟨e', hm.mem_iff.2 he', hd⟩
  | retry order visit =>
    refine ⟨order, visit, rfl, ?_⟩
    have hpassed : Passed codec visit e _ xc _ := xaCommitsRetry_passed order visit he
    cases hpassed with
    | missed hmem _ => exact absurd (mem_decisions.2 ⟨e, hmem, rfl⟩) hgone
    | kept hmem _ => exact absurd (mem_decisions.2 ⟨_, hmem, countDown_decision _ _⟩) hgone
    | delivered _ h => exact .inl h
    | timedOut _ h hlog => exact .inr ⟨h, hlog⟩

theorem Saved.decisions_eq (h : Saved codec T xc) : decisions (xc.persisted codec) = decisions xc.retrys.entries :=
  toFinset_eq_of_perm _ _ h.same

/-- In every history an entry leaves the map only when its decision is delivered or its retries are
used up, it leaves within the configured number of passes plus one, and the file has the decisions of
the map. -/
theorem retryLog_history (codec : Codec) (times : ℤ) (ops : List Op) :
    let xc := run codec ops (start times)
    (∀ op e, e ∈ xc.retrys.entries → e.decision ∉ decisions (step codec op xc).2.retrys.entries →
      LeavesByPass codec op e xc (step codec op xc).2) ∧
    (∀ T, times ≤ T → ConfiguredUpTo T ops → ∀ period, (∀ op ∈ period, op.isRestart = false) →
      PassesReturn codec period xc → T.toNat + 1 ≤ passes period →
        ∀ e ∈ xc.retrys.entries, LeavesWithin codec (T.toNat + 1) e.xaid period xc) ∧
    decisions (xc.persisted codec) = decisions xc.retrys.entries ∧
    ∀ times', let loaded := loadXaCommitErrLogs codec (newXaCheck times' xc)
      loaded.1 = none ∧ decisions loaded.2.retrys.entries = decisions xc.retrys.entries := by
  intro xc
  obtain ⟨T₀, hsaved⟩ : ∃ T, Saved codec T xc := run_start_saved ops times
  refine ⟨fun op e => step_leaves hsaved op, ?_, hsaved.decisions_eq, ?_⟩
  · intro T hT hops period hrestart hreturn hpasses e he
    have hle : e.times.toNat ≤ T.toNat :=
      Int.toNat_le_toNat ((run_saved hops (start_saved hT)).memory e he)
    exact (leavesWithin_times hrestart hreturn (by omega) he).mono (by omega)
  · intro times'
    obtain ⟨m, hm, hload⟩ := restart_spec times' hsaved
    simp only [hload, true_and]
    rw [← hsaved.decisions_eq]
    exact List.toFinset_eq_of_perm _ _ (hm.map _)

/-! ## An encoder -/

/-- Texts one after the other: every character after a dot, every text before a semicolon. -/
def putTexts : List String → List Char
  | [] => []
  | text :: texts => text.toList.flatMap (fun c => ['.', c]) ++ ';' :: putTexts texts

/-- The texts again; `acc` has the characters of the first one so far. -/
def getTexts : List Char → List Char → List String
  | acc, '.' :: c :: cs => getTexts (acc ++ [c]) cs
  | acc, ';' :: cs => String.ofList acc :: getTexts [] cs
  | _, _ => []

theorem getTexts_flatMap (acc cs rest : List Char) :
    getTexts acc (cs.flatMap (fun c => ['.', c]) ++ ';' :: rest) = String.ofList (acc ++ cs) :: getTexts [] rest := by
  induction cs generalizing acc with
  | nil => rw [append_nil]; rfl
  | cons c cs ih => rw [append_cons acc]; exact ih (acc ++ [c])

theorem getTexts_putTexts (texts : List String) : getTexts [] (putTexts texts) = texts := by
  induction texts with
  | nil => rfl
  | cons text texts ih => rw [putTexts, getTexts_flatMap, ih, nil_append, String.ofList_toList]

/-- A number as so many strokes. -/
def strokes (n : ℕ) : String := String.ofList (replicate n 'x')

/-- The fields of an entry. -/
def XaCommitErr.texts (e : XaCommitErr) : List String :=
  [e.time, e.xaid, stateText e.state, strokes e.times.toNat, strokes (-e.times).toNat]

/-- The entries with these fields. -/
def getEntries : List String → List XaCommitErr
  | time :: xaid :: state :: pos :: neg :: texts =>
    ⟨time, xaid, if state = "commit" then .commit else .rollback, pos.length - neg.length⟩ :: getEntries texts
  | _ => []

theorem getEntries_flatMap (logs : List XaCommitErr) : getEntries (logs.flatMap XaCommitErr.texts) = logs := by
  induction logs with
  | nil => rfl
  | cons e logs ih =>
    obtain ⟨time, xaid, state, times⟩ := e
    have htimes : ((strokes times.toNat).length : ℤ) - (strokes (-times).toNat).length = times := by
      simp only [strokes, String.length_ofList, length_replicate, Int.toNat_sub_toNat_neg]
    rw [flatMap_cons, XaCommitErr.texts, cons_append, cons_append, cons_append, cons_append, cons_append,
      nil_append, getEntries, ih, htimes]
    cases state <;> rfl

/-- A codec with such texts. -/
def textCodec : Codec where
  entry := {
    marshal e := String.ofList (putTexts e.texts)
    unmarshal data := match getEntries (getTexts [] data.toList) with
      | [e] => .ok e
      | _ => .error (.text "unexpected end of JSON input")
    unmarshal_marshal e := by
      have hentry := getEntries_flatMap [e]
      rw [flatMap_cons, flatMap_nil, append_nil] at hentry
      simp only [String.toList_ofList, getTexts_putTexts, hentry] }
  logs := {
    marshal logs := String.ofList (putTexts (logs.flatMap XaCommitErr.texts))
    unmarshal data := .ok (getEntries (getTexts [] data.toList))
    unmarshal_marshal logs := by
      rw [String.toList_ofList, getTexts_putTexts, getEntries_flatMap] }

/-- A backend lists the xid `x` and refuses the command for it. -/
def refusing : Visit where
  backends := ["b"]
  create := none
  recover _ := .ok ⟨4, [["1", "1", "0", "x"]], 1, rfl, by decide⟩
  reply _ _ _ := some (.text "refused")
  order := ⟨id, fun _ => .refl _⟩

/-- A decision to commit, a pass in which the backend refuses it, and a restart. -/
def refusedHistory : List Op :=
  [.write ⟨id, fun _ => .refl _⟩ "now" "x" .commit, .retry ⟨id, fun _ => .refl _⟩ fun _ => refusing, .restart 2]

/-- After this history the decision is in the map with its old number of retries, since a pass that delivers
nothing does not write the file; it leaves within three passes. -/
theorem retryLog_history_refused :
    (run textCodec refusedHistory (start 2)).retrys.entries = [⟨"now", "x", .commit, 2⟩] ∧
      ∀ period, (∀ op ∈ period, op.isRestart = false) →
        PassesReturn textCodec period (run textCodec refusedHistory (start 2)) → 3 ≤ passes period →
          LeavesWithin textCodec 3 "x" period (run textCodec refusedHistory (start 2)) := by
  have hentries : (run textCodec refusedHistory (start 2)).retrys.entries = [⟨"now", "x", .commit, 2⟩] := by
    decide +kernel
  refine ⟨hentries, fun period hrestart hreturn hpasses => ?_⟩
  refine (retryLog_history textCodec 2 refusedHistory).2.1 2 le_rfl ?_ period hrestart hreturn hpasses
    ⟨"now", "x", .commit, 2⟩ (hentries ▸ List.mem_singleton.2 rfl)
  simp [ConfiguredUpTo, refusedHistory]

end Radon.RetryLog
