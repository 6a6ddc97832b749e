import Radon.System.Agreement

/-!
# Reads are not torn by a commit

A read in two-phase mode holds the read side of the commit lock for its whole fan-out, and a
transaction holds the write side while it sends its `XA COMMIT` commands. So a read sees a write
transaction on all backends or on none, as long as the commit is not left to the retry loop.
-/

namespace Radon

open Concurrency List

variable {w w' : World} {t : TxnId} {x : Xid} {read : Call} {log : List Event} {e : Event}

/-- No command of the read call comes after an `XA COMMIT` of the transaction. -/
def ReadsBefore (x : Xid) (read : Call) (log : List Event) : Prop :=
  ∀ later earlier c q acked applied, log = later ++ .query (some read) c q acked applied :: earlier →
    ∀ b, ¬ Sent (.xaCommit x) b earlier

/-- No `XA COMMIT` of the transaction comes after a command of the read call. -/
def ReadsAfter (x : Xid) (read : Call) (log : List Event) : Prop :=
  ∀ later earlier c q acked applied, log = later ++ .query (some read) c q acked applied :: earlier →
    ∀ b, ¬ Sent (.xaCommit x) b later

/-- The event is a command of the read call. -/
def Event.Reads (read : Call) (e : Event) : Prop := ∃ c q acked applied, e = .query (some read) c q acked applied

theorem ReadsBefore.cons (h : ReadsBefore x read log)
    (he : e.Reads read → ∀ b, ¬ Sent (.xaCommit x) b log) : ReadsBefore x read (e :: log) := by
  intro later earlier c q acked applied heq
  cases later with
  | nil => grind [Event.Reads]
  | cons e' later => exact h later earlier c q acked applied (List.cons.inj heq).2

theorem ReadsAfter.cons (h : ReadsAfter x read log)
    (he : (∃ b, e.isQuery (.xaCommit x) b = true) → ∀ e' ∈ log, ¬ e'.Reads read) : ReadsAfter x read (e :: log) := by
  intro later earlier c q acked applied heq b hsent
  cases later with
  | nil =>
    obtain ⟨_, _, _, _, _, hmem⟩ := hsent
    cases hmem
  | cons e' later =>
    obtain ⟨rfl, rfl⟩ := List.cons.inj heq
    rw [sent_iff, any_cons, Bool.or_eq_true] at hsent
    rcases hsent with hsent | hsent
    · refine he ⟨b, hsent⟩ _ ?_ ⟨c, q, acked, applied, rfl⟩
      exact mem_append_right _ mem_cons_self
    · exact h later earlier c q acked applied rfl b (sent_iff.mpr hsent)

/-- What the commit lock ensures in every reachable world. A commit that has been left to the retry loop
is not covered. -/
structure Isolated (w : World) : Prop where
  readers : ∀ read ∈ w.commitLock.readers, read.seq < w.calls
  recorded : ∀ e ∈ w.log, ∀ read, e.Reads read → read.seq < w.calls
  reading : ∀ read ∈ w.commitLock.readers, ∀ x, Event.logged x .commit ∉ w.log → ReadsAfter x read w.log
  writing : ∀ t, w.commitLock.writer = some t → ∀ x, x.id = t → ∀ read, ReadsBefore x read w.log
  apart : ∀ x read, Event.logged x .commit ∉ w.log → ReadsBefore x read w.log ∨ ReadsAfter x read w.log

theorem Isolated.of_same (h : Isolated w) (hlock : w'.commitLock = w.commitLock) (hcalls : w'.calls = w.calls)
    (hlog : w'.log = w.log) : Isolated w' := by
  constructor
  · rw [hlock, hcalls]
    exact h.readers
  · rw [hlog, hcalls]
    exact h.recorded
  · rw [hlock, hlog]
    exact h.reading
  · rw [hlock, hlog]
    exact h.writing
  · rw [hlog]
    exact h.apart

/-- A command of a read call is sent by a reader, and an `XA COMMIT` by the writer. -/
theorem Isolated.emit (h : Isolated w) (hlock : w.commitLock.writer ≠ none → w.commitLock.readers = [])
    (hread : ∀ read, e.Reads read → read ∈ w.commitLock.readers)
    (hcommit : ∀ x b, e.isQuery (.xaCommit x) b = true → Event.logged x .commit ∉ w.log →
      w.commitLock.writer = some x.id) : Isolated (w.emit e) := by
  have hwriter : ∀ {x b read}, e.isQuery (.xaCommit x) b = true → Event.logged x .commit ∉ w.log →
      read ∉ w.commitLock.readers := by
    intro x b read he hx hmem
    rw [hlock (by rw [hcommit x b he hx]; exact nofun)] at hmem
    cases hmem
  have hlogged : ∀ {x}, Event.logged x .commit ∉ (w.emit e).log → Event.logged x .commit ∉ w.log :=
    fun hx hmem => hx (mem_cons_of_mem _ hmem)
  constructor
  · exact h.readers
  · intro e' he' read hr
    rcases mem_cons.mp he' with rfl | he'
    · exact h.readers read (hread read hr)
    · exact h.recorded e' he' read hr
  · grind [ReadsAfter.cons, reading, World.emit]
  · grind [ReadsBefore.cons, writing, World.emit]
  · grind [ReadsAfter.cons, reading, ReadsBefore.cons, writing, apart, World.emit]

/-- Events that are no commands change nothing. -/
theorem Isolated.silent (es : List Event) (h : Isolated w)
    (hlock : w.commitLock.writer ≠ none → w.commitLock.readers = [])
    (hes : ∀ e ∈ es, ∀ call c q acked applied, e ≠ .query call c q acked applied) :
    Isolated { w with log := es ++ w.log } := by
  induction es with
  | nil => exact h
  | cons e es ih =>
    have hne := hes e mem_cons_self
    refine (ih fun e' he' => hes e' (mem_cons_of_mem _ he')).emit (e := e) hlock ?_ ?_
    · grind [Event.Reads]
    · simp [Event.isQuery]

/-- A decision to commit does not follow any command of the transaction's xid. -/
theorem Agreed.readsBefore (h : Agreed w) (hstage : (w.txns t).stage = .opened) (hid : x.id = t)
    (read : Call) : ReadsBefore x read w.log := by
  intro later earlier c q acked applied heq b hsent
  refine h.undecided t x .commit hstage hid (Sent.decides (d := .commit) (b := b) ?_)
  grind [Sent, Decision.query]

theorem isolated_step {g : Goroutine} {o : Op} {choice : Choice} {r : o.Res} (hw : Wf w) (hallow : Allowed g o w)
    (hrun : exec o choice w = some (r, w')) (hagreed : Agreed w) (h : Isolated w) : Isolated w' := by
  by_cases hlocks : o.Locks
  · cases exec_outcome hrun with
    | same => exact h
    | commitLock t d =>
      refine ⟨nofun, h.recorded, nofun, fun t' ht' x hid read => ?_, h.apart⟩
      cases ht'
      exact hagreed.readsBefore hallow.2.1 hid read
    | commitUnlock t => exact ⟨h.readers, h.recorded, h.reading, nofun, h.apart⟩
    | commitRLock k hfree =>
      refine ⟨fun read hr => ?_, fun e he read hr => ?_, fun read hr x hx => ?_, fun t ht => ?_, h.apart⟩
      · rcases mem_cons.mp hr with rfl | hr
        · exact Nat.lt_succ_self _
        · exact Nat.lt_succ_of_lt (h.readers read hr)
      · exact Nat.lt_succ_of_lt (h.recorded e he read hr)
      · rcases mem_cons.mp hr with rfl | hr
        · -- the token of the new call is in no event yet
          intro later earlier c q acked applied heq
          have hmem : Event.query (some ⟨k, w.calls⟩) c q acked applied ∈ w.log := by
            rw [heq]
            exact mem_append_right _ mem_cons_self
          exact absurd (h.recorded _ hmem _ ⟨c, q, acked, applied, rfl⟩) (Nat.lt_irrefl _)
        · exact h.reading read hr x hx
      · cases hfree.symm.trans ht
    | commitRUnlock call =>
      exact ⟨fun read hr => h.readers read (mem_of_mem_erase hr), h.recorded,
        fun read hr => h.reading read (mem_of_mem_erase hr), h.writing, h.apart⟩
    | _ => exact hlocks.elim
  · obtain ⟨hlock, hcalls⟩ := lock_step hlocks hrun
    cases o with
    | query call c q =>
      obtain ⟨s', acked, applied, _, rfl, _⟩ := World.runQuery_spec hrun
      obtain ⟨⟨t, _, _, _, hq⟩, hcall⟩ := hallow
      refine (h.emit (e := .query call c q acked applied) hw.lock ?_ ?_).of_same rfl rfl rfl
      · grind [Event.Reads]
      · grind [TxnWf.xid_id, Consistent.txn, Wf.toConsistent, Event.isQuery, QueryAllowed]
    | _ =>
      obtain ⟨es, hlog, hes⟩ := emits_step hrun
      refine (h.silent es hw.lock ?_).of_same hlock hcalls hlog
      rintro e he call c q acked applied rfl
      simpa [Op.Emits] using hes _ he

theorem Boot.isolated (h : Boot w) : Isolated w := by
  have hlog : ∀ {later earlier : List Event} {e : Event}, w.log ≠ later ++ e :: earlier := by
    intro later earlier e heq
    rw [h.log] at heq
    cases later <;> cases heq
  constructor
  · rw [h.lock]
    exact nofun
  · rw [h.log]
    exact nofun
  · rw [h.lock]
    exact nofun
  · rw [h.lock]
    exact nofun
  · grind [ReadsAfter]

/-- The fan-out of a read call lies entirely before the first `XA COMMIT` of a transaction or entirely
after the last one. A commit whose commands were all answered at the first attempt never enters the retry
log. -/
theorem reads_not_torn {tasks : ℕ → Task} {n : ℕ} {w₀ : World} {p : Go (List Unit)} (hboot : Boot w₀)
    (hrun : Prog.Steps exec (process tasks n) w₀ p w) (x : Xid) (read : Call)
    (hfirst : Event.logged x .commit ∉ w.log) :
    ReadsBefore x read w.log ∨ ReadsAfter x read w.log := by
  have h := process_invariant (I := fun w => Agreed w ∧ Isolated w)
    (fun g o c w r w' hw hallow hrun h => ⟨agreed_step hw hallow hrun h.1, isolated_step hw hallow hrun h.1 h.2⟩)
    hboot ⟨hboot.agreed, hboot.isolated⟩ hrun
  exact h.2.apart x read hfirst

/-- One client inserts rows on two backends, another one reads both. -/
def insertSelectTasks : ℕ → Task
  | 0 => .client [.dml false (.ok (.write "insert" [⟨"insert a", "a"⟩, ⟨"insert b", "b"⟩]))]
  | _ => .client [.dml false (.ok (.select (.merge .reqNormal "select" [⟨"select a", "a"⟩, ⟨"select b", "b"⟩])))]

/-- The commit of the first client comes before the read of the second one. -/
theorem reads_not_torn_insert : ∃ p w, Prog.Steps exec (process insertSelectTasks 2) emptyWorld p w ∧
    (∀ b ∈ ["a", "b"], Sent (.xaCommit firstXid) b w.log) ∧
    (∃ e ∈ w.log, Event.Reads ⟨[.task 1], 0⟩ e) ∧
    (ReadsBefore firstXid ⟨[.task 1], 0⟩ w.log ∨ ReadsAfter firstXid ⟨[.task 1], 0⟩ w.log) := by
  obtain ⟨p, w, hrun, hcheck⟩ := Prog.exists_steps exec (turns 163 [])
    (p := process insertSelectTasks 2) (s := emptyWorld) (fun _ w =>
      (∀ b ∈ ["a", "b"], Sent (.xaCommit firstXid) b w.log) ∧ Event.logged firstXid .commit ∉ w.log ∧
        Event.query (some ⟨[.task 1], 0⟩) ⟨⟨"a", false⟩, 1⟩ (.sql "select a") true true ∈ w.log) (by decide +kernel)
  obtain ⟨hsent, hfirst, hread⟩ := of_decide_eq_true hcheck
  exact ⟨p, w, hrun, hsent, ⟨_, hread, ⟨_, _, _, _, rfl⟩⟩,
    reads_not_torn boot_emptyWorld hrun firstXid ⟨[.task 1], 0⟩ hfirst⟩

end Radon
