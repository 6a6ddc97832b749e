import Mathlib.Data.List.AList
import Mathlib.Logic.ExistsUnique
import Radon.Concurrency.Run

/-!
# The shift manager

Goroutines start shifts, wait for them and take them off the list of the manager, each under the mutex of the
manager. Every call is followed from its invocation to its return, one step at a time and in any interleaving.
What the mutex protects is read and written in one step. The goroutine that `WaitInstanceFinishThread` starts
goes on under the number of its call, and a shift goes by the number of the call that starts it.

`WaitInstanceFinish` returns without releasing the mutex when its key is not there. `StartShiftInstance` starts
a shift before it knows whether there is room for it. A waiter removes what is under its key at the end; this
is the shift it has waited for, since the end of a shift is received by one waiter only.
-/

namespace Radon.ShiftManager

open Concurrency List Function Option

/-- `ShiftType`. -/
inductive ShiftType
  | none
  | reshard
  | rebalance
  deriving DecidableEq

/-- `ShiftStatus`. -/
inductive ShiftStatus
  | none
  | migrating
  | success
  | fail
  deriving DecidableEq

/-- `shiftInstancesAlived`. -/
structure Alived where
  shift : ℕ
  status : ShiftStatus
  shiftType : ShiftType
  deriving DecidableEq

/-- `shiftInstancesFinished`. -/
structure Finished where
  status : ShiftStatus
  shiftType : ShiftType
  deriving DecidableEq

/-- What a call does under the mutex. -/
inductive Op
  | startShiftInstance (key : String) (typ : ShiftType)
  | waitInstanceFinishThread (key : String)
  | waitInstanceFinish (key : String)
  | updateFinishedInstance (key : String) (status : ShiftStatus) (typ : ShiftType)
  | getInstancesNums
  deriving DecidableEq

/-- `updateFinishedInstance` is only called by a waiter. -/
def Op.exported : Op → Bool
  | .updateFinishedInstance _ _ _ => false
  | _ => true

/-- What a call does when it has released the mutex: it waits for a shift, or it returns. -/
inductive After
  | waitFinish (key : String) (inst : Alived)
  | returned (failed : Bool)
  deriving DecidableEq

/-- How far a call has come: it is at `Lock`, it has the mutex, it is at `Unlock`, or behind it. -/
inductive Call
  | idle
  | lock (op : Op)
  | body (op : Op)
  | unlock (next : After)
  | after (a : After)
  deriving DecidableEq

/-- The call is between `Lock` and `Unlock`. -/
def Call.holds : Call → Bool
  | .body _ | .unlock _ => true
  | _ => false

/-- The call is at its end, as one that has started a shift. -/
def Call.Ends (c : Call) : Prop := ∃ failed, c = .unlock (.returned failed) ∨ c = .after (.returned failed)

/-- The key and the shift that a call waits for. -/
def Call.waitsFor : Call → Option (String × Alived)
  | .unlock (.waitFinish key inst) | .after (.waitFinish key inst) => some (key, inst)
  | _ => none

/-- The key that a call takes off the list. -/
def Call.removes : Call → Option String
  | .lock (.updateFinishedInstance key _ _) | .body (.updateFinishedInstance key _ _) => some key
  | _ => none

/-- The manager with the calls, the shifts that are running, and those that have ended and whose end no waiter
has received. -/
structure Manager where
  mu : Option ℕ
  instancesAlived : AList fun _ : String => Alived
  instancesFinished : AList fun _ : String => Finished
  calls : ℕ → Call
  running : ℕ → Bool
  ended : ℕ → Bool

/-- `maxShiftInstancesAlived`. -/
def maxShiftInstancesAlived : ℕ := 10

namespace Manager

/-- The number of the shifts on the list. -/
def alivedNums (s : Manager) : ℕ := s.instancesAlived.entries.length

/-- The call goes on with its next step. -/
def goto (s : Manager) (i : ℕ) (c : Call) : Manager := { s with calls := Function.update s.calls i c }

/-- `StartShiftInstance` and `addAnAlivedInstance`; `ok` says whether `Start` succeeds. -/
def startShiftInstance (s : Manager) (i : ℕ) (key : String) (typ : ShiftType) (ok : Bool) : Manager :=
  if s.instancesAlived.lookup key ≠ none then s.goto i (.unlock (.returned true))
  else if typ = .none then s.goto i (.unlock (.returned true))
  else if ok = false then s.goto i (.unlock (.returned true))
  else
    let s := { s with running := Function.update s.running i true }
    if s.alivedNums < maxShiftInstancesAlived then
      { s with instancesAlived := s.instancesAlived.insert key ⟨i, .migrating, typ⟩ }.goto i
        (.unlock (.returned false))
    else s.goto i (.unlock (.returned true))

/-- What a call does between `Lock` and `Unlock`; `ok` is what `Start` answers. -/
def body (s : Manager) (i : ℕ) (ok : Bool) : Op → Manager
  | .startShiftInstance key typ => s.startShiftInstance i key typ ok
  | .waitInstanceFinishThread key =>
    match s.instancesAlived.lookup key with
    | none => s.goto i (.unlock (.returned true))
    | some inst => s.goto i (.unlock (.waitFinish key inst))
  | .waitInstanceFinish key =>
    match s.instancesAlived.lookup key with
    | none => s.goto i (.after (.returned true))
    | some inst => s.goto i (.unlock (.waitFinish key inst))
  | .updateFinishedInstance key status typ =>
    { s with
      instancesFinished := s.instancesFinished.insert key ⟨status, typ⟩
      instancesAlived := s.instancesAlived.erase key }.goto i (.unlock (.returned (decide (status = ShiftStatus.fail))))
  | .getInstancesNums => s.goto i (.unlock (.returned false))

/-- An action: a call begins, a call takes its next step with the answer of the shift, a shift ends. -/
inductive Action
  | invoke (n : ℕ) (op : Op)
  | step (i : ℕ) (ok : Bool)
  | finish (i : ℕ)

/-- The next state. `Lock` waits for the mutex and `WaitFinish` for the end of the shift, which is sent once; a
second waiter stays, or panics in `close`. The operations on status, type and stop signals change nothing here
and do not use the mutex. -/
def act (s : Manager) : Action → Option Manager
  | .invoke n op => if s.calls n = .idle ∧ op.exported = true then some (s.goto n (.lock op)) else none
  | .step i ok =>
    match s.calls i with
    | .lock op => if s.mu = none then some ({ s with mu := some i }.goto i (.body op)) else none
    | .body op => some (s.body i ok op)
    | .unlock next => some ({ s with mu := none }.goto i (.after next))
    | .after (.waitFinish key inst) =>
      if s.ended inst.shift then
        some ({ s with ended := Function.update s.ended inst.shift false }.goto i
          (.lock (.updateFinishedInstance key (if ok then .success else .fail) inst.shiftType)))
      else none
    | _ => none
  | .finish i =>
    if s.running i then
      some { s with
        running := Function.update s.running i false
        ended := Function.update s.ended i true }
    else none

/-- A new manager. -/
def init : Manager := ⟨none, ∅, ∅, fun _ => .idle, fun _ => false, fun _ => false⟩

/-! ## The mutex -/

/-- The mutex is free, or the call that has it can release it without the help of others. -/
def Released (s : Manager) : Prop :=
  ∀ i, s.mu = some i → ∃ as t, (∀ a ∈ as, ∃ ok, a = .step i ok) ∧ runSteps act s as = some t ∧ t.mu = none

/-- `WaitInstanceFinish` takes the mutex and its key is not there. -/
def WaitsForMissing (s : Manager) : Action → Prop
  | .step i _ => ∃ key, s.calls i = .lock (.waitInstanceFinish key) ∧ s.instancesAlived.lookup key = none
  | _ => False

/-- The call has the mutex and will come to `Unlock`. -/
def CanRelease (s : Manager) (i : ℕ) : Prop :=
  (∃ next, s.calls i = .unlock next) ∨
    ∃ op, s.calls i = .body op ∧ ∀ key, op = .waitInstanceFinish key → s.instancesAlived.lookup key ≠ none

/-- The mutex belongs to the call that is between `Lock` and `Unlock`; a call that returns may keep it. -/
structure Exclusive (s : Manager) : Prop where
  held : ∀ i, (s.calls i).holds = true → s.mu = some i
  holder : ∀ i, s.mu = some i → (s.calls i).holds = true ∨ ∃ failed, s.calls i = .after (.returned failed)

@[simp] theorem goto_self (s : Manager) (i : ℕ) (c : Call) : (s.goto i c).calls i = c :=
  update_self ..

variable {i : ℕ} {s t : Manager} {a : Action} {c : Call} {ok : Bool} {op : Op}

theorem goto_of_ne (s : Manager) {j : ℕ} (c : Call) (h : j ≠ i) : (s.goto i c).calls j = s.calls j :=
  update_of_ne h ..

/-- What a call can do under the mutex. -/
inductive BodyOutcome (s : Manager) (i : ℕ) (ok : Bool) : Op → Manager → Prop
  | refused {key : String} {typ : ShiftType}
      (h : s.instancesAlived.lookup key ≠ none ∨ typ = .none ∨ ok = false) :
      BodyOutcome s i ok (.startShiftInstance key typ) (s.goto i (.unlock (.returned true)))
  | started {key : String} {typ : ShiftType} (hkey : s.instancesAlived.lookup key = none)
      (hroom : s.alivedNums < maxShiftInstancesAlived) :
      BodyOutcome s i ok (.startShiftInstance key typ)
        ({ s with
            running := Function.update s.running i true
            instancesAlived := s.instancesAlived.insert key ⟨i, .migrating, typ⟩ }.goto i
          (.unlock (.returned false)))
  | overfull {key : String} {typ : ShiftType} (hkey : s.instancesAlived.lookup key = none) (htyp : typ ≠ .none)
      (hok : ok = true) (hroom : maxShiftInstancesAlived ≤ s.alivedNums) :
      BodyOutcome s i ok (.startShiftInstance key typ)
        ({ s with running := Function.update s.running i true }.goto i (.unlock (.returned true)))
  | unknown {key : String} (hkey : s.instancesAlived.lookup key = none) :
      BodyOutcome s i ok (.waitInstanceFinishThread key) (s.goto i (.unlock (.returned true)))
  | spawned {key : String} {inst : Alived} (hkey : s.instancesAlived.lookup key = some inst) :
      BodyOutcome s i ok (.waitInstanceFinishThread key) (s.goto i (.unlock (.waitFinish key inst)))
  | missing {key : String} (hkey : s.instancesAlived.lookup key = none) :
      BodyOutcome s i ok (.waitInstanceFinish key) (s.goto i (.after (.returned true)))
  | waits {key : String} {inst : Alived} (hkey : s.instancesAlived.lookup key = some inst) :
      BodyOutcome s i ok (.waitInstanceFinish key) (s.goto i (.unlock (.waitFinish key inst)))
  | finished {key : String} {status : ShiftStatus} {typ : ShiftType} :
      BodyOutcome s i ok (.updateFinishedInstance key status typ)
        ({ s with
            instancesFinished := s.instancesFinished.insert key ⟨status, typ⟩
            instancesAlived := s.instancesAlived.erase key }.goto i
          (.unlock (.returned (decide (status = ShiftStatus.fail)))))
  | counted : BodyOutcome s i ok .getInstancesNums (s.goto i (.unlock (.returned false)))

theorem body_outcome (s : Manager) (i : ℕ) (ok : Bool) (op : Op) : BodyOutcome s i ok op (s.body i ok op) := by
  cases op with
  | startShiftInstance key typ =>
    simp only [body, startShiftInstance]
    split_ifs with hkey htyp hok hroom
    · exact .refused (.inl hkey)
    · exact .refused (.inr (.inl htyp))
    · exact .refused (.inr (.inr hok))
    · exact .started (not_not.1 hkey) hroom
    · exact .overfull (not_not.1 hkey) htyp (by simpa using hok) (Nat.le_of_not_lt hroom)
  | waitInstanceFinishThread key =>
    simp only [body]
    split
    · exact .unknown ‹_›
    · exact .spawned ‹_›
  | waitInstanceFinish key =>
    simp only [body]
    split
    · exact .missing ‹_›
    · exact .waits ‹_›
  | updateFinishedInstance key status typ => exact .finished
  | getInstancesNums => exact .counted

section Body

variable {s t : Manager} {i : ℕ} {ok : Bool} {op : Op} (h : BodyOutcome s i ok op t)

include h

theorem BodyOutcome.mu : t.mu = s.mu := by
  cases h <;> rfl

/-- A call that is under way is at `Unlock` next, unless it waits for a key that is not there. -/
theorem BodyOutcome.self : (∃ next, t.calls i = .unlock next) ∨
    ∃ key, op = .waitInstanceFinish key ∧ s.instancesAlived.lookup key = none ∧
      t.calls i = .after (.returned true) := by
  cases h with
  | missing hkey => exact .inr ⟨_, rfl, hkey, goto_self ..⟩
  | _ => exact .inl ⟨_, goto_self ..⟩

theorem BodyOutcome.other {j : ℕ} (hj : j ≠ i) : t.calls j = s.calls j := by
  cases h <;> exact goto_of_ne _ _ hj

end Body

/-- The steps of the calls. -/
inductive Acts (s : Manager) : Action → Manager → Prop
  | invoke {n : ℕ} {op : Op} (h : s.calls n = .idle) (hop : op.exported = true) :
      Acts s (.invoke n op) (s.goto n (.lock op))
  | lock {i : ℕ} {ok : Bool} {op : Op} (h : s.calls i = .lock op) (hmu : s.mu = none) :
      Acts s (.step i ok) ({ s with mu := some i }.goto i (.body op))
  | body {i : ℕ} {ok : Bool} {op : Op} {t : Manager} (h : s.calls i = .body op)
      (hbody : BodyOutcome s i ok op t) : Acts s (.step i ok) t
  | unlock {i : ℕ} {ok : Bool} {next : After} (h : s.calls i = .unlock next) :
      Acts s (.step i ok) ({ s with mu := none }.goto i (.after next))
  | ended {i : ℕ} {ok : Bool} {key : String} {inst : Alived} {status : ShiftStatus}
      (h : s.calls i = .after (.waitFinish key inst)) (hend : s.ended inst.shift = true) :
      Acts s (.step i ok) ({ s with ended := Function.update s.ended inst.shift false }.goto i
        (.lock (.updateFinishedInstance key status inst.shiftType)))
  | finish {i : ℕ} (h : s.running i = true) :
      Acts s (.finish i) { s with
        running := Function.update s.running i false
        ended := Function.update s.ended i true }

theorem acts_of_act (h : s.act a = some t) : Acts s a t := by
  cases a with
  | invoke n op =>
    simp only [act, ite_none_right_eq_some, Option.some.injEq] at h
    exact h.2 ▸ .invoke h.1.1 h.1.2
  | finish i =>
    simp only [act, ite_none_right_eq_some, Option.some.injEq] at h
    exact h.2 ▸ .finish h.1
  | step i ok =>
    simp only [act] at h
    split at h
    · rename_i op hcall
      simp only [ite_none_right_eq_some, Option.some.injEq] at h
      exact h.2 ▸ .lock hcall h.1
    · rename_i op hcall
      cases h
      exact .body hcall (body_outcome s i ok op)
    · rename_i next hcall
      cases h
      exact .unlock hcall
    · rename_i key inst hcall
      simp only [ite_none_right_eq_some, Option.some.injEq] at h
      exact h.2 ▸ .ended hcall h.1
    · cases h

theorem Exclusive.init : init.Exclusive := ⟨nofun, nofun⟩

/-- A step of a call that has nothing to do with the mutex. -/
theorem Exclusive.goto (hs : s.Exclusive) (hold : s.mu ≠ some i) (hnew : c.holds = false) : (s.goto i c).Exclusive := by
  refine ⟨fun j hj => ?_, fun j hj => ?_⟩
  · grind [goto_self, held, goto_of_ne, goto]
  · grind [goto_of_ne, holder, goto]

/-- A call that is neither under the mutex nor has returned does not have it. -/
theorem Exclusive.mu_ne (hs : s.Exclusive) (h : (s.calls i).holds = false)
    (hreturned : ∀ failed, s.calls i ≠ .after (.returned failed)) : s.mu ≠ some i := by grind [holder]

theorem Exclusive.act (hs : s.Exclusive) (h : Acts s a t) : t.Exclusive := by
  cases h with
  | invoke h _ => exact hs.goto (hs.mu_ne (by rw [h]; rfl) (by simp [h])) rfl
  | @ended _ _ _ inst _ h _ =>
    have hs' : Exclusive { s with ended := update s.ended inst.shift false } := ⟨hs.held, hs.holder⟩
    exact hs'.goto (hs.mu_ne (by rw [h]; rfl) (by simp [h])) rfl
  | finish _ => exact ⟨hs.held, hs.holder⟩
  | @lock i _ op _ hmu =>
    refine ⟨fun j hj => ?_, fun j hj => ?_⟩
    · grind [held, goto_of_ne, Manager.goto]
    · obtain rfl := Option.some.inj hj
      exact .inl (by rw [goto_self]; rfl)
  | @body i _ op _ h hbody =>
    have hmu := hs.held i (by rw [h]; rfl)
    refine ⟨fun j hj => ?_, fun j hj => ?_⟩
    · grind [BodyOutcome.mu, held, BodyOutcome.other]
    · grind [BodyOutcome.self, BodyOutcome.mu, Call.holds]
  | @unlock i _ next h =>
    refine ⟨fun j hj => ?_, nofun⟩
    by_cases heq : j = i
    · subst heq
      rw [goto_self] at hj
      cases hj
    · rw [goto_of_ne _ _ heq] at hj
      have hmu := hs.held i (by rw [h]; rfl)
      exact absurd (Option.some.inj (hmu.symm.trans (hs.held j hj))).symm heq

theorem released_iff_canRelease (hs : s.Exclusive) : s.Released ↔ ∀ i, s.mu = some i → s.CanRelease i := by
  constructor
  · intro h i hi
    obtain ⟨as, t, has, hrun, ht⟩ := h i hi
    cases as with
    | nil =>
      cases hrun
      cases hi.symm.trans ht
    | cons a as =>
      obtain ⟨⟨ok, rfl⟩, hrest⟩ := forall_mem_cons.1 has
      obtain ⟨u, hstep, hrun⟩ := bind_eq_some_iff.1 hrun
      obtain hholds | ⟨failed, hcall⟩ := hs.holder i hi
      · cases hcall : s.calls i with
        | unlock next => exact .inl ⟨next, hcall⟩
        | body op =>
          refine .inr ⟨op, hcall, ?_⟩
          rintro key rfl hkey
          -- the call returns with the mutex and has no step left
          simp only [Manager.act, hcall, Manager.body, hkey, Option.some.injEq] at hstep
          subst hstep
          cases as with
          | nil =>
            cases hrun
            cases hi.symm.trans ht
          | cons b as =>
            obtain ⟨ok', rfl⟩ := hrest b mem_cons_self
            simp [runSteps, Manager.act] at hrun
        | _ =>
          rw [hcall] at hholds
          cases hholds
      · simp [Manager.act, hcall] at hstep
  · intro h i hi
    have hunlock {s : Manager} {next : After} (hcall : s.calls i = .unlock next) :
        runSteps Manager.act s [.step i true] = some ({ s with mu := none }.goto i (.after next)) := by
      simp only [runSteps, Manager.act, hcall, bind_some]
    obtain ⟨next, hcall⟩ | ⟨op, hcall, hkey⟩ := h i hi
    · grind [goto]
    · obtain ⟨next, hnext⟩ | ⟨key, rfl, hmissing, -⟩ := (body_outcome s i true op).self
      · refine ⟨[.step i true, .step i true], { s.body i true op with mu := none }.goto i (.after next), by simp, ?_, rfl⟩
        rw [runSteps, Manager.act, hcall]
        exact hunlock hnext
      · exact absurd hmissing (hkey key rfl)

theorem Released.act_iff (hs : s.Exclusive) (hr : s.Released) (h : Acts s a t) :
    t.Released ↔ ¬ s.WaitsForMissing a := by
  rw [released_iff_canRelease hs] at hr
  rw [released_iff_canRelease (hs.act h)]
  -- a call that does not have the mutex changes nothing for the one that has it
  have hkeep {i : ℕ} {c : Call} (hi : s.mu ≠ some i) (j : ℕ) (hj : s.mu = some j) :
      (s.goto i c).CanRelease j := by
    have hne : j ≠ i := fun heq => hi (heq ▸ hj)
    rw [CanRelease, goto_of_ne _ _ hne]
    exact hr j hj
  cases h with
  | invoke h _ => exact iff_of_true (hkeep (hs.mu_ne (by rw [h]; rfl) (by simp [h]))) id
  | finish _ => exact iff_of_true hr id
  | ended h _ =>
    exact iff_of_true (hkeep (hs.mu_ne (by rw [h]; rfl) (by simp [h])))
      fun ⟨_, hlock, _⟩ => by cases h.symm.trans hlock
  | @unlock i _ next h => grind [goto, WaitsForMissing]
  | @body i _ op _ h hbody =>
    refine iff_of_true (fun j hj => ?_) fun ⟨_, hlock, _⟩ => by cases h.symm.trans hlock
    have hmu := hs.held i (by rw [h]; rfl)
    grind [BodyOutcome.self, BodyOutcome.mu, CanRelease]
  | @lock i _ op h _ =>
    constructor
    · rintro hall ⟨key, hlock, hmissing⟩
      grind [goto_self, goto, CanRelease]
    · rintro hfound j hj
      obtain rfl := Option.some.inj hj
      refine .inr ⟨op, goto_self .., ?_⟩
      rintro key rfl hmissing
      exact hfound ⟨key, h, hmissing⟩

/-- In every run the mutex is free or will be released exactly if no `WaitInstanceFinish` finds its key
missing. -/
theorem released_iff {as : List Action} {t : Manager} (h : runSteps act init as = some t) :
    Always act init as Released ↔ EachStep act init as fun s a => ¬ s.WaitsForMissing a :=
  always_iff_eachStep Exclusive.init (fun _ h => nomatch h)
    (fun _ _ _ _ hs hr hact => ⟨hs.act (acts_of_act hact), hr.act_iff hs (acts_of_act hact)⟩) h

/-- A call starts a shift and another waits for it. -/
theorem released_of_key_found :
    Always act init [.invoke 0 (.startShiftInstance "k" .reshard), .step 0 true, .step 0 true, .step 0 true,
      .invoke 1 (.waitInstanceFinish "k"), .step 1 true, .step 1 true] Released := by
  refine (released_iff rfl).2 ?_
  refine eachStep_cons rfl id ?_
  iterate 3 refine eachStep_cons rfl (by rintro ⟨key, hkey, -⟩; cases hkey) ?_
  refine eachStep_cons rfl id ?_
  refine eachStep_cons rfl (by rintro ⟨key, hkey, hmissing⟩; cases hkey; cases hmissing) ?_
  exact eachStep_cons rfl (by rintro ⟨key, hkey, -⟩; cases hkey) (eachStep_nil _ _)

/-- `WaitInstanceFinish` without a shift returns with the mutex, and the next call cannot take it. -/
theorem missing_key_keeps_mutex :
    ∃ s, runSteps act init [.invoke 0 (.waitInstanceFinish "k"), .step 0 true, .step 0 true,
        .invoke 1 .getInstancesNums] = some s ∧
      s.calls 0 = .after (.returned true) ∧ ¬ s.Released ∧ ∀ ok, s.act (.step 1 ok) = none := by
  refine ⟨_, rfl, rfl, fun h => ?_, fun ok => rfl⟩
  obtain ⟨as, t, has, hrun, ht⟩ := h 0 rfl
  cases as with
  | nil =>
    cases hrun
    cases ht
  | cons a as =>
    obtain ⟨ok, rfl⟩ := has a List.mem_cons_self
    cases hrun

/-! ## The list -/

/-- There are not more shifts than allowed, a shift that is running is on the list under one key, and a call that
fails leaves no shift running. -/
structure Tracked (s : Manager) : Prop where
  limit : s.alivedNums ≤ maxShiftInstancesAlived
  recorded : ∀ i, s.running i = true → ∃! key, ∃ inst, s.instancesAlived.lookup key = some inst ∧ inst.shift = i
  failed : ∀ i, s.calls i = .unlock (.returned true) ∨ s.calls i = .after (.returned true) → s.running i = false

/-- A shift is started when there is no room for it. -/
def StartsTooMany (s : Manager) : Action → Prop
  | .step i ok =>
    ∃ key typ, s.calls i = .body (.startShiftInstance key typ) ∧ s.instancesAlived.lookup key = none ∧
      typ ≠ .none ∧ ok = true ∧ maxShiftInstancesAlived ≤ s.alivedNums
  | _ => False

/-- Only a call at its end has a shift, and a shift has one key at most. -/
structure Owned (s : Manager) : Prop where
  running : ∀ i, s.running i = true → (s.calls i).Ends
  ended : ∀ i, s.ended i = true → (s.calls i).Ends
  listed : ∀ key inst, s.instancesAlived.lookup key = some inst → (s.calls inst.shift).Ends
  inj : ∀ key key' inst inst', s.instancesAlived.lookup key = some inst →
    s.instancesAlived.lookup key' = some inst' → inst.shift = inst'.shift → key = key'

/-- The shift has ended and a waiter has received its end. -/
def Told (s : Manager) (i : ℕ) : Prop := s.running i = false ∧ s.ended i = false

/-- A shift that is waited for is on the list until a waiter is told, and the one waiter that was told is the
one that takes the key off the list. -/
structure Served (s : Manager) : Prop where
  ended : ∀ i, s.ended i = true → s.running i = false
  waiting : ∀ i key inst, (s.calls i).waitsFor = some (key, inst) →
    (s.calls inst.shift).Ends ∧ (s.instancesAlived.lookup key = some inst ∨ s.Told inst.shift)
  removing : ∀ i key, (s.calls i).removes = some key →
    ∃ inst, s.instancesAlived.lookup key = some inst ∧ s.Told inst.shift
  single : ∀ i j key, (s.calls i).removes = some key → (s.calls j).removes = some key → i = j

/-- A call that goes on keeps the calls that are at their end there. -/
theorem ends_goto (h : (s.calls i).Ends → c.Ends) (j : ℕ) (hj : (s.calls j).Ends) :
    ((s.goto i c).calls j).Ends := by
  obtain rfl | hne := eq_or_ne j i
  · rw [goto_self]
    exact h hj
  · rw [goto_of_ne _ _ hne]
    exact hj

/-- A step of a call that starts no shift. -/
theorem Owned.goto (hs : s.Owned) (h : (s.calls i).Ends → c.Ends) : (s.goto i c).Owned :=
  ⟨fun j hj => ends_goto h j (hs.running j hj), fun j hj => ends_goto h j (hs.ended j hj),
    fun key inst hkey => ends_goto h _ (hs.listed key inst hkey), hs.inj⟩

/-- A step of a call that starts no shift and does not fail with one. -/
theorem Tracked.goto (hs : s.Tracked)
    (h : c = .unlock (.returned true) ∨ c = .after (.returned true) → s.running i = false) : (s.goto i c).Tracked := by
  refine ⟨hs.limit, hs.recorded, fun j hj => ?_⟩
  obtain rfl | hne := eq_or_ne j i
  · rw [goto_self] at hj
    exact h hj
  · rw [goto_of_ne _ _ hne] at hj
    exact hs.failed j hj

theorem lookup_insert_eq_some {α β : Type*} [DecidableEq α] {m : AList fun _ : α => β} {k k' : α} {v w : β} :
    (m.insert k v).lookup k' = some w ↔ k' = k ∧ v = w ∨ k' ≠ k ∧ m.lookup k' = some w := by
  obtain rfl | hne := eq_or_ne k' k
  · simp
  · simp [AList.lookup_insert_ne hne, hne]

theorem lookup_erase_eq_some {α β : Type*} [DecidableEq α] {m : AList fun _ : α => β} {k k' : α} {w : β} :
    (m.erase k).lookup k' = some w ↔ k' ≠ k ∧ m.lookup k' = some w := by
  obtain rfl | hne := eq_or_ne k' k
  · simp
  · simp [AList.lookup_erase_ne hne, hne]

theorem Owned.init : init.Owned := ⟨nofun, nofun, nofun, nofun⟩

theorem Served.init : init.Served := ⟨nofun, nofun, nofun, nofun⟩

theorem Tracked.init : init.Tracked := ⟨Nat.zero_le _, nofun, fun _ _ => rfl⟩

theorem not_ends (hunlock : ∀ failed, c ≠ .unlock (.returned failed))
    (hafter : ∀ failed, c ≠ .after (.returned failed)) : ¬ c.Ends := by
  rintro ⟨failed, h | h⟩
  · exact hunlock failed h
  · exact hafter failed h

/-- A call under the mutex has no shift yet. -/
theorem Owned.body_outcome (hs : s.Owned) (hi : ¬ (s.calls i).Ends) (h : BodyOutcome s i ok op t) : t.Owned := by
  have hends (j : ℕ) (hj : (s.calls j).Ends) : (t.calls j).Ends := by
    rw [h.other (by rintro rfl; exact hi hj)]
    exact hj
  have hrunning (hself : (t.calls i).Ends) (j : ℕ) (hj : update s.running i true j = true) :
      (t.calls j).Ends := by
    obtain rfl | hne := eq_or_ne j i
    · exact hself
    · exact hends j (hs.running j ((update_of_ne hne ..).symm.trans hj))
  cases h with
  | @started key typ hkey hroom =>
    have hlookup {k : String} {inst : Alived}
        (hk : (s.instancesAlived.insert key ⟨i, .migrating, typ⟩).lookup k = some inst) :
        k = key ∧ inst.shift = i ∨ s.instancesAlived.lookup k = some inst ∧ inst.shift ≠ i := by
      obtain ⟨heq, rfl⟩ | ⟨-, hk⟩ := lookup_insert_eq_some.1 hk
      · exact .inl ⟨heq, rfl⟩
      · exact .inr ⟨hk, fun heq => hi (heq ▸ hs.listed k inst hk)⟩
    have hself : (({ s with
        running := update s.running i true
        instancesAlived := s.instancesAlived.insert key ⟨i, .migrating, typ⟩ }.goto i
      (.unlock (.returned false))).calls i).Ends := ⟨false, .inl (goto_self ..)⟩
    refine ⟨hrunning hself, fun j hj => hends j (hs.ended j hj), fun k inst hk => ?_,
      fun k k' inst inst' hk hk' hshift => ?_⟩
    · obtain ⟨-, hshift⟩ | ⟨hk, -⟩ := hlookup hk
      · rw [hshift]
        exact hself
      · exact hends _ (hs.listed k inst hk)
    · obtain ⟨heq, hi⟩ | ⟨hk, hi⟩ := hlookup hk <;> obtain ⟨heq', hi'⟩ | ⟨hk', hi'⟩ := hlookup hk'
      · rw [heq, heq']
      · exact absurd (hshift.symm.trans hi) hi'
      · exact absurd (hshift.trans hi') hi
      · exact hs.inj k k' inst inst' hk hk' hshift
  | overfull =>
    exact ⟨hrunning ⟨true, .inl (goto_self ..)⟩, fun j hj => hends j (hs.ended j hj),
      fun k inst hk => hends _ (hs.listed k inst hk), hs.inj⟩
  | finished =>
    exact ⟨fun j hj => hends j (hs.running j hj), fun j hj => hends j (hs.ended j hj),
      fun k inst hk => hends _ (hs.listed k inst (lookup_erase_eq_some.1 hk).2),
      fun k k' inst inst' hk hk' =>
        hs.inj k k' inst inst' (lookup_erase_eq_some.1 hk).2 (lookup_erase_eq_some.1 hk').2⟩
  | _ => exact hs.goto fun hends => absurd hends hi

/-- Every step keeps the owners of the shifts. -/
theorem Owned.act (hs : s.Owned) (h : Acts s a t) : t.Owned := by
  cases h with
  | invoke h _ => exact hs.goto fun hends => absurd (h ▸ hends) (not_ends (by simp) (by simp))
  | @lock i _ _ h _ =>
    have hs' : Owned { s with mu := some i } := ⟨hs.running, hs.ended, hs.listed, hs.inj⟩
    exact hs'.goto fun hends => absurd (h ▸ hends) (not_ends (by simp) (by simp))
  | body h hbody => exact hs.body_outcome (h ▸ not_ends (by simp) (by simp)) hbody
  | @unlock i _ next h =>
    have hs' : Owned { s with mu := none } := ⟨hs.running, hs.ended, hs.listed, hs.inj⟩
    refine hs'.goto fun hends => ?_
    obtain ⟨failed, hcall | hcall⟩ := hends
    · cases h.symm.trans hcall
      exact ⟨failed, .inr rfl⟩
    · cases h.symm.trans hcall
  | @ended i _ key inst status h _ =>
    have hend (j : ℕ) (hj : update s.ended inst.shift false j = true) : s.ended j = true := by
      obtain rfl | hne := eq_or_ne j inst.shift
      · rw [update_self] at hj
        cases hj
      · rwa [update_of_ne hne] at hj
    have hs' : Owned { s with ended := update s.ended inst.shift false } :=
      ⟨hs.running, fun j hj => hs.ended j (hend j hj), hs.listed, hs.inj⟩
    exact hs'.goto fun hends => absurd (h ▸ hends) (not_ends (by simp) (by simp))
  | @finish i h =>
    refine ⟨fun j hj => ?_, fun j hj => ?_, hs.listed, hs.inj⟩
    all_goals obtain rfl | hne := eq_or_ne j i
    · exact hs.running j h
    · exact hs.running j ((update_of_ne hne ..).symm.trans hj)
    · exact hs.running j h
    · exact hs.ended j ((update_of_ne hne ..).symm.trans hj)

/-- A step of one call that ends no shift and takes nothing off the list that another call waits for. -/
theorem Served.of_call (hs : s.Served) (hother : ∀ j, j ≠ i → t.calls j = s.calls j)
    (hends : ∀ j, (s.calls j).Ends → (t.calls j).Ends)
    (hran : ∀ j, (s.calls j).Ends → t.running j = s.running j) (howned : s.Owned) (hended : t.ended = s.ended)
    (hwaits : ∀ key inst, (t.calls i).waitsFor = some (key, inst) →
      (s.calls i).waitsFor = some (key, inst) ∨ s.instancesAlived.lookup key = some inst)
    (hremoves : ∀ key, (t.calls i).removes = some key → (s.calls i).removes = some key)
    (hlist : ∀ key inst, s.instancesAlived.lookup key = some inst → t.instancesAlived.lookup key = some inst ∨
      s.Told inst.shift ∧ ∀ j, (t.calls j).removes ≠ some key) : t.Served := by
  have hremoves' (j : ℕ) (key : String) (hj : (t.calls j).removes = some key) :
      (s.calls j).removes = some key := by
    obtain rfl | hne := eq_or_ne j i
    · exact hremoves key hj
    · rwa [hother j hne] at hj
  have htold {inst : Alived} (hinst : (s.calls inst.shift).Ends) (htold : s.Told inst.shift) :
      t.Told inst.shift := by
    rw [Told, hran _ hinst, hended]
    exact htold
  have hkeep {key : String} {inst : Alived} (hkey : s.instancesAlived.lookup key = some inst) :
      t.instancesAlived.lookup key = some inst ∨ t.Told inst.shift :=
    (hlist key inst hkey).imp id fun h => htold (howned.listed key inst hkey) h.1
  refine ⟨fun j hj => ?_, fun j key inst hj => ?_, fun j key hj => ?_, fun j j' key hj hj' => ?_⟩
  · rw [hended] at hj
    rw [hran j (howned.ended j hj)]
    exact hs.ended j hj
  · have hold : (s.calls j).waitsFor = some (key, inst) ∨ s.instancesAlived.lookup key = some inst := by
      obtain rfl | hne := eq_or_ne j i
      · exact hwaits key inst hj
      · exact .inl (hother j hne ▸ hj)
    rcases hold with hold | hkey
    · obtain ⟨hinst, hkey | hold⟩ := hs.waiting j key inst hold
      · exact ⟨hends _ hinst, hkeep hkey⟩
      · exact ⟨hends _ hinst, .inr (htold hinst hold)⟩
    · exact ⟨hends _ (howned.listed key inst hkey), hkeep hkey⟩
  · obtain ⟨inst, hkey, hold⟩ := hs.removing j key (hremoves' j key hj)
    obtain hkey' | ⟨-, hnone⟩ := hlist key inst hkey
    · exact ⟨inst, hkey', htold (howned.listed key inst hkey) hold⟩
    · exact absurd hj (hnone j)
  · exact hs.single j j' key (hremoves' j key hj) (hremoves' j' key hj')

/-- A step of one call that changes nothing but the call. -/
theorem Served.goto (hs : s.Served) (howned : s.Owned) (hends : (s.calls i).Ends → c.Ends)
    (hwaits : ∀ key inst, c.waitsFor = some (key, inst) →
      (s.calls i).waitsFor = some (key, inst) ∨ s.instancesAlived.lookup key = some inst)
    (hremoves : ∀ key, c.removes = some key → (s.calls i).removes = some key) : (s.goto i c).Served := by
  refine hs.of_call (i := i) (fun j hj => goto_of_ne _ _ hj) (ends_goto hends) (fun _ _ => rfl) howned rfl ?_ ?_
    fun _ _ hkey => .inl hkey
  · rwa [goto_self]
  · rwa [goto_self]

/-- What a call does under the mutex leaves the waiters served: a key that it removes is the one of a shift
whose end it has received itself. -/
theorem Served.body_outcome (hs : s.Served) (howned : s.Owned) (hcall : s.calls i = .body op)
    (h : BodyOutcome s i ok op t) : t.Served := by
  have hi : ¬ (s.calls i).Ends := hcall ▸ not_ends (by simp) (by simp)
  have hends (j : ℕ) (hj : (s.calls j).Ends) : (t.calls j).Ends := by
    rw [h.other (by rintro rfl; exact hi hj)]
    exact hj
  have hran (j : ℕ) (hj : (s.calls j).Ends) : update s.running i true j = s.running j :=
    update_of_ne (by rintro rfl; exact hi hj) ..
  cases h with
  | refused | unknown | missing | counted =>
    exact hs.goto howned (fun h => absurd h hi) nofun nofun
  | spawned hkey | waits hkey =>
    refine hs.goto howned (fun h => absurd h hi) (fun key inst hinst => ?_) nofun
    cases hinst
    exact .inr hkey
  | @started key typ hkey _ =>
    refine hs.of_call (i := i) (fun j hj => goto_of_ne _ _ hj) hends hran howned rfl ?_ ?_
      fun k inst hk => .inl (lookup_insert_eq_some.2 (.inr ⟨?_, hk⟩))
    · rw [goto_self]
      nofun
    · rw [goto_self]
      nofun
    · rintro rfl
      cases hkey.symm.trans hk
  | overfull =>
    refine hs.of_call (i := i) (fun j hj => goto_of_ne _ _ hj) hends hran howned rfl ?_ ?_ fun _ _ hk => .inl hk
    all_goals
      rw [goto_self]
      nofun
  | @finished key status typ =>
    have hremoves : (s.calls i).removes = some key := by
      rw [hcall]
      rfl
    refine hs.of_call (i := i) (fun j hj => goto_of_ne _ _ hj) hends (fun _ _ => rfl) howned rfl ?_ ?_
      fun k inst hk => ?_
    · rw [goto_self]
      nofun
    · rw [goto_self]
      nofun
    · obtain rfl | hne := eq_or_ne k key
      · obtain ⟨inst', hk', htold⟩ := hs.removing i k hremoves
        cases hk.symm.trans hk'
        refine .inr ⟨htold, fun j hj => ?_⟩
        obtain rfl | hne := eq_or_ne j i
        · rw [goto_self] at hj
          cases hj
        · rw [goto_of_ne _ _ hne] at hj
          exact hne (hs.single j i k hj hremoves)
      · exact .inl (lookup_erase_eq_some.2 ⟨hne, hk⟩)

/-- Every step leaves the waiters served. -/
theorem Served.act (hs : s.Served) (howned : s.Owned) (h : Acts s a t) : t.Served := by
  cases h with
  | @invoke n op h hop =>
    refine hs.goto howned (fun hends => absurd (h ▸ hends) (not_ends (by simp) (by simp))) nofun fun key hkey => ?_
    cases op with
    | updateFinishedInstance => cases hop
    | _ => cases hkey
  | @lock i _ op h _ =>
    have hs' : Served { s with mu := some i } := ⟨hs.ended, hs.waiting, hs.removing, hs.single⟩
    refine hs'.goto ⟨howned.running, howned.ended, howned.listed, howned.inj⟩
      (fun hends => absurd (h ▸ hends) (not_ends (by simp) (by simp))) nofun fun key hkey => ?_
    rw [h]
    cases op with
    | updateFinishedInstance => exact hkey
    | _ => cases hkey
  | body h hbody => exact hs.body_outcome howned h hbody
  | @unlock i _ next h =>
    have hs' : Served { s with mu := none } := ⟨hs.ended, hs.waiting, hs.removing, hs.single⟩
    refine hs'.goto ⟨howned.running, howned.ended, howned.listed, howned.inj⟩ (fun hends => ?_)
      (fun key inst hinst => .inl ?_) nofun
    · obtain ⟨failed, hcall | hcall⟩ := hends
      · cases h.symm.trans hcall
        exact ⟨failed, .inr rfl⟩
      · cases h.symm.trans hcall
    · rw [h]
      cases next with
      | waitFinish => exact hinst
      | returned => cases hinst
  | @ended i _ key inst status h hend =>
    have hwaits : (s.calls i).waitsFor = some (key, inst) := by
      rw [h]
      rfl
    -- no waiter has been told, so that the shift is still on the list
    have hkey : s.instancesAlived.lookup key = some inst :=
      (hs.waiting i key inst hwaits).2.resolve_right fun htold => by cases htold.2.symm.trans hend
    have htold : s.running inst.shift = false ∧ update s.ended inst.shift false inst.shift = false :=
      ⟨hs.ended _ hend, update_self ..⟩
    have hmono {j : ℕ} (hj : s.Told j) : s.running j = false ∧ update s.ended inst.shift false j = false := by
      obtain rfl | hne := eq_or_ne j inst.shift
      · exact htold
      · rw [update_of_ne hne]
        exact hj
    have hends := ends_goto (s := s) (c := .lock (.updateFinishedInstance key status inst.shiftType))
      fun hends => absurd (h ▸ hends) (not_ends (by simp) (by simp))
    have hnone {j : ℕ} (hj : (s.calls j).removes = some key) : False := by
      obtain ⟨inst', hkey', htold'⟩ := hs.removing j key hj
      cases hkey.symm.trans hkey'
      cases htold'.2.symm.trans hend
    refine ⟨fun j hj => ?_, fun j k inst' hj => ?_, fun j k hj => ?_, fun j j' k hj hj' => ?_⟩
    · obtain rfl | hne := eq_or_ne j inst.shift
      · exact htold.1
      · exact hs.ended j ((update_of_ne hne ..).symm.trans hj)
    · obtain rfl | hne := eq_or_ne j i
      · rw [goto_self] at hj
        cases hj
      · rw [goto_of_ne _ _ hne] at hj
        obtain ⟨hinst, hlist⟩ := hs.waiting j k inst' hj
        exact ⟨hends _ hinst, hlist.imp id hmono⟩
    · obtain rfl | hne := eq_or_ne j i
      · rw [goto_self] at hj
        cases hj
        exact ⟨inst, hkey, htold⟩
      · rw [goto_of_ne _ _ hne] at hj
        obtain ⟨inst', hk, hold⟩ := hs.removing j k hj
        exact ⟨inst', hk, hmono hold⟩
    · rcases eq_or_ne j i with heq | hne <;> rcases eq_or_ne j' i with heq' | hne'
      · exact heq.trans heq'.symm
      · rw [heq, goto_self] at hj
        rw [goto_of_ne _ _ hne'] at hj'
        cases hj
        exact (hnone hj').elim
      · rw [heq', goto_self] at hj'
        rw [goto_of_ne _ _ hne] at hj
        cases hj'
        exact (hnone hj).elim
      · rw [goto_of_ne _ _ hne] at hj
        rw [goto_of_ne _ _ hne'] at hj'
        exact hs.single j j' k hj hj'
  | @finish i h =>
    have hmono {j : ℕ} (hj : s.Told j) : update s.running i false j = false ∧ update s.ended i true j = false := by
      have hne : j ≠ i := by
        rintro rfl
        cases h.symm.trans hj.1
      rw [update_of_ne hne, update_of_ne hne]
      exact hj
    refine ⟨fun j hj => ?_, fun j k inst hj => ?_, fun j k hj => ?_, hs.single⟩
    · obtain rfl | hne := eq_or_ne j i
      · exact update_self ..
      · exact (update_of_ne hne ..).trans (hs.ended j ((update_of_ne hne ..).symm.trans hj))
    · obtain ⟨hinst, hlist⟩ := hs.waiting j k inst hj
      exact ⟨hinst, hlist.imp id hmono⟩
    · obtain ⟨inst, hk, hold⟩ := hs.removing j k hj
      exact ⟨inst, hk, hmono hold⟩

/-- The call under the mutex starts one shift too many only if it starts one. -/
theorem not_startsTooMany (hcall : s.calls i = .body op) (hop : ∀ key typ, op ≠ .startShiftInstance key typ) :
    ¬ s.StartsTooMany (.step i ok) := by
  rintro ⟨key, typ, hbody, -⟩
  cases hcall.symm.trans hbody
  exact hop key typ rfl

/-- Where there is room, no start is one too many. -/
theorem not_startsTooMany_of_room (hroom : s.alivedNums < maxShiftInstancesAlived) (a : Action) :
    ¬ s.StartsTooMany a := by
  cases a with
  | step i ok =>
    rintro ⟨key, typ, -, -, -, -, hfull⟩
    exact Nat.not_lt.2 hfull hroom
  | _ => exact id

/-- What a call does under the mutex keeps track of the shifts unless it starts one too many. -/
theorem Tracked.body_iff (hs : s.Owned) (hserved : s.Served) (ht : s.Tracked)
    (hcall : s.calls i = .body op) (h : BodyOutcome s i ok op t) :
    t.Tracked ↔ ¬ s.StartsTooMany (.step i ok) := by
  have hends : ¬ (s.calls i).Ends := hcall ▸ not_ends (by simp) (by simp)
  have hi : s.running i = false := Bool.eq_false_iff.2 fun hrun => hends (hs.running i hrun)
  cases h with
  | @refused key typ hrefused =>
    refine iff_of_true (ht.goto fun _ => hi) ?_
    rintro ⟨key, typ, hbody, hkey, htyp, hok, -⟩
    cases hcall.symm.trans hbody
    obtain h | h | h := hrefused
    · exact h hkey
    · exact htyp h
    · cases h.symm.trans hok
  | @started key typ hkey hroom =>
    refine iff_of_true ⟨?_, fun j hj => ?_, fun j hj => ?_⟩ (not_startsTooMany_of_room hroom _)
    · exact (Nat.succ_le_succ (kerase_sublist ..).length_le).trans hroom
    · obtain rfl | hne := eq_or_ne j i
      · refine ⟨key, ⟨_, lookup_insert_eq_some.2 (.inl ⟨rfl, rfl⟩), rfl⟩, ?_⟩
        rintro k ⟨inst, hk, rfl⟩
        obtain ⟨heq, -⟩ | ⟨-, hk⟩ := lookup_insert_eq_some.1 hk
        · exact heq
        · exact absurd (hs.listed k inst hk) hends
      · obtain ⟨k, ⟨inst, hk, hshift⟩, huniq⟩ :=
          ht.recorded j ((update_of_ne hne ..).symm.trans hj)
        have hkne : k ≠ key := by
          rintro rfl
          cases hkey.symm.trans hk
        refine ⟨k, ⟨inst, lookup_insert_eq_some.2 (.inr ⟨hkne, hk⟩), hshift⟩, ?_⟩
        rintro k' ⟨inst', hk', hshift'⟩
        obtain ⟨-, rfl⟩ | ⟨-, hk'⟩ := lookup_insert_eq_some.1 hk'
        · exact absurd hshift'.symm hne
        · exact huniq k' ⟨inst', hk', hshift'⟩
    · obtain rfl | hne := eq_or_ne j i
      · rw [goto_self] at hj
        simp at hj
      · rw [goto_of_ne _ _ hne] at hj
        exact (update_of_ne hne ..).trans (ht.failed j hj)
  | @overfull key typ hkey htyp hok hroom =>
    refine iff_of_false (fun hall => ?_) (not_not_intro ⟨key, typ, hcall, hkey, htyp, hok, hroom⟩)
    cases (update_self ..).symm.trans (hall.failed i (.inl (goto_self ..)))
  | @finished key status typ =>
    refine iff_of_true (Tracked.goto ⟨?_, fun j hj => ?_, ht.failed⟩ fun _ => hi) (not_startsTooMany hcall nofun)
    · exact (kerase_sublist ..).length_le.trans ht.limit
    · obtain ⟨k, ⟨inst, hk, hshift⟩, huniq⟩ := ht.recorded j hj
      have hne : k ≠ key := by
        rintro rfl
        obtain ⟨inst', hk', htold⟩ := hserved.removing i k (by rw [hcall]; rfl)
        cases hk.symm.trans hk'
        rw [hshift] at htold
        cases htold.1.symm.trans hj
      refine ⟨k, ⟨inst, lookup_erase_eq_some.2 ⟨hne, hk⟩, hshift⟩, ?_⟩
      rintro k' ⟨inst', hk', hshift'⟩
      exact huniq k' ⟨inst', (lookup_erase_eq_some.1 hk').2, hshift'⟩
  | _ => exact iff_of_true (ht.goto fun _ => hi) (not_startsTooMany hcall nofun)

/-- A step keeps track of the shifts exactly if it does not start one too many. -/
theorem Tracked.act_iff (hs : s.Owned) (hserved : s.Served) (ht : s.Tracked) (h : Acts s a t) :
    t.Tracked ↔ ¬ s.StartsTooMany a := by
  have hkept {i : ℕ} {ok : Bool} (hcall : ∀ op, s.calls i ≠ .body op) : ¬ s.StartsTooMany (.step i ok) := by
    rintro ⟨key, typ, hbody, -⟩
    exact hcall _ hbody
  cases h with
  | invoke h _ => exact iff_of_true (ht.goto (by simp)) id
  | @lock i _ _ h _ =>
    have ht' : Tracked { s with mu := some i } := ⟨ht.limit, ht.recorded, ht.failed⟩
    exact iff_of_true (ht'.goto (by simp)) (hkept (by simp [h]))
  | body h hbody => exact ht.body_iff hs hserved h hbody
  | @unlock i _ next h =>
    have ht' : Tracked { s with mu := none } := ⟨ht.limit, ht.recorded, ht.failed⟩
    refine iff_of_true (ht'.goto fun hnext => ht.failed i ?_) (hkept (by simp [h]))
    obtain hnext | hnext := hnext
    · cases hnext
    · cases hnext
      exact .inl h
  | @ended i _ key inst _ h _ =>
    have ht' : Tracked { s with ended := update s.ended inst.shift false } :=
      ⟨ht.limit, ht.recorded, ht.failed⟩
    exact iff_of_true (ht'.goto (by simp)) (hkept (by simp [h]))
  | @finish i h =>
    refine iff_of_true ⟨ht.limit, fun j hj => ht.recorded j ?_, fun j hj => ?_⟩ id
    · obtain rfl | hne := eq_or_ne j i
      · exact h
      · exact (update_of_ne hne ..).symm.trans hj
    · obtain rfl | hne := eq_or_ne j i
      · exact update_self ..
      · exact (update_of_ne hne ..).trans (ht.failed j hj)

/-- In every run the manager keeps track of the shifts exactly if none is started when ten are alive. -/
theorem tracked_iff {as : List Action} {t : Manager} (h : runSteps act init as = some t) :
    Always act init as Tracked ↔ EachStep act init as fun s a => ¬ s.StartsTooMany a :=
  always_iff_eachStep (I := fun s => s.Owned ∧ s.Served) ⟨Owned.init, Served.init⟩ Tracked.init
    (fun _ _ _ _ hs ht hact => ⟨⟨hs.1.act (acts_of_act hact), hs.2.act hs.1 (acts_of_act hact)⟩,
      ht.act_iff hs.1 hs.2 (acts_of_act hact)⟩) h

/-- A shift is started, two calls wait for it, it ends, one of them takes it off the list, and another shift is
started under the key. -/
theorem tracked_of_restart :
    Always act init
      [.invoke 0 (.startShiftInstance "k" .rebalance), .step 0 true, .step 0 true, .step 0 true,
        .invoke 1 (.waitInstanceFinishThread "k"), .step 1 true, .step 1 true, .step 1 true,
        .invoke 2 (.waitInstanceFinish "k"), .step 2 true, .step 2 true, .step 2 true, .finish 0,
        .step 1 true, .step 1 true, .step 1 true, .step 1 true,
        .invoke 3 (.startShiftInstance "k" .rebalance), .step 3 true, .step 3 true] Tracked := by
  refine (tracked_iff rfl).2 ?_
  iterate 20 refine eachStep_cons rfl (not_startsTooMany_of_room (by decide) _) ?_
  exact eachStep_nil _ _

/-- The starts of shifts under so many keys, one after the other. -/
def starts (n : ℕ) : List Action :=
  (List.range n).flatMap fun i =>
    [.invoke i (.startShiftInstance (toString i) .rebalance), .step i true, .step i true, .step i true]

/-- The eleventh call fails and leaves its shift running. -/
theorem running_untracked : ∃ s, runSteps act init (starts 11) = some s ∧
    s.calls 10 = .after (.returned true) ∧ s.running 10 = true := ⟨_, rfl, rfl, rfl⟩

end Manager

end Radon.ShiftManager
