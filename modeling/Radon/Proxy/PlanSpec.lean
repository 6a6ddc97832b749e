import Radon.Backend.XaCheckSpec
import Radon.Proxy.Plan

/-!
# Plans follow the discipline

A select runs its requests as reads, in the owner's goroutine or in the goroutines of the sides of
its plan. A write is run by the owner alone.
-/

namespace Radon

open Concurrency Protocol

variable {g : Goroutine} {t : TxnId} {v : View}

/-- A goroutine that may run a part of a plan with the connections it finds. -/
structure Planning (g : Goroutine) (v : View) : Prop where
  plan : v.PlannedBy g
  stage : v.stage ≠ .ended
  hand : v.hand = none
  call : v.call = none

theorem Planning.side {f : Fork} (h : Planning g v) (hf : f = .left ∨ f = .right) : Planning (f :: g) v :=
  ⟨h.plan.side hf, h.stage, h.hand, h.call⟩

theorem sendable_plan {mode : RequestMode} {txnMode : TxnMode} (rawQuery : String) (querys : List PlanQuery) :
    Sendable v ⟨.sql rawQuery, mode, txnMode, querys.map PlanQuery.tuple⟩ := by
  refine .sql ⟨rawQuery, rfl⟩ fun qt hqt => ?_
  obtain ⟨q, _, rfl⟩ := List.mem_map.mp hqt
  exact ⟨q.query, rfl⟩

theorem executeRequest_spec (req : RequestContext) (h : Planning g v) (hq : Sendable v req)
    (hmode : req.txnMode ≠ .txnWrite) : Spec g (KnowsRead g t v) (executeRequest g t req) fun _ => KnowsRead g t v :=
  (reads_spec h.plan h.stage h.hand h.call hq hmode).bind fun _ => .ret KnowsRead.stable fun _ _ h => h

theorem rowsFail_spec (message : String) : Spec g (KnowsRead g t v) (rowsFail message) fun _ => KnowsRead g t v :=
  (retryLog_spec (o := .choose) trivial fun _ => trivial).bind fun _ => .ret KnowsRead.stable fun _ _ h => h

theorem executeThenSubPlan_spec {req : RequestContext} (h : Planning g v) (hq : Sendable v req)
    (hmode : req.txnMode ≠ .txnWrite) :
    Spec g (KnowsRead g t v) (executeThenSubPlan g t req) fun _ => KnowsRead g t v := by
  refine (executeRequest_spec _ h hq hmode).bind fun r => ?_
  cases r with
  | some e => exact .ret KnowsRead.stable fun _ _ h => h
  | none => exact rowsFail_spec _

theorem getFields_spec (h : Planning g v) (node : PlanEngine) :
    Spec g (KnowsRead g t v) (getFields g t node) fun _ => KnowsRead g t v := by
  induction node with
  | merge mode rawQuery querys => exact executeRequest_spec _ h (sendable_plan _ _) nofun
  | union left right => exact .ret KnowsRead.stable fun _ _ h => h
  | join nestLoop left right ihl ihr =>
    refine ihl.bind fun r => ?_
    cases r with
    | some e => exact .ret KnowsRead.stable fun _ _ h => h
    | none => exact ihr

theorem bindLoop_spec {round : Bool → Go (Option Err)} {A : World → Prop} (hA : discipline.Stable g A)
    (hround : ∀ b, Spec g A (round b) fun _ => A) (n : ℕ) (wantfields : Bool) :
    Spec g A (bindLoop round n wantfields) fun _ => A := by
  induction n generalizing wantfields with
  | zero => exact .ret hA fun _ _ h => h
  | succ n ih =>
    refine (hround wantfields).bind fun r => ?_
    cases r with
    | some e => exact .ret hA fun _ _ h => h
    | none => exact ih false

theorem execBindVars_spec (h : Planning g v) (node : PlanEngine) (wantfields : Bool) :
    Spec g (KnowsRead g t v) (execBindVars g t node wantfields) fun _ => KnowsRead g t v := by
  induction node generalizing wantfields with
  | merge mode rawQuery querys => exact executeThenSubPlan_spec h (sendable_plan _ _) nofun
  | union left right => exact .ret KnowsRead.stable fun _ _ h => h
  | join nestLoop left right ihl ihr =>
    refine (ihl wantfields).bind fun r => ?_
    cases r with
    | some e => exact .ret KnowsRead.stable fun _ _ h => h
    | none =>
      refine (retryLog_spec (o := .choose) trivial fun _ => trivial).bind fun rows => ?_
      refine (bindLoop_spec KnowsRead.stable ihr rows wantfields).bind fun r => ?_
      cases r with
      | some e => exact .ret KnowsRead.stable fun _ _ h => h
      | none => grind [rowsFail_spec, getFields_spec]

theorem bothSides_spec {left right : Go (Option Err)} (hhand : v.hand = none)
    (hleft : Spec (.left :: g) (Knows (.left :: g) t v) left fun _ => KnowsRead (.left :: g) t v)
    (hright : Spec (.right :: g) (Knows (.right :: g) t v) right fun _ => KnowsRead (.right :: g) t v) :
    Spec g (Knows g t v) (bothSides left right) fun _ => KnowsRead g t v := by
  refine (sides_spec (B := fun _ => True) hhand (hleft.pre fun _ _ h => h.1) hright fun l r => ?_).pre
    fun w _ hk => ⟨hk, trivial⟩
  cases firstErr [l, r] with
  | some e => exact .ret KnowsRead.stable fun _ _ h => h
  | none => exact rowsFail_spec _

theorem planEngineExecute_spec (h : Planning g v) (node : PlanEngine) :
    Spec g (Knows g t v) (planEngineExecute g t node) fun _ => KnowsRead g t v := by
  induction node generalizing g with
  | merge mode rawQuery querys =>
    refine Triple.pre (A := KnowsRead g t v) ?_ fun w _ hk => hk.read
    unfold planEngineExecute mergeRequest
    cases mode with
    | reqNormal => exact executeThenSubPlan_spec h (sendable_plan "" querys) nofun
    | reqScatter => exact executeThenSubPlan_spec h (sendable_plan rawQuery []) nofun
    | reqSingle => exact executeThenSubPlan_spec h (sendable_plan rawQuery []) nofun
  | union left right ihl ihr =>
    exact bothSides_spec h.hand (ihl (h.side (.inl rfl))) (ihr (h.side (.inr rfl)))
  | join nestLoop left right ihl ihr =>
    cases nestLoop with
    | false => exact bothSides_spec h.hand (ihl (h.side (.inl rfl))) (ihr (h.side (.inr rfl)))
    | true =>
      refine Triple.pre (A := KnowsRead g t v) ?_ fun w _ hk => hk.read
      refine (execBindVars_spec h _ true).bind fun r => ?_
      cases r with
      | some e => exact .ret KnowsRead.stable fun _ _ h => h
      | none => exact rowsFail_spec _

/-- A plan leaves the branches it may have opened among the targets of its request. -/
theorem executeTree_spec (howner : v.owner = g) (hstage : v.stage = .opened) (hhand : v.hand = none)
    (hcall : v.call = none) (plan : Plan) : Spec g (Knows g t v) (executeTree g t plan) fun _ => Wrote g t v := by
  have hplan : Planning g v := ⟨howner ▸ v.plannedBy_self, by rw [hstage]; exact nofun, hhand, hcall⟩
  have hread : ∀ {w}, KnowsRead g t v w → Wrote g t v w := by
    rintro w ⟨r, _, hk⟩
    refine hk.wrote howner hstage hhand hcall ⟨rfl, rfl⟩ fun hnil _ _ _ b hb => ?_
    rw [hnil] at hb
    cases hb
  cases plan with
  | write rawQuery querys =>
    refine (txnExecute_write_spec howner hstage hhand hcall rfl fun v' => sendable_plan rawQuery querys).bind
      fun r => .ret Wrote.stable fun _ _ h => h
  | ddl rawQuery querys =>
    exact (executeRequest_spec (planRequest .txnNone rawQuery querys) hplan (sendable_plan _ _) nofun).conseq
      (fun _ _ => Knows.read) fun _ w _ h => hread h
  | others rawQuery querys =>
    exact (executeRequest_spec (planRequest .txnRead rawQuery querys) hplan (sendable_plan _ _) nofun).conseq
      (fun _ _ => Knows.read) fun _ w _ h => hread h
  | select root => exact (planEngineExecute_spec hplan root).post fun _ w _ h => hread h

section Footprint

theorem executeRequest_on (req : RequestContext) : (executeRequest g t req).All (Op.On t) :=
  (txnExecute_on req).bind fun _ => trivial

theorem rowsFail_on (message : String) : (rowsFail message).All (Op.On t) :=
  (act_all trivial).bind fun _ => trivial

theorem executeThenSubPlan_on (req : RequestContext) : (executeThenSubPlan g t req).All (Op.On t) := by
  refine (executeRequest_on req).bind fun r => ?_
  cases r with
  | some e => trivial
  | none => exact rowsFail_on _

theorem getFields_on (node : PlanEngine) : (getFields g t node).All (Op.On t) := by
  induction node with
  | merge mode rawQuery querys => exact executeRequest_on _
  | union left right => trivial
  | join nestLoop left right ihl ihr =>
    refine ihl.bind fun r => ?_
    cases r with
    | some e => trivial
    | none => exact ihr

theorem bindLoop_all {P : Op → Prop} {round : Bool → Go (Option Err)} (h : ∀ b, (round b).All P) (n : ℕ)
    (wantfields : Bool) : (bindLoop round n wantfields).All P := by
  induction n generalizing wantfields with
  | zero => trivial
  | succ n ih =>
    refine (h wantfields).bind fun r => ?_
    cases r with
    | some e => trivial
    | none => exact ih false

theorem execBindVars_on (node : PlanEngine) (wantfields : Bool) : (execBindVars g t node wantfields).All (Op.On t) := by
  induction node generalizing wantfields with
  | merge mode rawQuery querys => exact executeThenSubPlan_on _
  | union left right => trivial
  | join nestLoop left right ihl ihr =>
    refine (ihl wantfields).bind fun r => ?_
    cases r with
    | some e => trivial
    | none =>
      refine (act_all trivial).bind fun rows => (bindLoop_all ihr rows wantfields).bind fun r => ?_
      cases r with
      | some e => trivial
      | none => grind [rowsFail_on, getFields_on]

theorem bothSides_on {left right : Go (Option Err)} (hleft : left.All (Op.On t))
    (hright : right.All (Op.On t)) : (bothSides left right).All (Op.On t) := by
  refine ⟨hleft, hright, fun l r => ?_⟩
  dsimp only
  cases firstErr [l, r] with
  | some e => trivial
  | none => exact rowsFail_on _

theorem planEngineExecute_on (node : PlanEngine) : (planEngineExecute g t node).All (Op.On t) := by
  induction node generalizing g with
  | merge mode rawQuery querys => exact executeThenSubPlan_on _
  | union left right ihl ihr => exact bothSides_on ihl ihr
  | join nestLoop left right ihl ihr =>
    cases nestLoop with
    | false => exact bothSides_on ihl ihr
    | true =>
      refine (execBindVars_on _ true).bind fun r => ?_
      cases r with
      | some e => trivial
      | none => exact rowsFail_on _

theorem executeTree_on (plan : Plan) : (executeTree g t plan).All (Op.On t) := by
  cases plan with
  | select root => exact planEngineExecute_on root
  | _ => exact executeRequest_on _

end Footprint

end Radon
