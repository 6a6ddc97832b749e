import Radon.Concurrency.Appends
import Radon.Executor.Join

/-!
# The runs of `sortMergeJoin`

`mergeJoin` walks over the sorted rows and starts one goroutine for each left row of a chunk. They append to
the result under a lock, and the row that exceeds `maxrow` ends the join with an error. The result of every
run is compared with a loop over all pairs of rows.

`NullsafeCompare` puts the values in a total preorder with `NULL` below all others: `RowView.cells` takes a
value to its class, an element of `WithBot V` for a linear order `V`. The rows themselves are of any type.
-/

namespace Radon.Executor

open Planner Relational Concurrency List

variable {ρ V W γ : Type} [LinearOrder V] (view : RowView ρ V) (node : JoinNode W)
  (join : ρ → Option ρ → γ)

/-! ## The join of the executor -/

/-- The calls of `concatLeftAndRight` and `concatLeftAndNil` that `mergeJoin` makes on sorted rows, each with
what its goroutines append. `concatLeftAndNil` appends its rows itself. -/
def mergeJoinCalls (lres rres : List ρ) : List (List (List γ)) :=
  mergeLoop (fun lrow rrow => compareKeys (node.leftIndexes.zip node.rightIndexes) (view.cells lrow) (view.cells rrow))
    (fun lrows rrows => [lrows.map (view.mathOps node join rrows)])
    (fun lrows => [[leftAndNil node join lrows]])
    (chunks (fun a b => keysEqual node.leftIndexes (view.cells a) (view.cells b)) lres)
    (chunks (fun a b => keysEqual node.rightIndexes (view.cells a) (view.cells b)) rres)

/-- The key of a row. -/
def RowView.key (keys : List ℕ) (row : ρ) : List (WithBot V) := keyOf keys (view.cells row)

/-- What `sort.Slice` may return: the rows ordered by their keys. -/
structure IsSorted (keys : List ℕ) (rows sorted : List ρ) : Prop where
  perm : sorted.Perm rows
  ordered : sorted.Pairwise fun a b => view.key keys a ≤ view.key keys b

/-- A run of `sortMergeJoin` and its result. -/
inductive SortMergeJoin (maxrow : ℕ) (lres rres : List ρ) : Except String (List γ) → Prop
  | run (lsorted rsorted : List ρ) (rows : List γ) (failed : Bool)
    (left : IsSorted view node.leftIndexes lres lsorted) (right : IsSorted view node.rightIndexes rres rsorted)
    (calls : Batches maxrow [] (mergeJoinCalls view node join lsorted rsorted) rows failed) :
    SortMergeJoin maxrow lres rres (if failed then .error (tooManyRows maxrow) else .ok rows)

/-! ## The loop over all pairs -/

/-- A residual filter in three-valued logic, with its operands in the order of the statement. -/
def filterTruth (sem : Sem V) (lrow rrow : ρ) (filter : Comparison) : Option Bool :=
  let left := cell (view.cells lrow) filter.left
  let right := cell (view.cells rrow) filter.right
  if filter.exchange then filter.operator.eval sem right left else filter.operator.eval sem left right

/-- The right row is a partner of the left row. -/
def IsPartner (sem : Sem V) (lrow rrow : ρ) : Prop :=
  (∀ idx ∈ node.leftTmpCols, view.castToBool lrow idx = true) ∧
    (∀ key ∈ node.leftIndexes.zip node.rightIndexes,
      cell (view.cells lrow) key.1 = cell (view.cells rrow) key.2 ∧ cell (view.cells lrow) key.1 ≠ ⊥) ∧
    ∀ filter ∈ node.cmpFilter, filterTruth view sem lrow rrow filter = some true

instance (sem : Sem V) (lrow rrow : ρ) : Decidable (IsPartner view node sem lrow rrow) :=
  inferInstanceAs (Decidable (_ ∧ _ ∧ _))

/-- The rows of one left row: its partners with `NULL` in all `RightTmpCols`, and in a left join the row
alone if it has no partner. -/
def loopRows (sem : Sem V) (rres : List ρ) (lrow : ρ) : List γ :=
  let partners := rres.filter fun rrow => IsPartner view node sem lrow rrow
  let kept := partners.filter fun rrow => node.rightTmpCols.all fun idx => cell (view.cells rrow) idx = ⊥
  kept.map (fun rrow => join lrow (some rrow)) ++
    if node.isLeftJoin ∧ partners = [] then [join lrow none] else []

/-- The join as a loop over the left rows. -/
def nestedLoop (sem : Sem V) (lres rres : List ρ) : List γ := lres.flatMap (loopRows view node join sem rres)

/-! ## All runs give the rows of the loop -/

/-- A filter of the executor matches exactly when it is true in three-valued logic. -/
theorem acceptsRows_iff (sem : Sem V) {filter : Comparison} (h : filter.operator.ordered = true)
    (lrow rrow : ρ) : acceptsRows (view.cells lrow) (view.cells rrow) filter = true ↔
      filterTruth view sem lrow rrow filter = some true := by
  obtain ⟨l, r, op, exchange⟩ := filter
  simp only [acceptsRows, filterTruth]
  -- swapping the operands swaps them in both readings
  generalize cell (view.cells lrow) l = x
  generalize cell (view.cells rrow) r = y
  cases op <;> cases h <;> cases exchange <;> induction x <;> induction y <;>
    simp [acceptsValues, accepts, CmpOp.eval, CmpOp.holds]

/-- The right rows that `mergeJoin` brings together with a left row. -/
def sameKey (rres : List ρ) (lrow : ρ) : List ρ :=
  matching (view.key node.leftIndexes) (view.key node.rightIndexes) Valid rres lrow

theorem loopRows_perm (sem : Sem V) {rres rres' : List ρ} (h : rres.Perm rres') (lrow : ρ) :
    (loopRows view node join sem rres lrow).Perm (loopRows view node join sem rres' lrow) := by
  have hpartners := h.filter fun rrow => IsPartner view node sem lrow rrow
  simp only [loopRows, ← length_eq_zero_iff, hpartners.length_eq]
  exact ((hpartners.filter _).map _).append_right _

theorem compareKeys_view {lkeys rkeys : List ℕ} (hlen : lkeys.length = rkeys.length) :
    ComparesKeys (fun lrow rrow => compareKeys (lkeys.zip rkeys) (view.cells lrow) (view.cells rrow))
      (view.key lkeys) (view.key rkeys) Valid where
  less _ _ := (compareKeys_spec hlen).less _ _
  greater _ _ := (compareKeys_spec hlen).greater _ _
  same _ _ := (compareKeys_spec hlen).same _ _
  null _ _ := (compareKeys_spec hlen).null _ _

variable {view node} in
theorem IsSorted.grouped {keys : List ℕ} {rows sorted : List ρ} (h : IsSorted view keys rows sorted) :
    Grouped (view.key keys) (chunks (fun a b => keysEqual keys (view.cells a) (view.cells b)) sorted) :=
  chunks_grouped (fun a b => keysEqual_iff keys (view.cells a) (view.cells b)) h.ordered

theorem exists_isSorted (keys : List ℕ) (rows : List ρ) : ∃ sorted, IsSorted view keys rows sorted := by
  let le : ρ → ρ → Bool := fun a b => view.key keys a ≤ view.key keys b
  refine ⟨rows.mergeSort le, mergeSort_perm rows le, ?_⟩
  have hsorted : (rows.mergeSort le).Pairwise fun a b => le a b = true := by
    refine pairwise_mergeSort (fun a b c hab hbc => ?_) (fun a b => ?_) rows
    · grind
    · grind
  exact hsorted.imp of_decide_eq_true

section Loop

variable (sem : Sem V) (hlen : node.leftIndexes.length = node.rightIndexes.length)
  (hops : ∀ filter ∈ node.cmpFilter, filter.operator.ordered = true) (hright : node.hasRightFilter = false)

include hlen hops

/-- The rows with the key of a left row that pass the tests of `mathOps` are its partners. -/
theorem filter_sameKey (rres : List ρ) (lrow : ρ) :
    (if node.leftTmpCols.all fun idx => view.castToBool lrow idx then (sameKey view node rres lrow).filter fun rrow =>
        node.cmpFilter.all (acceptsRows (view.cells lrow) (view.cells rrow)) else []) =
      rres.filter fun rrow => IsPartner view node sem lrow rrow := by
  split
  next hleft =>
    have hkeys : sameKey view node rres lrow = rres.filter fun rrow =>
        ∀ key ∈ node.leftIndexes.zip node.rightIndexes,
          cell (view.cells lrow) key.1 = cell (view.cells rrow) key.2 ∧ cell (view.cells lrow) key.1 ≠ ⊥ :=
      matching_eq_filter fun rrow _ => decide_eq_true_iff.trans (keys_iff hlen _ _)
    rw [hkeys, filter_filter]
    refine filter_congr fun rrow _ => ?_
    rw [Bool.eq_iff_iff, Bool.and_eq_true, decide_eq_true_eq, decide_eq_true_eq, all_eq_true,
      forall₂_congr fun filter hf => acceptsRows_iff view sem (hops filter hf) lrow rrow]
    exact ⟨fun h => ⟨all_eq_true.1 hleft, h.2, h.1⟩, fun h => ⟨h.2.2, h.2.1⟩⟩
  next hleft =>
    refine (filter_eq_nil_iff.2 fun rrow _ h => hleft ?_).symm
    exact all_eq_true.2 (of_decide_eq_true h).1

include hright

/-- What a left row appends are its rows in the loop. -/
theorem mathOps_sameKey (rres : List ρ) (lrow : ρ) :
    view.mathOps node join (sameKey view node rres lrow) lrow = loopRows view node join sem rres lrow := by
  rw [RowView.mathOps, filter_sameKey view node sem hlen hops, loopRows, hright]
  simp only [Bool.not_false, Bool.and_true]
  generalize rres.filter _ = partners
  cases partners with
  | nil => simp [emit]
  | cons rrow partners => simp [emit]

/-- The rows that all goroutines append are those of the loop. -/
theorem mergeJoinCalls_perm {lres rres lsorted rsorted : List ρ} (hl : IsSorted view node.leftIndexes lres lsorted)
    (hr : IsSorted view node.rightIndexes rres rsorted) :
    (mergeJoinCalls view node join lsorted rsorted).flatten.flatten.Perm (nestedLoop view node join sem lres rres) := by
  have hboth : ∀ lrows rrows : List ρ, ([lrows.map (view.mathOps node join rrows)]).flatMap List.flatten =
      lrows.flatMap fun lrow => view.mathOps node join rrows lrow := by
    intro lrows rrows
    rw [flatMap_singleton, flatMap_def]
  have hleft : ∀ lrows : List ρ, ([[leftAndNil node join lrows]]).flatMap List.flatten =
      lrows.flatMap fun lrow => view.mathOps node join [] lrow := by
    intro lrows
    rw [flatMap_singleton, flatten_singleton, leftAndNil_eq view]
  have hcalls : (mergeJoinCalls view node join lsorted rsorted).flatten.flatten =
      lsorted.flatMap (loopRows view node join sem rsorted) := by
    rw [flatten_flatten, ← flatMap_def, mergeJoinCalls, flatMap_mergeLoop,
      mergeLoop_eq (compareKeys_view view hlen) hboth hleft hl.grouped hr.grouped, flatten_chunks, flatten_chunks]
    exact flatMap_congr fun lrow _ => mathOps_sameKey view node join sem hlen hops hright rsorted lrow
  rw [hcalls, nestedLoop]
  refine (hl.perm.flatMap_right _).trans ?_
  exact List.Perm.flatMap_left _ fun lrow _ => loopRows_perm view node join sem hr.perm lrow

end Loop

/-- `sortMergeJoin` ends, and whatever the order of its goroutines it returns the rows of the loop, or an
error if they are more than `maxrow`. -/
theorem sortMergeJoin_nestedLoop (sem : Sem V) (hlen : node.leftIndexes.length = node.rightIndexes.length)
    (hops : ∀ filter ∈ node.cmpFilter, filter.operator.ordered = true) (hright : node.hasRightFilter = false)
    (maxrow : ℕ) (lres rres : List ρ) :
    (∃ res, SortMergeJoin view node join maxrow lres rres res) ∧
      ∀ res, SortMergeJoin view node join maxrow lres rres res →
        if maxrow < (nestedLoop view node join sem lres rres).length then res = .error (tooManyRows maxrow)
        else ∃ rows, res = .ok rows ∧ rows.Perm (nestedLoop view node join sem lres rres) := by
  constructor
  · obtain ⟨lsorted, hl⟩ := exists_isSorted view node.leftIndexes lres
    obtain ⟨rsorted, hr⟩ := exists_isSorted view node.rightIndexes rres
    obtain ⟨rows, failed, hcalls⟩ :=
      Batches.exists_run maxrow [] (mergeJoinCalls view node join lsorted rsorted)
    exact ⟨_, .run lsorted rsorted rows failed hl hr hcalls⟩
  · rintro _ ⟨lsorted, rsorted, rows, failed, hl, hr, hcalls⟩
    have hperm := mergeJoinCalls_perm view node join sem hlen hops hright hl hr
    obtain ⟨hfailed, hrows⟩ := hcalls.spec
    rw [hperm.length_eq] at hfailed
    cases failed with
    | true => rw [if_pos (of_decide_eq_true hfailed.symm), if_pos rfl]
    | false =>
      rw [if_neg (of_decide_eq_false hfailed.symm)]
      exact ⟨rows, rfl, (hrows rfl).trans hperm⟩

/-- Numbers, with the truth values of MySQL. -/
def numberSem : Sem ℕ where
  resolve t := t
  lit _ := ⊥
  like _ _ := false
  regexp _ _ := false
  ofTruth t := t.elim ⊥ fun b => (b.toNat : ℕ)
  castToBool v := decide (v ≠ ⊥ ∧ v ≠ (0 : ℕ))
  castToBool_ofTruth t := by rcases t with _ | _ | _ <;> decide

/-- A left join on the first columns, where the second column must be larger on the right. -/
def pairsNode : JoinNode ℕ where
  shape := .join .left none
  hasJoinExpr := true
  isLeftJoin := true
  joinOn := []
  cols := [.left 1, .right 1]
  leftKeys := [⟨.scalar (.col ⟨"", "t1", "a"⟩), some 0⟩]
  rightKeys := [⟨.scalar (.col ⟨"", "t2", "a"⟩), some 0⟩]
  cmpFilter := [⟨1, 1, .lessThan, false⟩]

/-- A left row with one partner and one with `NULL` in its key, within the limit and beyond it. -/
theorem pairsNode_joined :
    (∀ res, SortMergeJoin (valueRows numberSem) pairsNode (fun l r => joinRows l r pairsNode.cols) 2
      [[(1 : ℕ), (5 : ℕ)], [⊥, (6 : ℕ)]] [[(1 : ℕ), (7 : ℕ)], [⊥, (8 : ℕ)], [(1 : ℕ), (4 : ℕ)]] res →
        ∃ rows, res = .ok rows ∧ rows.Perm [[(5 : ℕ), (7 : ℕ)], [(6 : ℕ), ⊥]]) ∧
      ∀ res, SortMergeJoin (valueRows numberSem) pairsNode (fun l r => joinRows l r pairsNode.cols) 1
        [[(1 : ℕ), (5 : ℕ)], [⊥, (6 : ℕ)]] [[(1 : ℕ), (7 : ℕ)], [⊥, (8 : ℕ)], [(1 : ℕ), (4 : ℕ)]] res →
          res = .error (tooManyRows 1) :=
  ⟨(sortMergeJoin_nestedLoop (valueRows numberSem) pairsNode _ numberSem rfl (by decide) rfl 2 _ _).2,
    (sortMergeJoin_nestedLoop (valueRows numberSem) pairsNode _ numberSem rfl (by decide) rfl 1 _ _).2⟩

end Radon.Executor
