import Radon.Concurrency.Run
import Radon.System.Placement

/-!
# Auto-increment columns

The proxy numbers the rows of an `INSERT` that does not name the auto-increment column. A statement reserves
as many numbers as it has rows under the mutex of the plugin and gives them out later.

The rows of a statement that names the column stay as they are, also those that leave the value to the
partition. A statement with a list of columns and a subquery has no rows to number, and the plugin panics.
-/

namespace Radon.AutoIncrement

open Planner Concurrency List

/-- A value in a row of an `INSERT`; of other expressions we keep whether they are `NULL`. -/
inductive Value
  | val (v : SQLVal)
  | null
  | default
  | other (isNull : Bool)
  deriving DecidableEq

/-- `InsertRows`. -/
inductive InsertRows
  | values (rows : List (List Value))
  | select

/-- The parts of `sqlparser.Insert` that the plugin reads. The columns may be nil. -/
structure Insert where
  columns : Option (List String)
  rows : InsertRows

/-- The number of rows for which numbers are reserved. -/
def InsertRows.count : InsertRows → ℕ
  | .values rows => rows.length
  | .select => 0

/-- The values of `seq` in the loop of `modifyForAutoinc`. -/
def seqs (seq : UInt64) : ℕ → List UInt64
  | 0 => []
  | n + 1 => (seq + 1) :: seqs (seq + 1) n

/-- `NewIntVal` of a number. -/
def newIntVal (seq : UInt64) : Value := .val ⟨.intVal, toString seq⟩

/-- The statement names the auto-increment column. -/
def listed (columns : List String) (column : String) : Bool := columns.any (equalString · column)

/-- The numbers that `modifyForAutoinc` gives to the rows. -/
def generated (columns : List String) (rows : InsertRows) (autoinc : Option String) (seq : UInt64) :
    List UInt64 :=
  match autoinc with
  | none => []
  | some column => if listed columns column then [] else seqs seq rows.count

/-- What `handleInsert` does with the statement of a hash or list table before it is planned. -/
inductive Outcome
  | error (e : String)
  | panic
  | planned (columns : List String) (rows : InsertRows)

/-- `modifyForAutoinc`; a subquery is not a list of rows. -/
def modifyForAutoinc (columns : List String) (rows : InsertRows) (column : String) (seq : UInt64) : Outcome :=
  if listed columns column then .planned columns rows
  else
    match rows with
    | .select => .panic
    | .values rows =>
      .planned (columns ++ [column])
        (.values (List.zipWith (fun row seq => row ++ [newIntVal seq]) rows (seqs seq rows.length)))

/-- The columns of the statement, or those of the first partition. -/
def Insert.columnsOr (ins : Insert) (desc : Except String (List String)) : Except String (List String) :=
  match ins.columns with
  | none => desc
  | some columns => .ok columns

/-- `handleInsert` up to `ExecuteDML`, with the answer to `DESC`, the auto-increment column of the table and the
number that `Process` has read. -/
def handleInsert (desc : Except String (List String)) (autoinc : Option String) (seq : UInt64) (ins : Insert) :
    Outcome :=
  match ins.columnsOr desc with
  | .error e => .error e
  | .ok columns =>
    match autoinc with
    | none => .planned columns ins.rows
    | some column => modifyForAutoinc columns ins.rows column seq

/-! ## The numbers of concurrent statements -/

/-- How far a call of `Process` has come. -/
inductive Call
  | idle
  | lock (columns : List String) (rows : InsertRows) (autoinc : Option String)
  | modify (columns : List String) (rows : InsertRows) (autoinc : Option String) (seq : UInt64)
  | returned (values : List UInt64)

/-- The numbers that belong to the call. -/
def Call.values : Call → List UInt64
  | .modify columns rows autoinc seq => generated columns rows autoinc seq
  | .returned values => values
  | _ => []

/-- The plugin and the calls of `Process`. -/
structure Plugin where
  seq : UInt64
  calls : ℕ → Call

/-- A call begins, or takes its next step. -/
inductive Action
  | invoke (i : ℕ) (columns : List String) (rows : InsertRows) (autoinc : Option String)
  | step (i : ℕ)

namespace Plugin

/-- The next state. The counter is read and raised under the mutex, in one step. -/
def act (s : Plugin) : Action → Option Plugin
  | .invoke i columns rows autoinc =>
    match s.calls i with
    | .idle => some { s with calls := Function.update s.calls i (.lock columns rows autoinc) }
    | _ => none
  | .step i =>
    match s.calls i with
    | .lock columns rows autoinc => some
        { seq := s.seq + UInt64.ofNat rows.count
          calls := Function.update s.calls i (.modify columns rows autoinc s.seq) }
    | .modify columns rows autoinc seq => some
        { s with calls := Function.update s.calls i (.returned (generated columns rows autoinc seq)) }
    | _ => none

/-- The plugin after `Init`. -/
def init (seq : UInt64) : Plugin := ⟨seq, fun _ => .idle⟩

/-- The counter does not wrap. -/
def NoWrap (s : Plugin) : Action → Prop
  | .step i => ∀ columns rows autoinc, s.calls i = .lock columns rows autoinc →
      s.seq.toNat + rows.count < 2 ^ 64
  | _ => True

/-- The numbers of a statement are strictly increasing, and no other statement has one of them. -/
structure Distinct (s : Plugin) : Prop where
  increasing : ∀ i, (s.calls i).values.Pairwise (· < ·)
  disjoint : ∀ i j, i ≠ j → (s.calls i).values.Disjoint (s.calls j).values

/-- No number is behind the counter. -/
def Bounded (s : Plugin) : Prop := ∀ i, ∀ v ∈ (s.calls i).values, v ≤ s.seq

end Plugin

theorem toNat_add_one {seq : UInt64} (h : seq.toNat + 1 < 2 ^ 64) : (seq + 1).toNat = seq.toNat + 1 := by
  rw [UInt64.toNat_add]
  exact Nat.mod_eq_of_lt h

theorem seqs_spec (n : ℕ) (seq : UInt64) (h : seq.toNat + n < 2 ^ 64) :
    (seqs seq n).Pairwise (· < ·) ∧ ∀ v ∈ seqs seq n, seq < v ∧ v.toNat ≤ seq.toNat + n := by
  induction n generalizing seq with
  | zero => exact ⟨.nil, by simp [seqs]⟩
  | succ n ih =>
    have hsucc : (seq + 1).toNat = seq.toNat + 1 := toNat_add_one (by omega)
    obtain ⟨hincr, hmem⟩ := ih (seq + 1) (by omega)
    refine ⟨pairwise_cons.2 ⟨fun v hv => (hmem v hv).1, hincr⟩, ?_⟩
    intro v hv
    rw [UInt64.lt_iff_toNat_lt]
    obtain rfl | hv := mem_cons.1 hv
    · omega
    · have hv := hmem v hv
      rw [UInt64.lt_iff_toNat_lt] at hv
      omega

variable {columns : List String}

theorem generated_spec (columns : List String) {rows : InsertRows} (autoinc : Option String) {seq : UInt64}
    (h : seq.toNat + rows.count < 2 ^ 64) : (generated columns rows autoinc seq).Pairwise (· < ·) ∧
      ∀ v ∈ generated columns rows autoinc seq, seq < v ∧ v.toNat ≤ seq.toNat + rows.count := by
  unfold generated
  grind [seqs_spec]

theorem length_seqs (n : ℕ) (seq : UInt64) : (seqs seq n).length = n := by
  induction n generalizing seq with
  | zero => rfl
  | succ n ih => rw [seqs, length_cons, ih]

/-- `modifyForAutoinc` puts the generated numbers, one by one, behind the rows of the client, and nothing else. -/
theorem modifyForAutoinc_generated {columns' : List String} {rows rows' : List (List Value)} {column : String}
    {seq : UInt64} (h : modifyForAutoinc columns (.values rows) column seq = .planned columns' (.values rows')) :
    ∃ tails : List (List Value), tails.length = rows.length ∧ rows' = zipWith (· ++ ·) rows tails ∧
      tails.flatten = (generated columns (.values rows) (some column) seq).map newIntVal := by
  simp only [generated]
  cases hlisted : listed columns column with
  | true =>
    simp only [modifyForAutoinc, hlisted, if_true] at h ⊢
    cases h
    refine ⟨rows.map fun _ => [], length_map _, ?_, by simp⟩
    rw [zipWith_map_right, zipWith_self]
    simp
  | false =>
    simp only [modifyForAutoinc, hlisted, Bool.false_eq_true, if_false] at h ⊢
    cases h
    refine ⟨(seqs seq rows.length).map fun n => [newIntVal n], ?_, ?_, ?_⟩
    · rw [length_map, length_seqs]
    · rw [zipWith_map_right]
    · rw [← flatMap_def, ← map_eq_flatMap]
      rfl

namespace Plugin

variable {s t : Plugin}

/-- A step of a call that keeps its numbers, or has none yet. -/
theorem values_update {i : ℕ} {c : Call} (h : c.values = (s.calls i).values) (j : ℕ) :
    (Function.update s.calls i c j).values = (s.calls j).values := by grind

theorem Distinct.of_values (hs : s.Distinct ∧ s.Bounded) (hseq : t.seq = s.seq)
    (h : ∀ j, (t.calls j).values = (s.calls j).values) : t.Distinct ∧ t.Bounded := by
  refine ⟨⟨fun i => ?_, fun i j hij => ?_⟩, fun i v hv => ?_⟩
  · exact h i ▸ hs.1.increasing i
  · exact h i ▸ h j ▸ hs.1.disjoint i j hij
  · exact hseq ▸ hs.2 i v (h i ▸ hv)

/-- The numbers that a call reserves lie behind those of all others. -/
theorem Distinct.reserve (hs : s.Distinct ∧ s.Bounded) {i : ℕ} {rows : InsertRows} {autoinc : Option String}
    (h : s.seq.toNat + rows.count < 2 ^ 64) (hseq : t.seq = s.seq + UInt64.ofNat rows.count)
    (hcalls : t.calls = Function.update s.calls i (.modify columns rows autoinc s.seq)) : t.Distinct ∧ t.Bounded := by
  obtain ⟨hincr, hnew⟩ := generated_spec columns autoinc h
  have hseq : t.seq.toNat = s.seq.toNat + rows.count := by simp_all
  have hself : (t.calls i).values = generated columns rows autoinc s.seq := by
    rw [hcalls, Function.update_self]
    rfl
  have hother {j : ℕ} (hj : j ≠ i) : (t.calls j).values = (s.calls j).values := by
    rw [hcalls, Function.update_of_ne hj]
  have hdisjoint {j : ℕ} (hj : j ≠ i) : (t.calls j).values.Disjoint (t.calls i).values := by
    rw [hself, hother hj]
    exact fun v hold hv => absurd (hnew v hv).1 (UInt64.not_lt.2 (hs.2 j v hold))
  refine ⟨⟨fun j => ?_, fun j k hjk => ?_⟩, fun j v hv => UInt64.le_iff_toNat_le.2 ?_⟩
  · grind [increasing]
  · obtain rfl | hj := eq_or_ne j i
    · exact (hdisjoint hjk.symm).symm
    · grind [disjoint]
  · obtain rfl | hj := eq_or_ne j i
    · exact hseq ▸ (hnew v (hself ▸ hv)).2
    · have hle := UInt64.le_iff_toNat_le.1 (hs.2 j v (hother hj ▸ hv))
      omega

theorem Distinct.act {a : Action} (hs : s.Distinct ∧ s.Bounded) (hwrap : s.NoWrap a)
    (h : s.act a = some t) : t.Distinct ∧ t.Bounded := by
  cases a with
  | invoke i columns rows autoinc =>
    simp only [Plugin.act] at h
    split at h
    · rename_i hcall
      cases h
      exact Distinct.of_values hs rfl (values_update (by rw [hcall]; rfl))
    · cases h
  | step i =>
    simp only [Plugin.act] at h
    split at h
    · rename_i columns rows autoinc hcall
      cases h
      exact Distinct.reserve hs (hwrap columns rows autoinc hcall) rfl rfl
    · rename_i hcall
      cases h
      exact Distinct.of_values hs rfl (values_update (by rw [hcall]; rfl))
    · cases h

/-- In every run in which the counter does not wrap, the numbers of a statement are strictly increasing and
belong to no other statement. -/
theorem distinct_of_noWrap (seq : UInt64) {as : List Action} (h : EachStep act (init seq) as NoWrap) :
    Always act (init seq) as Distinct := by
  have hinit : (init seq).Distinct ∧ (init seq).Bounded :=
    ⟨⟨fun _ => .nil, fun _ _ _ => List.disjoint_nil_left _⟩, fun _ _ hv => absurd hv List.not_mem_nil⟩
  have hall : Always act (init seq) as fun s => s.Distinct ∧ s.Bounded :=
    always_of_step hinit fun pre a u v hpre hu hs huv => Distinct.act hs (h pre a u hpre hu) huv
  exact fun pre t hpre ht => (hall pre t hpre ht).1

/-- Two statements on a table with the column `seq`, the second reserves its numbers first. -/
theorem distinct_of_two_statements :
    let as := [.invoke 0 ["id"] (.values [[], []]) (some "seq"),
      .invoke 1 ["id"] (.values [[], [], []]) (some "seq"), .step 1, .step 0]
    Always act (init 5) as Distinct ∧
      (runSteps act (init 5) as).map (fun s => [0, 1].map fun i => (s.calls i).values) = some [[9, 10], [6, 7, 8]] := by
  refine ⟨distinct_of_noWrap 5 ?_, by decide +kernel⟩
  refine eachStep_cons rfl trivial (eachStep_cons rfl trivial ?_)
  refine eachStep_cons rfl (fun _ _ _ hcall => by cases hcall; decide) ?_
  exact eachStep_cons rfl (fun _ _ _ hcall => by cases hcall; decide) (eachStep_nil _ _)

end Plugin

/-! ## Rows without a number -/

/-- The value is not left to the partition. -/
def Value.explicit : Value → Bool
  | .val _ => true
  | .null => false
  | .default => false
  | .other isNull => !isNull

/-- The value as the planner sees it. -/
def Value.scalar : Value → Scalar Unit
  | .val v => .val v
  | .null => .null
  | .default => .other [] fun _ => ⊥
  | .other isNull => .other [] fun _ => if isNull then ⊥ else ↑()

section Rewriting

variable (r : Router) (H : Hasher) (database table : String) (onDup : List String)

/-- The statement has a plan, and MySQL takes its rows: each has as many values as there are columns. -/
def Executed (columns : List String) (rows : List (List Value)) : Prop :=
  (∃ qs, InsertPlan.build r H database table columns onDup (rows.map (·.map Value.scalar)) = .ok qs) ∧
    ∀ row ∈ rows, row.length = columns.length

/-- `handleInsert` does not panic, and every row that is executed has an explicit value of the client or its
own number at the auto-increment column. -/
def Numbered (column : String) (seq : UInt64) (ins : Insert) (out : Outcome) : Prop :=
  out ≠ .panic ∧ ∀ columns rows, out = .planned columns (.values rows) →
    Executed r H database table onDup columns rows →
    ∃ idx, (columns.findIdx? (equalString · column)) = some idx ∧ ∀ (k : ℕ) row, rows[k]? = some row →
      ∃ v, row[idx]? = some v ∧
        ((∃ client row₀, ins.rows = .values client ∧ client[k]? = some row₀ ∧ row₀[idx]? = some v ∧
          v.explicit = true) ∨ ∃ n, (seqs seq ins.rows.count)[k]? = some n ∧ v = newIntVal n)

variable {r H database table onDup} {column : String} {seq : UInt64} {ins : Insert}

/-- A statement that names the column keeps the values of the client. -/
theorem numbered_listed_iff (h : listed columns column = true) :
    Numbered r H database table onDup column seq ins (.planned columns ins.rows) ↔
      ∀ rows idx, ins.rows = .values rows → columns.findIdx? (equalString · column) = some idx →
        Executed r H database table onDup columns rows → ∀ row ∈ rows, ∀ v, row[idx]? = some v → v.explicit = true := by
  obtain ⟨idx, hidx⟩ := Option.isSome_iff_exists.1 (List.findIdx?_isSome.trans h)
  constructor
  · rintro ⟨-, hall⟩ rows idx' hrows hidx' hexec row hrow v hv
    obtain ⟨i, hi, hrows'⟩ := hall columns rows (by rw [hrows]) hexec
    cases hidx'.symm.trans hi
    obtain ⟨k, hk⟩ := mem_iff_getElem?.1 hrow
    grind [Value.explicit, newIntVal]
  · refine fun hall => ⟨by simp, fun columns' rows hout hexec => ?_⟩
    obtain ⟨rfl, hrows⟩ := Outcome.planned.inj hout
    refine ⟨idx, hidx, fun k row hk => ?_⟩
    have hmem := mem_of_getElem? hk
    have hlt : idx < row.length := by
      rw [hexec.2 row hmem]
      exact (List.findIdx?_eq_some_iff_findIdx_eq.1 hidx).1
    have hv := List.getElem?_eq_getElem hlt
    grind

/-- A statement that does not name the column gets a number for every row. -/
theorem numbered_unlisted {rows : List (List Value)} (h : listed columns column = false)
    (hrows : ins.rows = .values rows) : Numbered r H database table onDup column seq ins (.planned (columns ++ [column])
      (.values (List.zipWith (fun row seq => row ++ [newIntVal seq]) rows (seqs seq rows.length)))) := by
  refine ⟨by simp, fun columns' rows' hout hexec => ⟨columns.length, ?_, fun k row hk => ?_⟩⟩
  · grind [equalString, listed]
  · obtain ⟨rfl, hrows'⟩ := Outcome.planned.inj hout
    cases hrows'
    obtain ⟨row₀, n, -, hn, rfl⟩ := List.getElem?_zipWith_eq_some.1 hk
    have hlen := hexec.2 _ (mem_of_getElem? hk)
    grind [InsertRows.count]

/-- Every row has its value exactly if a subquery comes with the auto-increment column and every row that is
executed and has a value for it has an explicit one. -/
theorem numbered_iff {desc : Except String (List String)} :
    Numbered r H database table onDup column seq ins (handleInsert desc (some column) seq ins) ↔
      ∀ columns, ins.columnsOr desc = .ok columns →
        (ins.rows = .select → listed columns column = true) ∧
        ∀ rows idx, ins.rows = .values rows → columns.findIdx? (equalString · column) = some idx →
          Executed r H database table onDup columns rows → ∀ row ∈ rows, ∀ v, row[idx]? = some v →
            v.explicit = true := by
  unfold handleInsert
  cases hcolumns : ins.columnsOr desc with
  | error e => exact iff_of_true ⟨nofun, nofun⟩ nofun
  | ok columns =>
    simp only [Except.ok.injEq, forall_eq', modifyForAutoinc]
    split
    · rename_i hlisted
      rw [numbered_listed_iff hlisted]
      exact (and_iff_right fun _ => hlisted).symm
    · rename_i hunlisted
      cases hrows : ins.rows with
      | select => exact iff_of_false (fun h => h.1 rfl) fun h => hunlisted (h.1 rfl)
      | values rows =>
        rw [Bool.not_eq_true] at hunlisted
        refine iff_of_true (numbered_unlisted hunlisted hrows) ⟨nofun, fun rows idx _ hidx => ?_⟩
        rw [List.findIdx?_eq_none_iff.2 (by simpa [listed] using hunlisted)] at hidx
        cases hidx

/-- `INSERT INTO t(id) SELECT ..` panics, and `INSERT INTO t(id, seq) VALUES(1, NULL)` is sent as it is. -/
theorem subquery_and_null_unnumbered :
    ¬ Numbered listRouter firstSlot "db" "t" [] "seq" 5 ⟨some ["id"], .select⟩
      (handleInsert (.ok []) (some "seq") 5 ⟨some ["id"], .select⟩) ∧
    ¬ Numbered listRouter firstSlot "db" "t" [] "seq" 5
      ⟨some ["id", "seq"], .values [[.val ⟨.intVal, "1"⟩, .null]]⟩
      (handleInsert (.ok []) (some "seq") 5 ⟨some ["id", "seq"], .values [[.val ⟨.intVal, "1"⟩, .null]]⟩) := by
  have hid : equalString "id" "seq" = false := by decide +kernel
  have hlisted : listed ["id", "seq"] "seq" = true := by decide +kernel
  have hidx : (["id", "seq"].findIdx? fun column => equalString column listConf.shardKey) = some 0 := by
    decide +kernel
  refine ⟨fun h => h.1 (by simp [handleInsert, Insert.columnsOr, modifyForAutoinc, listed, hid]), fun h => ?_⟩
  simp only [handleInsert, Insert.columnsOr, modifyForAutoinc, hlisted, if_true] at h
  have hexec : Executed listRouter firstSlot "db" "t" [] ["id", "seq"] [[.val ⟨.intVal, "1"⟩, .null]] := by
    refine ⟨⟨[⟨⟨"backend1", "t_0000", .list 0⟩, [[.val ⟨.intVal, "1"⟩, .null]]⟩], ?_⟩, by simp⟩
    simp only [InsertPlan.build, listRouter_built.entry, bind, Except.bind, isUpdateShardKey, List.any_nil,
      Bool.and_false, Bool.false_eq_true, if_false, hidx]
    rfl
  cases (numbered_listed_iff hlisted).1 h _ 1 rfl (by decide +kernel) hexec _ List.mem_cons_self .null rfl

end Rewriting

end Radon.AutoIncrement
