import Mathlib.Data.Int.DivMod
import Radon.Router.PartitionSpec

/-!
# LIMIT

`LimitPlan` reads the two numbers of a `LIMIT` clause and makes the one of the queries from their sum.
The parser folds the sign of a number into its token, so that the numbers can be negative.
-/

namespace Radon.Aggregate

open List

/-- An expression of a `LIMIT` clause: a literal, or something that is not supported. -/
inductive LimitExpr
  | val (v : SQLVal)
  | other
  deriving DecidableEq

/-- `sqlparser.Limit`. -/
structure LimitClause where
  offset : Option LimitExpr := none
  rowcount : LimitExpr
  deriving DecidableEq

/-- `strconv.ParseUint(s, 10, 64)`. -/
def parseUint10 (cs : List Char) : Except NumError ℕ :=
  if cs = [] then .error .invalidSyntax else parseDigits 10 0 cs

/-- `strconv.ParseInt(s, 10, 64)`. -/
def parseInt10 : List Char → Except NumError ℤ
  | '-' :: cs => do
    let n ← parseUint10 cs
    if n ≤ 2 ^ 63 then return -n else throw .outOfRange
  | '+' :: cs => do
    let n ← parseUint10 cs
    if n < 2 ^ 63 then return n else throw .outOfRange
  | cs => do
    let n ← parseUint10 cs
    if n < 2 ^ 63 then return n else throw .outOfRange

/-- The number of a literal, or the error of the plan. -/
def LimitExpr.parse : LimitExpr → Except String ℤ
  | .val v =>
    match parseInt10 v.val.toList with
    | .ok n => .ok n
    | .error e => .error ("strconv.ParseInt: parsing \"" ++ v.val ++ "\": " ++ e.text)
  | .other => .error "unsupported: limit.offset.or.counts.must.be.IntVal"

/-- The expression is the literal of an integer. -/
def LimitExpr.isIntVal : LimitExpr → Bool
  | .val v => v.type = .intVal
  | .other => false

/-- A sum of two numbers as `int` has it. -/
def intAdd (a b : ℤ) : ℤ := Int.bmod (a + b) (2 ^ 64)

/-- `builder.LimitPlan`. -/
structure LimitPlan where
  offset : ℤ := 0
  limit : ℤ := 0
  deriving DecidableEq

/-- The row count of the queries, `ReWritten`. -/
def LimitPlan.rewritten (p : LimitPlan) : ℤ := intAdd p.offset p.limit

/-- `LimitPlan.analyze`. -/
def LimitClause.analyze (node : LimitClause) : Bool :=
  (node.offset.all LimitExpr.isIntVal) && node.rowcount.isIntVal

/-- The offset of the plan; a clause without one starts at the first row. -/
def LimitClause.parseOffset (node : LimitClause) : Except String ℤ :=
  match node.offset with
  | none => .ok 0
  | some e => e.parse

/-- `LimitPlan.Build`. -/
def LimitClause.build (node : LimitClause) : Except String LimitPlan :=
  if node.analyze then do
    let offset ← node.parseOffset
    let limit ← node.rowcount.parse
    return ⟨offset, limit⟩
  else .error "unsupported: limit.offset.or.counts.must.be.IntVal"

/-- `Result.Limit`, the slice of `LimitOperator`. -/
def limitRows {α : Type} (p : LimitPlan) (rows : List α) : Except String (List α) :=
  let start := min p.offset rows.length
  let stop := min (intAdd p.offset p.limit) rows.length
  if start < 0 ∨ stop < start then .error "runtime error: slice bounds out of range"
  else .ok ((rows.take stop.toNat).drop start.toNat)

/-! ## The numbers of the clause -/

/-- The number that a text is. -/
def intValue : List Char → Option ℤ
  | '+' :: cs => (decimalNat cs).map fun n : ℕ => (n : ℤ)
  | cs => decimalInt cs

/-- The number of an expression. -/
def LimitExpr.value : LimitExpr → Option ℤ
  | .val v => intValue v.val.toList
  | .other => none

/-- The offset of the clause. -/
def LimitClause.offsetValue (node : LimitClause) : Option ℤ :=
  match node.offset with
  | none => some 0
  | some e => e.value

theorem parseDigits_digits {n k : ℕ} {cs : List Char} (h : parseDigits 10 n cs = .ok k) :
    ∃ ds, decimalDigits cs = some ds ∧ k = ds.foldl (fun n d => n * 10 + d) n := by
  induction cs generalizing n with
  | nil =>
    cases h
    exact ⟨[], rfl, rfl⟩
  | cons c cs ih =>
    rw [parseDigits] at h
    split at h
    · cases h
    · rename_i d hd
      split at h
      · rename_i hlt
        split at h
        · obtain ⟨ds, hds, rfl⟩ := ih h
          -- a letter stands for a digit of 10 or more
          grind [decimalDigits, digitVal]
        · cases h
      · cases h

theorem parseUint10_value {cs : List Char} {n : ℕ} (h : parseUint10 cs = .ok n) : decimalNat cs = some n := by
  unfold parseUint10 at h
  split at h
  · cases h
  · grind [parseDigits_digits, decimalNat, Numeral.horner]

/-- A number that is read is the one of the text, and it fits into 64 bits. -/
theorem parseInt10_value {cs : List Char} {n : ℤ} (h : parseInt10 cs = .ok n) :
    intValue cs = some n ∧ -2 ^ 63 ≤ n ∧ n < 2 ^ 63 := by
  unfold parseInt10 at h
  split at h
  · obtain ⟨k, hk, h⟩ := except_bind_ok h
    split at h
    · cases h
      refine ⟨?_, by omega, by omega⟩
      rw [intValue, decimalInt, parseUint10_value hk]
      · rfl
      · intro cs' hcs
        cases hcs
    · cases h
  · obtain ⟨k, hk, h⟩ := except_bind_ok h
    split at h
    · cases h
      refine ⟨?_, by omega, by omega⟩
      rw [intValue, parseUint10_value hk]
      rfl
    · cases h
  · rename_i hminus hplus
    obtain ⟨k, hk, h⟩ := except_bind_ok h
    split at h
    · cases h
      refine ⟨?_, by omega, by omega⟩
      rw [intValue, decimalInt, parseUint10_value hk]
      · rfl
      · exact fun cs' hcs => hminus cs' hcs
      · exact fun cs' hcs => hplus cs' hcs
    · cases h

theorem LimitExpr.parse_value {e : LimitExpr} {n : ℤ} (h : e.parse = .ok n) :
    e.value = some n ∧ -2 ^ 63 ≤ n ∧ n < 2 ^ 63 := by
  cases e with
  | other => cases h
  | val v => grind [parseInt10_value, value, parse]

theorem LimitClause.build_value {node : LimitClause} {p : LimitPlan} (h : node.build = .ok p) :
    node.offsetValue = some p.offset ∧ node.rowcount.value = some p.limit ∧
      (-2 ^ 63 ≤ p.offset ∧ p.offset < 2 ^ 63) ∧ -2 ^ 63 ≤ p.limit ∧ p.limit < 2 ^ 63 := by
  unfold LimitClause.build at h
  split at h
  · obtain ⟨offset, hoffset, h⟩ := except_bind_ok h
    obtain ⟨limit, hlimit, h⟩ := except_bind_ok h
    cases h
    obtain ⟨hvalue, hrange⟩ := LimitExpr.parse_value hlimit
    have hoff : node.offsetValue = some offset ∧ -2 ^ 63 ≤ offset ∧ offset < 2 ^ 63 := by
      grind [LimitExpr.parse_value, offsetValue, parseOffset]
    exact ⟨hoff.1, hvalue, hoff.2, hrange⟩
  · cases h

/-! ## Sums that do not wrap -/

/-- A sum is right if it fits into 64 bits. -/
theorem intAdd_eq_iff {a b : ℤ} : intAdd a b = a + b ↔ -2 ^ 63 ≤ a + b ∧ a + b < 2 ^ 63 := by
  rw [intAdd, Int.bmod_eq_iff (by norm_num)]
  norm_num

/-- The number of the queries is the sum of the two numbers of the clause, and no slice panics. -/
def LimitPlan.Sound (p : LimitPlan) (offset count : ℤ) : Prop :=
  p.rewritten = offset + count ∧ ∀ (α : Type) (rows : List α), ∃ out, limitRows p rows = .ok out

theorem limitRows_of_le {α : Type} {p : LimitPlan} (hoffset : 0 ≤ p.offset) (hlimit : 0 ≤ p.limit)
    (hsum : p.offset + p.limit < 2 ^ 63) (rows : List α) :
    limitRows p rows = .ok ((rows.drop p.offset.toNat).take p.limit.toNat) := by
  obtain ⟨o, ho⟩ := Int.eq_ofNat_of_zero_le hoffset
  obtain ⟨c, hc⟩ := Int.eq_ofNat_of_zero_le hlimit
  have hadd : intAdd p.offset p.limit = p.offset + p.limit := intAdd_eq_iff.2 ⟨by omega, hsum⟩
  rw [limitRows, hadd, ho, hc, if_neg (by omega)]
  have hstart : (min (o : ℤ) rows.length).toNat = min o rows.length := by omega
  have hstop : (min ((o : ℤ) + c) rows.length).toNat = min (o + c) rows.length := by omega
  rw [hstart, hstop, drop_take, Int.toNat_natCast, Int.toNat_natCast]
  by_cases hle : o ≤ rows.length
  · by_cases hfit : o + c ≤ rows.length
    · rw [min_eq_left hle, min_eq_left hfit, Nat.add_sub_cancel_left]
    · rw [min_eq_left hle, take_of_length_le (by rw [length_drop]; omega),
        take_of_length_le (by rw [length_drop]; omega)]
  · rw [min_eq_right (by omega : rows.length ≤ o), drop_length,
      drop_of_length_le (by omega : rows.length ≤ o), take_nil, take_nil]

/-- For every clause that is accepted, the plan is sound if and only if neither number is negative and
their sum fits into 64 bits. -/
theorem limitSound_iff (node : LimitClause) (p : LimitPlan) (h : node.build = .ok p) :
    ∃ offset count, node.offsetValue = some offset ∧ node.rowcount.value = some count ∧
      (p.Sound offset count ↔ 0 ≤ offset ∧ 0 ≤ count ∧ offset + count < 2 ^ 63) := by
  obtain ⟨hoffset, hcount, ⟨holo, hohi⟩, hclo, hchi⟩ := LimitClause.build_value h
  refine ⟨p.offset, p.limit, hoffset, hcount, fun ⟨hsum, hslice⟩ => ?_, fun ⟨ho, hc, hsum⟩ => ?_⟩
  · -- the slice of as many rows as the offset asks for
    obtain ⟨out, hout⟩ := hslice Unit (List.replicate p.offset.toNat ())
    simp only [limitRows, List.length_replicate] at hout
    split at hout
    · cases hout
    · rename_i hbounds
      have hrange := intAdd_eq_iff.1 hsum
      rw [LimitPlan.rewritten] at hsum
      omega
  · exact ⟨intAdd_eq_iff.2 ⟨by omega, hsum⟩, fun α rows => ⟨_, limitRows_of_le ho hc hsum rows⟩⟩

/-- `LIMIT 5, 10`. -/
theorem limit_offset_sound : (⟨5, 10⟩ : LimitPlan).Sound 5 10 := by
  have hbuild : LimitClause.build ⟨some (.val ⟨.intVal, "5"⟩), .val ⟨.intVal, "10"⟩⟩ = .ok ⟨5, 10⟩ := by
    decide +kernel
  obtain ⟨offset, count, hoffset, hcount, hiff⟩ := limitSound_iff _ _ hbuild
  obtain rfl : offset = 5 := Option.some.inj (hoffset.symm.trans (by decide +kernel))
  obtain rfl : count = 10 := Option.some.inj (hcount.symm.trans (by decide +kernel))
  exact hiff.2 (by norm_num)

/-- `LIMIT 9223372036854775807, 1` is accepted. The queries get a negative number. -/
theorem limit_wraps :
    ∃ p : LimitPlan, LimitClause.build ⟨some (.val ⟨.intVal, "9223372036854775807"⟩), .val ⟨.intVal, "1"⟩⟩ = .ok p ∧
      p.rewritten = -2 ^ 63 ∧ ¬ p.Sound 9223372036854775807 1 := by
  refine ⟨⟨9223372036854775807, 1⟩, by decide +kernel, by decide, fun h => ?_⟩
  exact absurd h.1 (by decide)

end Radon.Aggregate
