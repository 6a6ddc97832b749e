import Mathlib.Algebra.Order.Ring.Int
import Mathlib.Tactic.NormNum
import Radon.Router.Partition

/-!
# Spellings of an integer key

MySQL reads the digits of an integer literal in base ten, whatever they start with. `GetIndex` reads
them with `strconv.ParseInt` in base 0, where a leading zero means base eight. Both readings agree on
numbers below eight; above, two spellings of a number reach the same slot exactly when neither has a
leading zero, or when both have one and no digit is an 8 or a 9.
-/

namespace Radon

open Numeral List Option

/-! ## Texts of digits -/

variable {c : Char} {cs : List Char} {ds : List ℕ} {n : ℕ} {v : ℤ}

theorem digitVal_of_decimal (h : '0' ≤ c ∧ c ≤ '9') : digitVal c = some (c.toNat - '0'.toNat) := by
  rw [digitVal, if_pos h]

theorem decimal_lt_ten (h : '0' ≤ c ∧ c ≤ '9') : c.toNat - '0'.toNat < 10 := by
  have h9 : c.toNat ≤ '9'.toNat := h.2
  have : '9'.toNat = 57 := rfl
  have : '0'.toNat = 48 := rfl
  omega

/-- A text of decimal digits, digit by digit. -/
theorem decimalDigits_cons (h : decimalDigits (c :: cs) = some ds) : ('0' ≤ c ∧ c ≤ '9')
    ∧ ∃ rest, decimalDigits cs = some rest ∧ ds = (c.toNat - '0'.toNat) :: rest := by
  rw [decimalDigits] at h
  split at h
  · rename_i hc
    obtain ⟨rest, hrest, rfl⟩ := map_eq_some_iff.1 h
    exact ⟨hc, rest, hrest, rfl⟩
  · cases h

theorem decimalDigits_lt (h : decimalDigits cs = some ds) : ∀ d ∈ ds, d < 10 := by
  induction cs generalizing ds with
  | nil =>
    cases h
    simp
  | cons c cs ih => grind [decimalDigits_cons, decimal_lt_ten, decimalDigits]

theorem parseDigits_ok {base : ℕ} (hbase : 0 < base) (h : decimalDigits cs = some ds)
    (hlt : ∀ d ∈ ds, d < base) (hrange : ds.foldl (fun n d => n * base + d) n < 2 ^ 64) :
    parseDigits base n cs = .ok (ds.foldl (fun n d => n * base + d) n) := by
  induction cs generalizing n ds with
  | nil =>
    cases h
    rfl
  | cons c cs ih => grind [decimalDigits_cons, foldl_mono, parseDigits, digitVal]

/-- A digit that the base does not have makes the text unreadable. -/
theorem parseDigits_error {base : ℕ} (h : decimalDigits cs = some ds) (hbad : ∃ d ∈ ds, base ≤ d) :
    ∃ e, parseDigits base n cs = .error e := by
  induction cs generalizing n ds with
  | nil =>
    cases h
    simp at hbad
  | cons c cs ih =>
    obtain ⟨hc, rest, hrest, rfl⟩ := decimalDigits_cons h
    rw [parseDigits, digitVal_of_decimal hc]
    simp only
    split
    case isTrue hd =>
      split
      · obtain ⟨d, hmem, hle⟩ := hbad
        obtain rfl | hmem := mem_cons.1 hmem
        · omega
        · exact ih hrest ⟨d, hmem, hle⟩
      · exact ⟨_, rfl⟩
    case isFalse => exact ⟨_, rfl⟩

/-- The text starts with a zero. -/
def LeadingZero (cs : List Char) : Prop := cs.head? = some '0'

instance (cs : List Char) : Decidable (LeadingZero cs) := inferInstanceAs (Decidable (_ = _))

theorem parseUint_plain (hne : cs ≠ []) (h : ¬ LeadingZero cs) : parseUint cs = parseDigits 10 0 cs := by
  unfold parseUint
  grind [LeadingZero]

theorem parseUint_zero (h : decimalDigits cs = some ds) : parseUint ('0' :: cs) = parseDigits 8 0 cs := by
  match cs with
  | [] => rfl
  | [c] => rfl
  | c :: d :: cs =>
    obtain ⟨hc, -⟩ := decimalDigits_cons h
    have hletter : ∀ x : Char, '9'.toNat < x.toNat → c ≠ x := fun x hx heq =>
      absurd (show c.toNat ≤ '9'.toNat from hc.2) (not_le_of_gt (heq ▸ hx))
    simp only [parseUint]
    rw [if_neg, if_neg, if_neg]
    · simp_all
    · simp_all
    · simp_all

/-! ## The two readings of an unsigned text -/

/-- A nonempty text of decimal digits. -/
structure Digits (cs : List Char) (ds : List ℕ) : Prop where
  ne : cs ≠ []
  digits : decimalDigits cs = some ds

/-- Without a leading zero the text is read in base ten. -/
theorem parseUint_decimal (h : Digits cs ds) (hz : ¬ LeadingZero cs)
    (hrange : horner 10 ds < 2 ^ 64) : parseUint cs = .ok (horner 10 ds) := by
  rw [parseUint_plain h.ne hz]
  exact parseDigits_ok (by norm_num) h.digits (decimalDigits_lt h.digits) hrange

theorem Digits.tail (h : Digits cs ds) (hz : LeadingZero cs) :
    ∃ cs' ds', cs = '0' :: cs' ∧ ds = 0 :: ds' ∧ decimalDigits cs' = some ds' := by
  obtain ⟨cs', rfl⟩ := List.head?_eq_some_iff.1 hz
  obtain ⟨-, rest, hrest, rfl⟩ := decimalDigits_cons h.digits
  exact ⟨cs', rest, rfl, rfl, hrest⟩

/-- With a leading zero it is read in base eight. -/
theorem parseUint_octal (h : Digits cs ds) (hz : LeadingZero cs) (hoct : ∀ d ∈ ds, d < 8)
    (hrange : horner 10 ds < 2 ^ 64) : parseUint cs = .ok (reread 8 (horner 10 ds)) := by
  obtain ⟨cs', ds', rfl, rfl, hds'⟩ := h.tail hz
  have hread := horner_eq_reread 8 (decimalDigits_lt hds')
  have hle : horner 8 ds' < 2 ^ 64 := by grind [reread_le, horner_zero_cons]
  grind [parseUint_zero, parseDigits_ok, horner]

theorem parseUint_error (h : Digits cs ds) (hz : LeadingZero cs)
    (hbad : ∃ d ∈ ds, 8 ≤ d) : ∃ e, parseUint cs = .error e := by
  obtain ⟨cs', ds', rfl, rfl, hds'⟩ := h.tail hz
  obtain ⟨d, hd, hle⟩ := hbad
  rw [parseUint_zero hds']
  refine parseDigits_error hds' ⟨d, ?_, hle⟩
  obtain rfl | hd := mem_cons.1 hd
  · omega
  · exact hd

/-! ## Literals with a sign -/

/-- The digits of a literal, without its sign. -/
def unsigned : List Char → List Char
  | '-' :: cs => cs
  | cs => cs

/-- The literal with its sign and its digits. -/
structure Spelling (cs : List Char) (v : ℤ) (neg : Bool) (ds : List ℕ) : Prop where
  digits : Digits (unsigned cs) ds
  sign : neg = true ↔ cs.head? = some '-'
  value : v = if neg then -(horner 10 ds : ℤ) else horner 10 ds

theorem decimalNat_digits (h : decimalNat cs = some n) : ∃ ds, Digits cs ds ∧ horner 10 ds = n := by
  unfold decimalNat at h
  split at h
  · cases h
  · rename_i hne
    obtain ⟨ds, hds, hn⟩ := map_eq_some_iff.1 h
    exact ⟨ds, ⟨hne, hds⟩, hn⟩

theorem decimalInt_spelling (h : decimalInt cs = some v) : ∃ neg ds, Spelling cs v neg ds := by
  unfold decimalInt at h
  split at h
  · obtain ⟨n, hn, rfl⟩ := map_eq_some_iff.1 h
    obtain ⟨ds, hds, rfl⟩ := decimalNat_digits hn
    exact ⟨true, ds, hds, by simp, by simp⟩
  · rename_i hsign
    obtain ⟨n, hn, rfl⟩ := map_eq_some_iff.1 h
    obtain ⟨ds, hds, rfl⟩ := decimalNat_digits hn
    have hhead : cs.head? ≠ some '-' := by
      intro hh
      obtain ⟨cs', rfl⟩ := List.head?_eq_some_iff.1 hh
      exact hsign cs' rfl
    refine ⟨false, ds, ?_, by simpa using hhead, by simp⟩
    have hun : unsigned cs = cs := by grind [unsigned]
    rwa [hun]

/-- The sign put back in front of a number. -/
def signed (neg : Bool) (n : ℕ) : ℤ := if neg then -(n : ℤ) else n

theorem Spelling.head_ne_plus (h : Spelling cs v false ds) : ∀ cs', cs ≠ '+' :: cs' := by
  rintro cs' rfl
  have hd := h.digits.digits
  simp only [unsigned] at hd
  obtain ⟨hc, -⟩ := decimalDigits_cons hd
  exact absurd hc.1 (by decide)

/-- `ParseInt` is `ParseUint` with the sign put back, within the range of `int64`. -/
theorem parseInt_ok {neg : Bool} (h : Spelling cs v neg ds) (hparse : parseUint (unsigned cs) = .ok n)
    (hrange : n < 2 ^ 63 ∨ neg = true ∧ n ≤ 2 ^ 63) : parseInt cs = .ok (signed neg n) := by
  cases neg with
  | true =>
    obtain ⟨cs', rfl⟩ := List.head?_eq_some_iff.1 (h.sign.1 rfl)
    grind [parseInt, signed, unsigned]
  | false =>
    have hminus : ∀ cs', cs ≠ '-' :: cs' := by
      rintro cs' rfl
      simpa using h.sign.2 rfl
    have hn : n < 2 ^ 63 := hrange.elim id fun h => nomatch h.1
    have hun : unsigned cs = cs := by simp [unsigned]
    rw [hun] at hparse
    unfold parseInt
    grind [Spelling.head_ne_plus, signed]

theorem parseInt_error {neg : Bool} (h : Spelling cs v neg ds)
    (hparse : ∃ e, parseUint (unsigned cs) = .error e) : ∃ e, parseInt cs = .error e := by
  obtain ⟨e, hparse⟩ := hparse
  refine ⟨e, ?_⟩
  unfold parseInt
  split
  · simp only [unsigned] at hparse
    rw [hparse]
  · rename_i cs'
    have hfalse : neg = false := by
      cases neg with
      | false => rfl
      | true => exact absurd (h.sign.1 rfl) (by simp)
    subst hfalse
    exact absurd rfl (h.head_ne_plus cs')
  · grind [unsigned]

/-- The literal is written with a leading zero. -/
def ZeroPadded (s : String) : Prop := LeadingZero (unsigned s.toList)

/-- All digits of the literal are octal. -/
def OctalDigits (s : String) : Prop := ∀ c ∈ unsigned s.toList, c < '8'

instance (s : String) : Decidable (ZeroPadded s) := inferInstanceAs (Decidable (LeadingZero _))

instance (s : String) : Decidable (OctalDigits s) :=
  inferInstanceAs (Decidable (∀ c ∈ unsigned s.toList, c < '8'))

theorem octal_iff (h : decimalDigits cs = some ds) : (∀ c ∈ cs, c < '8') ↔ ∀ d ∈ ds, d < 8 := by
  induction cs generalizing ds with
  | nil =>
    cases h
    simp
  | cons c cs ih =>
    obtain ⟨hc, rest, hrest, rfl⟩ := decimalDigits_cons h
    have hhead : c < '8' ↔ c.toNat - '0'.toNat < 8 := by
      have h0 : '0'.toNat ≤ c.toNat := hc.1
      have e0 : '0'.toNat = 48 := rfl
      have e8 : '8'.toNat = 56 := rfl
      rw [show c < '8' ↔ c.toNat < '8'.toNat from Iff.rfl]
      omega
    rw [forall_mem_cons, forall_mem_cons, hhead, ih hrest]

/-- Two spellings of one number that `ParseInt` reads alike: the number has one octal digit, no
spelling is padded with zeros, or both are and have octal digits only. -/
def SameReading (s₁ s₂ : String) (v : ℤ) : Prop :=
  v.natAbs < 8 ∨ (¬ ZeroPadded s₁ ∧ ¬ ZeroPadded s₂) ∨
    (ZeroPadded s₁ ∧ OctalDigits s₁ ∧ ZeroPadded s₂ ∧ OctalDigits s₂)

/-! ## Reaching the same slot -/

variable {s s₁ s₂ : String} {v : ℤ} {neg : Bool} {ds ds₁ ds₂ : List ℕ}

section Spelling

variable (h : Spelling s.toList v neg ds)

include h

theorem Spelling.natAbs : v.natAbs = horner 10 ds := by
  rw [h.value]
  split <;> simp

theorem Spelling.octal_iff : OctalDigits s ↔ ∀ d ∈ ds, d < 8 :=
  Radon.octal_iff h.digits.digits

/-- The range of `int64`, in terms of the digits. -/
theorem Spelling.range (hlow : -2 ^ 63 ≤ v) (hhigh : v < 2 ^ 63) :
    horner 10 ds < 2 ^ 63 ∨ neg = true ∧ horner 10 ds ≤ 2 ^ 63 := by grind [value]

/-- Without padding `ParseInt` reads the number. -/
theorem Spelling.parse_plain (hlow : -2 ^ 63 ≤ v) (hhigh : v < 2 ^ 63)
    (hz : ¬ ZeroPadded s) : parseInt s.toList = .ok v := by
  have hrange := h.range hlow hhigh
  have hparse := parseUint_decimal h.digits hz (by omega)
  rw [parseInt_ok h hparse hrange, h.value]
  rfl

/-- With padding and octal digits it reads the number in base eight. -/
theorem Spelling.parse_octal (hlow : -2 ^ 63 ≤ v) (hhigh : v < 2 ^ 63)
    (hz : ZeroPadded s) (hoct : OctalDigits s) : parseInt s.toList = .ok (signed neg (reread 8 v.natAbs)) := by
  have hrange := h.range hlow hhigh
  have hparse := parseUint_octal h.digits hz (h.octal_iff.1 hoct) (by omega)
  grind [reread_le, natAbs, parseInt_ok]

/-- With padding and another digit it reads nothing. -/
theorem Spelling.parse_error (hz : ZeroPadded s)
    (hoct : ¬ OctalDigits s) : ∃ e, parseInt s.toList = .error e := by
  rw [h.octal_iff] at hoct
  push Not at hoct
  exact parseInt_error h (parseUint_error h.digits hz hoct)

theorem signed_natAbs : signed neg v.natAbs = v := by
  rw [h.natAbs, h.value]
  rfl

/-- Below eight padding does not matter. -/
theorem Spelling.parse_small (hsmall : v.natAbs < 8) : parseInt s.toList = .ok v := by
  by_cases hz : ZeroPadded s
  · have hoct : OctalDigits s := h.octal_iff.2 fun d hd =>
      lt_of_le_of_lt (le_horner (by norm_num) hd) (h.natAbs ▸ hsmall)
    rw [h.parse_octal (by omega) (by omega) hz hoct, reread_of_lt (by omega), signed_natAbs h]
  · exact h.parse_plain (by omega) (by omega) hz

end Spelling

/-- An integer literal. -/
def intLiteral (s : String) : SQLVal := ⟨.intVal, s⟩

theorem getIndex_ok (H : Hasher) (h : Hash) {n : ℤ} (hparse : parseInt s.toList = .ok n) :
    h.getIndex H (intLiteral s) = .ok (H.jump (UInt64.ofInt n) h.slots) := by
  simp [Hash.getIndex, intLiteral, hparse]

/-- Both literals reach one slot without error, whatever the hash function and the partition. -/
def SameSlot (s₁ s₂ : String) : Prop :=
  ∀ (H : Hasher) (h : Hash), ∃ idx,
    h.getIndex H (intLiteral s₁) = .ok idx ∧ h.getIndex H (intLiteral s₂) = .ok idx

theorem SameSlot.symm (h : SameSlot s₁ s₂) : SameSlot s₂ s₁ := fun H p =>
  let ⟨idx, h₁, h₂⟩ := h H p
  ⟨idx, h₂, h₁⟩

theorem sameSlot_of_parse {n : ℤ} (h₁ : parseInt s₁.toList = .ok n) (h₂ : parseInt s₂.toList = .ok n) :
    SameSlot s₁ s₂ :=
  fun H h => ⟨_, getIndex_ok H h h₁, getIndex_ok H h h₂⟩

/-- A hash function that sends one key to slot 1 and all others to slot 0. -/
def separator (key : UInt64) : Hasher where
  jump k buckets := if k = key ∧ 1 < buckets then 1 else 0
  jump_lt k buckets := by
    split <;> omega
  crc64 _ := 0
  parseFloat _ := .ok 0

/-- A partition of two slots. -/
def twoSlots : Hash := ⟨2, .empty, []⟩

theorem not_sameSlot_of_error (h₁ : ∃ e, parseInt s₁.toList = .error e) : ¬ SameSlot s₁ s₂ := by
  intro h
  obtain ⟨idx, hidx, -⟩ := h (separator 0) twoSlots
  grind [Hash.getIndex, intLiteral]

theorem uint64_toNat_ofInt (a : ℤ) : (UInt64.ofInt a).toNat = (a % 2 ^ 64).toNat := by
  simp only [UInt64.ofInt, UInt64.toNat_ofNat']
  omega

theorem uint64_ofInt_inj {a b : ℤ} (ha : -2 ^ 63 ≤ a ∧ a < 2 ^ 63) (hb : -2 ^ 63 ≤ b ∧ b < 2 ^ 63)
    (h : UInt64.ofInt a = UInt64.ofInt b) : a = b := by grind [uint64_toNat_ofInt]

theorem not_sameSlot_of_ne {a b : ℤ} (ha : -2 ^ 63 ≤ a ∧ a < 2 ^ 63) (hb : -2 ^ 63 ≤ b ∧ b < 2 ^ 63)
    (hne : a ≠ b) (h₁ : parseInt s₁.toList = .ok a) (h₂ : parseInt s₂.toList = .ok b) : ¬ SameSlot s₁ s₂ := by
  intro h
  obtain ⟨idx, hidx₁, hidx₂⟩ := h (separator (UInt64.ofInt a)) twoSlots
  grind [uint64_ofInt_inj, getIndex_ok, separator, twoSlots]

/-- Padding one of two spellings of a number from eight on changes what `ParseInt` reads. -/
theorem not_sameSlot_padded {neg₁ neg₂ : Bool} (h₁ : Spelling s₁.toList v neg₁ ds₁)
    (h₂ : Spelling s₂.toList v neg₂ ds₂) (hlow : -2 ^ 63 ≤ v) (hhigh : v < 2 ^ 63)
    (hlarge : 8 ≤ v.natAbs) (hz₁ : ZeroPadded s₁) (hz₂ : ¬ ZeroPadded s₂) : ¬ SameSlot s₁ s₂ := by
  by_cases hoct : OctalDigits s₁
  · have hten : 10 ≤ v.natAbs := by
      have hlast : v.natAbs % 10 < 8 := by
        have hds := h₁.octal_iff.1 hoct
        rw [h₁.natAbs]
        rcases eq_nil_or_concat ds₁ with hnil | ⟨front, d, rfl⟩
        · simp [hnil]
        · rw [concat_eq_append, horner_append_singleton]
          have := hds d (by simp)
          omega
      omega
    have hlt := reread_lt (b := 8) (by norm_num) hten
    refine not_sameSlot_of_ne (a := signed neg₁ (reread 8 v.natAbs)) ?_ ⟨hlow, hhigh⟩ ?_
      (h₁.parse_octal hlow hhigh hz₁ hoct) (h₂.parse_plain hlow hhigh hz₂)
    · unfold signed
      split <;> omega
    · unfold signed
      split <;> omega
  · exact not_sameSlot_of_error (h₁.parse_error hz₁ hoct)

/-- Two literals that MySQL reads as one number reach one slot exactly when `ParseInt` reads them
alike. -/
theorem sameSlot_iff (s₁ s₂ : String) (v : ℤ) (h₁ : decimalInt s₁.toList = some v)
    (h₂ : decimalInt s₂.toList = some v) (hlow : -2 ^ 63 ≤ v) (hhigh : v < 2 ^ 63) :
    SameSlot s₁ s₂ ↔ SameReading s₁ s₂ v := by
  obtain ⟨neg₁, ds₁, h₁⟩ := decimalInt_spelling h₁
  obtain ⟨neg₂, ds₂, h₂⟩ := decimalInt_spelling h₂
  constructor
  · intro h
    rcases Nat.lt_or_ge v.natAbs 8 with hsmall | hlarge
    · exact .inl hsmall
    · by_cases hz₁ : ZeroPadded s₁ <;> by_cases hz₂ : ZeroPadded s₂
      · refine .inr (.inr ⟨hz₁, ?_, hz₂, ?_⟩)
        · exact by_contra fun hoct => not_sameSlot_of_error (h₁.parse_error hz₁ hoct) h
        · exact by_contra fun hoct => not_sameSlot_of_error (h₂.parse_error hz₂ hoct) h.symm
      · exact absurd h (not_sameSlot_padded h₁ h₂ hlow hhigh hlarge hz₁ hz₂)
      · exact absurd h.symm (not_sameSlot_padded h₂ h₁ hlow hhigh hlarge hz₂ hz₁)
      · exact .inr (.inl ⟨hz₁, hz₂⟩)
  · rintro (hsmall | ⟨hz₁, hz₂⟩ | ⟨hz₁, hoct₁, hz₂, hoct₂⟩)
    · exact sameSlot_of_parse (h₁.parse_small hsmall) (h₂.parse_small hsmall)
    · exact sameSlot_of_parse (h₁.parse_plain hlow hhigh hz₁) (h₂.parse_plain hlow hhigh hz₂)
    · refine sameSlot_of_parse (h₁.parse_octal hlow hhigh hz₁ hoct₁) ?_
      rw [h₂.parse_octal hlow hhigh hz₂ hoct₂]
      -- only zero has two signs
      rcases Nat.eq_zero_or_pos v.natAbs with hzero | hpos
      · simp [hzero, signed]
      · have hsign : neg₁ = neg₂ := by
          have e₁ := signed_natAbs h₁
          have e₂ := signed_natAbs h₂
          unfold signed at e₁ e₂
          cases neg₁ <;> cases neg₂ <;> first | rfl | (simp only [if_true, Bool.false_eq_true, if_false] at e₁ e₂; omega)
        rw [hsign]

/-- The spellings `42` and `42`, and the padded spellings `0042` and `042`. -/
theorem sameSlot_iff_padded :
    (SameSlot "42" "42" ↔ SameReading "42" "42" 42) ∧
      (SameSlot "0042" "042" ↔ SameReading "0042" "042" 42) :=
  ⟨sameSlot_iff "42" "42" 42 (by decide +kernel) (by decide +kernel) (by norm_num) (by norm_num),
    sameSlot_iff "0042" "042" 42 (by decide +kernel) (by decide +kernel) (by norm_num) (by norm_num)⟩

/-- MySQL reads `08` as `8`, but `GetIndex` finds a slot for `8` only. -/
theorem sameSlot_leading_zero :
    decimalInt "08".toList = some 8 ∧ decimalInt "8".toList = some 8 ∧ ¬ SameSlot "08" "8" :=
  ⟨by decide +kernel, by decide +kernel,
    not_sameSlot_of_error ⟨.invalidSyntax, by decide +kernel⟩⟩

end Radon
