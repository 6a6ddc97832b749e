import Radon.Numeral.Digits

/-!
# Literals of a statement

The parser keeps the text of a literal and the kind of token it was. The router reads the text of an
integer with `strconv.ParseInt` in base 0, where the prefix of the text chooses the base.
-/

namespace Radon

/-- `sqlparser.ValType`. -/
inductive ValType
  | strVal
  | intVal
  | floatVal
  | hexNum
  | hexVal
  | valArg
  | strValWithoutQuote
  deriving DecidableEq

/-- `sqlparser.SQLVal`. -/
structure SQLVal where
  type : ValType
  val : String
  deriving DecidableEq

/-- The value of a character as a digit of a base up to 36. -/
def digitVal (c : Char) : Option ℕ :=
  if '0' ≤ c ∧ c ≤ '9' then some (c.toNat - '0'.toNat)
  else if 'a' ≤ c ∧ c ≤ 'z' then some (c.toNat - 'a'.toNat + 10)
  else if 'A' ≤ c ∧ c ≤ 'Z' then some (c.toNat - 'A'.toNat + 10)
  else none

/-- `strconv.ErrSyntax` and `strconv.ErrRange`. -/
inductive NumError
  | invalidSyntax
  | outOfRange
  deriving DecidableEq

/-- The text of a `strconv` error. -/
def NumError.text : NumError → String
  | .invalidSyntax => "invalid syntax"
  | .outOfRange => "value out of range"

/-- The loop of `strconv.ParseUint` over the digits. -/
def parseDigits (base : ℕ) : ℕ → List Char → Except NumError ℕ
  | n, [] => .ok n
  | n, c :: cs =>
    match digitVal c with
    | none => .error .invalidSyntax
    | some d =>
      if d < base then
        if n * base + d < 2 ^ 64 then parseDigits base (n * base + d) cs else .error .outOfRange
      else .error .invalidSyntax

/-- `strconv.ParseUint(s, 0, 64)` on text without underscores. -/
def parseUint : List Char → Except NumError ℕ
  | [] => .error .invalidSyntax
  | '0' :: c :: d :: cs =>
    if c = 'b' ∨ c = 'B' then parseDigits 2 0 (d :: cs)
    else if c = 'o' ∨ c = 'O' then parseDigits 8 0 (d :: cs)
    else if c = 'x' ∨ c = 'X' then parseDigits 16 0 (d :: cs)
    else parseDigits 8 0 (c :: d :: cs)
  | '0' :: cs => parseDigits 8 0 cs
  | cs => parseDigits 10 0 cs

/-- `strconv.ParseInt(s, 0, 64)`. -/
def parseInt : List Char → Except NumError ℤ
  | '-' :: cs =>
    match parseUint cs with
    | .error e => .error e
    | .ok n => if n ≤ 2 ^ 63 then .ok (-n) else .error .outOfRange
  | '+' :: cs =>
    match parseUint cs with
    | .error e => .error e
    | .ok n => if n < 2 ^ 63 then .ok n else .error .outOfRange
  | cs =>
    match parseUint cs with
    | .error e => .error e
    | .ok n => if n < 2 ^ 63 then .ok n else .error .outOfRange

/-- The decimal digits of a text, if it has nothing else. -/
def decimalDigits : List Char → Option (List ℕ)
  | [] => some []
  | c :: cs =>
    if '0' ≤ c ∧ c ≤ '9' then (decimalDigits cs).map (List.cons (c.toNat - '0'.toNat)) else none

/-- The number that MySQL reads in digits. -/
def decimalNat (cs : List Char) : Option ℕ :=
  if cs = [] then none else (decimalDigits cs).map (Numeral.horner 10)

/-- The number that MySQL reads in an integer literal: the parser folds a sign into the token. -/
def decimalInt : List Char → Option ℤ
  | '-' :: cs => (decimalNat cs).map fun n : ℕ => -(n : ℤ)
  | cs => (decimalNat cs).map fun n : ℕ => (n : ℤ)

end Radon
