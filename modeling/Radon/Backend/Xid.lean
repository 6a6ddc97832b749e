import Mathlib.Data.Nat.Notation

/-!
# Transaction identifiers

`xaStart` names the branches of a transaction by the kind of the transaction, the second in
which it starts and the manager's counter. `Xid` keeps the three parts and `Xid.text` is the
string that the source formats from them.
-/

namespace Radon

/-- A civil clock reading truncated to seconds, as `time.Now().Format("20060102150405")` prints it. -/
structure Stamp where
  year : ℕ
  month : ℕ
  day : ℕ
  hour : ℕ
  minute : ℕ
  second : ℕ
  year_lt : year < 10000
  month_lt : month < 100
  day_lt : day < 100
  hour_lt : hour < 100
  minute_lt : minute < 100
  second_lt : second < 100
  deriving DecidableEq

/-- The reading with nothing but zeros. -/
def Stamp.origin : Stamp := ⟨0, 0, 0, 0, 0, 0, by decide, by decide, by decide, by decide, by decide, by decide⟩

/-- A transaction identifier `RXID-<time>-<id>`, or `MULTRXID-<time>-<id>` for a transaction of
several statements. -/
structure Xid where
  multiStmt : Bool
  time : Stamp
  id : ℕ
  deriving DecidableEq

/-- The last decimal digit. -/
def lastDigit (n : ℕ) : Char := Nat.digitChar (n % 10)

/-- A number below one hundred in two digits. -/
def twoDigits (n : ℕ) : List Char := [lastDigit (n / 10), lastDigit n]

/-- The clock reading as fourteen digits. -/
def Stamp.chars (s : Stamp) : List Char :=
  twoDigits (s.year / 100) ++ twoDigits s.year ++ twoDigits s.month ++ twoDigits s.day ++
    twoDigits s.hour ++ twoDigits s.minute ++ twoDigits s.second

/-- The characters of an xid. -/
def Xid.chars (x : Xid) : List Char :=
  (if x.multiStmt then "MULTRXID-".toList else "RXID-".toList) ++ x.time.chars ++
    '-' :: Nat.toDigits 10 x.id

/-- The xid as the source formats it. -/
def Xid.text (x : Xid) : String := String.ofList x.chars

end Radon
