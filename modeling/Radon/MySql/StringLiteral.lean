import Mathlib.Data.List.DropRight

/-!
# String literals in SQL text

A literal in single quotes as the server reads it. Two quotes in a row stand for one quote, a
backslash takes the byte after it for an escape sequence, and a quote on its own ends the literal.
A byte string written between two quotes is read back only if the closing quote is the one that ends
the literal.
-/

namespace Radon.MySql

/-- A byte string. -/
abbrev Bytes := List UInt8

/-- The bytes of an ASCII text. -/
def bytes (s : String) : Bytes := s.toList.map fun c => c.toNat.toUInt8

/-- A single quote. -/
def quote : UInt8 := 39

/-- A backslash. -/
def backslash : UInt8 := 92

/-- A space. -/
def space : UInt8 := 32

/-- The bytes that an escape sequence stands for. The sequences for the wildcards of `LIKE` keep
their backslash. -/
def escape (c : UInt8) : Bytes :=
  if c = 48 then [0] -- 0
  else if c = 98 then [8] -- b
  else if c = 110 then [10] -- n
  else if c = 114 then [13] -- r
  else if c = 116 then [9] -- t
  else if c = 90 then [26] -- Z
  else if c = 37 ∨ c = 95 then [backslash, c] -- % and _
  else [c]

/-- Read a literal after its opening quote: its value and the text behind the closing quote. -/
def scanLiteral : Bytes → Option (Bytes × Bytes)
  | [] => none
  | [c] => if c = quote then some ([], []) else none
  | c :: d :: text =>
    if c = quote then
      if d = quote then (scanLiteral text).map fun out => (quote :: out.1, out.2)
      else some ([], d :: text)
    else if c = backslash then (scanLiteral text).map fun out => (escape d ++ out.1, out.2)
    else (scanLiteral (d :: text)).map fun out => (c :: out.1, out.2)

/-- The value of a byte string between two quotes, if these quotes begin and end one literal. -/
def literal (body : Bytes) : Option Bytes :=
  match scanLiteral (body ++ [quote]) with
  | some (v, []) => some v
  | _ => none

theorem scanLiteral_of_literal {body v : Bytes} (h : literal body = some v) :
    scanLiteral (body ++ [quote]) = some (v, []) := by
  unfold literal at h
  split at h
  · rename_i v' heq
    rw [heq, Option.some.inj h]
  · cases h

/-- A value without the spaces at its end, as the comparison of padded strings sees it. -/
def trimEnd (v : Bytes) : Bytes := v.rdropWhile (· = space)

theorem trimEnd_trimEnd (v : Bytes) : trimEnd (trimEnd v) = trimEnd v :=
  List.rdropWhile_idempotent _ _

end Radon.MySql
