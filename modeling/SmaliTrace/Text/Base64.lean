import SmaliTrace.Text.Octets

/-!
Bytes written in the sixty-four digits of base 64, four digits for three bytes.
-/
namespace SmaliTrace.Text

/-- The value of a digit. -/
def base64Value? (c : Char) : Option Nat :=
  let n := c.toNat
  if 65 ≤ n ∧ n ≤ 90 then some (n - 65)
  else if 97 ≤ n ∧ n ≤ 122 then some (n - 71)
  else if 48 ≤ n ∧ n ≤ 57 then some (n + 4)
  else if c = '+' then some 62
  else if c = '/' then some 63
  else none

/-- The three bytes of a number of 24 bits. -/
def threeBytes (n : Nat) : List UInt8 :=
  [(n / 65536).toUInt8, (n / 256).toUInt8, n.toUInt8]

/-- Reads groups of four digits. The last group can end with one or two equals signs instead of digits,
and gives as many bytes less. -/
def base64Groups? : List Char → Option (List UInt8)
  | [] => some []
  | [a, b, '=', '='] => do
    let n := (← base64Value? a) * 262144 + (← base64Value? b) * 4096
    some ((threeBytes n).take 1)
  | [a, b, c, '='] => do
    let n := (← base64Value? a) * 262144 + (← base64Value? b) * 4096 + (← base64Value? c) * 64
    some ((threeBytes n).take 2)
  | a :: b :: c :: d :: rest => do
    let n := (← base64Value? a) * 262144 + (← base64Value? b) * 4096 + (← base64Value? c) * 64 +
      (← base64Value? d)
    some (threeBytes n ++ (← base64Groups? rest))
  | _ => none

/-- The bytes that the digits stand for; line breaks between them do not count. -/
def base64? (s : String) : Option Octets :=
  (base64Groups? (s.toList.filter fun c => c ≠ '\n' && c ≠ '\r')).map Octets.mk

end SmaliTrace.Text
