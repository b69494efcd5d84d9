/-
  TaeScanner.Lib.Hex

  Hexadecimal text.  Decoding accepts both letter cases and encoding writes lower
  case, so decoded text comes back as it was up to the case of its letters.
-/

import TaeScanner.Lib.Bytes

namespace TaeScanner.Lib

/-- The value of a hexadecimal digit. -/
def hexNibble (c : Byte) : Option Nat :=
  if 48 ≤ c ∧ c ≤ 57 then some (c.toNat - 48)
  else if 97 ≤ c ∧ c ≤ 102 then some (c.toNat - 97 + 10)
  else if 65 ≤ c ∧ c ≤ 70 then some (c.toNat - 65 + 10)
  else none

/-- Two digits a byte. -/
def hexPairs : List Byte → Option (List Byte)
  | [] => some []
  | [_] => none
  | hi :: lo :: rest => do
      let h ← hexNibble hi
      let l ← hexNibble lo
      let bytes ← hexPairs rest
      some (BitVec.ofNat 8 (h <<< 4 ||| l) :: bytes)

/-- The digit of a value below 16. -/
def hexDigit (n : Nat) : Byte := BitVec.ofNat 8 (if n < 10 then 48 + n else 87 + n)

def hexEncode (bytes : List Byte) : List Byte :=
  bytes.flatMap fun b => [hexDigit (b.toNat / 16), hexDigit (b.toNat % 16)]

/-- An ASCII letter in lower case. -/
def lowerCase (c : Byte) : Byte := if 65 ≤ c ∧ c ≤ 90 then c + 32 else c

theorem hexNibble_digit {c : Byte} {n : Nat} (h : hexNibble c = some n) :
    n < 16 ∧ hexDigit n = lowerCase c := by
  have hall : ∀ c : Byte, (hexNibble c).all fun n => decide (n < 16 ∧ hexDigit n = lowerCase c) := by
    decide +kernel
  have hc := hall c
  rw [h] at hc
  exact of_decide_eq_true hc

/-- A byte is made of its two digits. -/
theorem hexEncode_pair {h l : Nat} (hh : h < 16) (hl : l < 16) :
    hexEncode [BitVec.ofNat 8 (h <<< 4 ||| l)] = [hexDigit h, hexDigit l] := by
  revert l
  revert h
  decide +kernel

/-- What is decoded is encoded as the same text in lower case. -/
theorem hexEncode_hexPairs {text bytes : List Byte} (h : hexPairs text = some bytes) :
    hexEncode bytes = text.map lowerCase := by
  induction text using hexPairs.induct generalizing bytes with
  | case1 =>
      obtain rfl := Option.some.inj h
      rfl
  | case2 => cases h
  | case3 hi lo rest ih =>
      obtain ⟨x, hx, h⟩ := Option.bind_eq_some_iff.mp h
      obtain ⟨y, hy, h⟩ := Option.bind_eq_some_iff.mp h
      obtain ⟨tail, htail, h⟩ := Option.bind_eq_some_iff.mp h
      obtain rfl := Option.some.inj h
      obtain ⟨hxlt, hxdigit⟩ := hexNibble_digit hx
      obtain ⟨hylt, hydigit⟩ := hexNibble_digit hy
      have hcons : hexEncode (BitVec.ofNat 8 (x <<< 4 ||| y) :: tail)
          = hexEncode [BitVec.ofNat 8 (x <<< 4 ||| y)] ++ hexEncode tail := rfl
      rw [hcons, hexEncode_pair hxlt hylt, ih htail, hxdigit, hydigit]
      rfl

end TaeScanner.Lib
