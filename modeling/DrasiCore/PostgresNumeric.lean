import DrasiCore.Library.ByteKeys
import Mathlib.Data.Rat.Cast.Order

/-! Numerics as a Postgres server sends them, and how the source reads them. Decimals are rational numbers up to the largest
decimal; an operation that leaves this range panics. -/

namespace DrasiCore.PostgresNumeric

open Library

def decimalMax : Rat := 2 ^ 96 - 1

def decimal (value : Rat) : Option Rat := if |value| ≤ decimalMax then some value else none

def repeated (step : Rat → Option Rat) : Nat → Rat → Option Rat
  | 0, value => some value
  | count + 1, value => (step value).bind (repeated step count)

def multiplier (power : Int) : Option Rat :=
  if 0 ≤ power then repeated (fun result => decimal (result * 10000)) power.toNat 1
  else repeated (fun result => decimal (result / 10000)) (-power).toNat 1

def addDigit (weight : Int) (result : Rat) (entry : Nat × Nat) : Option Rat := do
  let (digit, i) := entry
  let term ← decimal (digit * (← multiplier (weight - i)))
  decimal (result + term)

def signNegative : Nat := 0x4000

def signNaN : Nat := 0xC000

def toDecimal (weight : Int) (sign dscale : Nat) (digits : List Nat) : Option Rat := do
  let sum ← digits.zipIdx.foldlM (addDigit weight) 0
  let result := if sign = signNegative then -sum else sum
  if 0 < dscale then
    let scaleDivisor ← repeated (fun divisor => decimal (divisor * 10)) dscale 1
    decimal (result / scaleDivisor)
  else return result

variable (data : ByteString)

/-- The word of two bytes at an index. -/
def readU16 (index : Nat) : Nat := ofBigEndian ((data.drop (2 * index)).take 2)

def toI16 (word : Nat) : Int := if word < 2 ^ 15 then word else word - 2 ^ 16

/-- The number, nothing where the reading panics, or an error. -/
def decodeNumeric : Except String (Option Rat) :=
  if data.length < 8 then .error "Numeric data too short"
  else
    let ndigits := readU16 data 0
    let sign := readU16 data 2
    if sign = signNaN then .ok (some 0)
    else if data.length < 8 + 2 * ndigits then .error "failed to fill whole buffer"
    else .ok (toDecimal (toI16 (readU16 data 1)) sign (readU16 data 3) ((List.range ndigits).map fun i => readU16 data (4 + i)))

end DrasiCore.PostgresNumeric
