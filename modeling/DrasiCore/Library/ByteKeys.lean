import Mathlib.Algebra.GroupWithZero.Nat
import Mathlib.Data.List.Lex
import Mathlib.Order.Fin.Basic

/-! Byte strings in lexicographic order, and fixed-width big-endian numbers, whose order as byte strings is their order
as numbers. -/

namespace DrasiCore.Library

open List Nat

variable {width : Nat}

abbrev Byte := Fin 256

abbrev ByteString := List Byte

instance byteNeZero : NeZero 256 := ⟨by decide⟩

instance lawfulByteString : LawfulBEq ByteString := inferInstance

/-- The last `width` digits of a number to the base 256, most significant first. -/
def bigEndian : (width : Nat) → Nat → ByteString
  | 0, _ => []
  | width + 1, number => ⟨number / 256 ^ width % 256, Nat.mod_lt _ (by decide)⟩ :: bigEndian width (number % 256 ^ width)

def ofBigEndian (digits : ByteString) : Nat := digits.foldl (fun number digit => number * 256 + digit.val) 0

@[simp] theorem length_bigEndian (width number : Nat) : (bigEndian width number).length = width := by
  induction width generalizing number with
  | zero => rfl
  | succ width ih => simp [bigEndian, ih]

theorem foldl_bigEndian (width : Nat) {number} (bounded : number < 256 ^ width) (start : Nat) :
    (bigEndian width number).foldl (fun number digit => number * 256 + digit.val) start =
      start * 256 ^ width + number := by
  induction width generalizing number start with
  | zero =>
    have zero : number = 0 := by simpa using bounded
    simp [bigEndian, zero]
  | succ width ih =>
    have positive : 0 < 256 ^ width := Nat.pow_pos (by decide)
    have digit : number / 256 ^ width < 256 := by
      rw [Nat.div_lt_iff_lt_mul positive, Nat.mul_comm]
      exact bounded
    rw [bigEndian, foldl_cons, ih (Nat.mod_lt _ positive)]
    have split : 256 ^ width * (number / 256 ^ width) + number % 256 ^ width = number := div_add_mod _ _
    simp only [mod_eq_of_lt digit]
    rw [Nat.add_mul, Nat.pow_succ, Nat.mul_comm (256 ^ width) 256, Nat.mul_assoc, Nat.add_assoc,
      Nat.mul_comm (number / 256 ^ width), split]

theorem ofBigEndian_bigEndian {number} (bounded : number < 256 ^ width) :
    ofBigEndian (bigEndian width number) = number := by
  unfold ofBigEndian
  rw [foldl_bigEndian width bounded, Nat.zero_mul, Nat.zero_add]

theorem bigEndian_lt_iff {one two} (first : one < 256 ^ width) (second : two < 256 ^ width) :
    bigEndian width one < bigEndian width two ↔ one < two := by
  induction width generalizing one two with
  | zero =>
    have oneZero : one = 0 := by simpa using first
    have twoZero : two = 0 := by simpa using second
    simp [oneZero, twoZero]
  | succ width ih =>
    have positive : 0 < 256 ^ width := Nat.pow_pos (by decide)
    have digit {number : Nat} (bounded : number < 256 ^ (width + 1)) : number / 256 ^ width < 256 := by
      rw [Nat.div_lt_iff_lt_mul positive, Nat.mul_comm]
      exact bounded
    rw [bigEndian, bigEndian, cons_lt_cons_iff, ih (Nat.mod_lt _ positive) (Nat.mod_lt _ positive),
      Fin.mk_lt_mk, Fin.mk.injEq, mod_eq_of_lt (digit first), mod_eq_of_lt (digit second)]
    have splitOne := div_add_mod one (256 ^ width)
    have splitTwo := div_add_mod two (256 ^ width)
    have restOne := Nat.mod_lt one positive
    have restTwo := Nat.mod_lt two positive
    constructor
    · rintro (smaller | ⟨same, smaller⟩)
      · have gap : 256 ^ width * (one / 256 ^ width + 1) ≤ 256 ^ width * (two / 256 ^ width) :=
          mul_le_mul_left _ smaller
        rw [Nat.mul_add] at gap
        omega
      · rw [same] at splitOne
        omega
    · intro smaller
      rcases lt_or_ge (one / 256 ^ width) (two / 256 ^ width) with less | notLess
      · exact .inl less
      · have same : one / 256 ^ width = two / 256 ^ width :=
          Nat.le_antisymm (Nat.div_le_div_right smaller.le) notLess
        rw [same] at splitOne
        exact .inr ⟨same, by omega⟩

theorem bigEndian_injective {one two} (first : one < 256 ^ width) (second : two < 256 ^ width)
    (same : bigEndian width one = bigEndian width two) : one = two := by
  rw [← ofBigEndian_bigEndian first, ← ofBigEndian_bigEndian second, same]

theorem append_lt_append_iff {head other rest tail : ByteString} (length : head.length = other.length) :
    head ++ rest < other ++ tail ↔ head < other ∨ head = other ∧ rest < tail := by
  induction head generalizing other with
  | nil =>
    have nil : other = [] := length_eq_zero_iff.mp length.symm
    simp [nil]
  | cons digit head ih =>
    cases other with
    | nil => cases length
    | cons otherDigit other =>
      simp only [cons_append, cons_lt_cons_iff, ih (Nat.succ.inj length), cons.injEq]
      tauto

theorem take_drop_flatMap {A} {encode : A → ByteString} (fixed : ∀ entry, (encode entry).length = width)
    {entries : List A} {index entry} (here : entries[index]? = some entry) :
    ((entries.flatMap encode).drop (width * index)).take width = encode entry := by
  induction entries generalizing index with
  | nil => cases here
  | cons first entries ih =>
    cases index with
    | zero =>
      obtain rfl : first = entry := Option.some.inj here
      rw [flatMap_cons, Nat.mul_zero, drop_zero]
      exact take_left' (fixed first)
    | succ index =>
      have skip : width * (index + 1) = (encode first).length + width * index := by rw [fixed first, Nat.mul_succ, Nat.add_comm]
      rw [flatMap_cons, skip, drop_length_add_append]
      exact ih here

theorem length_flatMap_of_fixed {A} {encode : A → ByteString} (fixed : ∀ entry, (encode entry).length = width)
    (entries : List A) : (entries.flatMap encode).length = width * entries.length := by
  induction entries with
  | nil => rfl
  | cons first entries ih => rw [flatMap_cons, length_append, fixed, ih, length_cons, Nat.mul_succ, Nat.add_comm]

end DrasiCore.Library
