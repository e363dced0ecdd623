import DrasiCore.Models

/-! Values of query expressions, with the two comparisons the engine uses: the comparison of rows and the comparison of
grouping keys. Floats are finite: to compare one that is not with an integer ends the program. Grouping keys are compared by
a canonical form; so are rows of one grouping identity, which makes both comparisons together an equivalence. -/

namespace DrasiCore

open Library

def i64Min : Int := -(2 ^ 63)

def i64Max : Int := 2 ^ 63 - 1

def u64Max : Int := 2 ^ 64 - 1

/-- Expression values. Unevaluated expressions and list ranges do not occur as values of the modelled expressions. -/
inductive VariableValue where
  | null
  | bool (value : Bool)
  | float (value : Rat)
  | integer (value : Int)
  | string (value : String)
  | list (values : List VariableValue)
  | object (entries : List (String × VariableValue))
  | date (days : Int)
  | localTime (nanos : Int)
  | zonedTime (nanos offset : Int)
  | localDateTime (nanos : Int)
  | zonedDateTime (nanos offset : Int) (timezoneName : Option String)
  | duration (nanos year month : Int)
  | element (element : Element)
  | elementMetadata (metadata : ElementMetadata)
  | elementReference (reference : ElementReference)
  | awaiting

namespace VariableValue

mutual

def decEqB : VariableValue → VariableValue → Bool
  | .null, .null => true
  | .bool left, .bool right => left == right
  | .float left, .float right => left == right
  | .integer left, .integer right => left == right
  | .string left, .string right => left == right
  | .list left, .list right => decEqListB left right
  | .object left, .object right => decEqEntriesB left right
  | .date left, .date right => left == right
  | .localTime left, .localTime right => left == right
  | .zonedTime left offset, .zonedTime right other => left == right && offset == other
  | .localDateTime left, .localDateTime right => left == right
  | .zonedDateTime left offset name, .zonedDateTime right other name' =>
    left == right && (offset == other && name == name')
  | .duration left year month, .duration right year' month' => left == right && (year == year' && month == month')
  | .element left, .element right => left == right
  | .elementMetadata left, .elementMetadata right => left == right
  | .elementReference left, .elementReference right => left == right
  | .awaiting, .awaiting => true
  | _, _ => false

def decEqListB : List VariableValue → List VariableValue → Bool
  | [], [] => true
  | left :: lefts, right :: rights => decEqB left right && decEqListB lefts rights
  | _, _ => false

def decEqEntriesB : List (String × VariableValue) → List (String × VariableValue) → Bool
  | [], [] => true
  | (key, left) :: lefts, (other, right) :: rights =>
    key == other && decEqB left right && decEqEntriesB lefts rights
  | _, _ => false

end

mutual

theorem decEqB_iff (left right : VariableValue) : decEqB left right = true ↔ left = right := by
  cases left <;> cases right
  case list.list lefts rights => simp [decEqB, decEqListB_iff lefts rights]
  case object.object lefts rights => simp [decEqB, decEqEntriesB_iff lefts rights]
  all_goals simp [decEqB]

theorem decEqListB_iff : ∀ left right : List VariableValue, decEqListB left right = true ↔ left = right
  | [], [] => by simp [decEqListB]
  | [], _ :: _ => by simp [decEqListB]
  | _ :: _, [] => by simp [decEqListB]
  | left :: lefts, right :: rights => by simp [decEqListB, decEqB_iff left right, decEqListB_iff lefts rights]

theorem decEqEntriesB_iff :
    ∀ left right : List (String × VariableValue), decEqEntriesB left right = true ↔ left = right
  | [], [] => by simp [decEqEntriesB]
  | [], _ :: _ => by simp [decEqEntriesB]
  | _ :: _, [] => by simp [decEqEntriesB]
  | (_, left) :: lefts, (_, right) :: rights => by
    simp [decEqEntriesB, decEqB_iff left right, decEqEntriesB_iff lefts rights]

end

instance : DecidableEq VariableValue := fun left right => decidable_of_iff _ (decEqB_iff left right)

/-- The integer a signed 64-bit conversion yields; unsigned values past the signed range have none. -/
def integerAsI64 (value : Int) : Option Int := if value ≤ i64Max then some value else none

/-- An integral float as an integer, without rounding or saturating. -/
def floatAsIntegerExact (value : Rat) : Option Int :=
  if value.den = 1 ∧ i64Min ≤ value.num ∧ value.num ≤ u64Max then some value.num else none

/-- The double nearest to an integer; of two the even one. -/
def integerAsF64 (value : Int) : Int :=
  let magnitude := value.natAbs
  let ulp := 2 ^ (magnitude.log2 - 52)
  let below := magnitude / ulp
  let rest := 2 * (magnitude % ulp)
  value.sign * ((if ulp < rest ∨ rest = ulp ∧ below % 2 = 1 then below + 1 else below) * ulp : Nat)

mutual

/-- Comparison of values in rows: an integer in the signed range equals a float if it is rounded to it. -/
def valueEq : VariableValue → VariableValue → Bool
  | .integer left, .integer right => left == right
  | .float left, .float right => left == right
  | .integer left, .float right => (integerAsI64 left).any fun value => (integerAsF64 value : Rat) == right
  | .float left, .integer right => (integerAsI64 right).any fun value => (integerAsF64 value : Rat) == left
  | .list left, .list right => valueEqList left right
  | .object left, .object right => valueEqEntries left right
  | left, right => decEqB left right

def valueEqList : List VariableValue → List VariableValue → Bool
  | [], [] => true
  | left :: lefts, right :: rights => valueEq left right && valueEqList lefts rights
  | _, _ => false

def valueEqEntries : List (String × VariableValue) → List (String × VariableValue) → Bool
  | [], [] => true
  | (key, left) :: lefts, (other, right) :: rights =>
    key == other && valueEq left right && valueEqEntries lefts rights
  | _, _ => false

end

mutual

/-- One form for the values that rows do not tell apart, if they have one grouping identity. -/
def canonical : VariableValue → VariableValue
  | .float value =>
    if value.den = 1 ∧ value.num ≤ i64Max ∧ integerAsF64 value.num = value.num then .integer value.num else .float value
  | .list values => .list (canonicalList values)
  | .object entries => .object (canonicalEntries entries)
  | value => value

def canonicalList : List VariableValue → List VariableValue
  | [] => []
  | value :: values => canonical value :: canonicalList values

def canonicalEntries : List (String × VariableValue) → List (String × VariableValue)
  | [] => []
  | (key, value) :: entries => (key, canonical value) :: canonicalEntries entries

end

mutual

/-- Comparison of grouping keys: elements by reference, integral floats as integers, nothing rounded. -/
def eqForGroupby : VariableValue → VariableValue → Bool
  | .element left, .element right => left.getReference == right.getReference
  | .integer left, .float right => floatAsIntegerExact right == some left
  | .float left, .integer right => floatAsIntegerExact left == some right
  | .float left, .float right => left == right
  | .list left, .list right => eqForGroupbyList left right
  | .object left, .object right => eqForGroupbyEntries left right
  | left, right => valueEq left right

def eqForGroupbyList : List VariableValue → List VariableValue → Bool
  | [], [] => true
  | left :: lefts, right :: rights => eqForGroupby left right && eqForGroupbyList lefts rights
  | _, _ => false

def eqForGroupbyEntries : List (String × VariableValue) → List (String × VariableValue) → Bool
  | [], [] => true
  | (key, left) :: lefts, (other, right) :: rights =>
    key == other && eqForGroupby left right && eqForGroupbyEntries lefts rights
  | _, _ => false

end

mutual

/-- What `hash_for_groupby` feeds to the hasher, as a value: an element counts with its reference only, an integral
float as the integer. -/
def groupingIdentity : VariableValue → VariableValue
  | .element held => .element (.node ⟨held.getReference, [], 0⟩ .empty)
  | .float value => (floatAsIntegerExact value).elim (.float value) .integer
  | .list values => .list (groupingIdentityList values)
  | .object entries => .object (groupingIdentityEntries entries)
  | value => value

def groupingIdentityList : List VariableValue → List VariableValue
  | [] => []
  | value :: values => groupingIdentity value :: groupingIdentityList values

def groupingIdentityEntries : List (String × VariableValue) → List (String × VariableValue)
  | [] => []
  | (key, value) :: entries => (key, groupingIdentity value) :: groupingIdentityEntries entries

end

private theorem intCast_eq_iff (number : Int) (value : Rat) :
    (number : Rat) = value ↔ value.den = 1 ∧ value.num = number := by
  constructor
  · rintro rfl
    exact ⟨Rat.den_intCast number, Rat.num_intCast number⟩
  · rintro ⟨integral, rfl⟩
    exact Rat.coe_int_num_of_den_eq_one integral

private theorem identity_float (value : Rat) :
    (∃ number, floatAsIntegerExact value = some number ∧ value = number ∧
        groupingIdentity (.float value) = .integer number) ∨
      floatAsIntegerExact value = none ∧ groupingIdentity (.float value) = .float value := by
  by_cases exact_ : value.den = 1 ∧ i64Min ≤ value.num ∧ value.num ≤ u64Max
  · refine .inl ⟨value.num, ?_, ?_, ?_⟩
    · simp only [floatAsIntegerExact, if_pos exact_]
    · exact ((intCast_eq_iff value.num value).mpr ⟨exact_.1, rfl⟩).symm
    · simp only [groupingIdentity, floatAsIntegerExact, if_pos exact_, Option.elim]
  · refine .inr ⟨?_, ?_⟩
    · simp only [floatAsIntegerExact, if_neg exact_]
    · simp only [groupingIdentity, floatAsIntegerExact, if_neg exact_, Option.elim]

private theorem integer_eq_identity_float (number : Int) (value : Rat) :
    (floatAsIntegerExact value == some number) = true ↔ .integer number = groupingIdentity (.float value) := by
  rcases identity_float value with ⟨converted, found, -, form⟩ | ⟨missing, form⟩
  · rw [found, form, beq_iff_eq, Option.some.injEq, integer.injEq, eq_comm]
  · simp [missing, form]

private theorem identity_float_injective (left right : Rat) :
    (left == right) = true ↔ groupingIdentity (.float left) = groupingIdentity (.float right) := by
  rw [beq_iff_eq]
  refine ⟨fun same => same ▸ rfl, fun same => ?_⟩
  rcases identity_float left with ⟨number, -, isNumber, form⟩ | ⟨-, form⟩ <;>
    rcases identity_float right with ⟨other, -, isOther, form'⟩ | ⟨-, form'⟩ <;>
      rw [form, form'] at same
  · rw [isNumber, isOther, integer.inj same]
  · cases same
  · cases same
  · exact float.inj same

mutual

theorem eqForGroupby_iff (left right : VariableValue) :
    eqForGroupby left right = true ↔ groupingIdentity left = groupingIdentity right := by
  cases left <;> cases right
  case list.list lefts rights => simp [eqForGroupby, groupingIdentity, eqForGroupbyList_iff lefts rights]
  case object.object lefts rights => simp [eqForGroupby, groupingIdentity, eqForGroupbyEntries_iff lefts rights]
  case element.element left right => simp [eqForGroupby, groupingIdentity]
  case integer.float left right => exact integer_eq_identity_float left right
  case float.float left right => exact identity_float_injective left right
  case float.integer left right => exact (integer_eq_identity_float right left).trans eq_comm
  all_goals first
    | simp [eqForGroupby, groupingIdentity, valueEq, decEqB]; done
    -- A float has the identity of a number in both cases.
    | cases converted : floatAsIntegerExact ‹Rat› <;>
        simp [eqForGroupby, groupingIdentity, valueEq, decEqB, converted]

theorem eqForGroupbyList_iff :
    ∀ left right : List VariableValue,
      eqForGroupbyList left right = true ↔ groupingIdentityList left = groupingIdentityList right
  | [], [] => by simp [eqForGroupbyList]
  | [], _ :: _ => by simp [eqForGroupbyList, groupingIdentityList]
  | _ :: _, [] => by simp [eqForGroupbyList, groupingIdentityList]
  | left :: lefts, right :: rights => by
    simp [eqForGroupbyList, groupingIdentityList, eqForGroupby_iff left right, eqForGroupbyList_iff lefts rights]

theorem eqForGroupbyEntries_iff :
    ∀ left right : List (String × VariableValue),
      eqForGroupbyEntries left right = true ↔ groupingIdentityEntries left = groupingIdentityEntries right
  | [], [] => by simp [eqForGroupbyEntries]
  | [], _ :: _ => by simp [eqForGroupbyEntries, groupingIdentityEntries]
  | _ :: _, [] => by simp [eqForGroupbyEntries, groupingIdentityEntries]
  | (_, left) :: lefts, (_, right) :: rights => by
    simp [eqForGroupbyEntries, groupingIdentityEntries, eqForGroupby_iff left right,
      eqForGroupbyEntries_iff lefts rights]

end

private theorem canonical_float_injective (left right : Rat) :
    (left == right) = true ↔ canonical (.float left) = canonical (.float right) := by
  simp only [canonical, beq_iff_eq]
  split <;> split
  · next leftSmall rightSmall =>
    simp only [integer.injEq]
    exact ⟨fun same => same ▸ rfl, fun same => Rat.ext same (leftSmall.1.trans rightSmall.1.symm)⟩
  · next leftSmall rightLarge => simp only [reduceCtorEq, iff_false]; rintro rfl; exact rightLarge leftSmall
  · next leftLarge rightSmall => simp only [reduceCtorEq, iff_false]; rintro rfl; exact leftLarge rightSmall
  · simp

private theorem integer_eq_canonical_float (number : Int) (value : Rat)
    (identity : .integer number = groupingIdentity (.float value)) :
    ((integerAsI64 number).any fun converted => (integerAsF64 converted : Rat) == value) = true ↔
      .integer number = canonical (.float value) := by
  -- One identity means that the float is the integer itself, so nothing is rounded where they are equal.
  obtain rfl : value = number := by
    rcases identity_float value with ⟨_, -, isNumber, form⟩ | ⟨-, form⟩
    · rw [isNumber, integer.inj (identity.trans form)]
    · cases identity.trans form
  simp only [integerAsI64, canonical, Rat.den_intCast, Rat.num_intCast, true_and]
  by_cases inRange : number ≤ i64Max
  · by_cases kept : integerAsF64 number = number <;> simp [inRange, kept]
  · simp [inRange]

mutual

/-- Of values with one grouping identity the comparison in rows is an equivalence. -/
theorem valueEq_iff (left right : VariableValue) (identity : groupingIdentity left = groupingIdentity right) :
    valueEq left right = true ↔ canonical left = canonical right := by
  cases left <;> cases right
  case list.list lefts rights =>
    simp only [groupingIdentity, list.injEq] at identity
    simp [valueEq, canonical, valueEqList_iff lefts rights identity]
  case object.object lefts rights =>
    simp only [groupingIdentity, object.injEq] at identity
    simp [valueEq, canonical, valueEqEntries_iff lefts rights identity]
  case integer.float left right => exact integer_eq_canonical_float left right identity
  case float.float left right => exact canonical_float_injective left right
  case float.integer left right => exact (integer_eq_canonical_float right left identity.symm).trans eq_comm
  all_goals simp [valueEq, canonical, decEqB] <;> split <;> simp

theorem valueEqList_iff : ∀ left right : List VariableValue, groupingIdentityList left = groupingIdentityList right →
    (valueEqList left right = true ↔ canonicalList left = canonicalList right)
  | [], [], _ => by simp [valueEqList]
  | [], _ :: _, _ => by simp [valueEqList, canonicalList]
  | _ :: _, [], _ => by simp [valueEqList, canonicalList]
  | left :: lefts, right :: rights, identity => by
    simp only [groupingIdentityList, List.cons.injEq] at identity
    simp [valueEqList, canonicalList, valueEq_iff left right identity.1, valueEqList_iff lefts rights identity.2]

theorem valueEqEntries_iff : ∀ left right : List (String × VariableValue),
    groupingIdentityEntries left = groupingIdentityEntries right →
    (valueEqEntries left right = true ↔ canonicalEntries left = canonicalEntries right)
  | [], [], _ => by simp [valueEqEntries]
  | [], _ :: _, _ => by simp [valueEqEntries, canonicalEntries]
  | _ :: _, [], _ => by simp [valueEqEntries, canonicalEntries]
  | (_, left) :: lefts, (_, right) :: rights, identity => by
    simp only [groupingIdentityEntries, List.cons.injEq, Prod.mk.injEq] at identity
    simp [valueEqEntries, canonicalEntries, valueEq_iff left right identity.1.2,
      valueEqEntries_iff lefts rights identity.2]

end

end VariableValue

end DrasiCore
