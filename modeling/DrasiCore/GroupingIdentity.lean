import DrasiCore.ResultIndex
import DrasiCore.Library.Binary64
import DrasiCore.Library.HashWrite

/-! The identity under which values are grouped, down to the bits of floats and the writes to the hasher. Here floats are
double-precision numbers, which the values of the evaluation model are not. An unevaluated expression is no value: only the
evaluation of an expression literal gives one, and no parser builds such a literal. -/

namespace DrasiCore.GroupingIdentity

open Library

/-- A type of another crate with its comparison and hash, which are assumed to be coherent. -/
structure HashedType where
  Carrier : Type
  eq : Carrier → Carrier → Bool
  feed : Carrier → List HashWrite
  refl : ∀ value, eq value value = true
  symm : ∀ left right, eq left right = true → eq right left = true
  trans : ∀ left middle right, eq left middle = true → eq middle right = true → eq left right = true
  coherent : ∀ left right, eq left right = true → feed left = feed right

structure Chrono where
  naiveDate : HashedType
  naiveTime : HashedType
  fixedOffset : HashedType
  naiveDateTime : HashedType
  dateTime : HashedType
  timeDelta : HashedType

inductive Integer where
  | posInt (value : Nat)
  | negInt (value : Int)
deriving DecidableEq

def Integer.hashForGroupby : Integer → List HashWrite
  | .posInt value => [.u8 0, .u64 value]
  | .negInt value => [.u8 1, .u64 value.natAbs]

namespace Float

variable (value : Binary64)

/-- An integral float as an integer, without rounding or saturating. -/
def asIntegerExact : Option Integer :=
  if !value.isIntegral then none
  else if 0 ≤ value.scaled ∧ value.scaled < 2 ^ 64 * Binary64.unit then some (.posInt (value.scaled / Binary64.unit).toNat)
  else if value.scaled < 0 ∧ -2 ^ 63 * Binary64.unit ≤ value.scaled then some (.negInt (value.scaled / Binary64.unit))
  else none

def eqForGroupby (left right : Binary64) : Bool := left.eq right || left.toBits = right.toBits

def feed : List HashWrite :=
  if value.eq .zero then [.u64 Binary64.zero.toBits] else [.u64 value.toBits]

end Float

inductive RangeBound where
  | index (value : Int)
  | unbounded
deriving DecidableEq

def RangeBound.feed : RangeBound → List HashWrite
  | .index value => [.isize 0, .i64 value]
  | .unbounded => [.isize 1]

def feedOption : Option String → List HashWrite
  | none => [.isize 0]
  | some text => [.isize 1, .str text]

def feedReference (reference : ElementReference) : List HashWrite := [.str reference.sourceId, .str reference.elementId]

def feedMetadata (metadata : ElementMetadata) : List HashWrite :=
  feedReference metadata.reference ++ .usize metadata.labels.length :: metadata.labels.map .str ++ [.u64 metadata.effectiveFrom]

inductive VariableValue (chrono : Chrono) where
  | null
  | bool (value : Bool)
  | float (value : Binary64)
  | integer (value : Integer)
  | string (value : String)
  | list (values : List (VariableValue chrono))
  | object (entries : List (String × VariableValue chrono))
  | date (value : chrono.naiveDate.Carrier)
  | localTime (value : chrono.naiveTime.Carrier)
  | zonedTime (time : chrono.naiveTime.Carrier) (offset : chrono.fixedOffset.Carrier)
  | localDateTime (value : chrono.naiveDateTime.Carrier)
  | zonedDateTime (datetime : chrono.dateTime.Carrier) (timezoneName : Option String)
  | duration (duration : chrono.timeDelta.Carrier) (year month : Int)
  | listRange (start stop : RangeBound)
  | element (element : Element)
  | elementMetadata (metadata : ElementMetadata)
  | elementReference (reference : ElementReference)
  | awaiting

namespace VariableValue

variable {chrono : Chrono}

/-- The comparison of rows on the values for which grouping does not have its own. -/
def eq : VariableValue chrono → VariableValue chrono → Bool
  | integer left, integer right => left = right
  | bool left, bool right => left = right
  | string left, string right => left = right
  | null, null => true
  | date left, date right => chrono.naiveDate.eq left right
  | localTime left, localTime right => chrono.naiveTime.eq left right
  | zonedTime left offset, zonedTime right other => chrono.naiveTime.eq left right && chrono.fixedOffset.eq offset other
  | localDateTime left, localDateTime right => chrono.naiveDateTime.eq left right
  | zonedDateTime left name, zonedDateTime right other => chrono.dateTime.eq left right && name = other
  | duration left year month, duration right year' month' => chrono.timeDelta.eq left right && (year = year' && month = month')
  | elementReference left, elementReference right => left = right
  | elementMetadata left, elementMetadata right => left = right
  | listRange left stop, listRange right stop' => left = right && stop = stop'
  | awaiting, awaiting => true
  | _, _ => false

mutual

def eqForGroupby : VariableValue chrono → VariableValue chrono → Bool
  | element left, element right => left.getReference = right.getReference
  | integer left, float right => Float.asIntegerExact right = some left
  | float left, integer right => Float.asIntegerExact left = some right
  | float left, float right => Float.eqForGroupby left right
  | list lefts, list rights => eqValues lefts rights
  | object lefts, object rights => eqEntries lefts rights
  | left, right => left.eq right

def eqValues : List (VariableValue chrono) → List (VariableValue chrono) → Bool
  | [], [] => true
  | left :: lefts, right :: rights => eqForGroupby left right && eqValues lefts rights
  | _, _ => false

def eqEntries : List (String × VariableValue chrono) → List (String × VariableValue chrono) → Bool
  | [], [] => true
  | (key, left) :: lefts, (other, right) :: rights => key = other && eqForGroupby left right && eqEntries lefts rights
  | _, _ => false

end

/-- The derived hash, of the values that grouping leaves to it. -/
def feed : VariableValue chrono → List HashWrite
  | null => [.isize 0]
  | bool value => [.isize 1, .u8 value.toNat]
  | float value => .isize 2 :: Float.feed value
  | string value => [.isize 4, .str value]
  | date value => .isize 7 :: chrono.naiveDate.feed value
  | localTime value => .isize 8 :: chrono.naiveTime.feed value
  | zonedTime time offset => .isize 9 :: (chrono.naiveTime.feed time ++ chrono.fixedOffset.feed offset)
  | localDateTime value => .isize 10 :: chrono.naiveDateTime.feed value
  | zonedDateTime datetime timezoneName => .isize 11 :: (chrono.dateTime.feed datetime ++ feedOption timezoneName)
  | duration delta year month => .isize 12 :: (chrono.timeDelta.feed delta ++ [.i64 year, .i64 month])
  | listRange start stop => .isize 14 :: (start.feed ++ stop.feed)
  | elementMetadata metadata => .isize 16 :: feedMetadata metadata
  | elementReference reference => .isize 17 :: feedReference reference
  | awaiting => [.isize 18]
  | integer _ | list _ | object _ | element _ => []

/-- The hash of an integer, also for a float that is one. -/
def integerForGroupby (value : Integer) : List HashWrite := .isize 3 :: value.hashForGroupby

mutual

def hashForGroupby : VariableValue chrono → List HashWrite
  | element held => feedReference held.getReference
  | integer value => integerForGroupby value
  | float value =>
    match Float.asIntegerExact value with
    | some exact => integerForGroupby exact
    | none => (float value : VariableValue chrono).feed
  | list values => .isize 5 :: .usize values.length :: hashValues values
  | object entries => .isize 6 :: .usize entries.length :: hashEntries entries
  | value => value.feed

def hashValues : List (VariableValue chrono) → List HashWrite
  | [] => []
  | value :: values => hashForGroupby value ++ hashValues values

def hashEntries : List (String × VariableValue chrono) → List HashWrite
  | [] => []
  | (key, value) :: entries => .str key :: (hashForGroupby value ++ hashEntries entries)

end

end VariableValue

variable {chrono : Chrono}

abbrev Row (chrono : Chrono) := String → Option (VariableValue chrono)

inductive ResultKey (chrono : Chrono) where
  | groupBy (keys : List (VariableValue chrono))
  | inputHash (hash : Nat)
  | element (reference : ElementReference)

namespace ResultKey

def eq : ResultKey chrono → ResultKey chrono → Bool
  | groupBy lefts, groupBy rights => VariableValue.eqValues lefts rights
  | inputHash left, inputHash right => left = right
  | element left, element right => left = right
  | _, _ => false

def feed : ResultKey chrono → List HashWrite
  | groupBy keys => VariableValue.hashValues keys
  | inputHash hash => [.u64 hash]
  | element reference => feedReference reference

def groupbyFromVariables (keys : List String) (row : Row chrono) : ResultKey chrono :=
  .groupBy (keys.map fun key => (row key).getD .null)

end ResultKey

def feedOwner : ResultOwner → List HashWrite
  | .function position => [.isize 0, .usize position]
  | .partCurrent part => [.isize 1, .usize part]
  | .partDefault part => [.isize 2, .usize part]

/-- What the key of an accumulator in the index is the hash of. -/
def getHashKey (owner : ResultOwner) (key : ResultKey chrono) : List HashWrite := feedOwner owner ++ key.feed

def sortedSetId (positionInQuery : Nat) (groupingValues : List (VariableValue chrono)) : List HashWrite :=
  .usize positionInQuery :: VariableValue.hashValues groupingValues

/-- What the signature of a row of aggregates is the hash of. -/
def extractGroupingValueHash (groupingKeys : List String) (row : Row chrono) : List HashWrite :=
  groupingKeys.flatMap fun key =>
    match row key with
    | some value => value.hashForGroupby
    | none => [.i32 0]

def groupingMatch (groupingKeys : List String) (left right : Row chrono) : Bool :=
  groupingKeys.all fun key =>
    match left key, right key with
    | some before, some after => before.eqForGroupby after
    | none, none => true
    | _, _ => false

end DrasiCore.GroupingIdentity
