import DrasiCore.GroupingIdentity

/-! Values that are grouped together are hashed alike. Numbers are compared across their two representations and floats by
their bits, too, so that a NaN is grouped with itself and the two zeros are grouped together. -/

namespace DrasiCore.GroupingIdentity

open Library List Binary64 GroupingIdentity.VariableValue

section Numbers

variable {left right : Binary64}

def Integer.toInt : Integer → Int
  | .posInt value => value
  | .negInt value => value

theorem Float.isIntegral_congr (same : left.scaled = right.scaled) : left.isIntegral = right.isIntegral := by
  have magnitudes : left.magnitude = right.magnitude := by
    rw [← natAbs_scaled, ← natAbs_scaled, same]
  obtain ⟨exponent, _⟩ := magnitude_inj magnitudes
  rw [isIntegral, isIntegral, exponent, magnitudes]

theorem Float.asIntegerExact_congr (same : left.scaled = right.scaled) : asIntegerExact left = asIntegerExact right := by
  rw [asIntegerExact, asIntegerExact, isIntegral_congr same, same]

theorem Float.scaled_of_asIntegerExact {integer} (exact : asIntegerExact left = some integer) :
    left.isNan = false ∧ left.scaled = integer.toInt * unit := by
  unfold asIntegerExact at exact
  split at exact
  · cases exact
  case isFalse integral =>
    have integral : left.isIntegral = true := by simpa using integral
    refine ⟨not_isNan_of_isIntegral integral, ?_⟩
    have whole := scaled_of_isIntegral integral
    split at exact
    case isTrue bounds =>
      obtain rfl := Option.some.inj exact
      have positive : 0 ≤ left.scaled / unit := Int.ediv_nonneg bounds.1 (Int.natCast_nonneg _)
      rw [Integer.toInt, Int.toNat_of_nonneg positive]
      exact whole
    · split at exact
      · obtain rfl := Option.some.inj exact
        exact whole
      · cases exact

theorem Float.eqForGroupby_iff :
    Float.eqForGroupby left right = true ↔ left = right ∨ (left.scaled = 0 ∧ right.scaled = 0) := by
  simp only [Float.eqForGroupby, Bool.or_eq_true, eq_iff, decide_eq_true_eq]
  constructor
  · rintro (⟨_, _, same⟩ | bits)
    · by_cases zero : left.scaled = 0
      · exact .inr ⟨zero, same ▸ zero⟩
      · exact .inl (eq_of_scaled same zero)
    · exact .inl (toBits_inj bits)
  · rintro (rfl | ⟨zero, zero'⟩)
    · exact .inr rfl
    · exact .inl ⟨not_isNan_of_zero zero, not_isNan_of_zero zero', zero.trans zero'.symm⟩

theorem Float.eqForGroupby_trans {middle} (first : Float.eqForGroupby left middle = true)
    (second : Float.eqForGroupby middle right = true) : Float.eqForGroupby left right = true := by
  rw [eqForGroupby_iff] at first second ⊢
  rcases first with rfl | ⟨zero, zero'⟩
  · exact second
  · refine .inr ⟨zero, ?_⟩
    rcases second with rfl | ⟨_, last⟩
    · exact zero'
    · exact last

theorem Float.asIntegerExact_of_eqForGroupby (same : Float.eqForGroupby left right = true) :
    asIntegerExact left = asIntegerExact right := by
  rcases Float.eqForGroupby_iff.mp same with rfl | ⟨zero, zero'⟩
  · rfl
  · exact asIntegerExact_congr (zero.trans zero'.symm)

theorem Float.eqForGroupby_of_exact {integer} (exact : asIntegerExact left = some integer)
    (exact' : asIntegerExact right = some integer) : Float.eqForGroupby left right = true := by
  obtain ⟨number, value⟩ := scaled_of_asIntegerExact exact
  obtain ⟨number', value'⟩ := scaled_of_asIntegerExact exact'
  have same : left.eq right = true := eq_iff.mpr ⟨number, number', value.trans value'.symm⟩
  simp [Float.eqForGroupby, same]

theorem Float.feed_congr (same : Float.eqForGroupby left right = true) : Float.feed left = Float.feed right := by
  rcases Float.eqForGroupby_iff.mp same with rfl | ⟨zero, zero'⟩
  · rfl
  · have isZero (number : Binary64) (zero : number.scaled = 0) : number.eq .zero = true :=
      eq_iff.mpr ⟨not_isNan_of_zero zero, rfl, zero⟩
    simp [Float.feed, isZero left zero, isZero right zero']

end Numbers

namespace VariableValue

variable {chrono : Chrono}
variable {motive : VariableValue chrono → Prop} {left right : VariableValue chrono}

/-- Neither a list nor an object. -/
def Single : VariableValue chrono → Prop
  | .list _ | .object _ => False
  | _ => True

/-- The induction over values, with the hypothesis for every part. -/
theorem ofParts (list : ∀ values, (∀ value ∈ values, motive value) → motive (.list values))
    (object : ∀ entries, (∀ entry ∈ entries, motive entry.2) → motive (.object entries))
    (single : ∀ value : VariableValue chrono, value.Single → motive value) (value : VariableValue chrono) : motive value :=
  match value with
  | .list values => list values fun value member =>
    have : sizeOf value < sizeOf values := sizeOf_lt_of_mem member
    ofParts list object single value
  | .object entries => object entries fun (key, value) member =>
    have : sizeOf (key, value) < sizeOf entries := sizeOf_lt_of_mem member
    ofParts list object single value
  | .null | .bool _ | .float _ | .integer _ | .string _ | .date _ | .localTime _ | .zonedTime _ _ | .localDateTime _
  | .zonedDateTime _ _ | .duration _ _ _ | .listRange _ _ | .element _ | .elementMetadata _ | .elementReference _
  | .awaiting => single _ trivial
termination_by value
decreasing_by all_goals simp_all; omega

def EntryEq (left right : String × VariableValue chrono) : Prop := left.1 = right.1 ∧ left.2.eqForGroupby right.2 = true

theorem eqValues_iff {lefts rights : List (VariableValue chrono)} :
    eqValues lefts rights = true ↔ List.Forall₂ (fun left right => left.eqForGroupby right = true) lefts rights := by
  induction lefts generalizing rights with
  | nil => cases rights <;> simp [eqValues]
  | cons left lefts ih => cases rights <;> simp [eqValues, ih]

theorem eqEntries_iff {lefts rights : List (String × VariableValue chrono)} :
    eqEntries lefts rights = true ↔ List.Forall₂ EntryEq lefts rights := by
  induction lefts generalizing rights with
  | nil => cases rights <;> simp [eqEntries]
  | cons left lefts ih => cases rights <;> simp [eqEntries, EntryEq, ih]

inductive Together : VariableValue chrono → VariableValue chrono → Prop
  | null : Together .null .null
  | bool (value : Bool) : Together (.bool value) (.bool value)
  | float {left right : Binary64} (same : Float.eqForGroupby left right = true) : Together (.float left) (.float right)
  | floatInteger {left : Binary64} {right : Integer} (exact : Float.asIntegerExact left = some right) :
      Together (.float left) (.integer right)
  | integerFloat {left : Integer} {right : Binary64} (exact : Float.asIntegerExact right = some left) :
      Together (.integer left) (.float right)
  | integer (value : Integer) : Together (.integer value) (.integer value)
  | string (value : String) : Together (.string value) (.string value)
  | list {lefts rights : List (VariableValue chrono)}
      (pairs : List.Forall₂ (fun left right => left.eqForGroupby right = true) lefts rights) :
      Together (.list lefts) (.list rights)
  | object {lefts rights : List (String × VariableValue chrono)} (pairs : List.Forall₂ EntryEq lefts rights) :
      Together (.object lefts) (.object rights)
  | date {left right : chrono.naiveDate.Carrier} (same : chrono.naiveDate.eq left right = true) :
      Together (.date left) (.date right)
  | localTime {left right : chrono.naiveTime.Carrier} (same : chrono.naiveTime.eq left right = true) :
      Together (.localTime left) (.localTime right)
  | zonedTime {left right : chrono.naiveTime.Carrier} {offset offset' : chrono.fixedOffset.Carrier}
      (same : chrono.naiveTime.eq left right = true) (offsets : chrono.fixedOffset.eq offset offset' = true) :
      Together (.zonedTime left offset) (.zonedTime right offset')
  | localDateTime {left right : chrono.naiveDateTime.Carrier} (same : chrono.naiveDateTime.eq left right = true) :
      Together (.localDateTime left) (.localDateTime right)
  | zonedDateTime {left right : chrono.dateTime.Carrier} (name : Option String) (same : chrono.dateTime.eq left right = true) :
      Together (.zonedDateTime left name) (.zonedDateTime right name)
  | duration {left right : chrono.timeDelta.Carrier} (year month : Int) (same : chrono.timeDelta.eq left right = true) :
      Together (.duration left year month) (.duration right year month)
  | listRange (start stop : RangeBound) : Together (.listRange start stop) (.listRange start stop)
  | element {left right : Element} (same : left.getReference = right.getReference) :
      Together (.element left) (.element right)
  | elementMetadata (metadata : ElementMetadata) : Together (.elementMetadata metadata) (.elementMetadata metadata)
  | elementReference (reference : ElementReference) : Together (.elementReference reference) (.elementReference reference)
  | awaiting : Together .awaiting .awaiting

theorem eqForGroupby_of_together (together : Together left right) : left.eqForGroupby right = true := by
  cases together with
  | list pairs => exact eqValues_iff.mpr pairs
  | object pairs => exact eqEntries_iff.mpr pairs
  | _ => simp [eqForGroupby, eq, *]

theorem together_of_eqForGroupby (same : left.eqForGroupby right = true) : Together left right := by
  -- Values of different kinds differ, but for floats and integers.
  cases left <;> cases right <;> try exact Bool.noConfusion same
  case null.null => exact .null
  case bool.bool value _ =>
    obtain rfl := of_decide_eq_true same
    exact .bool value
  case float.float => exact .float same
  case float.integer => exact .floatInteger (of_decide_eq_true same)
  case integer.float => exact .integerFloat (of_decide_eq_true same)
  case integer.integer value _ =>
    obtain rfl := of_decide_eq_true same
    exact .integer value
  case string.string value _ =>
    obtain rfl := of_decide_eq_true same
    exact .string value
  case list.list => exact .list (eqValues_iff.mp same)
  case object.object => exact .object (eqEntries_iff.mp same)
  case date.date => exact .date same
  case localTime.localTime => exact .localTime same
  case zonedTime.zonedTime =>
    obtain ⟨times, offsets⟩ := Bool.and_eq_true_iff.mp same
    exact .zonedTime times offsets
  case localDateTime.localDateTime => exact .localDateTime same
  case zonedDateTime.zonedDateTime name _ _ =>
    obtain ⟨times, names⟩ := Bool.and_eq_true_iff.mp same
    obtain rfl := of_decide_eq_true names
    exact .zonedDateTime name times
  case duration.duration year month _ _ _ =>
    obtain ⟨deltas, fields⟩ := Bool.and_eq_true_iff.mp same
    obtain ⟨years, months⟩ := Bool.and_eq_true_iff.mp fields
    obtain rfl := of_decide_eq_true years
    obtain rfl := of_decide_eq_true months
    exact .duration year month deltas
  case listRange.listRange start stop _ _ =>
    obtain ⟨starts, stops⟩ := Bool.and_eq_true_iff.mp same
    obtain rfl := of_decide_eq_true starts
    obtain rfl := of_decide_eq_true stops
    exact .listRange start stop
  case element.element => exact .element (of_decide_eq_true same)
  case elementMetadata.elementMetadata metadata _ =>
    obtain rfl := of_decide_eq_true same
    exact .elementMetadata metadata
  case elementReference.elementReference reference _ =>
    obtain rfl := of_decide_eq_true same
    exact .elementReference reference
  case awaiting.awaiting => exact .awaiting

theorem eqForGroupby_symm (same : left.eqForGroupby right = true) : right.eqForGroupby left = true := by
  induction left using ofParts generalizing right with
  | list values ih =>
    cases together_of_eqForGroupby same with
    | list pairs => exact eqValues_iff.mpr (forall₂_imp_mem pairs fun value member _ same => ih value member same).flip
  | object entries ih =>
    cases together_of_eqForGroupby same with
    | object pairs =>
      refine eqEntries_iff.mpr (forall₂_imp_mem pairs fun entry member _ same => ?_).flip
      exact ⟨same.1.symm, ih entry member same.2⟩
  | single value isSingle =>
    apply eqForGroupby_of_together
    cases together_of_eqForGroupby same with
    | list | object => exact isSingle.elim
    | float equal =>
      refine .float (Float.eqForGroupby_iff.mpr ?_)
      exact (Float.eqForGroupby_iff.mp equal).imp Eq.symm And.symm
    | floatInteger exact => exact .integerFloat exact
    | integerFloat exact => exact .floatInteger exact
    | date equal => exact .date (chrono.naiveDate.symm _ _ equal)
    | localTime equal => exact .localTime (chrono.naiveTime.symm _ _ equal)
    | zonedTime equal offsets => exact .zonedTime (chrono.naiveTime.symm _ _ equal) (chrono.fixedOffset.symm _ _ offsets)
    | localDateTime equal => exact .localDateTime (chrono.naiveDateTime.symm _ _ equal)
    | zonedDateTime name equal => exact .zonedDateTime name (chrono.dateTime.symm _ _ equal)
    | duration year month equal => exact .duration year month (chrono.timeDelta.symm _ _ equal)
    | element equal => exact .element equal.symm
    | _ => constructor

theorem eqForGroupby_trans {middle : VariableValue chrono} (first : left.eqForGroupby middle = true)
    (second : middle.eqForGroupby right = true) : left.eqForGroupby right = true := by
  induction left using ofParts generalizing middle right with
  | list values ih =>
    cases together_of_eqForGroupby first with
    | list pairs =>
      cases together_of_eqForGroupby second with
      | list pairs' =>
        exact eqValues_iff.mpr (forall₂_trans_mem pairs pairs' fun value member _ _ => ih value member)
  | object entries ih =>
    cases together_of_eqForGroupby first with
    | object pairs =>
      cases together_of_eqForGroupby second with
      | object pairs' =>
        refine eqEntries_iff.mpr (forall₂_trans_mem pairs pairs' fun entry member _ _ head tail => ?_)
        exact ⟨head.1.trans tail.1, ih entry member head.2 tail.2⟩
  | single value isSingle =>
    cases together_of_eqForGroupby first with
    | list | object => exact isSingle.elim
    | float equal =>
      apply eqForGroupby_of_together
      cases together_of_eqForGroupby second with
      | float equal' => exact .float (Float.eqForGroupby_trans equal equal')
      | floatInteger exact => exact .floatInteger ((Float.asIntegerExact_of_eqForGroupby equal).trans exact)
    | floatInteger exact =>
      apply eqForGroupby_of_together
      cases together_of_eqForGroupby second with
      | integerFloat exact' => exact .float (Float.eqForGroupby_of_exact exact exact')
      | integer => exact .floatInteger exact
    | integerFloat exact =>
      apply eqForGroupby_of_together
      cases together_of_eqForGroupby second with
      | float equal => exact .integerFloat ((Float.asIntegerExact_of_eqForGroupby equal).symm.trans exact)
      | floatInteger exact' =>
        obtain rfl := Option.some.inj (exact.symm.trans exact')
        exact .integer _
    | date equal =>
      cases together_of_eqForGroupby second with
      | date equal' => exact chrono.naiveDate.trans _ _ _ equal equal'
    | localTime equal =>
      cases together_of_eqForGroupby second with
      | localTime equal' => exact chrono.naiveTime.trans _ _ _ equal equal'
    | zonedTime equal offsets =>
      cases together_of_eqForGroupby second with
      | zonedTime equal' offsets' =>
        refine Bool.and_eq_true_iff.mpr ⟨chrono.naiveTime.trans _ _ _ equal equal', ?_⟩
        exact chrono.fixedOffset.trans _ _ _ offsets offsets'
    | localDateTime equal =>
      cases together_of_eqForGroupby second with
      | localDateTime equal' => exact chrono.naiveDateTime.trans _ _ _ equal equal'
    | zonedDateTime name equal =>
      cases together_of_eqForGroupby second with
      | zonedDateTime _ equal' =>
        exact eqForGroupby_of_together (.zonedDateTime name (chrono.dateTime.trans _ _ _ equal equal'))
    | duration year month equal =>
      cases together_of_eqForGroupby second with
      | duration _ _ equal' =>
        exact eqForGroupby_of_together (.duration year month (chrono.timeDelta.trans _ _ _ equal equal'))
    | element equal =>
      cases together_of_eqForGroupby second with
      | element equal' => exact eqForGroupby_of_together (.element (equal.trans equal'))
    | _ => exact second

theorem eqForGroupby_refl (value : VariableValue chrono) : value.eqForGroupby value = true := by
  induction value using ofParts with
  | list values ih => exact eqValues_iff.mpr (forall₂_same.mpr ih)
  | object entries ih => exact eqEntries_iff.mpr (forall₂_same.mpr fun entry member => ⟨rfl, ih entry member⟩)
  | single value isSingle =>
    cases value with
    | list | object => exact isSingle.elim
    | float value => exact Float.eqForGroupby_iff.mpr (.inl rfl)
    | _ => simp [eqForGroupby, eq, HashedType.refl]

theorem hashValues_eq {lefts rights : List (VariableValue chrono)}
    (pairs : List.Forall₂ (fun left right => left.hashForGroupby = right.hashForGroupby) lefts rights) :
    hashValues lefts = hashValues rights := by
  induction pairs with
  | nil => rfl
  | cons head tail ih => rw [hashValues, hashValues, head, ih]

theorem hashEntries_eq {lefts rights : List (String × VariableValue chrono)}
    (pairs : List.Forall₂ (fun left right => left.1 = right.1 ∧ left.2.hashForGroupby = right.2.hashForGroupby) lefts rights) :
    hashEntries lefts = hashEntries rights := by
  induction pairs with
  | nil => rfl
  | cons head tail ih => rw [hashEntries, hashEntries, head.1, head.2, ih]

theorem hashForGroupby_eq (same : left.eqForGroupby right = true) : left.hashForGroupby = right.hashForGroupby := by
  induction left using ofParts generalizing right with
  | list values ih =>
    cases together_of_eqForGroupby same with
    | list pairs =>
      have hashes := forall₂_imp_mem pairs fun value member _ => ih value member
      rw [hashForGroupby, hashForGroupby, hashValues_eq hashes, pairs.length_eq]
  | object entries ih =>
    cases together_of_eqForGroupby same with
    | object pairs =>
      have hashes := forall₂_imp_mem pairs fun entry member _ (equal : EntryEq _ _) =>
        And.intro equal.1 (ih entry member equal.2)
      rw [hashForGroupby, hashForGroupby, hashEntries_eq hashes, pairs.length_eq]
  | single value isSingle =>
    cases together_of_eqForGroupby same with
    | list | object => exact isSingle.elim
    | float equal =>
      simp only [hashForGroupby, Float.asIntegerExact_of_eqForGroupby equal, feed, Float.feed_congr equal]
    | floatInteger exact => simp only [hashForGroupby, exact]
    | integerFloat exact => simp only [hashForGroupby, exact]
    | date equal => simp only [hashForGroupby, feed, chrono.naiveDate.coherent _ _ equal]
    | localTime equal => simp only [hashForGroupby, feed, chrono.naiveTime.coherent _ _ equal]
    | zonedTime equal offsets =>
      simp only [hashForGroupby, feed, chrono.naiveTime.coherent _ _ equal, chrono.fixedOffset.coherent _ _ offsets]
    | localDateTime equal => simp only [hashForGroupby, feed, chrono.naiveDateTime.coherent _ _ equal]
    | zonedDateTime name equal => simp only [hashForGroupby, feed, chrono.dateTime.coherent _ _ equal]
    | duration year month equal => simp only [hashForGroupby, feed, chrono.timeDelta.coherent _ _ equal]
    | element equal => simp only [hashForGroupby, equal]
    | _ => rfl

end VariableValue

section Rows

variable {chrono : Chrono}

/-- Two rows have one key in the index of results, one accumulator for each owner, one sorted set for each function and one
signature. -/
structure SharesGroup (groupingKeys : List String) (left right : Row chrono) : Prop where
  key : (ResultKey.groupbyFromVariables groupingKeys left).eq (ResultKey.groupbyFromVariables groupingKeys right) = true
  keyHash : (ResultKey.groupbyFromVariables groupingKeys left).feed = (ResultKey.groupbyFromVariables groupingKeys right).feed
  accumulator : ∀ owner, getHashKey owner (ResultKey.groupbyFromVariables groupingKeys left) =
    getHashKey owner (ResultKey.groupbyFromVariables groupingKeys right)
  sortedSet : ∀ positionInQuery, sortedSetId positionInQuery (groupingKeys.map fun key => (left key).getD .null) =
    sortedSetId positionInQuery (groupingKeys.map fun key => (right key).getD .null)
  signature : extractGroupingValueHash groupingKeys left = extractGroupingValueHash groupingKeys right

inductive SameKey : Option (VariableValue chrono) → Option (VariableValue chrono) → Prop
  | missing : SameKey none none
  | held {left right : VariableValue chrono} (same : left.eqForGroupby right = true)
      (hashes : left.hashForGroupby = right.hashForGroupby) : SameKey (some left) (some right)

theorem SameKey.value {left right : Option (VariableValue chrono)} (same : SameKey left right) :
    (left.getD .null).eqForGroupby (right.getD .null) = true := by
  cases same with
  | missing => rfl
  | held equal => exact equal

theorem SameKey.hash {left right : Option (VariableValue chrono)} (same : SameKey left right) :
    (left.getD .null).hashForGroupby = (right.getD .null).hashForGroupby := by
  cases same with
  | missing => rfl
  | held _ hashes => exact hashes

theorem sameKey_of_groupingMatch {groupingKeys : List String} {row other : Row chrono}
    (matching : groupingMatch groupingKeys row other = true) : ∀ key ∈ groupingKeys, SameKey (row key) (other key) := by
  intro key member
  have agree := all_eq_true.mp matching key member
  cases here : row key <;> cases there : other key <;> rw [here, there] at agree
  · exact .missing
  · exact Bool.noConfusion agree
  · exact Bool.noConfusion agree
  · exact .held agree (hashForGroupby_eq agree)

theorem sharesGroup_of_sameKey {groupingKeys : List String} {row other : Row chrono}
    (same : ∀ key ∈ groupingKeys, SameKey (row key) (other key)) : SharesGroup groupingKeys row other := by
  have keys : eqValues (groupingKeys.map fun key => (row key).getD .null)
      (groupingKeys.map fun key => (other key).getD .null) = true := by
    rw [eqValues_iff, forall₂_map_left_iff, forall₂_map_right_iff, forall₂_same]
    exact fun key member => (same key member).value
  have hashes : hashValues (groupingKeys.map fun key => (row key).getD .null) =
      hashValues (groupingKeys.map fun key => (other key).getD .null) := by
    refine hashValues_eq ?_
    rw [forall₂_map_left_iff, forall₂_map_right_iff, forall₂_same]
    exact fun key member => (same key member).hash
  have signature : extractGroupingValueHash groupingKeys row = extractGroupingValueHash groupingKeys other := by
    refine flatMap_congr fun key member => ?_
    have equal := same key member
    generalize row key = left, other key = right at equal ⊢
    cases equal with
    | missing => rfl
    | held _ hashes => exact hashes
  exact {
    key := keys
    keyHash := hashes
    accumulator := fun owner => congrArg (feedOwner owner ++ ·) hashes
    sortedSet := fun position => congrArg (HashWrite.usize position :: ·) hashes
    signature := signature }

/-- Grouping is an equivalence of values, values of one class are hashed alike, and rows whose keys match share a group. -/
structure CoherentGrouping (chrono : Chrono) : Prop where
  refl : ∀ value : VariableValue chrono, value.eqForGroupby value = true
  symm : ∀ left right : VariableValue chrono, left.eqForGroupby right = true → right.eqForGroupby left = true
  trans : ∀ left middle right : VariableValue chrono, left.eqForGroupby middle = true →
    middle.eqForGroupby right = true → left.eqForGroupby right = true
  hashes : ∀ left right : VariableValue chrono, left.eqForGroupby right = true → left.hashForGroupby = right.hashForGroupby
  shared : ∀ groupingKeys (row other : Row chrono), groupingMatch groupingKeys row other = true →
    SharesGroup groupingKeys row other

theorem grouping_coherent (chrono : Chrono) : CoherentGrouping chrono where
  refl := eqForGroupby_refl
  symm _ _ := eqForGroupby_symm
  trans _ _ _ := eqForGroupby_trans
  hashes _ _ := hashForGroupby_eq
  shared _ _ _ matching := sharesGroup_of_sameKey (sameKey_of_groupingMatch matching)

def countedType : HashedType where
  Carrier := Int
  eq left right := left = right
  feed value := [.i64 value]
  refl := by simp
  symm := by simp +contextual
  trans := by simp +contextual
  coherent := by simp +contextual

def countedChrono : Chrono := ⟨countedType, countedType, countedType, countedType, countedType, countedType⟩

def valueRow (values : List (VariableValue countedChrono)) : Row countedChrono :=
  fun key => if key = "k" then some (.object [("values", .list values)]) else none

/-- A NaN, the two zeros and a float beyond the integers that are all floats, inside a list inside an object. -/
theorem grouping_coherent_nested :
    SharesGroup ["k"] (valueRow [.float ⟨false, 2047, 1⟩, .float zero.neg, .float ⟨false, 1083, 0⟩])
      (valueRow [.float ⟨false, 2047, 1⟩, .integer (.posInt 0), .integer (.posInt (2 ^ 60))]) :=
  (grouping_coherent countedChrono).shared _ _ _ (by decide +kernel)

end Rows

end DrasiCore.GroupingIdentity
