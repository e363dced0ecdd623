import DrasiCore.Library.RewoundStream
import DrasiCore.MySqlPosition
import DrasiCore.Proofs.UninterruptedSource
import Mathlib.Tactic.Ring

/-! Positions in a binary log are totally ordered, by the number of the file where it has one. -/

namespace DrasiCore.Proofs

open Library Std List Char

section Order

theorem transCmp_comap {A B : Type} {cmp} [TransCmp cmp] (convert : A → B) :
    TransCmp fun left right => cmp (convert left) (convert right) where
  eq_swap := OrientedCmp.eq_swap
  isLE_trans := TransCmp.isLE_trans

instance : TransCmp compareNumber :=
  have same : compareNumber = @compare _ (@instOrdOption _ lexOrd) := by
    funext left right
    cases left <;> cases right <;> rfl
  same ▸ inferInstance

instance : TransCmp compareRow :=
  have same : compareRow = @compareOn _ _ lexOrd fun row => (row.isNone, row.getD 0) := by
    funext left right
    cases left <;> cases right <;> rfl
  same ▸ inferInstance

instance : TransCmp ReplicationState.compareCursor :=
  have : TransCmp fun left right : ReplicationState =>
    compareNumber (binlogFileKey left.binlogFile.toList).2 (binlogFileKey right.binlogFile.toList).2 := transCmp_comap _
  have : TransCmp fun left right : ReplicationState => compareRow left.rowOffset right.rowOffset := transCmp_comap _
  inferInstanceAs (TransCmp (compareLex (compareLex (compareLex
    (compareOn fun state : ReplicationState => (binlogFileKey state.binlogFile.toList).1) _) (compareOn (·.binlogPosition))) _))

end Order

section Numbers

/-- The number that decimal digits are read as. -/
def decimal : List Char → Nat
  | [] => 0
  | digit :: rest => (digit.toNat - 48) * 10 ^ rest.length + decimal rest

variable {digits others : List Char}

theorem isDigit_iff {digit : Char} : digit.isDigit ↔ 48 ≤ digit.toNat ∧ digit.toNat ≤ 57 := by
  simp only [isDigit, Bool.and_eq_true, decide_eq_true_eq, ge_iff_le, UInt32.le_iff_toNat_le]
  rfl

theorem decimal_lt (numeric : digits.all isDigit) : decimal digits < 10 ^ digits.length := by
  induction digits with
  | nil => exact Nat.one_pos
  | cons digit rest ih =>
    rw [all_cons, Bool.and_eq_true] at numeric
    have small : digit.toNat - 48 ≤ 9 := by
      have upper := (isDigit_iff.mp numeric.1).2
      omega
    have below := ih numeric.2
    have most := Nat.mul_le_mul_right (10 ^ rest.length) small
    rw [decimal, length_cons, Nat.pow_succ]
    omega

theorem decimal_dropWhile (digits : List Char) : decimal (digits.dropWhile (· = '0')) = decimal digits := by
  induction digits with
  | nil => rfl
  | cons digit rest ih =>
    rw [dropWhile_cons]
    split
    · next zero =>
      rw [ih, decimal, of_decide_eq_true zero]
      simp
    · rfl

theorem compare_digit {one two : Char} (first : one.isDigit) (second : two.isDigit) :
    compare one two = compare (one.toNat - 48) (two.toNat - 48) := by
  have lower := (isDigit_iff.mp first).1
  have lower' := (isDigit_iff.mp second).1
  have less : one < two ↔ one.toNat - 48 < two.toNat - 48 := by
    rw [lt_def, UInt32.lt_iff_toNat_lt]
    change one.toNat < two.toNat ↔ _
    omega
  have same : one = two ↔ one.toNat - 48 = two.toNat - 48 := by
    rw [← toNat_inj]
    omega
  simp only [compare, compareOfLessAndEq, less, same]

theorem then_compare {one two rest other base : Nat} (small : rest < base) (small' : other < base) :
    (compare one two).then (compare rest other) = compare (one * base + rest) (two * base + other) := by
  rcases Nat.lt_trichotomy one two with less | rfl | greater
  · have gap := Nat.mul_le_mul_right base less
    rw [Nat.succ_mul] at gap
    rw [Nat.compare_eq_lt.mpr less]
    exact (Nat.compare_eq_lt.mpr (by omega)).symm
  · simp only [compare, compareOfLessAndEq, Nat.lt_irrefl, if_false, if_true, Nat.add_lt_add_iff_left, Nat.add_left_cancel_iff]
    rfl
  · have gap := Nat.mul_le_mul_right base greater
    rw [Nat.succ_mul] at gap
    rw [Nat.compare_eq_gt.mpr greater]
    exact (Nat.compare_eq_gt.mpr (by omega)).symm

/-- Digits of one count are ordered as their numbers. -/
theorem compare_digits (length : digits.length = others.length) (numeric : digits.all isDigit)
    (numeric' : others.all isDigit) : compare digits others = compare (decimal digits) (decimal others) := by
  induction digits generalizing others with
  | nil =>
    obtain rfl := length_eq_zero_iff.mp length.symm
    rfl
  | cons digit rest ih =>
    cases others with
    | nil => cases length
    | cons other others =>
      have length : rest.length = others.length := Nat.succ.inj length
      rw [all_cons, Bool.and_eq_true] at numeric numeric'
      have step : compare (digit :: rest) (other :: others) = (compare digit other).then (compare rest others) := by
        change List.compareLex compare (digit :: rest) (other :: others) = _
        rw [List.compareLex_cons_cons]
        cases compare digit other <;> rfl
      have small := decimal_lt numeric.2
      rw [length] at small
      rw [step, ih length numeric.2 numeric'.2, compare_digit numeric.1 numeric'.1, then_compare small (decimal_lt numeric'.2),
        decimal, decimal, length]

/-- Digits of different counts are ordered by the counts, when the first is no zero. -/
theorem decimal_lt_of_length_lt (less : digits.length < others.length) (numeric : digits.all isDigit)
    (numeric' : others.all isDigit) (significant : others.head? ≠ some '0') : decimal digits < decimal others := by
  cases others with
  | nil => cases less
  | cons other others =>
    rw [all_cons, Bool.and_eq_true] at numeric'
    have lower := (isDigit_iff.mp numeric'.1).1
    have notZero : other.toNat ≠ 48 := fun zero => significant (congrArg some (toNat_inj.mp zero))
    have below := decimal_lt numeric
    have powers := Nat.pow_le_pow_right (n := 10) (by decide) (Nat.le_of_lt_succ less)
    have most := Nat.mul_le_mul_right (10 ^ others.length) (show 1 ≤ other.toNat - 48 by omega)
    rw [decimal]
    omega

theorem head?_dropWhile_ne (digits : List Char) : (digits.dropWhile (· = '0')).head? ≠ some '0' := by
  induction digits with
  | nil => exact nofun
  | cons digit rest ih =>
    rw [dropWhile_cons]
    split
    · exact ih
    · next notZero => exact fun zero => notZero (decide_eq_true (Option.some.inj zero))

/-- Numbers are compared by their significant digits, whatever their padding. -/
theorem compareNumber_eq (numeric : digits.all isDigit) (numeric' : others.all isDigit) :
    compareNumber (some ((digits.dropWhile (· = '0')).length, digits.dropWhile (· = '0')))
      (some ((others.dropWhile (· = '0')).length, others.dropWhile (· = '0'))) =
      compare (decimal digits) (decimal others) := by
  have trimmed {digits : List Char} (numeric : digits.all isDigit) : (digits.dropWhile (· = '0')).all isDigit :=
    all_eq_true.mpr fun digit member => all_eq_true.mp numeric digit (dropWhile_subset _ member)
  rw [← decimal_dropWhile digits, ← decimal_dropWhile others]
  rw [compareNumber]
  rcases Nat.lt_trichotomy (digits.dropWhile (· = '0')).length (others.dropWhile (· = '0')).length with less | same | greater
  · rw [Nat.compare_eq_lt.mpr less, Nat.compare_eq_lt.mpr (decimal_lt_of_length_lt less (trimmed numeric) (trimmed numeric')
      (head?_dropWhile_ne others))]
    rfl
  · rw [Nat.compare_eq_eq.mpr same, compare_digits same (trimmed numeric) (trimmed numeric')]
    rfl
  · rw [Nat.compare_eq_gt.mpr greater, Nat.compare_eq_gt.mpr (decimal_lt_of_length_lt greater (trimmed numeric')
      (trimmed numeric) (head?_dropWhile_ne digits))]
    rfl

theorem rsplitOnce_eq {separator stem suffix} (last : separator ∉ suffix) :
    rsplitOnce separator (stem ++ separator :: suffix) = some (stem, suffix) := by
  have absent : rsplitOnce separator suffix = none := by
    induction suffix with
    | nil => rfl
    | cons char rest ih =>
      obtain ⟨different, absent⟩ := not_or.mp (mt mem_cons.mpr last)
      rw [rsplitOnce, ih absent]
      exact if_neg (Ne.symm different)
  induction stem with
  | nil => simp [rsplitOnce, absent]
  | cons char rest ih => rw [cons_append, rsplitOnce, ih]

theorem binlogFileKey_eq (stem : List Char) (some' : digits ≠ []) (numeric : digits.all isDigit) :
    binlogFileKey (stem ++ '.' :: digits) =
      (stem, some ((digits.dropWhile (· = '0')).length, digits.dropWhile (· = '0'))) := by
  have last : '.' ∉ digits := fun member => absurd (all_eq_true.mp numeric _ member) (by decide)
  rw [binlogFileKey, rsplitOnce_eq last]
  dsimp only
  rw [numeric, isEmpty_eq_false_iff.mpr some']
  rfl

end Numbers

section Filter

variable (fromPositionBytes : ByteString → Option ReplicationState)

def dispatchAll (base : SourceBase ByteString) (events : List (SourceEventWrapper ByteString)) : SourceBase ByteString :=
  base.dispatchEventsBatch (some (mySqlPositionReached fromPositionBytes)) events

def stateOf (event : SourceEventWrapper ByteString) : Option ReplicationState := event.sourcePosition.bind fromPositionBytes

variable {fromPositionBytes}

/-- What a dispatcher is sent is what passes its mark. -/
theorem delivered_dispatchAll {base events} {index dispatcher mark markState states}
    (here : base.dispatchers[index]? = some dispatcher) (marked : base.subscriberResumePositions index = some mark)
    (decodes : fromPositionBytes mark = some markState) (carried : events.map (stateOf fromPositionBytes) = states.map some) :
    ∃ after delivered, (dispatchAll fromPositionBytes base events).dispatchers[index]? = some after ∧
      after.channel.delivered = dispatcher.channel.delivered ++ delivered ∧
      delivered.map (stateOf fromPositionBytes) = (passing ReplicationState.compareCursor markState states).map some := by
  induction events generalizing base dispatcher mark markState states with
  | nil =>
    obtain rfl := map_eq_nil_iff.mp carried.symm
    exact ⟨dispatcher, [], here, (append_nil _).symm, rfl⟩
  | cons event events ih =>
    cases states with
    | nil => cases carried
    | cons state states =>
      obtain ⟨stateIs, carried⟩ := cons.inj carried
      obtain ⟨position, carries, decodesPosition⟩ := Option.bind_eq_some_iff.mp stateIs
      have inside := (List.getElem?_eq_some_iff.mp here).1
      let reached := some (mySqlPositionReached fromPositionBytes)
      have sent : (base.dispatchEvent reached event).dispatchers[index]? = _ := getElem?_dispatchEvent base event index
      have marks : (base.dispatchEvent reached event).subscriberResumePositions index = _ :=
        mark_dispatchEvent base event carries inside
      have passes : base.passes (some (mySqlPositionReached fromPositionBytes)) index event =
          (state.compareCursor markState).isGT := by
        simp only [SourceBase.passes, marked, carries, mySqlPositionReached, decodesPosition, decodes]
      rw [here, passes, Option.map_some] at sent
      rw [passes] at marks
      rw [passing]
      by_cases above : (state.compareCursor markState).isGT = true
      · rw [if_pos above] at sent marks ⊢
        obtain ⟨after, delivered, final, grown, shown⟩ := ih sent marks decodesPosition carried
        refine ⟨after, (base.orderEvent event).2 :: delivered, final, ?_, ?_⟩
        · rw [grown, SourceDispatcher.deliver, Channel.delivered_send, append_assoc]
          rfl
        · rw [map_cons, shown, map_cons]
          exact congrArg (· :: _) stateIs
      · rw [if_neg above] at sent marks ⊢
        obtain ⟨after, delivered, final, grown, shown⟩ := ih sent (marks.trans marked) decodes carried
        exact ⟨after, delivered, final, grown, shown⟩

/-- **MySQL positions.** They are totally ordered. Files of one name are ordered by their numbers, positions in one file by the
commit position and then the row, and what has no row comes last. A subscriber gets every position that is read above its
mark once, however often the sorted stream is rewound. -/
theorem mySql_positions_ordered (fromPositionBytes : ByteString → Option ReplicationState) :
    (∀ one two : ReplicationState, one.compareCursor two = (two.compareCursor one).swap) ∧
    (∀ one two three : ReplicationState, (one.compareCursor two).isLE → (two.compareCursor three).isLE →
      (one.compareCursor three).isLE) ∧
    (∀ (one two : ReplicationState) stem digits others, one.binlogFile.toList = stem ++ '.' :: digits →
      two.binlogFile.toList = stem ++ '.' :: others → digits ≠ [] → others ≠ [] → digits.all isDigit → others.all isDigit →
      (decimal digits < decimal others → one.compareCursor two = .lt) ∧
      (decimal digits = decimal others →
        one.compareCursor two = (compare one.binlogPosition two.binlogPosition).then (compareRow one.rowOffset two.rowOffset))) ∧
    (∀ one two : ReplicationState, one.binlogFile = two.binlogFile →
      (one.compareCursor two = .lt ↔ one.binlogPosition < two.binlogPosition ∨ one.binlogPosition = two.binlogPosition ∧
        ∃ row, one.rowOffset = some row ∧ ∀ other, two.rowOffset = some other → row < other)) ∧
    ∀ (base : SourceBase ByteString) (index : Nat) dispatcher mark markState, base.dispatchers[index]? = some dispatcher →
      base.subscriberResumePositions index = some mark → fromPositionBytes mark = some markState →
      ∀ events states stream, events.map (stateOf fromPositionBytes) = states.map some →
      stream.Pairwise (fun earlier later : ReplicationState => (earlier.compareCursor later).isLE) → Rewound stream 0 states →
      ∃ after delivered, (dispatchAll fromPositionBytes base events).dispatchers[index]? = some after ∧
        after.channel.delivered = dispatcher.channel.delivered ++ delivered ∧
        ∀ position, delivered.countP (fun event => (stateOf fromPositionBytes event).any (·.compareCursor position = .eq)) =
          if position.compareCursor markState = .gt ∧ ∃ state ∈ states, state.compareCursor position = .eq then 1 else 0 := by
  refine ⟨fun _ _ => OrientedCmp.eq_swap, fun _ _ _ => TransCmp.isLE_trans, ?_, ?_, ?_⟩
  · intro one two stem digits others oneFile twoFile some' some'' numeric numeric'
    have files : compareFileKey (binlogFileKey one.binlogFile.toList) (binlogFileKey two.binlogFile.toList) =
        compare (decimal digits) (decimal others) := by
      rw [oneFile, twoFile, binlogFileKey_eq stem some' numeric, binlogFileKey_eq stem some'' numeric', compareFileKey,
        compareNumber_eq numeric numeric', ReflOrd.compare_self]
      rfl
    unfold ReplicationState.compareCursor
    rw [files]
    constructor
    · intro less
      rw [Nat.compare_eq_lt.mpr less]
      rfl
    · intro same
      rw [Nat.compare_eq_eq.mpr same]
      rfl
  · intro one two sameFile
    have files : compareFileKey (binlogFileKey one.binlogFile.toList) (binlogFileKey two.binlogFile.toList) = .eq := by
      rw [sameFile, compareFileKey, ReflOrd.compare_self]
      change compareNumber _ _ = .eq
      exact ReflCmp.compare_self
    unfold ReplicationState.compareCursor
    rw [files]
    rcases Nat.lt_trichotomy one.binlogPosition two.binlogPosition with less | same | greater
    · rw [Nat.compare_eq_lt.mpr less]
      exact iff_of_true rfl (.inl less)
    · rw [Nat.compare_eq_eq.mpr same]
      simp only [same, Nat.lt_irrefl, false_or, true_and]
      cases one.rowOffset <;> cases two.rowOffset <;> simp [compareRow, Ordering.then, Nat.compare_eq_lt]
    · rw [Nat.compare_eq_gt.mpr greater]
      exact iff_of_false nofun (by omega)
  · intro base index dispatcher mark markState here marked decodes events states stream carried sorted rewound
    obtain ⟨after, delivered, final, grown, shown⟩ := delivered_dispatchAll here marked decodes carried
    refine ⟨after, delivered, final, grown, fun position => ?_⟩
    rw [← countP_passing sorted (fun _ before => absurd before (Nat.not_lt_zero _)) rewound position]
    have counted := congrArg (countP (Option.any (·.compareCursor position = .eq))) shown
    rwa [countP_map, countP_map] at counted

section Samples

/-- The token of a position in the ninth file, up to the fields for a row of a transaction. -/
def tokenText (position row : String) : String :=
  "\x7b\"binlog_file\":\"binlog.000009\",\"binlog_position\":" ++ position ++
    ",\"gtid_set\":null,\"last_processed_timestamp\":0" ++ row ++ "\x7d"

def tokenBytes (text : String) : ByteString := text.toList.map fun char => ⟨char.toNat % 256, Nat.mod_lt _ (by decide)⟩

def startToken : ByteString := tokenBytes (tokenText "154" "")

def rowToken : ByteString := tokenBytes (tokenText "300" ",\"transaction_start_position\":154,\"row_offset\":0")

def endToken : ByteString := tokenBytes (tokenText "300" "")

def inNinthFile (position : Nat) (row : Option Nat) : ReplicationState := ⟨"binlog.000009", position, row⟩

/-- The decoder on the tokens of a transaction with two rows. -/
def readToken (bytes : ByteString) : Option ReplicationState :=
  if bytes = startToken then some (inNinthFile 154 none)
  else if bytes = rowToken then some (inNinthFile 300 (some 0))
  else if bytes = endToken then some (inNinthFile 300 none)
  else none

def eventWith (token : ByteString) : SourceEventWrapper ByteString :=
  ⟨"mysql", .delete ⟨⟨"mysql", "row"⟩, [], 0⟩, 0, 1, some token⟩

def subscribedAtStart : SourceBase ByteString :=
  { SourceBase.new "mysql" with
    dispatchers := [.new ⟨"query", none, none, false⟩ 9]
    subscriberResumePositions := Function.update (fun _ => none) 0 (some startToken) }

def rewoundEvents : List (SourceEventWrapper ByteString) := [eventWith rowToken, eventWith endToken, eventWith rowToken]

/-- The ninth file is before the tenth, and a rewind delivers nothing again. -/
theorem mySql_positions_ordered_rewound :
    (⟨"binlog.9", 4, none⟩ : ReplicationState).compareCursor ⟨"binlog.010", 4, none⟩ = .lt ∧
    ∃ after delivered, (dispatchAll readToken subscribedAtStart rewoundEvents).dispatchers[0]? = some after ∧
      after.channel.delivered = delivered ∧
      delivered.countP (fun event => (stateOf readToken event).any (·.compareCursor (inNinthFile 300 (some 0)) = .eq)) = 1 := by
  have ordered := mySql_positions_ordered readToken
  have decoded : rewoundEvents.map (stateOf readToken) =
      [inNinthFile 300 (some 0), inNinthFile 300 none, inNinthFile 300 (some 0)].map some := by
    decide +kernel
  have start : readToken startToken = some (inNinthFile 154 none) := if_pos rfl
  constructor
  · exact (ordered.2.2.1 _ _ "binlog".toList ['9'] ['0', '1', '0'] rfl rfl (by decide) (by decide) rfl rfl).1 (by decide)
  · obtain ⟨after, delivered, found, sent, counts⟩ := ordered.2.2.2.2 subscribedAtStart 0 _ _ _ rfl rfl start
      rewoundEvents _ [inNinthFile 300 (some 0), inNinthFile 300 none] decoded
      (by decide +kernel) ⟨0, le_rfl, rfl, 1, le_rfl, rfl, 0, by decide, rfl, trivial⟩
    have first : (inNinthFile 300 (some 0)).compareCursor (inNinthFile 300 (some 0)) = .eq := ReflCmp.compare_self
    exact ⟨after, delivered, found, sent, (counts _).trans (if_pos ⟨by decide +kernel, _, mem_cons_self, first⟩)⟩

end Samples

end Filter

end DrasiCore.Proofs
