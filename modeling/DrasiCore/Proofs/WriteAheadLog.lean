import DrasiCore.WriteAheadLog
import DrasiCore.Library.NumberedLog
import Mathlib.Data.List.Forall2

/-! Reads of the write-ahead log against everything that was ever appended to it. -/

namespace DrasiCore

open Library SourceWalState List ElementValue Nat

variable {text : DateTimeText}

section Records

namespace ElementValue

variable (text)

mutual

/-- Instants that can be read back from their text, in objects whose keys are in order. -/
def ReadsBack : ElementValue → Prop
  | .localDateTime nanos => text.parseLocal (text.formatLocal nanos) = some nanos
  | .zonedDateTime nanos offset => text.parseZoned (text.formatZoned nanos offset) = some (nanos, offset)
  | .list values => AllReadBack values
  | .object entries => (entries.Pairwise fun left right => left.1 < right.1) ∧ EntriesReadBack entries
  | _ => True

def AllReadBack : List ElementValue → Prop
  | [] => True
  | value :: values => value.ReadsBack ∧ AllReadBack values

def EntriesReadBack : List (String × ElementValue) → Prop
  | [] => True
  | (_, value) :: entries => value.ReadsBack ∧ EntriesReadBack entries

end

end ElementValue

namespace ElementValueDto

/-- The way of an entry into the log and back. -/
def throughLog (text : DateTimeText) (entry : String × ElementValue) : String × ElementValue :=
  (entry.1, (entry.2.toDto text).toCore text)

theorem toCoreEntries_sorted : ∀ (entries : List (String × ElementValueDto)) (map : List (String × ElementValue)),
    (map.Pairwise fun left right => left.1 < right.1) →
    (toCoreEntries text entries map).Pairwise fun left right => left.1 < right.1
  | [], _, sorted => by rwa [toCoreEntries]
  | (key, value) :: entries, map, sorted => by
    rw [toCoreEntries]
    exact toCoreEntries_sorted entries _ (sorted_insertEntry key (value.toCore text) sorted)

/-- Entries in order are read back in order, each by its own. -/
theorem toCoreEntries_toDtoEntries : ∀ entries map : List (String × ElementValue),
    ((map ++ entries).Pairwise fun left right => left.1 < right.1) →
    toCoreEntries text (toDtoEntries text entries) map = map ++ entries.map (throughLog text)
  | [], map, _ => by rw [toDtoEntries, toCoreEntries, map_nil, append_nil]
  | (key, value) :: entries, map, sorted => by
    obtain ⟨before, after, across⟩ := pairwise_append.mp sorted
    have last := insertEntry_last ((value.toDto text).toCore text) fun entry member => across entry member _ mem_cons_self
    have next : ((map ++ [throughLog text (key, value)]) ++ entries).Pairwise fun left right => left.1 < right.1 := by
      rw [append_assoc]
      refine pairwise_append.mpr ⟨before, pairwise_cons.mpr (pairwise_cons.mp after), fun entry member other listed => ?_⟩
      rcases mem_cons.mp listed with rfl | rest
      · exact across entry member (key, value) mem_cons_self
      · exact across entry member other (mem_cons_of_mem _ rest)
    rw [toDtoEntries, toCoreEntries, last, map_cons, append_cons map (throughLog text _)]
    exact toCoreEntries_toDtoEntries entries _ next

mutual

theorem toCore_toDto_iff (value : ElementValue) : (value.toDto text).toCore text = value ↔ value.ReadsBack text := by
  cases value with
  | localDateTime nanos =>
    rw [toDto, toCore, ElementValue.ReadsBack]
    cases text.parseLocal (text.formatLocal nanos) <;> simp
  | zonedDateTime nanos offset =>
    rw [toDto, toCore, ElementValue.ReadsBack]
    cases text.parseZoned (text.formatZoned nanos offset) <;> simp [Prod.ext_iff]
  | list values => rw [toDto, toCore, ElementValue.ReadsBack, ElementValue.list.injEq, toCores_toDtos_iff]
  | object entries =>
    rw [toDto, toCore, ElementValue.ReadsBack, ElementValue.object.injEq, ← throughLog_iff entries]
    constructor
    · intro same
      have sorted := same ▸ toCoreEntries_sorted (toDtoEntries text entries) [] .nil
      exact ⟨sorted, (toCoreEntries_toDtoEntries entries [] sorted).symm.trans same⟩
    · rintro ⟨sorted, same⟩
      exact (toCoreEntries_toDtoEntries entries [] sorted).trans same
  | _ => exact iff_of_true rfl trivial

theorem toCores_toDtos_iff : ∀ values : List ElementValue,
    toCores text (toDtos text values) = values ↔ AllReadBack text values
  | [] => iff_of_true rfl trivial
  | value :: values => by rw [toDtos, toCores, cons.injEq, toCore_toDto_iff value, toCores_toDtos_iff values, AllReadBack]

theorem throughLog_iff : ∀ entries : List (String × ElementValue),
    entries.map (throughLog text) = entries ↔ EntriesReadBack text entries
  | [] => iff_of_true rfl trivial
  | (key, value) :: entries => by
    rw [map_cons, cons.injEq, throughLog_iff entries, throughLog, Prod.mk.injEq, toCore_toDto_iff value, EntriesReadBack]
    exact and_congr_left' (and_iff_right rfl)

end

theorem entries_toCore (entries : List (String × ElementValueDto)) (map : ElementPropertyMap) :
    (entries.foldl (fun map entry => map.insert entry.1 (entry.2.toCore text)) map).entries =
      toCoreEntries text entries map.entries := by
  induction entries generalizing map with
  | nil => rw [toCoreEntries]; rfl
  | cons entry entries ih => rw [foldl_cons, ih, toCoreEntries]; rfl

end ElementValueDto

theorem PropertyMapDto.toCore_toDto_iff (properties : ElementPropertyMap) :
    (ElementPropertyMap.toDto text properties).toCore text = properties ↔ EntriesReadBack text properties.entries := by
  have entries : ((ElementPropertyMap.toDto text properties).toCore text).entries = _ :=
    (ElementValueDto.entries_toCore _ .empty).trans (ElementValueDto.toCoreEntries_toDtoEntries _ [] properties.sorted)
  rw [← ElementValueDto.throughLog_iff, ← nil_append (map _ _), ← entries]
  exact ⟨congrArg OrderedMap.entries, (OrderedMap.mk.injEq ..).mpr⟩

/-- The change is the same after its way through the log. -/
def SourceChange.Survives (text : DateTimeText) (change : SourceChange) : Prop :=
  (change.toDto text).map (·.toCore text) = some change

theorem ElementDto.toCore_toDto_iff (element : Element) :
    (element.toDto text).toCore text = element ↔ EntriesReadBack text element.getProperties.entries := by
  have properties : _ ↔ EntriesReadBack text element.getProperties.entries := PropertyMapDto.toCore_toDto_iff _
  cases element with
  | node metadata => exact ⟨fun same => properties.mp (Element.node.inj same).2, congrArg (Element.node metadata) ∘ properties.mpr⟩
  | relation metadata inNode outNode =>
    exact ⟨fun same => properties.mp (Element.relation.inj same).2.2.2,
      congrArg (Element.relation metadata inNode outNode) ∘ properties.mpr⟩

def SourceChange.ReadsBack (text : DateTimeText) : SourceChange → Prop
  | .insert element | .update element => EntriesReadBack text element.getProperties.entries
  | .delete _ => True
  | .future _ => False

/-- What was recorded of a change is the change again exactly if its values read back. -/
theorem SourceChangeDto.toCore_eq_iff {change : SourceChange} {record : SourceChangeDto}
    (recorded : change.toDto text = some record) : record.toCore text = change ↔ change.ReadsBack text := by
  cases change with
  | insert element =>
    obtain rfl := Option.some.inj recorded
    rw [toCore, SourceChange.insert.injEq]
    exact ElementDto.toCore_toDto_iff element
  | update element =>
    obtain rfl := Option.some.inj recorded
    rw [toCore, SourceChange.update.injEq]
    exact ElementDto.toCore_toDto_iff element
  | delete metadata =>
    obtain rfl := Option.some.inj recorded
    exact iff_of_true rfl trivial
  | future => cases recorded

theorem SourceChange.survives_of_readsBack {change : SourceChange} (readsBack : change.ReadsBack text) :
    change.Survives text := by
  unfold Survives
  cases recorded : change.toDto text with
  | none => cases change with
    | future => exact absurd readsBack not_false
    | _ => cases recorded
  | some record => exact congrArg some ((SourceChangeDto.toCore_eq_iff recorded).mpr readsBack)

/-- The texts of the first instant, local and in its zone. -/
def epochText : DateTimeText where
  formatLocal _ := "1970-01-01T00:00:00"
  parseLocal written := if written = "1970-01-01T00:00:00" then some 0 else none
  formatZoned _ _ := "1970-01-01T00:00:00+00:00"
  parseZoned written := if written = "1970-01-01T00:00:00+00:00" then some (0, 0) else none

def datedNode : Element :=
  .node ⟨⟨"source", "node"⟩, ["Event"], 7⟩
    ⟨[("at", .object [("first", .list [.localDateTime 0, .zonedDateTime 0 0])]), ("count", .integer 3)], by decide⟩

theorem datedNode_readsBack : EntriesReadBack epochText datedNode.getProperties.entries :=
  ⟨⟨by simp, ⟨⟨rfl, rfl, trivial⟩, trivial⟩⟩, trivial, trivial⟩

theorem insertion_survives : (SourceChange.insert datedNode).Survives epochText :=
  SourceChange.survives_of_readsBack datedNode_readsBack

end Records

inductive WalCall where
  | append (event : SourceChange)
  | pruneUpTo (sequence : Nat)
  | readFrom (sequence : Nat)

namespace SourceWalState

variable (text)

/-- One call, and the event it added to the log with its sequence. -/
def call (wal : SourceWalState) : WalCall → SourceWalState × Option (Nat × SourceChange)
  | .append event => match wal.append text event with
    | (.ok sequence, next) => (next, some (sequence, event))
    | (.error _, next) => (next, none)
  | .pruneUpTo sequence => ((wal.pruneUpTo sequence).2, none)
  | .readFrom _ => (wal, none)

/-- Calls one after another, with all events they appended. -/
def calls (wal : SourceWalState) : List WalCall → SourceWalState × List (Nat × SourceChange)
  | [] => (wal, [])
  | first :: rest =>
    let (next, event) := wal.call text first
    let (last, events) := next.calls rest
    (last, event.toList ++ events)

/-- A read from a sequence says so when one of its events is gone, and otherwise returns all of them. -/
def ReadsWithoutSkipping (wal : SourceWalState) (appended : List (Nat × SourceChange)) (sequence : Nat) : Prop :=
  ((∃ gone, sequence ≤ gone ∧ gone ≤ wal.headSequence ∧ wal.events.get? gone = none) →
    ∃ oldest, wal.readFrom text sequence = .error (.positionUnavailable wal.sourceId sequence oldest)) ∧
  ((∀ kept, sequence ≤ kept → kept ≤ wal.headSequence → (wal.events.get? kept).isSome) →
    ∃ read, wal.readFrom text sequence = .ok read ∧ read = appended.filter (fun event => sequence ≤ event.1) ∧
      read.map (·.1) = range' sequence (wal.headSequence + 1 - sequence))

end SourceWalState

namespace Proofs

def Records (text : DateTimeText) (event : Nat × SourceChange) (entry : Nat × WalRecord) : Prop :=
  entry.1 = event.1 ∧ entry.2.version = walFormatVersion ∧ event.2.toDto text = some entry.2.change

/-- The log holds the last of all records ever made: those after the first `gone`. -/
structure Logged (text : DateTimeText) (wal : SourceWalState) (appended : List (Nat × SourceChange))
    (records : List (Nat × WalRecord)) (gone : Nat) : Prop where
  numbered : Numbered Prod.fst records
  recorded : List.Forall₂ (Records text) appended records
  counted : wal.counter = records.length
  inside : gone ≤ records.length
  retained : wal.events.entries = records.drop gone

variable {wal : SourceWalState} {appended : List (Nat × SourceChange)} {records : List (Nat × WalRecord)} {gone : Nat}

theorem logged_new (text : DateTimeText) (sourceId : String) (config : WriteAheadLogConfig) :
    Logged text (.new sourceId config) [] [] 0 := ⟨numbered_nil, .nil, rfl, le_rfl, rfl⟩

section

variable (logged : Logged text wal appended records gone)
include logged

theorem Logged.evict (maxEvents : Nat) :
    ∃ later ≤ records.length, (SourceWalState.evict wal.events maxEvents).entries = records.drop later := by
  have suffix : (SourceWalState.evict wal.events maxEvents).entries <:+ records.drop gone :=
    logged.retained ▸ makeRoom_suffix maxEvents wal.events.entries
  exact ⟨_, sub_le _ _, suffix_iff_eq_drop.mp (suffix.trans (drop_suffix gone records))⟩

theorem Logged.below {later entry} (member : entry ∈ records.drop later) : entry.1 ≤ records.length := by
  have number := mem_map_of_mem (f := Prod.fst) member
  rw [logged.numbered.drop, mem_range'_1] at number
  omega

theorem Logged.append (event : SourceChange) :
    ∃ records gone, Logged text (wal.call text (.append event)).1
      (appended ++ (wal.call text (.append event)).2.toList) records gone := by
  unfold SourceWalState.call
  simp only [SourceWalState.append]
  cases converted : event.toDto text with
  | none => exact ⟨records, gone, by simpa using logged⟩
  | some change =>
    simp only
    by_cases full : wal.config.maxEvents ≤ wal.events.entries.length ∧ wal.config.capacityPolicy = .rejectIncoming
    · rw [if_pos full]
      exact ⟨records, gone, by simpa using logged⟩
    · rw [if_neg full]
      have room : ∃ later ≤ records.length, (if wal.config.maxEvents ≤ wal.events.entries.length then
          SourceWalState.evict wal.events wal.config.maxEvents else wal.events).entries = records.drop later := by
        split
        · exact logged.evict _
        · exact ⟨gone, logged.inside, logged.retained⟩
      obtain ⟨later, inside, entries⟩ := room
      have next : wal.counter + 1 = records.length + 1 := congrArg (· + 1) logged.counted
      refine ⟨records ++ [(wal.counter + 1, ⟨walFormatVersion, change⟩)], later, logged.numbered.append next, ?_, ?_, ?_, ?_⟩
      · exact rel_append logged.recorded (.cons ⟨rfl, rfl, converted⟩ .nil)
      · rw [length_append]
        exact next
      · rw [length_append]
        exact inside.trans (le_add_right _ _)
      · rw [drop_append_of_le_length inside, ← entries]
        apply insertEntry_last
        intro entry member
        rw [entries] at member
        have below := logged.below member
        omega

theorem Logged.prune (sequence : Nat) : ∃ gone, Logged text (wal.pruneUpTo sequence).2 appended records gone := by
  refine ⟨min records.length (max gone sequence), logged.numbered, logged.recorded, logged.counted, min_le_left _ _, ?_⟩
  have kept := logged.numbered.filter_from gone (sequence + 1)
  simp only [SourceWalState.pruneUpTo, logged.retained, not_le]
  refine kept.trans ?_
  rcases le_total records.length (max gone sequence) with all | some
  · rw [Nat.min_eq_left all, drop_length, Nat.add_sub_cancel, drop_eq_nil_of_le all]
  · rw [Nat.min_eq_right some, Nat.add_sub_cancel]

theorem Logged.call (call : WalCall) :
    ∃ records gone, Logged text (wal.call text call).1 (appended ++ (wal.call text call).2.toList) records gone := by
  cases call with
  | append event => exact logged.append event
  | pruneUpTo sequence =>
    obtain ⟨gone, pruned⟩ := logged.prune sequence
    exact ⟨records, gone, by simpa [SourceWalState.call] using pruned⟩
  | readFrom sequence => exact ⟨records, gone, by simpa [SourceWalState.call] using logged⟩

end

theorem Logged.calls (calls : List WalCall) (wal : SourceWalState) (appended : List (Nat × SourceChange))
    (records : List (Nat × WalRecord)) (gone : Nat) (logged : Logged text wal appended records gone) :
    ∃ records gone, Logged text (wal.calls text calls).1 (appended ++ (wal.calls text calls).2) records gone := by
  induction calls generalizing wal appended records gone with
  | nil => exact ⟨records, gone, by simpa [SourceWalState.calls] using logged⟩
  | cons call calls ih =>
    obtain ⟨records, gone, next⟩ := logged.call call
    obtain ⟨records, gone, last⟩ := ih _ _ _ _ next
    exact ⟨records, gone, by simpa [SourceWalState.calls, append_assoc] using last⟩

section Reads

variable {entries : List (Nat × WalRecord)} {events : List (Nat × SourceChange)}

theorem current_of_recorded (recorded : List.Forall₂ (Records text) events entries) :
    ∀ entry ∈ entries, entry.2.version = walFormatVersion := by
  induction recorded with
  | nil => exact nofun
  | cons record _ ih => exact forall_mem_cons.mpr ⟨record.2.1, ih⟩

def readBack (text : DateTimeText) (entry : Nat × WalRecord) : Nat × SourceChange := (entry.1, entry.2.change.toCore text)

theorem mapM_readEntry (current : ∀ entry ∈ entries, entry.2.version = walFormatVersion) :
    entries.mapM (readEntry text) = .ok (entries.map (readBack text)) := by
  induction entries with
  | nil => rfl
  | cons entry entries ih =>
    have here : readEntry text entry = .ok (readBack text entry) := by
      simp [readEntry, readBack, current entry mem_cons_self]
    rw [mapM_cons, here, ih fun other member => current other (mem_cons_of_mem _ member)]
    rfl

section

variable (logged : Logged text wal appended records gone)
include logged

theorem Logged.numbered_appended : Numbered Prod.fst appended := by
  have same : appended.map Prod.fst = records.map Prod.fst := by
    have recorded := logged.recorded
    clear logged
    induction recorded with
    | nil => rfl
    | cons record _ ih => rw [map_cons, map_cons, record.1, ih]
  unfold Numbered
  rw [same, logged.numbered, logged.recorded.length_eq]

theorem Logged.kept_iff (sequence : Nat) :
    (wal.events.get? sequence).isSome ↔ gone < sequence ∧ sequence ≤ records.length := by
  have keys : sequence ∈ (records.drop gone).map Prod.fst ↔ gone < sequence ∧ sequence ≤ records.length := by
    have inside := logged.inside
    rw [logged.numbered.drop, mem_range'_1]
    omega
  rw [← keys, OrderedMap.get?, logged.retained]
  constructor
  · intro found
    obtain ⟨record, present⟩ := Option.isSome_iff_exists.mp found
    exact mem_map.mpr ⟨(sequence, record), mem_of_lookup_eq_some present, rfl⟩
  · intro member
    obtain ⟨⟨number, record⟩, listed, rfl⟩ := mem_map.mp member
    have distinct : ((records.drop gone).map Prod.fst).Nodup := by
      rw [logged.numbered.drop]
      exact nodup_range'
    rw [lookup_eq_some_of_mem distinct listed]
    rfl

/-- What a read returns: an error below the oldest retained event, otherwise the retained events from the sequence on. -/
theorem Logged.readFrom_eq (sequence : Nat) :
    wal.readFrom text sequence =
      if sequence ≤ gone ∧ gone < records.length then
        .error (.positionUnavailable wal.sourceId sequence (some (gone + 1)))
      else .ok ((records.drop (max gone (sequence - 1))).map (readBack text)) := by
  have range : (wal.events.entries.filter fun entry => sequence ≤ entry.1).mapM (readEntry text) =
      .ok ((records.drop (max gone (sequence - 1))).map (readBack text)) := by
    rw [logged.retained, logged.numbered.filter_from]
    exact mapM_readEntry fun entry member => current_of_recorded logged.recorded entry (mem_of_mem_drop member)
  have oldest : wal.events.entries.head?.map Prod.fst = if gone < records.length then some (gone + 1) else none := by
    rw [logged.retained, ← head?_map, logged.numbered.drop, head?_range', add_comm]
    by_cases some : gone < records.length
    · rw [if_pos some, if_neg (by omega)]
    · rw [if_neg some, if_pos (by omega)]
  simp only [SourceWalState.readFrom, range]
  cases first : wal.events.entries.head? with
  | none =>
    rw [first] at oldest
    have empty : ¬ gone < records.length := fun some => by simp [some] at oldest
    rw [if_neg fun below => empty below.2]
  | some entry =>
    rw [first] at oldest
    by_cases some : gone < records.length
    · rw [if_pos some, Option.map_some, Option.some_inj] at oldest
      simp only [oldest, some, and_true, Nat.lt_succ_iff]
    · rw [if_neg some] at oldest
      exact absurd oldest nofun

end

/-- The events read back are those appended exactly if all of them read back. -/
theorem readBack_eq_iff (recorded : List.Forall₂ (Records text) events entries) :
    entries.map (readBack text) = events ↔ ∀ event ∈ events, event.2.ReadsBack text := by
  induction recorded with
  | nil => simp
  | @cons event entry events entries record _ ih =>
    obtain ⟨number, -, converted⟩ := record
    have here : readBack text entry = event ↔ event.2.ReadsBack text := by
      rw [← SourceChangeDto.toCore_eq_iff converted]
      exact ⟨congrArg Prod.snd, fun same => Prod.ext number same⟩
    rw [map_cons, cons.injEq, here, ih, forall_mem_cons]

end Reads

section Cases

variable {sequence : Nat} (logged : Logged text wal appended records gone)

include logged

theorem Logged.lost_iff {lost} (inside : lost ≤ wal.headSequence) :
    wal.events.get? lost = none ↔ lost ≤ gone := by
  have head : wal.headSequence = records.length := logged.counted
  have kept := logged.kept_iff lost
  rw [← Option.not_isSome_iff_eq_none, kept]
  omega

theorem Logged.events_from (positive : 1 ≤ sequence) :
    appended.filter (fun event => sequence ≤ event.1) = appended.drop (sequence - 1) ∧
      (appended.drop (sequence - 1)).map Prod.fst = range' sequence (wal.headSequence + 1 - sequence) := by
  have all := logged.numbered_appended.filter_from 0 sequence
  rw [zero_max, drop_zero] at all
  refine ⟨all, ?_⟩
  rw [logged.numbered_appended.drop, logged.recorded.length_eq, headSequence, logged.counted]
  congr 1 <;> omega

theorem Logged.reads_of_lost (below : sequence ≤ gone) (retained : gone < records.length) :
    wal.ReadsWithoutSkipping text appended sequence := by
  have head : wal.headSequence = records.length := logged.counted
  refine ⟨fun _ => ⟨some (gone + 1), ?_⟩, fun all => ?_⟩
  · rw [logged.readFrom_eq, if_pos ⟨below, retained⟩]
  · have kept := (logged.kept_iff sequence).mp (all sequence le_rfl (by omega))
    exact absurd kept.1 (not_lt.mpr below)

/-- Nothing the read asks for is gone: it returns the events, as they come back from their records. -/
theorem Logged.reads_of_kept (above : gone < sequence) :
    wal.ReadsWithoutSkipping text appended sequence ↔
      ∀ event ∈ appended, sequence ≤ event.1 → event.2.ReadsBack text := by
  have positive : 1 ≤ sequence := one_le_of_lt above
  obtain ⟨events, numbers⟩ := logged.events_from positive
  have read : wal.readFrom text sequence = .ok ((records.drop (sequence - 1)).map (readBack text)) := by
    rw [logged.readFrom_eq, if_neg fun lost => absurd lost.1 (not_le.mpr above), max_eq_right (by omega)]
  have survive : (∀ event ∈ appended, sequence ≤ event.1 → event.2.ReadsBack text) ↔
      (records.drop (sequence - 1)).map (readBack text) = appended.drop (sequence - 1) := by
    rw [readBack_eq_iff (forall₂_drop _ logged.recorded), ← events]
    simp only [mem_filter, decide_eq_true_eq, and_imp]
  rw [survive]
  constructor
  · intro reads
    have all : ∀ kept, sequence ≤ kept → kept ≤ wal.headSequence → (wal.events.get? kept).isSome := by
      intro kept reached inside
      exact (logged.kept_iff kept).mpr ⟨above.trans_le reached, logged.counted ▸ inside⟩
    obtain ⟨events', answer, same, -⟩ := reads.2 all
    rw [read, Except.ok.injEq] at answer
    rw [answer, same, events]
  · intro same
    refine ⟨?_, fun _ => ⟨_, read, same.trans events.symm, same ▸ numbers⟩⟩
    intro ⟨lost, reached, inside, absent⟩
    have below := (logged.lost_iff inside).mp absent
    omega

theorem Logged.not_reads_of_emptied (emptied : records.length ≤ gone)
    (inside : sequence ≤ wal.headSequence) : ¬ wal.ReadsWithoutSkipping text appended sequence := by
  intro reads
  have head : wal.headSequence = records.length := logged.counted
  have absent := (logged.lost_iff inside).mpr (by omega)
  obtain ⟨oldest, answer⟩ := reads.1 ⟨sequence, le_rfl, inside, absent⟩
  rw [logged.readFrom_eq, if_neg fun lost => absurd lost.2 (not_lt.mpr emptied)] at answer
  exact absurd answer nofun

theorem Logged.reads_iff :
    wal.ReadsWithoutSkipping text appended sequence ↔
      wal.headSequence < sequence ∨ wal.events.entries ≠ [] ∧
        ((wal.events.get? sequence).isSome → ∀ event ∈ appended, sequence ≤ event.1 → event.2.ReadsBack text) := by
  have head : wal.headSequence = records.length := logged.counted
  have retained : wal.events.entries ≠ [] ↔ gone < records.length := by
    rw [logged.retained, Ne, drop_eq_nil_iff, not_le]
  have inside := logged.inside
  rw [retained, logged.kept_iff]
  by_cases beyond : wal.headSequence < sequence
  · simp only [beyond, true_or, iff_true]
    rw [logged.reads_of_kept (by omega)]
    intro event member reached
    have number := mem_map_of_mem (f := Prod.fst) member
    rw [logged.numbered_appended, mem_range'_1, logged.recorded.length_eq] at number
    omega
  · simp only [beyond, false_or]
    by_cases emptied : records.length ≤ gone
    · simp only [not_lt.mpr emptied, false_and, iff_false]
      exact logged.not_reads_of_emptied emptied (not_lt.mp beyond)
    · have some : gone < records.length := not_le.mp emptied
      by_cases below : sequence ≤ gone
      · simp only [some, not_lt.mpr below, false_and, false_implies, and_true, iff_true]
        exact logged.reads_of_lost below some
      · have above : gone < sequence := not_le.mp below
        have within : sequence ≤ records.length := by omega
        simp only [some, above, within, and_self, true_and, true_implies]
        exact logged.reads_of_kept above

end Cases

/-- Reads from the log after any calls skip nothing, unless the log has been emptied below its head or a stored change
does not read back. -/
theorem wal_reads_iff (text : DateTimeText) (sourceId : String) (config : WriteAheadLogConfig) (calls : List WalCall)
    (sequence : Nat) :
    let (wal, appended) := (SourceWalState.new sourceId config).calls text calls
    wal.ReadsWithoutSkipping text appended sequence ↔
      wal.headSequence < sequence ∨ wal.events.entries ≠ [] ∧
        ((wal.events.get? sequence).isSome → ∀ event ∈ appended, sequence ≤ event.1 → event.2.ReadsBack text) := by
  obtain ⟨records, gone, logged⟩ := Logged.calls calls _ _ _ _ (logged_new text sourceId config)
  exact logged.reads_iff

/-- The retained sequences are always consecutive and end at the head. -/
theorem wal_retains_block (sourceId : String) (config : WriteAheadLogConfig) (calls : List WalCall) :
    let wal := ((SourceWalState.new sourceId config).calls text calls).1
    ∃ gone, wal.events.entries.map (·.1) = range' (1 + gone) (wal.headSequence - gone) := by
  obtain ⟨records, gone, logged⟩ := Logged.calls calls _ _ _ _ (logged_new text sourceId config)
  refine ⟨gone, ?_⟩
  rw [SourceWalState.headSequence, logged.counted, logged.retained]
  exact logged.numbered.drop gone

def sampleDeletion : SourceChange := .delete ⟨⟨"source", "element"⟩, [], 0⟩

def sampleCalls : List WalCall :=
  [.append sampleDeletion, .append (.insert datedNode), .append sampleDeletion, .pruneUpTo 1]

theorem wal_reads_iff_two :
    let (wal, appended) := (SourceWalState.new "source" ⟨16, .rejectIncoming⟩).calls epochText sampleCalls
    wal.ReadsWithoutSkipping epochText appended 2 := by
  refine (wal_reads_iff epochText "source" ⟨16, .rejectIncoming⟩ sampleCalls 2).mpr (.inr ⟨nofun, fun _ => ?_⟩)
  change ∀ event ∈ [(1, sampleDeletion), (2, .insert datedNode), (3, sampleDeletion)], 2 ≤ event.1 → event.2.ReadsBack epochText
  simp [SourceChange.ReadsBack, sampleDeletion, datedNode_readsBack]

/-- One event is appended and pruned; the read from its sequence returns no events and no error. -/
theorem emptied_wal_skips :
    let (wal, appended) := (SourceWalState.new "source" ⟨16, .rejectIncoming⟩).calls epochText
      [.append sampleDeletion, .pruneUpTo 1]
    wal.headSequence = 1 ∧ wal.readFrom epochText 1 = .ok [] ∧ ¬ wal.ReadsWithoutSkipping epochText appended 1 := by
  refine ⟨rfl, rfl, fun reads => ?_⟩
  obtain ⟨oldest, answer⟩ := reads.1 ⟨1, le_rfl, le_rfl, rfl⟩
  exact absurd answer nofun

end Proofs

end DrasiCore
