import DrasiCore.WalRecords

/-! The write-ahead log of one source: a counter and a table of the retained events by sequence. -/

namespace DrasiCore

open Library

inductive CapacityPolicy where
  | rejectIncoming
  | overwriteOldest
deriving DecidableEq

structure WriteAheadLogConfig where
  maxEvents : Nat
  capacityPolicy : CapacityPolicy

inductive WalError where
  | capacityExhausted (sourceId : String)
  | positionUnavailable (sourceId : String) (requested : Nat) (oldestAvailable : Option Nat)
  | invalidEvent (message : String)
  | serializationError (message : String)
deriving DecidableEq

def walFormatVersion : Nat := 2

structure WalRecord where
  version : Nat
  change : SourceChangeDto

structure SourceWalState where
  sourceId : String
  config : WriteAheadLogConfig
  counter : Nat
  events : OrderedMap Nat WalRecord

namespace SourceWalState

def new (sourceId : String) (config : WriteAheadLogConfig) : SourceWalState := ⟨sourceId, config, 0, .empty⟩

/-- Evict the oldest entries until there is room for one more. -/
def makeRoom (maxEvents : Nat) : List (Nat × WalRecord) → List (Nat × WalRecord)
  | [] => []
  | oldest :: rest => if (oldest :: rest).length < maxEvents then oldest :: rest else makeRoom maxEvents rest

theorem makeRoom_suffix (maxEvents : Nat) (entries : List (Nat × WalRecord)) :
    makeRoom maxEvents entries <:+ entries := by
  induction entries with
  | nil => exact List.suffix_rfl
  | cons oldest rest ih =>
    simp only [makeRoom]
    split
    · exact List.suffix_rfl
    · exact ih.trans (List.suffix_cons oldest rest)

def evict (events : OrderedMap Nat WalRecord) (maxEvents : Nat) : OrderedMap Nat WalRecord :=
  ⟨makeRoom maxEvents events.entries, events.sorted.sublist (makeRoom_suffix maxEvents events.entries).sublist⟩

variable (text : DateTimeText) (wal : SourceWalState)

/-- Store an event under the next sequence. A refused event takes no sequence. -/
def append (event : SourceChange) : Except WalError Nat × SourceWalState :=
  match event.toDto text with
  | none => (.error (.invalidEvent "SourceChange::Future events cannot be persisted to WAL"), wal)
  | some change =>
    if wal.config.maxEvents ≤ wal.events.entries.length ∧ wal.config.capacityPolicy = .rejectIncoming then
      (.error (.capacityExhausted wal.sourceId), wal)
    else
      let events := if wal.config.maxEvents ≤ wal.events.entries.length then evict wal.events wal.config.maxEvents else wal.events
      let sequence := wal.counter + 1
      (.ok sequence, { wal with counter := sequence, events := events.insert sequence ⟨walFormatVersion, change⟩ })

def readEntry (entry : Nat × WalRecord) : Except WalError (Nat × SourceChange) :=
  let (seq, record) := entry
  let version := record.version
  if version ≠ walFormatVersion then
    .error (.serializationError s!"WAL format version mismatch for seq {seq}: expected {walFormatVersion}, got {version}")
  else .ok (seq, record.change.toCore text)

def readFrom (sequence : Nat) : Except WalError (List (Nat × SourceChange)) :=
  let range := (wal.events.entries.filter fun entry => sequence ≤ entry.1).mapM (readEntry text)
  match wal.events.entries.head? with
  | some (oldest, _) =>
    if sequence < oldest then .error (.positionUnavailable wal.sourceId sequence (some oldest)) else range
  | none => range

def pruneUpTo (sequence : Nat) : Nat × SourceWalState :=
  ((wal.events.entries.filter fun entry => entry.1 ≤ sequence).length,
    { wal with
      events := ⟨wal.events.entries.filter fun entry => ¬ entry.1 ≤ sequence, wal.events.sorted.filter _⟩ })

def headSequence : Nat := wal.counter

end SourceWalState

end DrasiCore
