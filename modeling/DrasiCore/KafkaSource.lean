import DrasiCore.Library.ByteKeys
import DrasiCore.SourceBase

/-! The Kafka source: positions that carry the next offset of every partition, the comparator of such positions, and the
task that consumes a topic from the least offsets its subscribers resume from. -/

namespace DrasiCore

open Library

namespace KafkaPosition

/-- A signed number of 64 bits, most significant byte first. -/
def encodeOffset (offset : Int) : ByteString := bigEndian 8 (offset % 2 ^ 64).toNat

variable (bytes : ByteString)

/-- Signed numbers of 32 and 64 bits are kept as their rest in the symmetric range. -/
def decodeSigned : Int := (ofBigEndian bytes : Int).bmod (256 ^ bytes.length)

def bootstrapBoundaryMagic : ByteString := [0x4B, 0x42, 0x4E, 0x44]

def maxPartitionCount : Nat := 1000000

/-- The partition of an event, the number of partitions, and the next offset of each. -/
def encodePosition (fromPartition : Nat) (offsets : List Int) : ByteString :=
  bigEndian 4 fromPartition ++ bigEndian 4 offsets.length ++ offsets.flatMap encodeOffset

def decodePosition : Option (Nat × List Int) :=
  if bytes.length < 8 ∨ bytes.take 4 = bootstrapBoundaryMagic then none
  else
    let fromPartition := ofBigEndian (bytes.take 4)
    let partitionCount := ofBigEndian ((bytes.drop 4).take 4)
    if maxPartitionCount < partitionCount then none
    else if bytes.length ≠ 8 + 8 * partitionCount then none
    else some (fromPartition, (List.range partitionCount).map fun i => decodeSigned ((bytes.drop (8 + 8 * i)).take 8))

/-- The boundary of a bootstrap: partitions with the offsets up to which the snapshot covers them. -/
def decodePartitionOffsets : Option (List (Int × Int)) :=
  if bytes.length < 8 ∨ bytes.take 4 ≠ bootstrapBoundaryMagic then none
  else
    let partitionCount := ofBigEndian ((bytes.drop 4).take 4)
    if maxPartitionCount < partitionCount then none
    else if bytes.length ≠ 8 + 12 * partitionCount then none
    else some ((List.range partitionCount).map fun i =>
      (decodeSigned ((bytes.drop (8 + 12 * i)).take 4), decodeSigned ((bytes.drop (8 + 12 * i + 4)).take 8)))

def positionReached (eventPosition resumePosition : ByteString) : Bool :=
  match decodePosition eventPosition with
  | none => false
  | some (fromPartition, eventOffsets) =>
    match decodePosition resumePosition with
    -- A malformed resume position, or the boundary of a bootstrap, lets every event through.
    | none => true
    | some (_, resumeOffsets) =>
      match resumeOffsets[fromPartition]?, eventOffsets[fromPartition]? with
      -- The topic has been expanded since.
      | none, _ => true
      | some _, none => false
      | some resume, some event => resume < event

end KafkaPosition

open KafkaPosition

structure KafkaSource where
  base : SourceBase ByteString
  /-- The offsets each query resumes from. -/
  subscriberResumePositions : AList fun _ : String => List Int

/-- A message of the topic, with the change its payload stands for. -/
structure KafkaMessage where
  partition : Nat
  offset : Int
  change : SourceChange

structure KafkaConsumer where
  base : SourceBase ByteString
  /-- The next offset of each partition. -/
  currentOffsets : List Int

variable (source : KafkaSource) (partitionCount : Nat)

namespace KafkaSource

def new (id : String) : KafkaSource := ⟨.new id, ∅⟩

/-- The offsets a resume position stands for. Partitions a boundary does not list count from zero. -/
def resumeOffsets (resumeBytes : ByteString) : Option (List Int) :=
  match decodePosition resumeBytes with
  | some (_, offsets) => some offsets
  | none => (decodePartitionOffsets resumeBytes).map fun partitionOffsets =>
      partitionOffsets.foldl (fun offsets entry => if 0 ≤ entry.1 then offsets.set entry.1.toNat entry.2 else offsets)
        (List.replicate partitionOffsets.length 0)

def subscribe (settings : SourceSubscriptionSettings ByteString) (capacity : Nat) : KafkaSource where
  base := source.base.subscribeWithBootstrap settings capacity
  subscriberResumePositions :=
    match settings.resumeFrom.bind resumeOffsets with
    | some offsets => source.subscriberResumePositions.insert settings.queryId offsets
    | none => source.subscriberResumePositions

def subscribeAll (subscribers : List (SourceSubscriptionSettings ByteString)) (capacity : Nat) : KafkaSource :=
  subscribers.foldl (fun source settings => source.subscribe settings capacity) source

/-- Offsets for another number of partitions are ignored. -/
def takeMinimum (minOffsets : Option (List Int)) (offsets : List Int) : Option (List Int) :=
  if offsets.length ≠ partitionCount then minOffsets
  else some (minOffsets.elim offsets fun least => List.zipWith min least offsets)

def minimumResumeOffsets : Option (List Int) :=
  (source.subscriberResumePositions.entries.map (·.2)).foldl (takeMinimum partitionCount) none

end KafkaSource

namespace KafkaConsumer

/-- Where the task goes on that takes up the offsets of resumed subscribers. -/
def resume : Option KafkaConsumer :=
  (source.minimumResumeOffsets partitionCount).map fun offsets => ⟨source.base, offsets⟩

def advanceOffsets (offsets : List Int) (message : KafkaMessage) : List Int :=
  offsets.set message.partition (message.offset + 1)

/-- One round of the loop, for a message that can be parsed. -/
def consume (consumer : KafkaConsumer) (message : KafkaMessage) (clock : Int) : KafkaConsumer :=
  let offsetsForEvent := advanceOffsets consumer.currentOffsets message
  let wrapper : SourceEventWrapper ByteString :=
    ⟨consumer.base.id, message.change, clock, consumer.base.nextSequence,
      some (encodePosition message.partition offsetsForEvent)⟩
  { base := ({ consumer.base with nextSequence := consumer.base.nextSequence + 1 }).dispatchEvent (some positionReached) wrapper
    currentOffsets := offsetsForEvent }

def consumeAll (consumer : KafkaConsumer) (messages : List (KafkaMessage × Int)) : KafkaConsumer :=
  messages.foldl (fun consumer entry => consumer.consume entry.1 entry.2) consumer

end KafkaConsumer

variable (event : SourceEventWrapper ByteString)

/-- The message an event was made from, read off its position. -/
def KafkaMessage.ofEvent : Option KafkaMessage := do
  let (fromPartition, offsets) ← decodePosition (← event.sourcePosition)
  return ⟨fromPartition, (← offsets[fromPartition]?) - 1, event.change⟩

/-- The offsets a query writes to its checkpoint with an event. -/
def checkpointedOffsets : Option (List Int) := do
  let position ← event.sourcePosition
  if position.length ≤ maxSourcePositionBytes then (← decodePosition position).2 else none

end DrasiCore
