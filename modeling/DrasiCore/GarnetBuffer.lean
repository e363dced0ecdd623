import DrasiCore.Library.ByteKeys
import DrasiCore.Library.Deltas

/-! The write buffer of a Garnet session. Writes are collected as changes per key, reads are answered from them where they
say enough and from the store otherwise, and at the commit the changes become one pipeline of commands. A store whose keys
are each used with one data type is described by what it holds of every type: a key without content does not exist. -/

namespace DrasiCore

open Library

inductive Score where
  | number (value : Rat)
  | infinite (positive : Bool)
  | nan
deriving DecidableEq

structure RedisContents where
  string : Option ByteString
  hash : String → Option ByteString
  set : ByteString → Option Unit
  sortedSet : ByteString → Option Score

namespace RedisContents

def empty : RedisContents := ⟨none, fun _ => none, fun _ => none, fun _ => none⟩

end RedisContents

abbrev RedisStore := String → RedisContents

/-- The commands of a pipeline. The fields, members and scores of one command are distinct. -/
inductive RedisCommand where
  | del (key : String)
  | set (key : String) (value : ByteString)
  | hset (key : String) (fields : List (String × ByteString))
  | hdel (key : String) (fields : List String)
  | sadd (key : String) (members : List ByteString)
  | srem (key : String) (members : Finset ByteString)
  | zadd (key : String) (scores : List (ByteString × Score))
  | zrem (key : String) (members : Finset ByteString)

namespace RedisCommand

def key : RedisCommand → String
  | .del key | .set key _ | .hset key _ | .hdel key _ | .sadd key _ | .srem key _ | .zadd key _ | .zrem key _ => key

/-- What a command makes of its key. A score that is no number is an error, and the command has no effect. -/
def apply (contents : RedisContents) : RedisCommand → RedisContents
  | .del _ => .empty
  | .set _ value => { RedisContents.empty with string := some value }
  | .hset _ fields => { contents with hash := fun field => (fields.lookup field).or (contents.hash field) }
  | .hdel _ fields => { contents with hash := fun field => if field ∈ fields then none else contents.hash field }
  | .sadd _ members => { contents with set := fun member => if member ∈ members then some () else contents.set member }
  | .srem _ members => { contents with set := fun member => if member ∈ members then none else contents.set member }
  | .zadd _ scores =>
    if scores.any (·.2 = .nan) then contents
    else { contents with sortedSet := fun member => (scores.lookup member).or (contents.sortedSet member) }
  | .zrem _ members =>
    { contents with sortedSet := fun member => if member ∈ members then none else contents.sortedSet member }

end RedisCommand

namespace RedisStore

def execute (store : RedisStore) (command : RedisCommand) : RedisStore :=
  Function.update store command.key (command.apply (store command.key))

def executeAll (store : RedisStore) (commands : List RedisCommand) : RedisStore := commands.foldl execute store

end RedisStore

inductive BufferReadResult (A : Type) where
  | found (value : A)
  | keyDeleted
  | notInBuffer

/-- The value read, where the store is asked if the buffer has none. -/
def BufferReadResult.orElse {A : Type} (result : BufferReadResult A) (deleted stored : A) : A :=
  match result with
  | .found value => value
  | .keyDeleted => deleted
  | .notInBuffer => stored

inductive KeyState where
  | deleted
  | stringValue (value : ByteString)
  /-- A field without value was deleted. -/
  | hash (fields : AList fun _ : String => Option ByteString)
  | set (deltas : Deltas ByteString Unit)
  | sortedSet (deltas : Deltas ByteString Score)

structure WriteBuffer where
  keys : AList fun _ : String => KeyState
  /-- Keys deleted at some point of the session. -/
  clearedKeys : Finset String

variable (buffer : WriteBuffer) (key : String) (member : ByteString) (field : String)

namespace WriteBuffer

def new : WriteBuffer := ⟨∅, ∅⟩

def track (state : KeyState) : WriteBuffer :=
  { buffer with keys := buffer.keys.insert key state }

def stringSet (value : ByteString) : WriteBuffer :=
  buffer.track key (.stringValue value)

def stringGet : BufferReadResult (Option ByteString) :=
  match buffer.keys.lookup key with
  | some (.stringValue value) => .found (some value)
  | some .deleted => .keyDeleted
  | _ => .notInBuffer

/-- The changed fields of a hash; any other state is forgotten. -/
def fieldsOf : AList fun _ : String => Option ByteString :=
  match buffer.keys.lookup key with
  | some (.hash fields) => fields
  | _ => ∅

def hashSet (value : ByteString) : WriteBuffer :=
  buffer.track key (.hash ((buffer.fieldsOf key).insert field (some value)))

def hashGet : BufferReadResult (Option ByteString) :=
  match buffer.keys.lookup key with
  | some (.hash fields) =>
    match fields.lookup field with
    | some (some value) => .found (some value)
    | some none => .keyDeleted
    | none => if key ∈ buffer.clearedKeys then .keyDeleted else .notInBuffer
  | some .deleted => .keyDeleted
  | _ => .notInBuffer

def hashDel : WriteBuffer :=
  buffer.track key (.hash ((buffer.fieldsOf key).insert field none))

def setDeltasOf : Deltas ByteString Unit :=
  match buffer.keys.lookup key with
  | some (.set deltas) => deltas
  | _ => .empty

def setAdd : WriteBuffer :=
  buffer.track key (.set ((buffer.setDeltasOf key).add member ()))

def setRemove : WriteBuffer :=
  match buffer.keys.lookup key with
  | some .deleted => buffer
  | _ => buffer.track key (.set ((buffer.setDeltasOf key).remove member))

def setIsMember : BufferReadResult Bool :=
  match buffer.keys.lookup key with
  | some (.set deltas) =>
    if member ∈ deltas.added then .found true
    else if member ∈ deltas.removed then .found false
    else if key ∈ buffer.clearedKeys then .found false
    else .notInBuffer
  | some .deleted => .keyDeleted
  | _ => .notInBuffer

def setGetDeltas : BufferReadResult (Deltas ByteString Unit × Bool) :=
  match buffer.keys.lookup key with
  | some (.set deltas) => .found (deltas, key ∈ buffer.clearedKeys)
  | some .deleted => .keyDeleted
  | _ => .notInBuffer

def zsetDeltasOf : Deltas ByteString Score :=
  match buffer.keys.lookup key with
  | some (.sortedSet deltas) => deltas
  | _ => .empty

def zsetAdd (score : Score) : WriteBuffer :=
  buffer.track key (.sortedSet ((buffer.zsetDeltasOf key).add member score))

def zsetRemove : WriteBuffer :=
  match buffer.keys.lookup key with
  | some .deleted => buffer
  | _ => buffer.track key (.sortedSet ((buffer.zsetDeltasOf key).remove member))

def zsetGetDeltas : BufferReadResult (Deltas ByteString Score × Bool) :=
  match buffer.keys.lookup key with
  | some (.sortedSet deltas) => .found (deltas, key ∈ buffer.clearedKeys)
  | some .deleted => .keyDeleted
  | _ => .notInBuffer

def del : WriteBuffer :=
  { buffer with keys := buffer.keys.insert key .deleted, clearedKeys := insert key buffer.clearedKeys }

/-- The commands for one key. What was deleted before is deleted first. -/
def drainKey (cleared : Bool) : KeyState → List RedisCommand
  | .deleted => [.del key]
  | .stringValue value => [.set key value]
  | .hash fields =>
    let setFields := fields.entries.filterMap fun entry => entry.2.map (entry.1, ·)
    let delFields := fields.entries.filterMap fun entry => if entry.2.isNone then some entry.1 else none
    (if cleared then [.del key] else []) ++ (if setFields = [] then [] else [.hset key setFields]) ++
      (if delFields = [] then [] else [.hdel key delFields])
  | .set deltas =>
    (if cleared then [.del key] else if deltas.removed = ∅ then [] else [.srem key deltas.removed]) ++
      (if deltas.added.keys = [] then [] else [.sadd key deltas.added.keys])
  | .sortedSet deltas =>
    let scores := deltas.added.entries.map fun entry => (entry.1, entry.2)
    (if cleared then [.del key] else if deltas.removed = ∅ then [] else [.zrem key deltas.removed]) ++
      (if scores = [] then [] else [.zadd key scores])

def drainIntoPipeline : List RedisCommand :=
  buffer.keys.entries.flatMap fun entry => drainKey entry.1 (entry.1 ∈ buffer.clearedKeys) entry.2

end WriteBuffer

inductive SessionWrite where
  | stringSet (key : String) (value : ByteString)
  | hashSet (key field : String) (value : ByteString)
  | hashDel (key field : String)
  | setAdd (key : String) (member : ByteString)
  | setRemove (key : String) (member : ByteString)
  | zsetAdd (key : String) (member : ByteString) (score : Score)
  | zsetRemove (key : String) (member : ByteString)
  | del (key : String)

namespace SessionWrite

def command : SessionWrite → RedisCommand
  | .stringSet key value => .set key value
  | .hashSet key field value => .hset key [(field, value)]
  | .hashDel key field => .hdel key [field]
  | .setAdd key member => .sadd key [member]
  | .setRemove key member => .srem key {member}
  | .zsetAdd key member score => .zadd key [(member, score)]
  | .zsetRemove key member => .zrem key {member}
  | .del key => .del key

def perform : SessionWrite → WriteBuffer
  | .stringSet key value => buffer.stringSet key value
  | .hashSet key field value => buffer.hashSet key field value
  | .hashDel key field => buffer.hashDel key field
  | .setAdd key member => buffer.setAdd key member
  | .setRemove key member => buffer.setRemove key member
  | .zsetAdd key member score => buffer.zsetAdd key member score
  | .zsetRemove key member => buffer.zsetRemove key member
  | .del key => buffer.del key

def performAll (writes : List SessionWrite) : WriteBuffer := writes.foldl perform buffer

end SessionWrite

/-! Reads through the buffer, merged with the store as the indexes do. -/

variable (base : RedisStore) (key : String)

namespace WriteBuffer

def readString : Option ByteString :=
  (buffer.stringGet key).orElse none (base key).string

def readField (field : String) : Option ByteString :=
  (buffer.hashGet key field).orElse none ((base key).hash field)

def readIsMember (member : ByteString) : Bool :=
  (buffer.setIsMember key member).orElse false ((base key).set member).isSome

/-- Changes that replace a key are read alone, others over the store. -/
def merge {V : Type} (stored : ByteString → Option V) : Deltas ByteString V × Bool → ByteString → Option V
  | (deltas, true) => deltas.added.lookup
  | (deltas, false) => deltas.onto stored

def readMembers : ByteString → Option Unit :=
  match buffer.setGetDeltas key with
  | .found deltas => merge (base key).set deltas
  | .keyDeleted => fun _ => none
  | .notInBuffer => (base key).set

def readScores : ByteString → Option Score :=
  match buffer.zsetGetDeltas key with
  | .found deltas => merge (base key).sortedSet deltas
  | .keyDeleted => fun _ => none
  | .notInBuffer => (base key).sortedSet

end WriteBuffer

end DrasiCore
