import DrasiCore.Library.ByteKeys
import DrasiCore.Library.OrderedSeek
import DrasiCore.Models

/-! The archives of element versions: in memory one ordered map for every element, in RocksDB one key space for all of
them, where a key is the hash of the reference followed by the time the version is effective from. -/

namespace DrasiCore

open Library

inductive TimestampBound where
  | startFromPrevious (time : ElementTimestamp)
  | included (time : ElementTimestamp)

/-! ### In memory -/

/-- The versions of one element by the time they are effective from. -/
abbrev ElementArchive := OrderedMap ElementTimestamp Element

namespace ElementArchive

variable (archive : ElementArchive)

def insert (element : Element) : ElementArchive :=
  OrderedMap.insert archive element.getEffectiveFrom element

def retrievePreviousStartTimestamp (time : ElementTimestamp) : ElementTimestamp :=
  ((archive.lastAtMost time).map (·.1)).getD 0

def get (time : ElementTimestamp) : Option Element :=
  (archive.lastAtMost time).map (·.2)

def getRange (start stop : ElementTimestamp) : List Element :=
  (archive.entries.filter fun entry => start ≤ entry.1 ∧ entry.1 ≤ stop).map (·.2)

end ElementArchive

abbrev InMemoryArchive := ElementReference → ElementArchive

namespace InMemoryArchive

def empty : InMemoryArchive := fun _ => .empty

variable (archives : InMemoryArchive)

def insertArchive (element : Element) : InMemoryArchive := fun ref =>
  if ref = element.getReference then (archives ref).insert element else archives ref

def getElementAsAt (elementRef : ElementReference) (time : ElementTimestamp) :
    Option Element := (archives elementRef).get time

def getElementVersions (elementRef : ElementReference) (start : TimestampBound) (stop : ElementTimestamp) :
    List Element :=
  match start with
  | .included time => (archives elementRef).getRange time stop
  | .startFromPrevious time =>
    (archives elementRef).getRange ((archives elementRef).retrievePreviousStartTimestamp time) stop

end InMemoryArchive

/-! ### What storing keeps of an element -/

namespace ElementValue

mutual

/-- A value as it is read back from storage: instants are kept in whole microseconds. -/
def stored : ElementValue → ElementValue
  | .null => .null
  | .bool value => .bool value
  | .float value => .float value
  | .integer value => .integer value
  | .string value => .string value
  | .list values => .list (storedList values)
  | .object entries => .object (storedEntries entries)
  | .localDateTime nanos => .localDateTime (nanos / 1000 * 1000)
  | .zonedDateTime nanos offset => .zonedDateTime (nanos / 1000 * 1000) offset

def storedList : List ElementValue → List ElementValue
  | [] => []
  | value :: values => stored value :: storedList values

def storedEntries : List (String × ElementValue) → List (String × ElementValue)
  | [] => []
  | (key, value) :: entries => (key, stored value) :: storedEntries entries

end

end ElementValue

namespace Element

def stored : Element → Element
  | .node metadata properties => .node metadata (properties.mapValues ElementValue.stored)
  | .relation metadata inNode outNode properties =>
    .relation metadata inNode outNode (properties.mapValues ElementValue.stored)

end Element

/-! ### In RocksDB -/

abbrev RocksDbArchive := OrderedMap ByteString Element

variable (hash : ElementReference → ByteString) (archive : RocksDbArchive) (elementRef : ElementReference)

namespace RocksDbArchive

def archiveKey (time : ElementTimestamp) :
    ByteString := hash elementRef ++ bigEndian 8 time

def keyTime (key : ByteString) : ElementTimestamp := ofBigEndian ((key.drop 16).take 8)

def insertArchive (element : Element) :
    RocksDbArchive := archive.insert (archiveKey hash element.getReference element.getEffectiveFrom) element.stored

/-- One step back from the key of the time, whatever element it leads to. -/
def getElementAsAt (time : ElementTimestamp) : Option Element :=
  (archive.lastAtMost (archiveKey hash elementRef time)).map (·.2)

def startTime :
    TimestampBound → ElementTimestamp
  | .included time => time
  | .startFromPrevious time =>
    match archive.lastAtMost (archiveKey hash elementRef time) with
    | some (key, _) => keyTime key
    | none => 0

/-- Forward from the start key until the key leaves the element or its time the range. -/
def getElementVersions (start : TimestampBound) (stop : ElementTimestamp) : List Element :=
  let startKey := archiveKey hash elementRef (startTime hash archive elementRef start)
  let entries := archive.entries.filter fun entry => startKey ≤ entry.1
  (entries.takeWhile fun entry => (hash elementRef).isPrefixOf entry.1 && keyTime entry.1 ≤ stop).map (·.2)

end RocksDbArchive

/-! ### The versions that were archived -/

variable (history : List Element)

def versionAt (elementRef : ElementReference) (time : ElementTimestamp) : Option Element :=
  history.foldl
    (fun found element =>
      if element.getReference = elementRef ∧ element.getEffectiveFrom = time then some element else found) none

def InMemoryArchive.ofHistory : InMemoryArchive :=
  history.foldl InMemoryArchive.insertArchive InMemoryArchive.empty

def RocksDbArchive.ofHistory : RocksDbArchive :=
  history.foldl (RocksDbArchive.insertArchive hash) .empty

end DrasiCore
