import DrasiCore.ElementArchive
import DrasiCore.SourceJoins

/-! The element index in RocksDB. Elements and their slots are kept under the hash of their reference, and for every slot of a
relation there is an entry at each of its ends. All is read and written through the transaction of a session. -/

namespace DrasiCore

open Library

/-- The hash of a reference. It is assumed to tell byte strings apart, so it stands for the one it is given. -/
def hashElementRef (ref : ElementReference) : String := ref.sourceId ++ ref.elementId

def slotAsU16 (slot : Nat) : Nat := slot % 65536

def utf8Bytes (text : String) : ByteString := text.toUTF8.toList.map fun byte => ⟨byte.toNat, byte.toNat_lt⟩

def ofUtf8Bytes (bytes : ByteString) :
    Option String := String.fromUTF8? ⟨(bytes.map fun byte => UInt8.ofNat byte.val).toArray⟩

/-- What follows the prefix of a registration: the length of the source id in one byte, then both ids. -/
def encodePartialJoinKey (ref : ElementReference) : ByteString :=
  let sourceId := utf8Bytes ref.sourceId
  ⟨sourceId.length % 256, Nat.mod_lt _ (by decide)⟩ :: (sourceId ++ utf8Bytes ref.elementId)

def decodePartialJoinKey : ByteString → Option ElementReference
  | [] => none
  | size :: bytes => do
    let sourceId ← ofUtf8Bytes (bytes.take size.val)
    let elementId ← ofUtf8Bytes (bytes.drop size.val)
    return ⟨sourceId, elementId⟩

namespace ElementValue

mutual

/-- What is hashed of a value: the entries of an object in the order in which its hash map happens to be visited. -/
def hashed (order : IterationOrder) : ElementValue → ElementValue
  | .list values => .list (hashedList order values)
  | .object entries => .object (order.arrange [] (hashedEntries order entries))
  | value => value

def hashedList (order : IterationOrder) : List ElementValue → List ElementValue
  | [] => []
  | value :: values => hashed (order.within [values.length]) value :: hashedList order values

def hashedEntries (order : IterationOrder) : List (String × ElementValue) → List (String × ElementValue)
  | [] => []
  | (key, value) :: entries => (key, hashed (order.within [entries.length]) value) :: hashedEntries order entries

end

end ElementValue

/-- The hash of join, value, label and property, again assumed to tell apart what it is given. -/
abbrev PartialJoinPrefix := String × ElementValue × QueryJoinKey

/-- The column families as the transaction shows them, and the elements in the database behind it. An element stands for the
bytes it is decoded from. A missing set is an empty list. -/
structure RocksDbElementIndex where
  elements : String → Option Element
  slots : String → Option (List Nat)
  inbound : String × Nat → List String
  outbound : String × Nat → List String
  partialJoins : PartialJoinPrefix → List ByteString
  joinSpecByLabel : JoinSpec
  committed : String → Option Element

variable (order : IterationOrder) (fuel : Nat) (db : RocksDbElementIndex)

namespace RocksDbElementIndex

def new (matchPath : MatchPath) (joins : List QueryJoin) : RocksDbElementIndex :=
  ⟨fun _ => none, fun _ => none, fun _ => [], fun _ => [], fun _ => [], JoinSpec.extract matchPath joins, fun _ => none⟩

variable (db : RocksDbElementIndex)

def commit : RocksDbElementIndex := { db with committed := db.elements }

def getElement (elementRef : ElementReference) : Option Element :=
  db.elements (hashElementRef elementRef)

def getSlotElementByRef (slot : Nat) (elementRef : ElementReference) : Option Element :=
  match db.slots (hashElementRef elementRef) with
  | some prevSlots => if prevSlots.contains slot then db.elements (hashElementRef elementRef) else none
  | none => none

/-- The entries at one end in a slot. Those whose relation is gone are removed on the way. -/
def collect (elements : String → Option Element) (entries : String × Nat → List String) (key : String × Nat) :
    List Element × (String × Nat → List String) :=
  ((entries key).filterMap elements,
    fun other => if other = key then (entries key).filter (elements · |>.isSome) else entries other)

def getSlotElementsByInbound (slot : Nat) (inboundRef : ElementReference) : List Element × RocksDbElementIndex :=
  let (found, inbound) := collect db.elements db.inbound (hashElementRef inboundRef, slotAsU16 slot)
  (found, { db with inbound })

def getSlotElementsByOutbound (slot : Nat) (outboundRef : ElementReference) : List Element × RocksDbElementIndex :=
  let (found, outbound) := collect db.elements db.outbound (hashElementRef outboundRef, slotAsU16 slot)
  (found, { db with outbound })

/-- The entries of a relation at one of its ends move from its previous slots to the new ones. -/
def moveEntries (entries : String × Nat → List String) (node relation : String) (prevSlots slots : List Nat) :
    String × Nat → List String := fun key =>
  let removed :=
    if key.1 = node ∧ (prevSlots.map slotAsU16).contains key.2 then (entries key).filter (· ≠ relation) else entries key
  if key.1 = node ∧ (slots.map slotAsU16).contains key.2 then removed.insert relation else removed

def sameSlots (first second : List Nat) : Bool := first.all second.contains && second.all first.contains

/-- The element, its slots and its entries; joins follow. Entries are written at the ends of the new version, and only where
the set of slots has changed. -/
def putElement (element : Element) (slots : List Nat) : RocksDbElementIndex :=
  let key := hashElementRef element.getReference
  let prevSlots := db.slots key
  let written : RocksDbElementIndex :=
    { db with
      elements := Function.update db.elements key (some element.stored)
      slots := Function.update db.slots key (some slots) }
  match element with
  | .node .. => written
  | .relation _ inNode outNode _ =>
    if prevSlots.any (sameSlots · slots) then written
    else
      { written with
        inbound := moveEntries db.inbound (hashElementRef inNode) key (prevSlots.getD []) slots
        outbound := moveEntries db.outbound (hashElementRef outNode) key (prevSlots.getD []) slots }

/-- The element and its slots go, and with them all entries at it in its own slots. -/
def removeElement (key : String) : RocksDbElementIndex :=
  let atElement := fun entry : String × Nat => entry.1 = key ∧ (((db.slots key).getD []).map slotAsU16).contains entry.2
  { db with
    elements := Function.update db.elements key none
    slots := Function.update db.slots key none
    inbound := fun entry => if atElement entry then [] else db.inbound entry
    outbound := fun entry => if atElement entry then [] else db.outbound entry }

def joinSource : String := "$join"

def getJoinVirtualRef (ref1 ref2 : ElementReference) : ElementReference :=
  ⟨joinSource, ref1.elementId ++ ":" ++ ref2.elementId⟩

def joinRelation (joinId : String) (effectiveFrom : ElementTimestamp) (inNode outNode : ElementReference) : Element :=
  .relation ⟨getJoinVirtualRef inNode outNode, [joinId], effectiveFrom⟩ inNode outNode .empty

def storedProperty (property : String) : Element → Option ElementValue
  | .node _ properties => (properties.get? property).filter (· ≠ .null)
  | .relation .. => none

def setPartial (joinPrefix : PartialJoinPrefix) (keys : List ByteString) : RocksDbElementIndex :=
  { db with partialJoins := fun other => if other = joinPrefix then keys else db.partialJoins other }

/-- Do something with every node registered with the hashed value under another key of the join. A key that cannot be
decoded is an error. -/
def forCounterparts (join : QueryJoin) (joinKey : QueryJoinKey) (value : ElementValue)
    (action : RocksDbElementIndex → ElementReference → Option RocksDbElementIndex) : Option RocksDbElementIndex :=
  (join.keys.filter (· ≠ joinKey)).foldlM
    (fun db other => (db.partialJoins (join.id, value, other)).foldlM
      (fun db key => decodePartialJoinKey key >>= action db) db) db

def deleteSourceJoin (order : IterationOrder) (delete : RocksDbElementIndex → String → Option RocksDbElementIndex)
    (oldElement : ElementReference) (join : QueryJoin) (joinKey : QueryJoinKey) (value : ElementValue)
    (db : RocksDbElementIndex) : Option RocksDbElementIndex :=
  let hash := value.hashed order
  let joinPrefix := (join.id, hash, joinKey)
  let key := encodePartialJoinKey oldElement
  if key ∈ db.partialJoins joinPrefix then
    (db.setPartial joinPrefix ((db.partialJoins joinPrefix).filter (· ≠ key))).forCounterparts join joinKey hash fun db other => do
      let db ← delete db (hashElementRef (getJoinVirtualRef oldElement other))
      delete db (hashElementRef (getJoinVirtualRef other oldElement))
  else some db

def deleteSourceJoins (order : IterationOrder) (delete : RocksDbElementIndex → String → Option RocksDbElementIndex)
    (element : Element) (db : RocksDbElementIndex) : Option RocksDbElementIndex :=
  (db.joinSpecByLabel.visits order element.getMetadata.labels).foldlM
    (fun db visit => match storedProperty visit.2.property element with
      | some value => db.deleteSourceJoin (order.within [1]) delete element.getReference visit.1.1 visit.2 value
      | none => some db) db

/-- Fuel counts how deep deleting virtual relations nests. -/
def deleteElement (order : IterationOrder) : Nat → RocksDbElementIndex → String → Option RocksDbElementIndex
  | fuel, db, key =>
    match db.elements key, fuel with
    | some (.node metadata properties), fuel + 1 =>
      -- The slots are read before the joins are deleted.
      (db.deleteSourceJoins order (deleteElement order fuel) (.node metadata properties)).map fun deleted =>
        { deleted with slots := Function.update deleted.slots key (db.slots key) }.removeElement key
    | _, _ => some (db.removeElement key)

/-- One turn of the loop over the joins of a node that was set. What it was before is read from the database, not from the
transaction. -/
def updateSourceJoin (element : Element) (db : RocksDbElementIndex) (visit : (QueryJoin × List Nat) × QueryJoinKey) :
    Option RocksDbElementIndex :=
  let ((join, slots), joinKey) := visit
  let reference := element.getReference
  match storedProperty joinKey.property element with
  | none => some db
  | some value =>
    let oldValue := (db.committed (hashElementRef reference)).bind (storedProperty joinKey.property)
    if oldValue = some value then some db
    else
      let hash := value.hashed (order.within [2])
      let joinPrefix := (join.id, hash, joinKey)
      let key := encodePartialJoinKey reference
      if key ∈ db.partialJoins joinPrefix then some db
      else do
        let inserted := db.setPartial joinPrefix (key :: db.partialJoins joinPrefix)
        let withoutOld ← match oldValue with
          | some oldValue =>
            inserted.deleteSourceJoin (order.within [3]) (deleteElement order fuel) reference join joinKey oldValue
          | none => some inserted
        withoutOld.forCounterparts join joinKey hash fun db other =>
          let inOut := joinRelation join.id element.getEffectiveFrom reference other
          let outIn := joinRelation join.id element.getEffectiveFrom other reference
          some ((db.putElement inOut slots).putElement outIn slots)

def setElement (element : Element) (slots : List Nat) : Option RocksDbElementIndex :=
  let written := db.putElement element slots
  match element with
  | .node .. =>
    (written.joinSpecByLabel.visits order element.getMetadata.labels).foldlM (updateSourceJoin order fuel element.stored) written
  | .relation .. => some written

end RocksDbElementIndex

inductive SessionCall where
  | setElement (element : Element) (slots : List Nat)
  | deleteElement (elementRef : ElementReference)
  | getElement (elementRef : ElementReference)
  | getSlotElementByRef (slot : Nat) (elementRef : ElementReference)
  | getSlotElementsByInbound (slot : Nat) (inboundRef : ElementReference)
  | getSlotElementsByOutbound (slot : Nat) (outboundRef : ElementReference)
  | commit

namespace JoinIndex

/-- What the index in memory answers, and what it is afterwards. -/
def call (state : JoinIndex) : SessionCall → List Element × JoinIndex
  | .setElement element slots => ([], state.setElement order fuel element slots)
  | .deleteElement elementRef => ([], state.deleteElement order fuel elementRef)
  | .getElement elementRef => ((state.index.getElement elementRef).toList, state)
  | .getSlotElementByRef slot elementRef => ((state.index.getSlotElementByRef slot elementRef).toList, state)
  | .getSlotElementsByInbound slot inboundRef => (state.index.getSlotElementsByInbound order slot inboundRef, state)
  | .getSlotElementsByOutbound slot outboundRef => (state.index.getSlotElementsByOutbound order slot outboundRef, state)
  | .commit => ([], state)

end JoinIndex

namespace RocksDbElementIndex

def call : SessionCall → Option (List Element × RocksDbElementIndex)
  | .setElement element slots => (db.setElement order fuel element slots).map ([], ·)
  | .deleteElement elementRef => (db.deleteElement order fuel (hashElementRef elementRef)).map ([], ·)
  | .getElement elementRef => some ((db.getElement elementRef).toList, db)
  | .getSlotElementByRef slot elementRef => some ((db.getSlotElementByRef slot elementRef).toList, db)
  | .getSlotElementsByInbound slot inboundRef => some (db.getSlotElementsByInbound slot inboundRef)
  | .getSlotElementsByOutbound slot outboundRef => some (db.getSlotElementsByOutbound slot outboundRef)
  | .commit => some ([], db.commit)

end RocksDbElementIndex

end DrasiCore
