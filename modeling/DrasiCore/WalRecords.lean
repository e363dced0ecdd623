import DrasiCore.SourceChange

/-! The records of the write-ahead log. The log keeps its own copies of the types of the core, which have no wire format;
instants travel as text. -/

namespace DrasiCore

open Library

/-- Writing instants as text and reading them back, as the date library does it. -/
structure DateTimeText where
  formatLocal : (nanos : Int) → String
  parseLocal : String → Option Int
  formatZoned : (nanos offset : Int) → String
  parseZoned : String → Option (Int × Int)

structure ElementReferenceDto where
  sourceId : String
  elementId : String

structure ElementMetadataDto where
  reference : ElementReferenceDto
  labels : List String
  effectiveFrom : Nat

inductive ElementValueDto where
  | null
  | bool (value : Bool)
  | float (value : Rat)
  | integer (value : Int)
  | string (value : String)
  | localDateTime (text : String)
  | zonedDateTime (text : String)
  | list (values : List ElementValueDto)
  | object (entries : List (String × ElementValueDto))

structure PropertyMapDto where
  entries : List (String × ElementValueDto)

inductive ElementDto where
  | node (metadata : ElementMetadataDto) (properties : PropertyMapDto)
  | relation (metadata : ElementMetadataDto) (inNode outNode : ElementReferenceDto) (properties : PropertyMapDto)

inductive SourceChangeDto where
  | insert (element : ElementDto)
  | update (element : ElementDto)
  | delete (metadata : ElementMetadataDto)

variable (text : DateTimeText)

section ToRecord

def ElementReference.toDto (reference : ElementReference) : ElementReferenceDto := ⟨reference.sourceId, reference.elementId⟩

def ElementMetadata.toDto (metadata : ElementMetadata) : ElementMetadataDto :=
  ⟨metadata.reference.toDto, metadata.labels, metadata.effectiveFrom⟩

namespace ElementValue

mutual

def toDto : ElementValue → ElementValueDto
  | .null => .null
  | .bool value => .bool value
  | .float value => .float value
  | .integer value => .integer value
  | .string value => .string value
  | .localDateTime nanos => .localDateTime (text.formatLocal nanos)
  | .zonedDateTime nanos offset => .zonedDateTime (text.formatZoned nanos offset)
  | .list values => .list (toDtos values)
  | .object entries => .object (toDtoEntries entries)

def toDtos : List ElementValue → List ElementValueDto
  | [] => []
  | value :: values => value.toDto :: toDtos values

def toDtoEntries : List (String × ElementValue) → List (String × ElementValueDto)
  | [] => []
  | (key, value) :: entries => (key, value.toDto) :: toDtoEntries entries

end

end ElementValue

def ElementPropertyMap.toDto (properties : ElementPropertyMap) : PropertyMapDto :=
  ⟨ElementValue.toDtoEntries text properties.entries⟩

def Element.toDto : Element → ElementDto
  | .node metadata properties => .node metadata.toDto (ElementPropertyMap.toDto text properties)
  | .relation metadata inNode outNode properties =>
    .relation metadata.toDto inNode.toDto outNode.toDto (ElementPropertyMap.toDto text properties)

/-- A change as the log stores it; a future has no record. -/
def SourceChange.toDto : SourceChange → Option SourceChangeDto
  | .insert element => some (.insert (element.toDto text))
  | .update element => some (.update (element.toDto text))
  | .delete metadata => some (.delete metadata.toDto)
  | .future _ => none

end ToRecord

section OfRecord

def ElementReferenceDto.toCore (dto : ElementReferenceDto) : ElementReference := ⟨dto.sourceId, dto.elementId⟩

def ElementMetadataDto.toCore (dto : ElementMetadataDto) : ElementMetadata :=
  ⟨dto.reference.toCore, dto.labels, dto.effectiveFrom⟩

namespace ElementValueDto

mutual

/-- The value of the core. A text that cannot be read as an instant stays a string. -/
def toCore : ElementValueDto → ElementValue
  | .null => .null
  | .bool value => .bool value
  | .float value => .float value
  | .integer value => .integer value
  | .string value => .string value
  | .localDateTime written => (text.parseLocal written).elim (.string written) .localDateTime
  | .zonedDateTime written => (text.parseZoned written).elim (.string written) fun (nanos, offset) => .zonedDateTime nanos offset
  | .list values => .list (toCores values)
  | .object entries => .object (toCoreEntries entries [])

def toCores : List ElementValueDto → List ElementValue
  | [] => []
  | value :: values => value.toCore :: toCores values

def toCoreEntries : List (String × ElementValueDto) → List (String × ElementValue) → List (String × ElementValue)
  | [], map => map
  | (key, value) :: entries, map => toCoreEntries entries (insertEntry key value.toCore map)

end

end ElementValueDto

def PropertyMapDto.toCore (dto : PropertyMapDto) : ElementPropertyMap :=
  dto.entries.foldl (fun map entry => map.insert entry.1 (entry.2.toCore text)) .empty

def ElementDto.toCore : ElementDto → Element
  | .node metadata properties => .node metadata.toCore (properties.toCore text)
  | .relation metadata inNode outNode properties =>
    .relation metadata.toCore inNode.toCore outNode.toCore (properties.toCore text)

def SourceChangeDto.toCore : SourceChangeDto → SourceChange
  | .insert element => .insert (element.toCore text)
  | .update element => .update (element.toCore text)
  | .delete metadata => .delete metadata.toCore

end OfRecord

end DrasiCore
