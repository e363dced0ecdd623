import DrasiCore.KafkaSource

/-! Kafka positions: what is encoded is decoded again, and what the comparator makes of an encoded position. -/

namespace DrasiCore.Proofs

open Library KafkaPosition List

variable {bytes : ByteString} {offsets : List Int}

def Signed64 (number : Int) : Prop := -2 ^ 63 ≤ number ∧ number < 2 ^ 63

theorem decodeSigned_encodeOffset {offset} (range : Signed64 offset) : decodeSigned (encodeOffset offset) = offset := by
  unfold Signed64 at range
  have bounded : (offset % 2 ^ 64).toNat < 256 ^ 8 := by omega
  unfold decodeSigned encodeOffset
  rw [ofBigEndian_bigEndian bounded, length_bigEndian, Int.bmod_def]
  omega

theorem signed64_decodeSigned (length : bytes.length = 8) : Signed64 (decodeSigned bytes) := by
  unfold decodeSigned Signed64
  rw [length, Int.bmod_def]
  omega

theorem length_encodeOffset (offset : Int) : (encodeOffset offset).length = 8 := length_bigEndian 8 _

theorem length_encodePosition (fromPartition : Nat) (offsets : List Int) :
    (encodePosition fromPartition offsets).length = 8 + 8 * offsets.length := by
  rw [encodePosition, length_append, length_append, length_bigEndian, length_bigEndian,
    length_flatMap_of_fixed length_encodeOffset]

theorem decodePosition_encodePosition {fromPartition} (inside : fromPartition < offsets.length)
    (count : offsets.length ≤ maxPartitionCount) (range : ∀ offset ∈ offsets, Signed64 offset) :
    decodePosition (encodePosition fromPartition offsets) = some (fromPartition, offsets) := by
  have limit : maxPartitionCount = 1000000 := rfl
  have length := length_encodePosition fromPartition offsets
  have first : (encodePosition fromPartition offsets).take 4 = bigEndian 4 fromPartition := by
    rw [encodePosition, append_assoc]
    exact take_left' (length_bigEndian 4 fromPartition)
  have second : ((encodePosition fromPartition offsets).drop 4).take 4 = bigEndian 4 offsets.length := by
    rw [encodePosition, append_assoc, drop_left' (length_bigEndian 4 fromPartition)]
    exact take_left' (length_bigEndian 4 offsets.length)
  have records (index : Nat) : (encodePosition fromPartition offsets).drop (8 + 8 * index) =
      (offsets.flatMap encodeOffset).drop (8 * index) := by
    have header : (bigEndian 4 fromPartition ++ bigEndian 4 offsets.length).length = 8 := by simp
    rw [encodePosition, ← header, drop_length_add_append, header]
  have partitionOf : ofBigEndian (bigEndian 4 fromPartition) = fromPartition := ofBigEndian_bigEndian (by omega)
  have countOf : ofBigEndian (bigEndian 4 offsets.length) = offsets.length := ofBigEndian_bigEndian (by omega)
  -- The mark of a boundary read as a number is no partition.
  have unmarked : bigEndian 4 fromPartition ≠ bootstrapBoundaryMagic := by
    intro same
    have number : fromPartition = ofBigEndian bootstrapBoundaryMagic := by rw [← same, partitionOf]
    have mark : ofBigEndian bootstrapBoundaryMagic = 1262636612 := by decide
    omega
  have decoded : (List.range offsets.length).map
      (fun index => decodeSigned (((encodePosition fromPartition offsets).drop (8 + 8 * index)).take 8)) = offsets := by
    apply List.ext_getElem (by rw [List.length_map, List.length_range])
    intro index _ known
    rw [getElem_map, getElem_range, records,
      take_drop_flatMap length_encodeOffset (getElem?_eq_getElem known)]
    exact decodeSigned_encodeOffset (range _ (getElem_mem known))
  unfold decodePosition
  rw [first, second, partitionOf, countOf]
  dsimp only
  rw [decoded, length, if_neg (fun bad => bad.elim (by omega) unmarked), if_neg (by omega), if_neg (fun other => other rfl)]

theorem length_take_drop {start width} (inside : start + width ≤ bytes.length) :
    ((bytes.drop start).take width).length = width := by
  rw [length_take, length_drop]
  omega

theorem bounds_of_decodePosition {fromPartition} (decodes : decodePosition bytes = some (fromPartition, offsets)) :
    offsets.length ≤ maxPartitionCount ∧ ∀ offset ∈ offsets, Signed64 offset := by
  simp only [decodePosition, Option.ite_none_left_eq_some, Option.some.injEq, Prod.mk.injEq] at decodes
  obtain ⟨-, count, length, -, rfl⟩ := decodes
  constructor
  · rw [List.length_map, List.length_range]
    omega
  · intro offset member
    obtain ⟨index, inside, rfl⟩ := mem_map.mp member
    have known := mem_range.mp inside
    exact signed64_decodeSigned (length_take_drop (by omega))

theorem bounds_of_decodePartitionOffsets {entries} (decodes : decodePartitionOffsets bytes = some entries) :
    entries.length ≤ maxPartitionCount ∧ ∀ entry ∈ entries, Signed64 entry.2 := by
  simp only [decodePartitionOffsets, Option.ite_none_left_eq_some, Option.some.injEq] at decodes
  obtain ⟨-, count, length, rfl⟩ := decodes
  constructor
  · rw [List.length_map, List.length_range]
    omega
  · intro entry member
    obtain ⟨index, inside, rfl⟩ := mem_map.mp member
    have known := mem_range.mp inside
    exact signed64_decodeSigned (length_take_drop (by omega))

theorem bounds_of_resumeOffsets (resumes : KafkaSource.resumeOffsets bytes = some offsets) :
    offsets.length ≤ maxPartitionCount ∧ ∀ offset ∈ offsets, Signed64 offset := by
  unfold KafkaSource.resumeOffsets at resumes
  split at resumes
  next decoded =>
    obtain rfl := Option.some.inj resumes
    exact bounds_of_decodePosition decoded
  next =>
    obtain ⟨entries, decoded, rfl⟩ := Option.map_eq_some_iff.mp resumes
    obtain ⟨count, range⟩ := bounds_of_decodePartitionOffsets decoded
    -- Entries are written over a list of zeros that has the right length already.
    have written (rest : List (Int × Int)) (signed : ∀ entry ∈ rest, Signed64 entry.2) (offsets : List Int)
        (sound : ∀ offset ∈ offsets, Signed64 offset) :
        (rest.foldl (fun offsets entry => if 0 ≤ entry.1 then offsets.set entry.1.toNat entry.2 else offsets) offsets).length =
            offsets.length ∧
          ∀ offset ∈ rest.foldl (fun offsets entry =>
            if 0 ≤ entry.1 then offsets.set entry.1.toNat entry.2 else offsets) offsets, Signed64 offset := by
      induction rest generalizing offsets with
      | nil => exact ⟨rfl, sound⟩
      | cons entry rest ih =>
        have later := fun other member => signed other (mem_cons_of_mem entry member)
        rw [foldl_cons]
        split
        · have next := ih later (offsets.set entry.1.toNat entry.2) (fun offset member =>
            (mem_or_eq_of_mem_set member).elim (sound offset) fun same =>
              same ▸ signed entry mem_cons_self)
          rw [length_set] at next
          exact next
        · exact ih later offsets sound
    have zeros : ∀ offset ∈ replicate entries.length (0 : Int), Signed64 offset := by
      intro offset member
      rw [eq_of_mem_replicate member]
      exact ⟨by decide, by decide⟩
    obtain ⟨length, signed⟩ := written entries range _ zeros
    exact ⟨by rw [length, length_replicate]; exact count, signed⟩

section Comparator

variable {eventPosition resumePosition : ByteString} {fromPartition : Nat} {offsets : List Int}
  (event : decodePosition eventPosition = some (fromPartition, offsets))
include event

theorem positionReached_of_undecodable (undecodable : decodePosition resumePosition = none) :
    positionReached eventPosition resumePosition = true := by
  rw [positionReached, event, undecodable]

theorem positionReached_of_decodes {resumePartition resumeOffsets resume next}
    (decodes : decodePosition resumePosition = some (resumePartition, resumeOffsets))
    (resumeAt : resumeOffsets[fromPartition]? = some resume) (nextAt : offsets[fromPartition]? = some next) :
    positionReached eventPosition resumePosition = decide (resume < next) := by
  simp only [positionReached, event, decodes, resumeAt, nextAt]

end Comparator

end DrasiCore.Proofs
