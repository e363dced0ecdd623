import DrasiCore.ElementArchive
import Mathlib.Data.List.Induction

/-! The two archives against each other. The RocksDB archive steps back from a key without looking whose key it lands
on, so it agrees with the archive in memory exactly where that step stays with the element or leads nowhere. -/

namespace DrasiCore

open Library RocksDbArchive OrderedMap List

variable {history : List Element} {time : ElementTimestamp} {version : Element} {reference : ElementReference}

/-- Reference hashes of sixteen bytes that tell the archived references and the one read apart, and 64-bit times. -/
structure ArchiveKeys (hash : ElementReference → ByteString) (history : List Element) (reference : ElementReference) :
    Prop where
  width : ∀ ref, (hash ref).length = 16
  distinct : ∀ one ∈ history, ∀ two ∈ history, hash one.getReference = hash two.getReference →
    one.getReference = two.getReference
  read : ∀ one ∈ history, hash one.getReference = hash reference → one.getReference = reference
  bounded : ∀ one ∈ history, one.getEffectiveFrom < 2 ^ 64

/-! ### Keys -/

theorem eight_bytes : (2 : Nat) ^ 64 = 256 ^ 8 := by decide

section keys

variable {hash : ElementReference → ByteString} (width : ∀ ref, (hash ref).length = 16)

include width

variable {one two : ElementReference} {first second : Nat}

theorem archiveKey_lt_iff (firstBound : first < 2 ^ 64) (secondBound : second < 2 ^ 64) :
    archiveKey hash one first < archiveKey hash two second ↔
      hash one < hash two ∨ hash one = hash two ∧ first < second := by
  unfold archiveKey
  rw [append_lt_append_iff ((width one).trans (width two).symm)]
  rw [eight_bytes] at firstBound secondBound
  rw [bigEndian_lt_iff firstBound secondBound]

theorem archiveKey_le_iff (firstBound : first < 2 ^ 64) (secondBound : second < 2 ^ 64) :
    archiveKey hash one first ≤ archiveKey hash two second ↔
      hash one < hash two ∨ hash one = hash two ∧ first ≤ second := by
  rw [← not_lt, archiveKey_lt_iff width secondBound firstBound]
  rcases lt_trichotomy (hash one) (hash two) with less | same | more
  · simp [less, less.not_gt, less.ne']
  · simp [same]
  · simp [more, more.not_gt, more.ne']

theorem keyTime_archiveKey (ref : ElementReference) {time : Nat} (bounded : time < 2 ^ 64) :
    keyTime (archiveKey hash ref time) = time := by
  unfold keyTime archiveKey
  have rest : (hash ref ++ bigEndian 8 time).drop 16 = bigEndian 8 time := by
    rw [← width ref, drop_left]
  have whole : (bigEndian 8 time).take 8 = bigEndian 8 time := take_of_length_le (by simp)
  rw [rest, whole]
  exact ofBigEndian_bigEndian (eight_bytes ▸ bounded)

theorem archiveKey_injective (firstBound : first < 2 ^ 64) (secondBound : second < 2 ^ 64)
    (same : archiveKey hash one first = archiveKey hash two second) : hash one = hash two ∧ first = second := by
  obtain ⟨heads, tails⟩ := append_inj same ((width one).trans (width two).symm)
  rw [eight_bytes] at firstBound secondBound
  exact ⟨heads, bigEndian_injective firstBound secondBound tails⟩

theorem isPrefixOf_archiveKey (ref other : ElementReference) (time : Nat) :
    (hash ref).isPrefixOf (archiveKey hash other time) = true ↔ hash other = hash ref := by
  unfold archiveKey
  rw [ isPrefixOf_iff_prefix]
  constructor
  · rintro ⟨rest, same⟩
    exact (append_inj same ((width ref).trans (width other).symm)).1.symm
  · intro same
    rw [same]
    exact prefix_append _ _

end keys

/-! ### What the archives hold -/

theorem versionAt_append (history : List Element) (element : Element) (ref : ElementReference) (time : ElementTimestamp) :
    versionAt (history ++ [element]) ref time =
      if element.getReference = ref ∧ element.getEffectiveFrom = time then some element
      else versionAt history ref time := by
  simp [versionAt, foldl_append]

theorem mem_of_versionAt {ref} (found : versionAt history ref time = some version) :
    version ∈ history ∧ version.getReference = ref ∧ version.getEffectiveFrom = time := by
  induction history using reverseRecOn with
  | nil => cases found
  | append_singleton history element ih =>
    rw [versionAt_append] at found
    split at found
    · next same =>
      cases found
      exact ⟨by simp, same⟩
    · obtain ⟨member, same⟩ := ih found
      exact ⟨mem_append_left _ member, same⟩

theorem versionAt_isSome {element} (member : element ∈ history) :
    ∃ version, versionAt history element.getReference element.getEffectiveFrom = some version := by
  induction history using reverseRecOn with
  | nil => cases member
  | append_singleton history last ih =>
    rw [versionAt_append]
    split
    · exact ⟨_, rfl⟩
    · next other =>
      rcases mem_append.mp member with earlier | here
      · exact ih earlier
      · rw [mem_singleton.mp here] at other
        exact absurd ⟨rfl, rfl⟩ other

theorem get?_inMemory (history : List Element) (ref : ElementReference) (time : ElementTimestamp) :
    (InMemoryArchive.ofHistory history ref).get? time = versionAt history ref time := by
  induction history using reverseRecOn with
  | nil => rfl
  | append_singleton history element ih =>
    have insert : InMemoryArchive.ofHistory (history ++ [element]) =
        (InMemoryArchive.ofHistory history).insertArchive element := by
      simp [InMemoryArchive.ofHistory, foldl_append]
    rw [insert, versionAt_append]
    unfold InMemoryArchive.insertArchive ElementArchive.insert
    split
    · next here =>
      by_cases sameTime : element.getEffectiveFrom = time
      · rw [if_pos ⟨here.symm, sameTime⟩, sameTime, get?_insert_self]
      · rw [if_neg fun same => sameTime same.2, get?_insert_of_ne _ _ (Ne.symm sameTime)]
        exact ih
    · next elsewhere =>
      rw [if_neg fun same => elsewhere same.1.symm]
      exact ih

variable (hash : ElementReference → ByteString)

theorem rocksDb_append (history : List Element) (element : Element) :
    ofHistory hash (history ++ [element]) =
      insertArchive hash (ofHistory hash history) element := by
  simp [ofHistory, foldl_append]

variable {key : ByteString} {value : Element}

theorem versionAt_of_get? {hash} (found : (ofHistory hash history).get? key = some value) :
    ∃ ref time version, key = archiveKey hash ref time ∧
      versionAt history ref time = some version ∧ value = version.stored := by
  induction history using reverseRecOn with
  | nil => cases found
  | append_singleton history element ih =>
    rw [rocksDb_append, insertArchive] at found
    by_cases here : key = archiveKey hash element.getReference element.getEffectiveFrom
    · rw [here, get?_insert_self] at found
      cases found
      exact ⟨_, _, element, here, by rw [versionAt_append, if_pos ⟨rfl, rfl⟩], rfl⟩
    · rw [get?_insert_of_ne _ _ here] at found
      obtain ⟨ref, time, version, same, stored, value⟩ := ih found
      refine ⟨ref, time, version, same, ?_, value⟩
      rw [versionAt_append, if_neg, stored]
      rintro ⟨rfl, rfl⟩
      exact here same

theorem get?_of_versionAt {hash}
    (width : ∀ ref, (hash ref).length = 16)
    (distinct : ∀ one ∈ history, ∀ two ∈ history, hash one.getReference = hash two.getReference →
      one.getReference = two.getReference)
    (bounded : ∀ one ∈ history, one.getEffectiveFrom < 2 ^ 64) {ref}
 (found : versionAt history ref time = some version) :
    (ofHistory hash history).get? (archiveKey hash ref time) = some version.stored := by
  induction history using reverseRecOn with
  | nil => cases found
  | append_singleton history element ih =>
    rw [rocksDb_append, insertArchive]
    rw [versionAt_append] at found
    split at found
    · next same =>
      obtain ⟨rfl, rfl⟩ := same
      cases found
      rw [get?_insert_self]
    · next other =>
      obtain ⟨member, rfl, rfl⟩ := mem_of_versionAt found
      rw [get?_insert_of_ne]
      · exact ih (fun one first two second => distinct one (by simp [first]) two (by simp [second]))
          (fun one member => bounded one (by simp [member])) found
      · intro same
        obtain ⟨hashes, times⟩ := archiveKey_injective width (bounded version (by simp [member]))
          (bounded element (by simp)) same
        exact other ⟨(distinct version (by simp [member]) element (by simp) hashes).symm, times.symm⟩

/-! ### Reads -/

/-- The entries of an element from a time on, up to another. -/
def entriesInRange (archive : RocksDbArchive) (reference : ElementReference) (start stop : ElementTimestamp) :
    List (ByteString × Element) :=
  (archive.entries.filter fun entry => archiveKey hash reference start ≤ entry.1).filter fun entry =>
    (hash reference).isPrefixOf entry.1 && keyTime entry.1 ≤ stop

section reads

variable {hash : ElementReference → ByteString}
  (keys : ArchiveKeys hash history reference)

include keys

variable {ref : ElementReference} {start stop : Nat}

theorem ArchiveKeys.mem_entries :
    (key, value) ∈ (ofHistory hash history).entries ↔
      ∃ ref time version, key = archiveKey hash ref time ∧
        versionAt history ref time = some version ∧ value = version.stored := by
  rw [mem_entries_iff]
  refine ⟨versionAt_of_get?, ?_⟩
  rintro ⟨ref, time, version, rfl, found, rfl⟩
  exact get?_of_versionAt keys.width keys.distinct keys.bounded found

theorem ArchiveKeys.time_lt (found : versionAt history ref time = some version) : time < 2 ^ 64 := by
  obtain ⟨member, -, rfl⟩ := mem_of_versionAt found
  exact keys.bounded version member

theorem ArchiveKeys.reference_eq (found : versionAt history ref time = some version) (same : hash ref = hash reference) :
    ref = reference := by
  obtain ⟨member, rfl, -⟩ := mem_of_versionAt found
  exact keys.read version member same

/-- A step back from a time of an element lands on its latest version where it has one. -/
theorem ArchiveKeys.lastAtMost_of_some {time found : Nat} (bounded : time < 2 ^ 64)
    (latest : (InMemoryArchive.ofHistory history reference).lastAtMost time = some (found, version)) :
    (ofHistory hash history).lastAtMost (archiveKey hash reference time) =
      some (archiveKey hash reference found, version.stored) := by
  obtain ⟨member, below, last⟩ := lastAtMost_eq_some_iff.mp latest
  rw [mem_entries_iff, get?_inMemory] at member
  refine lastAtMost_eq_some_iff.mpr ⟨keys.mem_entries.mpr ⟨_, _, _, rfl, member, rfl⟩, ?_, ?_⟩
  · exact (archiveKey_le_iff keys.width (keys.time_lt member) bounded).mpr (.inr ⟨rfl, below⟩)
  · rintro ⟨key, value⟩ listed keyBelow
    obtain ⟨ref, other, version, rfl, stored, rfl⟩ := keys.mem_entries.mp listed
    dsimp only at keyBelow ⊢
    rw [archiveKey_le_iff keys.width (keys.time_lt stored) bounded] at keyBelow
    rw [archiveKey_le_iff keys.width (keys.time_lt stored) (keys.time_lt member)]
    refine keyBelow.imp_right fun ⟨same, otherBelow⟩ => ⟨same, ?_⟩
    cases keys.reference_eq stored same
    exact last (other, version) (mem_entries_iff.mpr ((get?_inMemory _ _ _).trans stored)) otherBelow

/-- Without a version at or before the time it lands on the last key of a smaller hash. -/
theorem ArchiveKeys.lastAtMost_of_none {time : Nat} (bounded : time < 2 ^ 64)
    (missing : (InMemoryArchive.ofHistory history reference).lastAtMost time = none) {other : ElementTimestamp}
    (stored : versionAt history ref other = some version) :
    archiveKey hash ref other ≤ archiveKey hash reference time ↔
      hash ref < hash reference := by
  rw [archiveKey_le_iff keys.width (keys.time_lt stored) bounded]
  refine or_iff_left ?_
  rintro ⟨same, below⟩
  cases keys.reference_eq stored same
  have later := OrderedMap.lastAtMost_eq_none_iff.mp missing (other, version)
    (mem_entries_iff.mpr ((get?_inMemory _ _ _).trans stored))
  exact absurd below (not_le.mpr later)

/-- The entries of the element from a start key on, up to a time. -/
theorem ArchiveKeys.passes_iff (bounded : start < 2 ^ 64) (stored : versionAt history ref time = some version) :
    archiveKey hash reference start ≤ archiveKey hash ref time ∧
        ((hash reference).isPrefixOf (archiveKey hash ref time) &&
          keyTime (archiveKey hash ref time) ≤ stop) = true ↔
      ref = reference ∧ start ≤ time ∧ time ≤ stop := by
  rw [archiveKey_le_iff keys.width bounded (keys.time_lt stored), Bool.and_eq_true, decide_eq_true_iff,
    isPrefixOf_archiveKey keys.width, keyTime_archiveKey keys.width _ (keys.time_lt stored)]
  constructor
  · rintro ⟨from_, same, inRange⟩
    have here := keys.reference_eq stored same
    rcases from_ with less | ⟨-, later⟩
    · exact absurd (same ▸ less) (lt_irrefl _)
    · exact ⟨here, later, inRange⟩
  · rintro ⟨rfl, later, inRange⟩
    exact ⟨.inr ⟨rfl, later⟩, rfl, inRange⟩

theorem ArchiveKeys.mem_entriesInRange (bounded : start < 2 ^ 64) (entry : ByteString × Element) :
    entry ∈ entriesInRange hash (ofHistory hash history) reference start stop ↔
      ∃ time version, versionAt history reference time = some version ∧ start ≤ time ∧ time ≤ stop ∧
        entry = (archiveKey hash reference time, version.stored) := by
  obtain ⟨key, value⟩ := entry
  unfold entriesInRange
  rw [mem_filter, mem_filter, keys.mem_entries, and_assoc, decide_eq_true_iff]
  constructor
  · rintro ⟨⟨ref, time, version, rfl, stored, rfl⟩, passes⟩
    obtain ⟨rfl, later, inRange⟩ := (keys.passes_iff bounded stored).mp passes
    exact ⟨time, version, stored, later, inRange, rfl⟩
  · rintro ⟨time, version, stored, later, inRange, same⟩
    cases same
    exact ⟨⟨_, _, _, rfl, stored, rfl⟩, (keys.passes_iff bounded stored).mpr ⟨rfl, later, inRange⟩⟩

/-- The forward read stops where the range ends: past the start key, an entry before one of the element and the range
is itself of the element and the range. -/
theorem ArchiveKeys.takeWhile_eq (bounded : start < 2 ^ 64) :
    (((ofHistory hash history).entries.filter fun entry =>
        archiveKey hash reference start ≤ entry.1).takeWhile fun entry =>
          (hash reference).isPrefixOf entry.1 && keyTime entry.1 ≤ stop) =
      entriesInRange hash (ofHistory hash history) reference start stop := by
  have increasing := (ofHistory hash history).sorted.filter fun entry =>
    archiveKey hash reference start ≤ entry.1
  refine takeWhile_eq_filter increasing ?_
  rintro ⟨earlyKey, _⟩ early ⟨lateKey, _⟩ late less passes
  obtain ⟨earlyListed, earlyFrom⟩ := mem_filter.mp early
  obtain ⟨lateListed, lateFrom⟩ := mem_filter.mp late
  obtain ⟨ref, time, version, rfl, stored, -⟩ := keys.mem_entries.mp earlyListed
  obtain ⟨lateRef, lateTime, lateVersion, rfl, lateStored, -⟩ := keys.mem_entries.mp lateListed
  obtain ⟨rfl, -, inRange⟩ := (keys.passes_iff bounded lateStored).mp ⟨of_decide_eq_true lateFrom, passes⟩
  have beyond := of_decide_eq_true earlyFrom
  dsimp only at beyond less
  rw [archiveKey_lt_iff keys.width (keys.time_lt stored) (keys.time_lt lateStored)] at less
  rw [archiveKey_le_iff keys.width bounded (keys.time_lt stored)] at beyond
  have same : hash ref = hash lateRef := by
    rcases beyond with above | ⟨same, -⟩
    · rcases less with below | ⟨same, -⟩
      · exact absurd (above.trans below) (lt_irrefl _)
      · exact same
    · exact same.symm
  cases keys.reference_eq stored same
  have before := (less.resolve_left (lt_irrefl _)).2
  have later := (beyond.resolve_left (lt_irrefl _)).2
  exact ((keys.passes_iff bounded stored).mpr ⟨rfl, later, before.le.trans inRange⟩).2

theorem ArchiveKeys.entriesInRange_eq (stop : Nat) (bounded : start < 2 ^ 64) :
    (entriesInRange hash (ofHistory hash history) reference start stop).map (fun entry =>
        (keyTime entry.1, entry.2)) =
      ((InMemoryArchive.ofHistory history reference).entries.filter fun entry =>
        start ≤ entry.1 ∧ entry.1 ≤ stop).map fun entry => (entry.1, entry.2.stored) := by
  refine eq_of_increasing ?_ ?_ ?_
  · have increasing := ((ofHistory hash history).sorted.filter fun entry =>
      archiveKey hash reference start ≤ entry.1).filter fun entry =>
        (hash reference).isPrefixOf entry.1 && keyTime entry.1 ≤ stop
    refine pairwise_map.mpr (increasing.imp_of_mem fun first second less => ?_)
    obtain ⟨one, _, oneStored, -, -, rfl⟩ := (keys.mem_entriesInRange bounded _).mp first
    obtain ⟨two, _, twoStored, -, -, rfl⟩ := (keys.mem_entriesInRange bounded _).mp second
    rw [archiveKey_lt_iff keys.width (keys.time_lt oneStored) (keys.time_lt twoStored)] at less
    rw [keyTime_archiveKey keys.width _ (keys.time_lt oneStored),
      keyTime_archiveKey keys.width _ (keys.time_lt twoStored)]
    exact (less.resolve_left (lt_irrefl _)).2
  · exact pairwise_map.mpr ((InMemoryArchive.ofHistory history reference).sorted.filter _)
  · rintro ⟨time, value⟩
    rw [mem_map, mem_map]
    constructor
    · rintro ⟨entry, member, same⟩
      obtain ⟨other, version, stored, later, inRange, rfl⟩ := (keys.mem_entriesInRange bounded _).mp member
      rw [keyTime_archiveKey keys.width _ (keys.time_lt stored)] at same
      cases same
      refine ⟨(time, version), mem_filter.mpr ⟨?_, by simp [later, inRange]⟩, rfl⟩
      exact mem_entries_iff.mpr ((get?_inMemory _ _ _).trans stored)
    · rintro ⟨⟨other, version⟩, member, same⟩
      cases same
      obtain ⟨listed, inRange⟩ := mem_filter.mp member
      rw [mem_entries_iff, get?_inMemory] at listed
      obtain ⟨later, earlier⟩ := of_decide_eq_true inRange
      refine ⟨_, (keys.mem_entriesInRange bounded _).mpr ⟨other, version, listed, later, earlier, rfl⟩, ?_⟩
      rw [keyTime_archiveKey keys.width _ (keys.time_lt listed)]

theorem ArchiveKeys.versions_eq {bound} (stop : Nat) (bounded : start < 2 ^ 64)
    (starts : startTime hash (ofHistory hash history) reference bound = start) :
    getElementVersions hash (ofHistory hash history) reference bound stop =
      ((InMemoryArchive.ofHistory history reference).entries.filter fun entry =>
        start ≤ entry.1 ∧ entry.1 ≤ stop).map (·.2.stored) := by
  unfold getElementVersions
  rw [starts]
  dsimp only
  rw [keys.takeWhile_eq bounded]
  have values := congrArg (map Prod.snd) (keys.entriesInRange_eq stop bounded)
  simpa [map_map, Function.comp_def] using values

end reads

/-! ### Where the archives agree -/

/-- The version for a time, if there is one, is read back from storage as it was: its instants are whole
microseconds. -/
def ReadsBack (history : List Element) (reference : ElementReference) (time : ElementTimestamp) : Prop :=
  ∀ version, versionAt history reference time = some version → version.stored = version

/-- The element has a version for the time found, and none after it up to the time asked for. -/
def LatestAt (history : List Element) (reference : ElementReference) (time found : ElementTimestamp) : Prop :=
  found ≤ time ∧ versionAt history reference found ≠ none ∧
    ∀ later, found < later → later ≤ time → versionAt history reference later = none

def NoneUpTo (history : List Element) (reference : ElementReference) (time : ElementTimestamp) : Prop :=
  ∀ early ≤ time, versionAt history reference early = none

theorem lastAtMost_inMemory {found} :
    (InMemoryArchive.ofHistory history reference).lastAtMost time = some (found, version) ↔
      LatestAt history reference time found ∧ versionAt history reference found = some version := by
  rw [lastAtMost_eq_some_iff, mem_entries_iff, get?_inMemory]
  constructor
  · rintro ⟨stored, below, last⟩
    refine ⟨⟨below, by simp [stored], fun later beyond early => ?_⟩, stored⟩
    by_contra present
    obtain ⟨other, found⟩ := Option.ne_none_iff_exists'.mp present
    have listed := mem_entries_iff.mpr ((get?_inMemory _ _ _).trans found)
    exact absurd (last (later, other) listed early) (not_le.mpr beyond)
  · rintro ⟨⟨below, -, none⟩, stored⟩
    refine ⟨stored, below, fun ⟨later, other⟩ listed early => ?_⟩
    by_contra beyond
    rw [mem_entries_iff, get?_inMemory] at listed
    exact nomatch listed.symm.trans (none later (not_le.mp beyond) early)

theorem lastAtMost_inMemory_none :
    (InMemoryArchive.ofHistory history reference).lastAtMost time = none ↔ NoneUpTo history reference time := by
  rw [OrderedMap.lastAtMost_eq_none_iff]
  constructor
  · intro beyond early below
    by_contra present
    obtain ⟨version, found⟩ := Option.ne_none_iff_exists'.mp present
    have listed := mem_entries_iff.mpr ((get?_inMemory _ _ _).trans found)
    exact absurd (beyond (early, version) listed) (not_lt.mpr below)
  · rintro none ⟨early, version⟩ listed
    by_contra below
    rw [mem_entries_iff, get?_inMemory] at listed
    exact nomatch listed.symm.trans (none early (not_lt.mp below))

/-- The element has a version at or before the time, which reads back, or nothing is archived under a smaller hash. -/
def AsAtAgrees (history : List Element) (reference : ElementReference) (time : ElementTimestamp) : Prop :=
  (∃ found, LatestAt history reference time found ∧ ReadsBack history reference found) ∨
    (NoneUpTo history reference time ∧ ∀ element ∈ history, ¬hash element.getReference < hash reference)

def RangeAgrees (history : List Element) (reference : ElementReference) (start stop : ElementTimestamp) : Prop :=
  ∀ time, start ≤ time → time ≤ stop → ReadsBack history reference time

/-- The last version archived under a smaller hash is not later than any version of the element up to a time. -/
def NeighbourNotLater (history : List Element) (reference : ElementReference) (stop : ElementTimestamp) : Prop :=
  ∀ element ∈ history, hash element.getReference < hash reference →
    (∀ other ∈ history, hash other.getReference < hash reference →
      archiveKey hash other.getReference other.getEffectiveFrom ≤
        archiveKey hash element.getReference element.getEffectiveFrom) →
    ∀ time ≤ stop, versionAt history reference time ≠ none → element.getEffectiveFrom ≤ time

/-- The element has a version at or before the start, or its neighbour below is not later than its versions in the
range; and the versions from there on read back. -/
def PreviousAgrees (history : List Element) (reference : ElementReference) (start stop : ElementTimestamp) : Prop :=
  (∃ found, LatestAt history reference start found ∧ RangeAgrees history reference found stop) ∨
    (NoneUpTo history reference start ∧ RangeAgrees history reference 0 stop ∧
      NeighbourNotLater hash history reference stop)

theorem LatestAt.unique {one two} (first : LatestAt history reference time one)
    (second : LatestAt history reference time two) : one = two := by
  rcases lt_trichotomy one two with less | same | more
  · exact absurd (first.2.2 two less second.1) second.2.1
  · exact same
  · exact absurd (second.2.2 one more first.1) first.2.1

/-- Selecting fewer items and converting them gives the same list only if none is left out and all are converted
alike. -/
theorem map_filter_eq_iff {A B : Type} {items : List A} {fewer more : A → Bool}
    (stronger : ∀ item, fewer item = true → more item = true) {one two : A → B} :
    (items.filter fewer).map one = (items.filter more).map two ↔
      (∀ item ∈ items, more item = true → fewer item = true) ∧
        ∀ item ∈ items, more item = true → one item = two item := by
  have twice : items.filter fewer = (items.filter more).filter fewer := by
    rw [filter_filter]
    refine filter_congr fun item _ => ?_
    cases passes : fewer item with
    | false => rfl
    | true => rw [stronger item passes]; rfl
  constructor
  · intro same
    have length : ((items.filter more).filter fewer).length = (items.filter more).length := by
      simpa [← twice] using congrArg length same
    have all := length_filter_eq_length_iff.mp length
    rw [twice, filter_eq_self.mpr all] at same
    have alike := map_inj_left.mp same
    exact ⟨fun item member passes => all item (mem_filter.mpr ⟨member, passes⟩),
      fun item member passes => alike item (mem_filter.mpr ⟨member, passes⟩)⟩
  · rintro ⟨all, alike⟩
    have same : items.filter fewer = items.filter more := filter_congr fun item member =>
      Bool.eq_iff_iff.mpr ⟨stronger item, all item member⟩
    rw [same]
    refine map_congr_left fun item member => ?_
    obtain ⟨listed, passes⟩ := mem_filter.mp member
    exact alike item listed passes

/-- Reading from a later start gives the same versions only if none is skipped and all read back. -/
theorem map_range_eq_iff {early late stop} (later : early ≤ late) :
    (((InMemoryArchive.ofHistory history reference).entries.filter fun entry =>
        late ≤ entry.1 ∧ entry.1 ≤ stop).map (·.2.stored)) =
      (((InMemoryArchive.ofHistory history reference).entries.filter fun entry =>
        early ≤ entry.1 ∧ entry.1 ≤ stop).map (·.2)) ↔
      (∀ time, early ≤ time → time ≤ stop → versionAt history reference time ≠ none → late ≤ time) ∧
        RangeAgrees history reference early stop := by
  rw [map_filter_eq_iff fun entry passes => by
    obtain ⟨from_, upTo⟩ := of_decide_eq_true passes
    exact decide_eq_true ⟨later.trans from_, upTo⟩]
  refine and_congr ?_ ?_
  · constructor
    · intro kept time from_ upTo present
      obtain ⟨version, found⟩ := Option.ne_none_iff_exists'.mp present
      have listed := mem_entries_iff.mpr ((get?_inMemory _ _ _).trans found)
      exact (of_decide_eq_true (kept (time, version) listed (decide_eq_true ⟨from_, upTo⟩))).1
    · rintro kept ⟨time, version⟩ listed passes
      rw [mem_entries_iff, get?_inMemory] at listed
      obtain ⟨from_, upTo⟩ := of_decide_eq_true passes
      exact decide_eq_true ⟨kept time from_ upTo (by simp [listed]), upTo⟩
  · constructor
    · intro alike time from_ upTo version found
      have listed := mem_entries_iff.mpr ((get?_inMemory _ _ _).trans found)
      exact alike (time, version) listed (decide_eq_true ⟨from_, upTo⟩)
    · rintro alike ⟨time, version⟩ listed passes
      rw [mem_entries_iff, get?_inMemory] at listed
      obtain ⟨from_, upTo⟩ := of_decide_eq_true passes
      exact alike time from_ upTo version listed

theorem startTime_previous (archive : RocksDbArchive) (reference : ElementReference) (time : ElementTimestamp) :
    startTime hash archive reference (.startFromPrevious time) =
      ((archive.lastAtMost (archiveKey hash reference time)).map
        (keyTime ·.1)).getD 0 := by
  unfold startTime
  dsimp only
  cases archive.lastAtMost (archiveKey hash reference time) <;> rfl

section agreement

variable {hash : ElementReference → ByteString}
  (keys : ArchiveKeys hash history reference)

include keys

/-- The step back finds nothing exactly when nothing is archived under a smaller hash. -/
theorem ArchiveKeys.lastAtMost_eq_none_iff {time : Nat} (bounded : time < 2 ^ 64)
    (missing : NoneUpTo history reference time) :
    (ofHistory hash history).lastAtMost (archiveKey hash reference time) = none ↔
      ∀ element ∈ history, ¬hash element.getReference < hash reference := by
  have missing := lastAtMost_inMemory_none.mpr missing
  rw [OrderedMap.lastAtMost_eq_none_iff]
  constructor
  · intro beyond element member less
    obtain ⟨version, stored⟩ := versionAt_isSome member
    have listed := keys.mem_entries.mpr ⟨_, _, _, rfl, stored, rfl⟩
    have below := (keys.lastAtMost_of_none bounded missing stored).mpr less
    exact absurd (beyond _ listed) (not_lt.mpr below)
  · rintro none ⟨key, value⟩ listed
    obtain ⟨ref, other, version, rfl, stored, rfl⟩ := keys.mem_entries.mp listed
    obtain ⟨member, rfl, rfl⟩ := mem_of_versionAt stored
    refine lt_of_not_ge fun below => none version member ?_
    exact (keys.lastAtMost_of_none bounded missing stored).mp below

theorem ArchiveKeys.asAt_iff {time : Nat} (bounded : time < 2 ^ 64) :
    getElementAsAt hash (ofHistory hash history) reference time =
        (InMemoryArchive.ofHistory history).getElementAsAt reference time ↔
      AsAtAgrees hash history reference time := by
  unfold getElementAsAt InMemoryArchive.getElementAsAt ElementArchive.get
  cases latest : (InMemoryArchive.ofHistory history reference).lastAtMost time with
  | some entry =>
    obtain ⟨found, version⟩ := entry
    rw [keys.lastAtMost_of_some bounded latest]
    obtain ⟨isLatest, stored⟩ := lastAtMost_inMemory.mp latest
    constructor
    · intro same
      refine .inl ⟨found, isLatest, fun other again => ?_⟩
      cases stored.symm.trans again
      exact Option.some.inj same
    · rintro (⟨other, otherLatest, readsBack⟩ | ⟨none, -⟩)
      · cases isLatest.unique otherLatest
        exact congrArg some (readsBack version stored)
      · exact nomatch stored.symm.trans (none found isLatest.1)
  | none =>
    have none := lastAtMost_inMemory_none.mp latest
    rw [Option.map_none, Option.map_eq_none_iff, keys.lastAtMost_eq_none_iff bounded none]
    constructor
    · exact fun nothing => .inr ⟨none, nothing⟩
    · rintro (⟨found, isLatest, -⟩ | ⟨-, nothing⟩)
      · exact absurd (none found isLatest.1) isLatest.2.1
      · exact nothing

theorem ArchiveKeys.included_iff {start : Nat} (stop : Nat) (bounded : start < 2 ^ 64) :
    getElementVersions hash (ofHistory hash history) reference (.included start) stop =
        (InMemoryArchive.ofHistory history).getElementVersions reference (.included start) stop ↔
      RangeAgrees history reference start stop := by
  rw [keys.versions_eq stop bounded rfl]
  exact (map_range_eq_iff le_rfl).trans (and_iff_right fun time from_ _ _ => from_)

/-- Where the step back leads to another element, the read starts at that element's time. -/
theorem ArchiveKeys.skips_iff {start : Nat} (stop : Nat) (bounded : start < 2 ^ 64)
    (missing : NoneUpTo history reference start)
    (back : (ofHistory hash history).lastAtMost (archiveKey hash reference start) = some (key, value)) :
    keyTime key < 2 ^ 64 ∧
      ((∀ time ≤ stop, versionAt history reference time ≠ none → keyTime key ≤ time) ↔
        NeighbourNotLater hash history reference stop) := by
  have missing := lastAtMost_inMemory_none.mpr missing
  obtain ⟨listed, below, last⟩ := lastAtMost_eq_some_iff.mp back
  obtain ⟨ref, found, version, rfl, stored, rfl⟩ := keys.mem_entries.mp listed
  have lastBelow (other : Element) (member : other ∈ history) (less : hash other.getReference < hash reference) :
      archiveKey hash other.getReference other.getEffectiveFrom ≤
        archiveKey hash ref found := by
    obtain ⟨otherVersion, otherStored⟩ := versionAt_isSome member
    exact last _ (keys.mem_entries.mpr ⟨_, _, _, rfl, otherStored, rfl⟩)
      ((keys.lastAtMost_of_none bounded missing otherStored).mpr less)
  have less := (keys.lastAtMost_of_none bounded missing stored).mp below
  rw [keyTime_archiveKey keys.width _ (keys.time_lt stored)]
  obtain ⟨member, sameRef, sameTime⟩ := mem_of_versionAt stored
  refine ⟨keys.time_lt stored, fun starts element listed_ elementLess elementLast time upTo present => ?_,
    fun starts => ?_⟩
  · -- two last keys are one key, and its time the element's
    have atMost := lastBelow element listed_ elementLess
    have atLeast := elementLast version member (sameRef.symm ▸ less)
    rw [sameRef, sameTime] at atLeast
    obtain ⟨-, times⟩ := archiveKey_injective keys.width (keys.time_lt stored) (keys.bounded element listed_)
      (le_antisymm atLeast atMost)
    exact times ▸ starts time upTo present
  · have applied := starts version member (sameRef.symm ▸ less)
    rw [sameRef, sameTime] at applied
    exact applied lastBelow

theorem ArchiveKeys.previous_iff {start : Nat} (stop : Nat) (bounded : start < 2 ^ 64) :
    getElementVersions hash (ofHistory hash history) reference
          (.startFromPrevious start) stop =
        (InMemoryArchive.ofHistory history).getElementVersions reference (.startFromPrevious start) stop ↔
      PreviousAgrees hash history reference start stop := by
  unfold InMemoryArchive.getElementVersions ElementArchive.retrievePreviousStartTimestamp ElementArchive.getRange
  dsimp only
  cases latest : (InMemoryArchive.ofHistory history reference).lastAtMost start with
  | some entry =>
    obtain ⟨found, version⟩ := entry
    obtain ⟨isLatest, stored⟩ := lastAtMost_inMemory.mp latest
    have starts : startTime hash (ofHistory hash history) reference
        (.startFromPrevious start) = found := by
      rw [startTime_previous, keys.lastAtMost_of_some bounded latest]
      exact keyTime_archiveKey keys.width _ (keys.time_lt stored)
    rw [keys.versions_eq stop (keys.time_lt stored) starts]
    refine (map_range_eq_iff le_rfl).trans ((and_iff_right fun time from_ _ _ => from_).trans ?_)
    constructor
    · exact fun agrees => .inl ⟨found, isLatest, agrees⟩
    · rintro (⟨other, otherLatest, agrees⟩ | ⟨none, -⟩)
      · cases isLatest.unique otherLatest
        exact agrees
      · exact nomatch stored.symm.trans (none found isLatest.1)
  | none =>
    have none := lastAtMost_inMemory_none.mp latest
    have onlyNone : PreviousAgrees hash history reference start stop ↔ RangeAgrees history reference 0 stop ∧
        NeighbourNotLater hash history reference stop := by
      constructor
      · rintro (⟨found, isLatest, -⟩ | ⟨-, agrees⟩)
        · exact absurd (none found isLatest.1) isLatest.2.1
        · exact agrees
      · exact fun agrees => .inr ⟨none, agrees⟩
    rw [onlyNone]
    cases back : (ofHistory hash history).lastAtMost
        (archiveKey hash reference start) with
    | none =>
      have starts : startTime hash (ofHistory hash history) reference
          (.startFromPrevious start) = 0 := by
        rw [startTime_previous, back]
        rfl
      have nothing := (keys.lastAtMost_eq_none_iff bounded none).mp back
      rw [keys.versions_eq stop (by decide) starts]
      refine (map_range_eq_iff le_rfl).trans ((and_iff_right fun time from_ _ _ => from_).trans ?_)
      exact (and_iff_left fun element member less => absurd less (nothing element member)).symm
    | some entry =>
      obtain ⟨key, value⟩ := entry
      obtain ⟨inRange, skips⟩ := keys.skips_iff stop bounded none back
      have starts : startTime hash (ofHistory hash history) reference
          (.startFromPrevious start) = keyTime key := by
        rw [startTime_previous, back]
        rfl
      rw [keys.versions_eq stop inRange starts]
      refine (map_range_eq_iff (Nat.zero_le _)).trans (and_comm.trans (and_congr_right fun _ => ?_))
      refine .trans ?_ skips
      exact ⟨fun kept time => kept time (Nat.zero_le _), fun kept time _ => kept time⟩

end agreement

/-- The RocksDB archive answers like the archive in memory exactly when the step back from the times asked for stays
with the element or leads to nothing that matters, and the versions read are kept whole by storing. -/
theorem archive_refines_iff {hash : ElementReference → ByteString} {history : List Element} {reference : ElementReference}
    (keys : ArchiveKeys hash history reference) {time start stop : Nat} (timeBound : time < 2 ^ 64)
    (ordered : start ≤ stop) (stopBound : stop < 2 ^ 64) :
    (getElementAsAt hash (ofHistory hash history) reference time =
        (InMemoryArchive.ofHistory history).getElementAsAt reference time ∧
      getElementVersions hash (ofHistory hash history) reference (.included start) stop =
        (InMemoryArchive.ofHistory history).getElementVersions reference (.included start) stop ∧
      getElementVersions hash (ofHistory hash history) reference
          (.startFromPrevious start) stop =
        (InMemoryArchive.ofHistory history).getElementVersions reference (.startFromPrevious start) stop) ↔
      AsAtAgrees hash history reference time ∧ RangeAgrees history reference start stop ∧
        PreviousAgrees hash history reference start stop := by
  have startBound : start < 2 ^ 64 := lt_of_le_of_lt ordered stopBound
  rw [keys.asAt_iff timeBound, keys.included_iff stop startBound, keys.previous_iff stop startBound]

def sampleHash (reference : ElementReference) : ByteString :=
  replicate 15 0 ++ [if reference.elementId = "a" then 1 else 2]

def archivedNode (elementId : String) (effectiveFrom : ElementTimestamp) : Element :=
  .node ⟨⟨"s", elementId⟩, [], effectiveFrom⟩ .empty

/-- One version each of `a`, from time 5, and of `b`, from time 10. -/
def twoNodes : List Element := [archivedNode "a" 5, archivedNode "b" 10]

theorem twoNodes_keys : ArchiveKeys sampleHash twoNodes ⟨"s", "b"⟩ where
  width ref := by simp [sampleHash]
  distinct := by decide
  read := by decide
  bounded := by decide

theorem archive_refines_iff_sample :
    AsAtAgrees sampleHash twoNodes ⟨"s", "b"⟩ 12 ∧ RangeAgrees twoNodes ⟨"s", "b"⟩ 10 12 ∧
      PreviousAgrees sampleHash twoNodes ⟨"s", "b"⟩ 10 12 :=
  (archive_refines_iff twoNodes_keys (by decide) (by decide) (by decide)).mp
    ⟨by decide +kernel, by decide +kernel, by decide +kernel⟩

/-- At time 7 there is no version of `b`; the step back from its key leads to the version of `a`. -/
theorem archive_reads_neighbour :
    ArchiveKeys sampleHash twoNodes ⟨"s", "b"⟩ ∧
      (InMemoryArchive.ofHistory twoNodes).getElementAsAt ⟨"s", "b"⟩ 7 = none ∧
      getElementAsAt sampleHash (ofHistory sampleHash twoNodes) ⟨"s", "b"⟩ 7 =
        some (archivedNode "a" 5) :=
  ⟨twoNodes_keys, by decide +kernel, by decide +kernel⟩

end DrasiCore
