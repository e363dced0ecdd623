import DrasiCore.GarnetBuffer

/-! The write buffer of a session as an overlay: what the store would hold after its changes, that writes and reads go
through to it, and that the pipeline of the commit produces it. -/

namespace DrasiCore.Proofs

open Library RedisContents WriteBuffer RedisCommand List Function SessionWrite RedisStore

inductive RedisKind where
  | string
  | hash
  | set
  | sortedSet
deriving DecidableEq

/-- A write uses its key with the given type. A key of any type is deleted. -/
def SessionWrite.HasKind (kind : String → RedisKind) : SessionWrite → Prop
  | .stringSet key _ => kind key = .string
  | .hashSet key .. | .hashDel key _ => kind key = .hash
  | .setAdd key _ | .setRemove key _ => kind key = .set
  | .zsetAdd key .. | .zsetRemove key _ => kind key = .sortedSet
  | .del _ => True

def KeyState.HasKind (kind : RedisKind) : KeyState → Prop
  | .deleted => True
  | .stringValue _ => kind = .string
  | .hash _ => kind = .hash
  | .set _ => kind = .set
  | .sortedSet _ => kind = .sortedSet

def KeyState.contents (ground : RedisContents) : KeyState → RedisContents
  | .deleted => .empty
  | .stringValue value => { empty with string := some value }
  | .hash fields => { ground with hash := fun field => (fields.lookup field).getD (ground.hash field) }
  | .set deltas => { ground with set := deltas.onto ground.set }
  | .sortedSet deltas => { ground with sortedSet := deltas.onto ground.sortedSet }

namespace GarnetOverlay

def ground (buffer : WriteBuffer) (base : RedisStore) (key : String) : RedisContents :=
  if key ∈ buffer.clearedKeys then .empty else base key

def overlay (buffer : WriteBuffer) (base : RedisStore) : RedisStore := fun key =>
  match buffer.keys.lookup key with
  | some state => KeyState.contents (ground buffer base key) state
  | none => base key

end GarnetOverlay

open GarnetOverlay

structure KeyState.Sound (kind : RedisKind) (state : KeyState) : Prop where
  kind : KeyState.HasKind kind state
  members : ∀ deltas, state = .set deltas → deltas.Apart
  scores : ∀ deltas, state = .sortedSet deltas → deltas.Apart ∧ ∀ member, deltas.added.lookup member ≠ some .nan

structure SoundBuffer (kind : String → RedisKind) (buffer : WriteBuffer) : Prop where
  states : ∀ key state, buffer.keys.lookup key = some state → KeyState.Sound (kind key) state
  cleared : ∀ key ∈ buffer.clearedKeys, buffer.keys.lookup key ≠ none
  deleted : ∀ key, buffer.keys.lookup key = some .deleted → key ∈ buffer.clearedKeys

variable {kind : String → RedisKind} {buffer : WriteBuffer} {base : RedisStore} {key : String}

section Overlay

/-- One key gets a state, and may become cleared. -/
theorem overlay_insert (state : KeyState) {cleared : Finset String}
    (others : ∀ other ≠ key, other ∈ cleared ↔ other ∈ buffer.clearedKeys) :
    overlay ⟨buffer.keys.insert key state, cleared⟩ base =
      update (overlay buffer base) key (KeyState.contents (if key ∈ cleared then .empty else base key) state) := by
  funext other
  by_cases same : other = key
  · subst same
    simp [overlay, ground]
  · simp [overlay, ground, AList.lookup_insert_ne same, update_of_ne same, others other same]

theorem overlay_track (state : KeyState) :
    overlay (buffer.track key state) base =
      update (overlay buffer base) key (KeyState.contents (ground buffer base key) state) :=
  overlay_insert state fun _ _ => .rfl

theorem mem_insert_other {other : String} {keys : Finset String} (differ : other ≠ key) : other ∈ insert key keys ↔ other ∈ keys :=
  Finset.mem_insert.trans (or_iff_right differ)

namespace SoundBuffer

theorem new : SoundBuffer kind .new :=
  ⟨fun _ _ found => (nomatch found), fun _ member => absurd member (Finset.notMem_empty _), fun _ found => (nomatch found)⟩

section

variable (sound : SoundBuffer kind buffer)
include sound

theorem ground_of_none (none : buffer.keys.lookup key = none) : ground buffer base key = base key :=
  if_neg fun cleared => sound.cleared key cleared none

theorem ground_of_deleted (deleted : buffer.keys.lookup key = some .deleted) : ground buffer base key = .empty :=
  if_pos (sound.deleted key deleted)

/-- A touched key is deleted, or holds what its type allows. -/
theorem lookup_cases {expected} (typed : kind key = expected) :
    buffer.keys.lookup key = none ∨ buffer.keys.lookup key = some .deleted ∨ match expected with
      | .string => ∃ value, buffer.keys.lookup key = some (.stringValue value)
      | .hash => ∃ fields, buffer.keys.lookup key = some (.hash fields)
      | .set => ∃ deltas, buffer.keys.lookup key = some (.set deltas)
      | .sortedSet => ∃ deltas, buffer.keys.lookup key = some (.sortedSet deltas) := by
  cases found : buffer.keys.lookup key with
  | none => exact .inl rfl
  | some state =>
    have fits := (sound.states key state found).kind
    cases state with
    | deleted => exact .inr (.inl rfl)
    | _ value =>
      cases typed.symm.trans fits
      exact .inr (.inr ⟨value, rfl⟩)

theorem overlay_hash (isHash : kind key = .hash) :
    overlay buffer base key = KeyState.contents (ground buffer base key) (.hash (buffer.fieldsOf key)) := by
  unfold overlay fieldsOf
  rcases sound.lookup_cases isHash with found | found | ⟨fields, found⟩ <;> rw [found]
  · simp [KeyState.contents, sound.ground_of_none found]
  · simp [KeyState.contents, sound.ground_of_deleted found, empty]

theorem overlay_set (isSet : kind key = .set) :
    overlay buffer base key = KeyState.contents (ground buffer base key) (.set (buffer.setDeltasOf key)) := by
  unfold overlay setDeltasOf
  rcases sound.lookup_cases isSet with found | found | ⟨deltas, found⟩ <;> rw [found]
  · simp [KeyState.contents, sound.ground_of_none found]
  · simp [KeyState.contents, sound.ground_of_deleted found, empty]

theorem overlay_sortedSet (isSortedSet : kind key = .sortedSet) :
    overlay buffer base key = KeyState.contents (ground buffer base key) (.sortedSet (buffer.zsetDeltasOf key)) := by
  unfold overlay WriteBuffer.zsetDeltasOf
  rcases sound.lookup_cases isSortedSet with found | found | ⟨deltas, found⟩ <;> rw [found]
  · simp [KeyState.contents, sound.ground_of_none found]
  · simp [KeyState.contents, sound.ground_of_deleted found, empty]

end

end SoundBuffer

end Overlay

/-- A write after which the buffer says something else than the store would: a member that the store has was added in the
session and is removed again, or a score is no number. -/
def Misleads (base : RedisStore) (buffer : WriteBuffer) : SessionWrite → Prop
  | .setRemove key member => (buffer.setDeltasOf key).Uncovers (ground buffer base key).set member
  | .zsetRemove key member => (buffer.zsetDeltasOf key).Uncovers (ground buffer base key).sortedSet member
  | .zsetAdd _ _ score => score = .nan
  | _ => False

variable {write : SessionWrite} {state : KeyState} (command : RedisCommand)

section Writes

theorem update_eq_lookup {K V : Type} [DecidableEq K] [BEq K] [LawfulBEq K] (map : K → Option V) (key : K) (value : V) :
    (fun other => ([(key, value)].lookup other).or (map other)) = update map key (some value) := by
  funext other
  by_cases same : other = key
  · subst same
    simp
  · have differ : (other == key) = false := beq_false_of_ne same
    simp [lookup_cons, differ, same]

theorem update_eq_mem {K V : Type} [DecidableEq K] (map : K → Option V) (key : K) (value : Option V) :
    (fun other => if other = key then value else map other) = update map key value := by
  funext other
  by_cases same : other = key
  · subst same
    simp
  · simp [same]

theorem getD_insert {K V : Type} [DecidableEq K] (fields : AList fun _ : K => Option V) (ground : K → Option V) (field : K)
    (value : Option V) : (fun other => ((fields.insert field value).lookup other).getD (ground other)) =
      update (fun other => (fields.lookup other).getD (ground other)) field value := by
  funext other
  by_cases same : other = field
  · subst same
    simp
  · simp [same, AList.lookup_insert_ne same]

theorem overlay_track_eq_execute
    (same : KeyState.contents (ground buffer base command.key) state = command.apply (overlay buffer base command.key)) :
    overlay (buffer.track command.key state) base = (overlay buffer base).execute command := by
  rw [overlay_track, same]
  rfl

theorem overlay_unchanged (deleted : buffer.keys.lookup command.key = some .deleted)
    (nothing : command.apply .empty = .empty) : overlay buffer base = (overlay buffer base).execute command := by
  have empty : overlay buffer base command.key = .empty := by
    simp [overlay, deleted, KeyState.contents]
  rw [execute, empty, nothing, ← empty, update_eq_self]

section

variable (sound : SoundBuffer kind buffer)
include sound

theorem SoundBuffer.overlay_perform (typed : SessionWrite.HasKind kind write) (faithful : ¬ Misleads base buffer write) :
    overlay (write.perform buffer) base = (overlay buffer base).execute write.command := by
  cases write with
  | stringSet key value => exact overlay_track_eq_execute (.set key value) rfl
  | hashSet key field value =>
    apply overlay_track_eq_execute (.hset key [(field, value)])
    rw [RedisCommand.key, sound.overlay_hash typed]
    simp only [RedisCommand.apply, KeyState.contents, update_eq_lookup, getD_insert]
  | hashDel key field =>
    apply overlay_track_eq_execute (.hdel key [field])
    rw [RedisCommand.key, sound.overlay_hash typed]
    simp only [RedisCommand.apply, KeyState.contents, mem_singleton, update_eq_mem, getD_insert]
  | setAdd key member =>
    apply overlay_track_eq_execute (.sadd key [member])
    rw [RedisCommand.key, sound.overlay_set typed]
    simp only [RedisCommand.apply, KeyState.contents, mem_singleton, update_eq_mem, Deltas.over_add]
  | setRemove key member =>
    have removed := Deltas.over_remove faithful
    rw [SessionWrite.perform, WriteBuffer.setRemove]
    split
    next deleted => exact overlay_unchanged (.srem key {member}) deleted (by simp [RedisCommand.apply, empty])
    next =>
      apply overlay_track_eq_execute (.srem key {member})
      rw [RedisCommand.key, sound.overlay_set typed]
      simp only [RedisCommand.apply, KeyState.contents, Finset.mem_singleton, update_eq_mem, removed]
  | zsetAdd key member score =>
    apply overlay_track_eq_execute (.zadd key [(member, score)])
    rw [RedisCommand.key, sound.overlay_sortedSet typed]
    have number : score ≠ .nan := faithful
    simp only [RedisCommand.apply, KeyState.contents, any_cons, any_nil, number, decide_false, Bool.or_false,
      Bool.false_eq_true, if_false, update_eq_lookup, Deltas.over_add]
  | zsetRemove key member =>
    have removed := Deltas.over_remove faithful
    rw [SessionWrite.perform, WriteBuffer.zsetRemove]
    split
    next deleted => exact overlay_unchanged (.zrem key {member}) deleted (by simp [RedisCommand.apply, empty])
    next =>
      apply overlay_track_eq_execute (.zrem key {member})
      rw [RedisCommand.key, sound.overlay_sortedSet typed]
      simp only [RedisCommand.apply, KeyState.contents, Finset.mem_singleton, update_eq_mem, removed]
  | del key => exact overlay_insert .deleted fun _ => mem_insert_other

theorem SoundBuffer.insert {cleared : Finset String} (fits : KeyState.Sound (kind key) state)
    (others : ∀ other ≠ key, other ∈ cleared ↔ other ∈ buffer.clearedKeys) (own : state = .deleted → key ∈ cleared) :
    SoundBuffer kind ⟨buffer.keys.insert key state, cleared⟩ := by
  have looks (other : String) : other = key ∧ (buffer.keys.insert key state).lookup other = some state ∨
      other ≠ key ∧ (buffer.keys.insert key state).lookup other = buffer.keys.lookup other := by
    by_cases same : other = key
    · exact .inl ⟨same, same ▸ AList.lookup_insert _⟩
    · exact .inr ⟨same, AList.lookup_insert_ne same⟩
  refine ⟨fun other otherState found => ?_, fun other isCleared none => ?_, fun other deleted => ?_⟩ <;>
    rcases looks other with ⟨rfl, looked⟩ | ⟨differ, looked⟩
  · exact Option.some.inj (looked.symm.trans found) ▸ fits
  · exact sound.states other otherState (looked.symm.trans found)
  · cases looked.symm.trans none
  · exact sound.cleared other ((others other differ).mp isCleared) (looked.symm.trans none)
  · exact own (Option.some.inj (looked.symm.trans deleted))
  · exact (others other differ).mpr (sound.deleted other (looked.symm.trans deleted))

theorem SoundBuffer.track (fits : KeyState.Sound (kind key) state) (live : state ≠ .deleted) :
    SoundBuffer kind (buffer.track key state) :=
  sound.insert fits (fun _ _ => .rfl) fun deleted => absurd deleted live

theorem SoundBuffer.apart_setDeltasOf (key : String) : (buffer.setDeltasOf key).Apart := by
  unfold setDeltasOf
  split
  next deltas found => exact (sound.states key _ found).members deltas rfl
  · exact Deltas.apart_empty

theorem SoundBuffer.zsetDeltasOf (key : String) :
    (buffer.zsetDeltasOf key).Apart ∧ ∀ member, (buffer.zsetDeltasOf key).added.lookup member ≠ some .nan := by
  unfold WriteBuffer.zsetDeltasOf
  split
  next deltas found => exact (sound.states key _ found).scores deltas rfl
  · exact ⟨Deltas.apart_empty, fun _ => nofun⟩

theorem SoundBuffer.perform (typed : SessionWrite.HasKind kind write) (faithful : ¬ Misleads base buffer write) :
    SoundBuffer kind (write.perform buffer) := by
  cases write with
  | stringSet key value => exact sound.track ⟨typed, nofun, nofun⟩ nofun
  | hashSet key field value => exact sound.track ⟨typed, nofun, nofun⟩ nofun
  | hashDel key field => exact sound.track ⟨typed, nofun, nofun⟩ nofun
  | setAdd key member =>
    refine sound.track ⟨typed, ?_, nofun⟩ nofun
    rintro _ ⟨⟩
    exact (sound.apart_setDeltasOf key).add member ()
  | setRemove key member =>
    rw [SessionWrite.perform, WriteBuffer.setRemove]
    split
    · exact sound
    · refine sound.track ⟨typed, ?_, nofun⟩ nofun
      rintro _ ⟨⟩
      exact (sound.apart_setDeltasOf key).remove member
  | zsetAdd key member score =>
    have number : score ≠ .nan := faithful
    obtain ⟨apart, numbers⟩ := sound.zsetDeltasOf key
    refine sound.track ⟨typed, nofun, ?_⟩ nofun
    rintro _ ⟨⟩
    exact ⟨apart.add member score, Deltas.lookup_add_ne numbers number member⟩
  | zsetRemove key member =>
    obtain ⟨apart, numbers⟩ := sound.zsetDeltasOf key
    rw [SessionWrite.perform, WriteBuffer.zsetRemove]
    split
    · exact sound
    · refine sound.track ⟨typed, nofun, ?_⟩ nofun
      rintro _ ⟨⟩
      exact ⟨apart.remove member, Deltas.lookup_remove_ne numbers member⟩
  | del key => exact sound.insert ⟨trivial, nofun, nofun⟩ (fun _ => mem_insert_other) fun _ => Finset.mem_insert_self ..

end

end Writes

section Reads

theorem merge_eq_over {V : Type} (stored : ByteString → Option V) (deltas : Deltas ByteString V) (replaced : Bool) :
    WriteBuffer.merge stored (deltas, replaced) = deltas.onto (if replaced then fun _ => none else stored) := by
  cases replaced with
  | false => rfl
  | true =>
    funext member
    simp [WriteBuffer.merge, Deltas.onto]

theorem ground_set (buffer : WriteBuffer) (base : RedisStore) (key : String) :
    (ground buffer base key).set = if key ∈ buffer.clearedKeys then fun _ => none else (base key).set := by
  unfold ground
  split <;> rfl

theorem ground_sortedSet (buffer : WriteBuffer) (base : RedisStore) (key : String) :
    (ground buffer base key).sortedSet = if key ∈ buffer.clearedKeys then fun _ => none else (base key).sortedSet := by
  unfold ground
  split <;> rfl

section

variable (sound : SoundBuffer kind buffer)
include sound

theorem SoundBuffer.readString_eq (isString : kind key = .string) :
    buffer.readString base key = (overlay buffer base key).string := by
  unfold readString stringGet overlay
  rcases sound.lookup_cases isString with found | found | ⟨value, found⟩ <;> rw [found] <;> rfl

theorem SoundBuffer.readField_eq (isHash : kind key = .hash) (field : String) :
    buffer.readField base key field = (overlay buffer base key).hash field := by
  unfold readField hashGet overlay
  rcases sound.lookup_cases isHash with found | found | ⟨fields, found⟩ <;> rw [found]
  · rfl
  · rfl
  · simp only [KeyState.contents]
    cases changed : fields.lookup field with
    | none => by_cases cleared : key ∈ buffer.clearedKeys <;> simp [ground, cleared, BufferReadResult.orElse, empty]
    | some value => cases value <;> rfl

theorem SoundBuffer.readMembers_eq (isSet : kind key = .set) :
    buffer.readMembers base key = (overlay buffer base key).set := by
  unfold readMembers setGetDeltas overlay
  rcases sound.lookup_cases isSet with found | found | ⟨deltas, found⟩ <;> rw [found]
  · rfl
  · simp [merge_eq_over, KeyState.contents, ground_set]

theorem SoundBuffer.readScores_eq (isSortedSet : kind key = .sortedSet) :
    buffer.readScores base key = (overlay buffer base key).sortedSet := by
  unfold readScores zsetGetDeltas overlay
  rcases sound.lookup_cases isSortedSet with found | found | ⟨deltas, found⟩ <;> rw [found]
  · rfl
  · simp [merge_eq_over, KeyState.contents, ground_sortedSet]

theorem SoundBuffer.readIsMember_eq (isSet : kind key = .set) (member : ByteString) :
    buffer.readIsMember base key member = ((overlay buffer base key).set member).isSome := by
  unfold readIsMember setIsMember overlay
  rcases sound.lookup_cases isSet with found | found | ⟨deltas, found⟩ <;> rw [found]
  · rfl
  · rfl
  · simp only [KeyState.contents, Deltas.onto, ground_set]
    by_cases added : member ∈ deltas.added
    · obtain ⟨value, looked⟩ := Option.ne_none_iff_exists'.mp (mt AList.lookup_eq_none.mp (not_not.mpr added))
      simp [added, looked, BufferReadResult.orElse]
    · by_cases removed : member ∈ deltas.removed
      · simp [added, removed, AList.lookup_eq_none.mpr added, BufferReadResult.orElse]
      · by_cases cleared : key ∈ buffer.clearedKeys <;>
          simp [added, removed, cleared, AList.lookup_eq_none.mpr added, BufferReadResult.orElse]

end

end Reads

section Drain

variable {key : String} (store : RedisStore)

theorem executeAll_append (first second : List RedisCommand) :
    store.executeAll (first ++ second) = (store.executeAll first).executeAll second :=
  foldl_append ..

theorem executeAll_optional (command : RedisCommand) {skipped : Prop} [Decidable skipped]
    (nothing : skipped → command.apply (store command.key) = store command.key) :
    store.executeAll (if skipped then [] else [command]) = store.execute command := by
  split
  next skip => rw [execute, nothing skip, update_eq_self]; rfl
  · rfl

theorem executeAll_clear {store : RedisStore} {command : RedisCommand} {cleared : Bool} {skipped : Prop}
    [Decidable skipped] (own : command.key = key) (nothing : skipped → command.apply (store key) = store key) :
    store.executeAll (if cleared then [.del key] else if skipped then [] else [command]) =
      update store key (if cleared then .empty else command.apply (store key)) := by
  subst own
  cases cleared with
  | true => rfl
  | false => exact executeAll_optional store command nothing

theorem lookup_entries {K V : Type} [DecidableEq K] [BEq K] [LawfulBEq K] (entries : List (Sigma fun _ : K => V))
    (key : K) : (entries.map fun entry => (entry.1, entry.2)).lookup key = entries.dlookup key := by
  induction entries with
  | nil => rfl
  | cons entry entries ih =>
    obtain ⟨first, value⟩ := entry
    by_cases same : key = first
    · subst same
      simp
    · have differ : (key == first) = false := beq_false_of_ne same
      rw [map_cons, lookup_cons, differ, ih, dlookup_cons_ne entries ⟨first, value⟩ same]

theorem lookup_members {K : Type} [DecidableEq K] (members : AList fun _ : K => Unit) (member : K) :
    members.lookup member = if member ∈ members.keys then some () else none := by
  split
  next inside =>
    obtain ⟨value, found⟩ := Option.ne_none_iff_exists'.mp (mt AList.lookup_eq_none.mp (not_not.mpr inside))
    exact found
  next outside => exact AList.lookup_eq_none.mpr outside

/-- The fields to set and to delete of a changed hash, by what its changes say. -/
theorem fields_of_entries {fields : List (Sigma fun _ : String => Option ByteString)} (nodup : fields.NodupKeys)
    (field : String) :
    (fields.filterMap fun entry => entry.2.map (entry.1, ·)).lookup field = (fields.dlookup field).getD none ∧
      (field ∈ (fields.filterMap fun entry => if entry.2.isNone then some entry.1 else none) ↔
        fields.dlookup field = some none) := by
  induction fields with
  | nil => simp
  | cons entry fields ih =>
    obtain ⟨first, value⟩ := entry
    obtain ⟨fresh, rest⟩ := nodupKeys_cons.mp nodup
    obtain ⟨sets, dels⟩ := ih rest
    by_cases same : field = first
    · subst same
      have absent : fields.dlookup field = none := dlookup_eq_none.mpr fresh
      rw [absent] at sets dels
      cases value with
      | none => simpa using sets
      | some value =>
        simp at dels ⊢
        exact dels
    · rw [dlookup_cons_ne fields ⟨first, value⟩ same]
      have differ : (field == first) = false := beq_false_of_ne same
      cases value with
      | none =>
        refine ⟨sets, ?_⟩
        apply Iff.trans _ dels
        exact mem_cons.trans (or_iff_right same)
      | some value =>
        refine ⟨?_, dels⟩
        apply Eq.trans _ sets
        show ((first, value) :: _).lookup field = _
        rw [lookup_cons, differ]

theorem executeAll_drainKey (key : String) (cleared : Bool)
    (numbers : ∀ deltas, state = .sortedSet deltas → ∀ member, deltas.added.lookup member ≠ some .nan) :
    store.executeAll (drainKey key cleared state) =
      update store key (KeyState.contents (if cleared then .empty else store key) state) := by
  cases state with
  | deleted => rfl
  | stringValue value => rfl
  | hash fields =>
    have start : store.executeAll (if cleared then [.del key] else []) =
        update store key (if cleared then .empty else store key) := by
      cases cleared with
      | true => rfl
      | false => simp [executeAll]
    simp only [drainKey]
    rw [executeAll_append, executeAll_append, start, executeAll_optional _ _ fun none => none ▸ rfl,
      executeAll_optional _ _ fun none => none ▸ rfl]
    simp only [execute, RedisCommand.key, update_self, update_idem, RedisCommand.apply,
      KeyState.contents]
    congr 2
    funext field
    obtain ⟨sets, dels⟩ := fields_of_entries fields.nodupKeys field
    rw [sets]
    simp only [dels, AList.lookup]
    rcases fields.entries.dlookup field with _ | _ | value <;> rfl
  | set deltas =>
    have own : (srem key deltas.removed).key = key := rfl
    have joined (ground : ByteString → Option Unit) : (fun member => if member ∈ deltas.added.keys then some ()
        else if member ∈ deltas.removed then none else ground member) = deltas.onto ground := by
      funext member
      rw [Deltas.onto, lookup_members]
      split <;> rfl
    simp only [drainKey]
    rw [executeAll_append, executeAll_clear own fun none => none ▸ rfl, executeAll_optional _ _ fun none => none ▸ rfl]
    simp only [execute, RedisCommand.key, update_self, update_idem]
    congr 1
    cases cleared with
    | false => exact congrArg (fun set => { store key with set := set }) (joined (store key).set)
    | true =>
      have replaced := joined fun _ => none
      simp only [ite_self] at replaced
      exact congrArg (fun set => { empty with set := set }) replaced
  | sortedSet deltas =>
    have own : (zrem key deltas.removed).key = key := rfl
    have valid : (deltas.added.entries.map fun entry => (entry.1, entry.2)).any (·.2 = .nan) = false := by
      rw [any_map, any_eq_false]
      intro entry member isNan
      have score : entry.2 = .nan := of_decide_eq_true isNan
      exact numbers deltas rfl entry.1 (score ▸ mem_dlookup deltas.added.nodupKeys member)
    have joined (ground : ByteString → Option Score) : (fun member =>
        ((deltas.added.entries.map fun entry => (entry.1, entry.2)).lookup member).or
          (if member ∈ deltas.removed then none else ground member)) = deltas.onto ground := by
      funext member
      rw [Deltas.onto, lookup_entries]
      rfl
    simp only [drainKey]
    rw [executeAll_append, executeAll_clear own fun none => none ▸ rfl, executeAll_optional _ _ fun none => none ▸ rfl]
    simp only [execute, RedisCommand.key, update_self, update_idem]
    congr 1
    rw [RedisCommand.apply, valid, if_neg Bool.false_ne_true]
    cases cleared with
    | false => exact congrArg (fun scores => { store key with sortedSet := scores }) (joined (store key).sortedSet)
    | true =>
      have replaced := joined fun _ => none
      simp only [ite_self] at replaced
      exact congrArg (fun scores => { empty with sortedSet := scores }) replaced

theorem executeAll_entries (cleared : String → Bool) {entries : List (Sigma fun _ : String => KeyState)}
    (nodup : entries.NodupKeys)
    (numbers : ∀ entry ∈ entries, ∀ deltas, entry.2 = .sortedSet deltas → ∀ member, deltas.added.lookup member ≠ some .nan)
    (store : RedisStore) (key : String) :
    store.executeAll (entries.flatMap fun entry => drainKey entry.1 (cleared entry.1) entry.2) key =
      match entries.dlookup key with
      | some state => KeyState.contents (if cleared key then .empty else store key) state
      | none => store key := by
  induction entries generalizing store with
  | nil => rfl
  | cons entry entries ih =>
    obtain ⟨first, state⟩ := entry
    obtain ⟨fresh, rest⟩ := nodupKeys_cons.mp nodup
    rw [flatMap_cons, executeAll_append, executeAll_drainKey _ _ _ (numbers _ mem_cons_self),
      ih rest (fun entry member => numbers entry (mem_cons_of_mem _ member))]
    by_cases same : key = first
    · subst same
      rw [dlookup_eq_none.mpr fresh, dlookup_cons_eq]
      exact update_self ..
    · rw [dlookup_cons_ne entries ⟨first, state⟩ same, update_of_ne same]

theorem SoundBuffer.executeAll_drain (sound : SoundBuffer kind buffer) (base : RedisStore) :
    base.executeAll buffer.drainIntoPipeline = overlay buffer base := by
  have numbers : ∀ entry ∈ buffer.keys.entries, ∀ deltas, entry.2 = .sortedSet deltas →
      ∀ member, deltas.added.lookup member ≠ some .nan := by
    intro entry member deltas same
    have found : buffer.keys.lookup entry.1 = some entry.2 := mem_dlookup buffer.keys.nodupKeys member
    exact ((sound.states _ _ found).scores deltas same).2
  funext key
  unfold drainIntoPipeline overlay ground
  rw [executeAll_entries (fun key => key ∈ buffer.clearedKeys) buffer.keys.nodupKeys numbers]
  simp only [decide_eq_true_eq]
  rfl

end Drain

structure ReadsAgree (kind : String → RedisKind) (base : RedisStore) (buffer : WriteBuffer) (direct : RedisStore) : Prop where
  string : ∀ key, kind key = .string → buffer.readString base key = (direct key).string
  field : ∀ key field, kind key = .hash → buffer.readField base key field = (direct key).hash field
  isMember : ∀ key member, kind key = .set → buffer.readIsMember base key member = ((direct key).set member).isSome
  members : ∀ key, kind key = .set → buffer.readMembers base key = (direct key).set
  scores : ∀ key, kind key = .sortedSet → buffer.readScores base key = (direct key).sortedSet

theorem SoundBuffer.readsAgree (sound : SoundBuffer kind buffer) (base : RedisStore) :
    ReadsAgree kind base buffer (overlay buffer base) where
  string _ isString := sound.readString_eq isString
  field _ field isHash := sound.readField_eq isHash field
  isMember _ member isSet := sound.readIsMember_eq isSet member
  members _ isSet := sound.readMembers_eq isSet
  scores _ isSortedSet := sound.readScores_eq isSortedSet

/-- The store after the writes of a session made on it directly. -/
def direct (base : RedisStore) (writes : List SessionWrite) : RedisStore := base.executeAll (writes.map (·.command))

/-- At every point of the session all reads give what the store would give after the same writes, and so does the store after
the commit. -/
def FaithfulOverlay (kind : String → RedisKind) (base : RedisStore) (writes : List SessionWrite) : Prop :=
  (∀ before after, writes = before ++ after →
    ReadsAgree kind base (performAll .new before) (direct base before)) ∧
  base.executeAll (performAll .new writes).drainIntoPipeline = direct base writes

def NeverMisleads (base : RedisStore) (writes : List SessionWrite) : Prop :=
  ∀ before write after, writes = before ++ write :: after → ¬ Misleads base (performAll .new before) write

theorem performAll_concat (writes : List SessionWrite) (write : SessionWrite) :
    performAll .new (writes ++ [write]) = write.perform (performAll .new writes) :=
  foldl_concat ..

theorem direct_concat (base : RedisStore) (writes : List SessionWrite) (write : SessionWrite) :
    direct base (writes ++ [write]) = (direct base writes).execute write.command := by
  rw [direct, map_append, executeAll_append]
  rfl

variable {writes : List SessionWrite}

theorem NeverMisleads.before {after} (never : NeverMisleads base (writes ++ after)) : NeverMisleads base writes := by
  intro before write rest split
  exact never before write (rest ++ after) (by rw [split]; simp)

theorem overlay_performAll (typed : ∀ write ∈ writes, SessionWrite.HasKind kind write)
    (never : NeverMisleads base writes) :
    SoundBuffer kind (performAll .new writes) ∧
      overlay (performAll .new writes) base = direct base writes := by
  induction writes using reverseRecOn with
  | nil => exact ⟨SoundBuffer.new, rfl⟩
  | append_singleton writes write ih =>
    obtain ⟨sound, same⟩ := ih (fun other member => typed other (mem_append_left _ member)) never.before
    have own := typed write mem_concat_self
    have faithful := never writes write [] rfl
    rw [performAll_concat, direct_concat, ← same]
    exact ⟨sound.perform own faithful, sound.overlay_perform own faithful⟩

section Exactness

theorem readMembers_track (deltas : Deltas ByteString Unit) :
    (buffer.track key (.set deltas)).readMembers base key = deltas.onto (ground buffer base key).set := by
  by_cases cleared : key ∈ buffer.clearedKeys <;>
    simp [readMembers, setGetDeltas, WriteBuffer.track, merge_eq_over, ground_set, cleared]

theorem readScores_track (deltas : Deltas ByteString Score) :
    (buffer.track key (.sortedSet deltas)).readScores base key = deltas.onto (ground buffer base key).sortedSet := by
  by_cases cleared : key ∈ buffer.clearedKeys <;>
    simp [readScores, zsetGetDeltas, WriteBuffer.track, merge_eq_over, ground_sortedSet, cleared]

theorem SoundBuffer.overlay_ne_nan (sound : SoundBuffer kind buffer) (isSortedSet : kind key = .sortedSet)
    (valid : ∀ key member, (base key).sortedSet member ≠ some .nan) (member : ByteString) :
    (overlay buffer base key).sortedSet member ≠ some .nan := by
  rw [sound.overlay_sortedSet isSortedSet]
  simp only [KeyState.contents, Deltas.onto]
  intro isNan
  rcases Option.or_eq_some_iff.mp isNan with added | ⟨_, grounded⟩
  · exact (sound.zsetDeltasOf key).2 member added
  · rw [ground_sortedSet] at grounded
    split at grounded
    · cases grounded
    · split at grounded
      · cases grounded
      · exact valid key member grounded

/-- After a write that misleads, a read gives something else. -/
theorem SoundBuffer.not_readsAgree (sound : SoundBuffer kind buffer) (typed : SessionWrite.HasKind kind write)
    (valid : ∀ key member, (base key).sortedSet member ≠ some .nan) (misleads : Misleads base buffer write) :
    ¬ ReadsAgree kind base (write.perform buffer) ((overlay buffer base).execute write.command) := by
  intro agree
  cases write with
  | setRemove key member =>
    have read := congrFun (agree.members key typed) member
    have uncovered := Deltas.over_remove_of_uncovers (sound.apart_setDeltasOf key) misleads
    rw [SessionWrite.perform, WriteBuffer.setRemove] at read
    split at read
    next deleted =>
      have none : buffer.setDeltasOf key = .empty := by simp [setDeltasOf, deleted]
      rw [Misleads, none] at misleads
      exact AList.notMem_empty _ misleads.1
    next =>
      rw [readMembers_track, uncovered] at read
      have gone : ((overlay buffer base).execute (.srem key {member}) key).set member = none := by
        simp [execute, RedisCommand.key, RedisCommand.apply]
      exact misleads.2 (read.trans gone)
  | zsetRemove key member =>
    have read := congrFun (agree.scores key typed) member
    have uncovered := Deltas.over_remove_of_uncovers (sound.zsetDeltasOf key).1 misleads
    rw [SessionWrite.perform, WriteBuffer.zsetRemove] at read
    split at read
    next deleted =>
      have none : buffer.zsetDeltasOf key = .empty := by simp [WriteBuffer.zsetDeltasOf, deleted]
      rw [Misleads, none] at misleads
      exact AList.notMem_empty _ misleads.1
    next =>
      rw [readScores_track, uncovered] at read
      have gone : ((overlay buffer base).execute (.zrem key {member}) key).sortedSet member = none := by
        simp [execute, RedisCommand.key, RedisCommand.apply]
      exact misleads.2 (read.trans gone)
  | zsetAdd key member score =>
    have isNan : score = .nan := misleads
    subst isNan
    have read := congrFun (agree.scores key typed) member
    rw [SessionWrite.perform, WriteBuffer.zsetAdd, readScores_track, Deltas.over_add, update_self] at read
    have kept : ((overlay buffer base).execute (.zadd key [(member, .nan)]) key).sortedSet member =
        (overlay buffer base key).sortedSet member := by
      simp [execute, RedisCommand.key, RedisCommand.apply]
    exact sound.overlay_ne_nan typed valid member (kept.symm.trans read.symm)
  | _ => exact misleads

theorem neverMisleads_of_readsAgree (typed : ∀ write ∈ writes, SessionWrite.HasKind kind write)
    (valid : ∀ key member, (base key).sortedSet member ≠ some .nan)
    (agree : ∀ before after, writes = before ++ after →
      ReadsAgree kind base (performAll .new before) (direct base before)) : NeverMisleads base writes := by
  induction writes using reverseRecOn with
  | nil =>
    intro before write after split
    exact absurd split.symm (append_ne_nil_of_right_ne_nil _ (cons_ne_nil _ _))
  | append_singleton writes last ih =>
    have typedBefore := fun other member => typed other (mem_append_left _ member)
    have never := ih typedBefore fun before after split => agree before (after ++ [last]) (by rw [split]; simp)
    obtain ⟨sound, same⟩ := overlay_performAll typedBefore never
    intro before write after split
    rcases eq_nil_or_concat' after with rfl | ⟨rest, final, rfl⟩
    · obtain ⟨rfl, own⟩ := append_inj' split rfl
      obtain rfl := singleton_inj.mp own
      have whole := agree _ [] (append_nil _).symm
      rw [performAll_concat, direct_concat, ← same] at whole
      exact fun misleads => sound.not_readsAgree (typed last mem_concat_self) valid misleads whole
    · rw [← cons_append, ← append_assoc] at split
      exact never before write rest (append_inj' split rfl).1

end Exactness

/-- **The write buffer is a faithful overlay** just of the sessions that remove no member which the store has and the session
added, and that add no score which is no number. -/
theorem write_buffer_faithful_iff {writes : List SessionWrite} (typed : ∀ write ∈ writes, SessionWrite.HasKind kind write)
    (valid : ∀ key member, (base key).sortedSet member ≠ some .nan) :
    FaithfulOverlay kind base writes ↔ NeverMisleads base writes := by
  constructor
  · intro faithful
    exact neverMisleads_of_readsAgree typed valid faithful.1
  · intro never
    constructor
    · intro before after split
      subst split
      obtain ⟨sound, same⟩ :=
        overlay_performAll (fun other member => typed other (mem_append_left _ member)) never.before
      exact same ▸ sound.readsAgree base
    · obtain ⟨sound, same⟩ := overlay_performAll typed never
      rw [sound.executeAll_drain, same]

def oneMember : RedisStore := fun key =>
  if key = "set" then { empty with set := fun member => if member = [1] then some () else none } else .empty

theorem oneMember_valid (key : String) (member : ByteString) : (oneMember key).sortedSet member ≠ some .nan := by
  unfold oneMember
  split <;> exact nofun

/-- Another member is added and removed again. -/
theorem write_buffer_faithful_other :
    FaithfulOverlay (fun _ => .set) oneMember [.setAdd "set" [2], .setRemove "set" [2]] := by
  have typed : ∀ write ∈ [setAdd "set" [2], .setRemove "set" [2]], SessionWrite.HasKind (fun _ => .set) write := by
    intro write member
    rcases mem_pair.mp member with rfl | rfl <;> rfl
  apply (write_buffer_faithful_iff typed oneMember_valid).mpr
  intro before write after split
  match before, split with
  | [], split => cases split; exact id
  | [_], split =>
    cases split
    intro misleads
    exact misleads.2 (by decide +kernel)
  | _ :: _ :: rest, split =>
    have none : [] = rest ++ write :: after := (cons.inj (cons.inj split).2).2
    exact absurd none.symm (append_ne_nil_of_right_ne_nil _ (cons_ne_nil _ _))

/-- The member is added, which changes nothing, and removed: it is still read, and it is still there after the commit. -/
theorem removed_member_shows_through :
    let writes : List SessionWrite := [.setAdd "set" [1], .setRemove "set" [1]]
    (performAll .new writes).readIsMember oneMember "set" [1] = true ∧
      (direct oneMember writes "set").set [1] = none ∧ ¬ FaithfulOverlay (fun _ => .set) oneMember writes := by
  refine ⟨by decide +kernel, by decide +kernel, ?_⟩
  intro faithful
  have committed := congrArg (fun store : RedisStore => (store "set").set [1]) faithful.2
  exact absurd committed (by decide +kernel)

end DrasiCore.Proofs
