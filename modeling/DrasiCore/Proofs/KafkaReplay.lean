import DrasiCore.Proofs.KafkaPositions
import DrasiCore.Proofs.UninterruptedSource
import Mathlib.Data.List.Induction
import Mathlib.Data.List.TakeWhile

/-! What a subscriber of a Kafka source gets when the topic is replayed from the least offsets of all subscribers. The mark
of a subscriber starts as its own position, but the first event it gets replaces the whole mark by the offsets of that
event, which for the other partitions may lie below those the subscriber resumes from. -/

namespace DrasiCore.Proofs

open Library KafkaPosition KafkaConsumer KafkaSource SourceBase List

/-- A message at or after the offset a subscriber resumes from. -/
def due (resume : List Int) (message : KafkaMessage) : Bool := (resume[message.partition]?).all (· ≤ message.offset)

def AtLeast (bound offsets : List Int) : Prop :=
  ∀ (partition : Nat) (least next : Int), bound[partition]? = some least → offsets[partition]? = some next → least ≤ next

/-- An interleaving of the partitions from given offsets on. The offset after a message has to be one, too. -/
structure ConsumedFrom (start : List Int) (messages : List KafkaMessage) : Prop where
  starts : ∀ message ∈ messages, ∃ first, start[message.partition]? = some first ∧ first ≤ message.offset
  rising : messages.Pairwise fun earlier later => earlier.partition = later.partition → earlier.offset < later.offset
  ends : ∀ message ∈ messages, message.offset + 1 < 2 ^ 63

def offsetsAfter (start : List Int) (seen : List KafkaMessage) : List Int := seen.foldl advanceOffsets start

/-- The events are those of the due messages, once each and in order, and no checkpoint falls behind. -/
def DeliversReplay (resume : List Int) (messages : List KafkaMessage) (events : List (SourceEventWrapper ByteString)) : Prop :=
  events.map KafkaMessage.ofEvent = (messages.filter (due resume)).map some ∧
    ∀ offsets ∈ events.filterMap checkpointedOffsets, AtLeast resume offsets

theorem AtLeast.refl (offsets : List Int) : AtLeast offsets offsets := by
  intro partition least next leastAt nextAt
  rw [leastAt] at nextAt
  exact (Option.some.inj nextAt).le

variable {seen : List KafkaMessage} {message : KafkaMessage}

section Offsets

variable {start : List Int} {after : List KafkaMessage}

@[simp] theorem offsetsAfter_concat (start : List Int) (seen : List KafkaMessage) (message : KafkaMessage) :
    offsetsAfter start (seen ++ [message]) = advanceOffsets (offsetsAfter start seen) message :=
  foldl_concat ..

theorem length_offsetsAfter (start : List Int) (seen : List KafkaMessage) :
    (offsetsAfter start seen).length = start.length := by
  induction seen generalizing start with
  | nil => rfl
  | cons message seen ih => exact (ih (advanceOffsets start message)).trans length_set

theorem offsetsAfter_cases {partition next} (at_ : (offsetsAfter start seen)[partition]? = some next) :
    start[partition]? = some next ∨ ∃ earlier ∈ seen, earlier.partition = partition ∧ next = earlier.offset + 1 := by
  induction seen using reverseRecOn with
  | nil => exact .inl at_
  | append_singleton seen last ih =>
    rw [offsetsAfter_concat, advanceOffsets, getElem?_set] at at_
    split at at_
    next same =>
      split at at_
      · exact .inr ⟨last, mem_concat_self, same, (Option.some.inj at_).symm⟩
      · cases at_
    next =>
      rcases ih at_ with first | ⟨earlier, member, sameOf, follows⟩
      · exact .inl first
      · exact .inr ⟨earlier, mem_append_left _ member, sameOf, follows⟩

theorem ConsumedFrom.before {seen} (consumed : ConsumedFrom start (seen ++ after)) :
    ConsumedFrom start seen where
  starts message member := consumed.starts message (mem_append_left _ member)
  rising := (pairwise_append.mp consumed.rising).1
  ends message member := consumed.ends message (mem_append_left _ member)

theorem ConsumedFrom.next_le (consumed : ConsumedFrom start (seen ++ [message])) :
    ∃ next, (offsetsAfter start seen)[message.partition]? = some next ∧ next ≤ message.offset := by
  obtain ⟨first, firstAt, atLeast⟩ := consumed.starts message mem_concat_self
  have inside : message.partition < (offsetsAfter start seen).length := by
    rw [length_offsetsAfter]
    exact (List.getElem?_eq_some_iff.mp firstAt).1
  have at_ := List.getElem?_eq_getElem inside
  refine ⟨_, at_, ?_⟩
  rcases offsetsAfter_cases at_ with isFirst | ⟨earlier, member, same, follows⟩
  · rw [firstAt] at isFirst
    rwa [← Option.some.inj isFirst]
  · have less := (pairwise_append.mp consumed.rising).2.2 earlier member message mem_cons_self same
    omega

theorem ConsumedFrom.signed (consumed : ConsumedFrom start seen) (range : ∀ offset ∈ start, Signed64 offset) :
    ∀ offset ∈ offsetsAfter start seen, Signed64 offset := by
  intro offset member
  obtain ⟨partition, at_⟩ := mem_iff_getElem?.mp member
  rcases offsetsAfter_cases at_ with first | ⟨earlier, earlierSeen, same, rfl⟩
  · exact range offset (mem_of_getElem? first)
  · obtain ⟨first, firstAt, atLeast⟩ := consumed.starts earlier earlierSeen
    have bounds := range first (mem_of_getElem? firstAt)
    have last := consumed.ends earlier earlierSeen
    unfold Signed64 at *
    omega

end Offsets

variable (resumeBytes : ByteString)

section Gate

/-- A subscriber gets nothing up to the first message that opens its filter, and everything from there on. The filter of one
that resumes from the boundary of a bootstrap is open from the start. -/
def opens (resume : List Int) (message : KafkaMessage) : Bool :=
  (decodePosition resumeBytes).isNone || due resume message

def handed (resume : List Int) (messages : List KafkaMessage) : List KafkaMessage :=
  messages.dropWhile fun message => !opens resumeBytes resume message

/-- What follows an opened gate is what is wanted, just if nothing unwanted comes with or after what opens it. -/
theorem dropWhile_eq_filter_iff {A} {opens wanted : A → Bool} (entries : List A)
    (opened : ∀ entry, wanted entry → opens entry) :
    entries.dropWhile (fun entry => !opens entry) = entries.filter wanted ↔
      ∀ before entry after, entries = before ++ entry :: after → wanted entry = false →
        ∀ other ∈ before ++ [entry], opens other = false := by
  induction entries with
  | nil => simp
  | cons first entries ih =>
    cases open_ : opens first with
    | true =>
      rw [dropWhile_cons_of_neg (by simp [open_]), eq_comm, filter_eq_self]
      constructor
      · intro all before entry after split unwanted
        have member : entry ∈ first :: entries := split ▸ mem_append_right _ mem_cons_self
        rw [all entry member] at unwanted
        cases unwanted
      · intro kept entry member
        obtain ⟨before, after, split⟩ := append_of_mem member
        by_contra unwanted
        -- The first entry stands at or before the unwanted one.
        have leads : first ∈ before ++ [entry] := by
          cases before with
          | nil => exact mem_singleton.mpr (cons.inj split).1
          | cons head before => exact (cons.inj split).1 ▸ mem_cons_self
        have shut := kept before entry after split (Bool.not_eq_true _ ▸ unwanted) first leads
        rw [open_] at shut
        cases shut
    | false =>
      have unwanted : wanted first = false := by
        cases is : wanted first with
        | true => rw [opened first is] at open_; cases open_
        | false => rfl
      rw [dropWhile_cons_of_pos (by simp [open_]), filter_cons_of_neg (by simp [unwanted]), ih]
      constructor
      · intro kept before entry after split undue other member
        cases before with
        | nil =>
          obtain rfl := (cons.inj split).1
          rwa [mem_singleton.mp member]
        | cons head before =>
          obtain ⟨rfl, rest⟩ := cons.inj split
          rcases mem_cons.mp member with rfl | later
          · exact open_
          · exact kept before entry after rest undue other later
      · intro kept before entry after split undue other member
        exact kept (first :: before) entry after (congrArg (first :: ·) split) undue other (mem_cons_of_mem first member)

theorem handed_concat (resume : List Int) (seen : List KafkaMessage) (message : KafkaMessage) :
    handed resumeBytes resume (seen ++ [message]) =
      if handed resumeBytes resume seen ≠ [] ∨ opens resumeBytes resume message then
        handed resumeBytes resume seen ++ [message]
      else [] := by
  unfold handed
  rw [dropWhile_append]
  cases none : seen.dropWhile (fun message => !opens resumeBytes resume message) with
  | nil => cases shut : opens resumeBytes resume message <;> simp [shut]
  | cons first rest => simp

theorem handed_ne_nil_iff {resumeBytes resume seen} :
    handed resumeBytes resume seen ≠ [] ↔ ∃ other ∈ seen, opens resumeBytes resume other := by
  simp [handed, dropWhile_eq_nil_iff]

end Gate

/-- Where a subscriber is once some messages have been consumed. -/
structure KafkaServed (start resume : List Int) (resumeBytes : ByteString) (own : Nat) (seen : List KafkaMessage)
    (consumer : KafkaConsumer) : Prop where
  offsets : consumer.currentOffsets = offsetsAfter start seen
  delivered : ∃ dispatcher, consumer.base.dispatchers[own]? = some dispatcher ∧
    dispatcher.channel.delivered.map KafkaMessage.ofEvent = (handed resumeBytes resume seen).map some ∧
    ∀ offsets, offsets ∈ dispatcher.channel.delivered.filterMap checkpointedOffsets ↔
      8 + 8 * start.length ≤ maxSourcePositionBytes ∧ ∃ before message after, seen = before ++ message :: after ∧
        (∃ other ∈ before ++ [message], opens resumeBytes resume other) ∧ offsets = offsetsAfter start (before ++ [message])
  closed : handed resumeBytes resume seen = [] → consumer.base.subscriberResumePositions own = some resumeBytes
  opened : handed resumeBytes resume seen ≠ [] → ∃ mark partition offsets,
    consumer.base.subscriberResumePositions own = some mark ∧ decodePosition mark = some (partition, offsets) ∧
      offsets.length = start.length ∧ AtLeast offsets (offsetsAfter start seen)

section Step

variable {start resume : List Int} {resumeBytes : ByteString} {own : Nat}
variable {offsets : List Int} {position : ByteString} {consumer : KafkaConsumer}
  {event : SourceEventWrapper ByteString}

theorem getElem?_advanceOffsets (inside : message.partition < offsets.length) :
    (advanceOffsets offsets message)[message.partition]? = some (message.offset + 1) :=
  getElem?_set_self inside

theorem positionReached_resumeBytes {least} (decodes : decodePosition position = some (message.partition, offsets))
    (nextAt : offsets[message.partition]? = some (message.offset + 1)) (resumes : resumeOffsets resumeBytes = some resume)
    (leastAt : resume[message.partition]? = some least) :
    positionReached position resumeBytes = opens resumeBytes resume message := by
  unfold opens due
  rw [leastAt, Option.all_some]
  unfold resumeOffsets at resumes
  cases decoded : decodePosition resumeBytes with
  | none => rw [positionReached_of_undecodable decodes decoded, Option.isNone_none, Bool.true_or]
  | some known =>
    rw [decoded] at resumes
    obtain rfl := Option.some.inj resumes
    rw [positionReached_of_decodes decodes decoded leastAt nextAt, Option.isNone_some, Bool.false_or]
    exact decide_eq_decide.mpr Int.lt_add_one_iff

theorem KafkaServed.passes (serving : KafkaServed start resume resumeBytes own seen consumer)
    (consumed : ConsumedFrom start (seen ++ [message])) (resumes : resumeOffsets resumeBytes = some resume)
    (length : resume.length = start.length) (carried : event.sourcePosition = some position)
    (decodes : decodePosition position = some (message.partition, advanceOffsets (offsetsAfter start seen) message)) :
    consumer.base.passes (some positionReached) own event =
      decide (handed resumeBytes resume seen ≠ [] ∨ opens resumeBytes resume message) := by
  obtain ⟨next, nextAt, reached⟩ := consumed.next_le
  have inside := (List.getElem?_eq_some_iff.mp nextAt).1
  have after := getElem?_advanceOffsets inside
  rw [length_offsetsAfter] at inside
  unfold SourceBase.passes
  rw [carried]
  by_cases none : handed resumeBytes resume seen = []
  · rw [serving.closed none]
    dsimp only
    rw [positionReached_resumeBytes decodes after resumes (List.getElem?_eq_getElem (length ▸ inside))]
    simp [none]
  · obtain ⟨mark, partition, offsets, marked, decoded, known, least⟩ := serving.opened none
    have markAt := List.getElem?_eq_getElem (known ▸ inside : message.partition < offsets.length)
    have below := least message.partition _ next markAt nextAt
    rw [marked]
    dsimp only
    rw [positionReached_of_decodes decodes decoded markAt after]
    simp only [none, ne_eq, not_false_eq_true, true_or, decide_true, decide_eq_true_eq]
    omega

theorem ofEvent_of_decodes (carried : event.sourcePosition = some position) (change : event.change = message.change)
    (decodes : decodePosition position = some (message.partition, offsets))
    (nextAt : offsets[message.partition]? = some (message.offset + 1)) : KafkaMessage.ofEvent event = some message := by
  simp [KafkaMessage.ofEvent, carried, decodes, nextAt, change]

theorem checkpointedOffsets_of_decodes {partition} (carried : event.sourcePosition = some position)
    (decodes : decodePosition position = some (partition, offsets)) :
    checkpointedOffsets event = if position.length ≤ maxSourcePositionBytes then some offsets else none := by
  simp only [checkpointedOffsets, carried, decodes, Option.bind_eq_bind, Option.bind_some]

theorem exists_split_concat {A seen last} {holds : List A → A → Prop} :
    (∃ before entry after, seen ++ [last] = before ++ entry :: after ∧ holds before entry) ↔
      (∃ before entry after, seen = before ++ entry :: after ∧ holds before entry) ∨ holds seen last := by
  constructor
  · rintro ⟨before, entry, after, split, held⟩
    rcases eq_nil_or_concat' after with rfl | ⟨rest, final, rfl⟩
    · obtain ⟨rfl, same⟩ := append_inj' split rfl
      obtain rfl := singleton_inj.mp same
      exact .inr held
    · rw [← cons_append, ← append_assoc] at split
      exact .inl ⟨before, entry, rest, (append_inj' split rfl).1, held⟩
  · rintro (⟨before, entry, after, rfl, held⟩ | held)
    · exact ⟨before, entry, after ++ [last], by simp, held⟩
    · exact ⟨seen, last, [], rfl, held⟩

theorem consume_effect (consumer : KafkaConsumer) (message : KafkaMessage) (clock : Int)
    (known : own < consumer.base.dispatchers.length) :
    ∃ event : SourceEventWrapper ByteString,
      event.sourcePosition = some (encodePosition message.partition (advanceOffsets consumer.currentOffsets message)) ∧
      event.change = message.change ∧
      (consumer.consume message clock).base.dispatchers[own]? = (consumer.base.dispatchers[own]?).map (fun dispatcher =>
        if consumer.base.passes (some positionReached) own event then dispatcher.deliver event else dispatcher.suppress event) ∧
      (consumer.consume message clock).base.subscriberResumePositions own =
        if consumer.base.passes (some positionReached) own event then event.sourcePosition
        else consumer.base.subscriberResumePositions own := by
  let counted : SourceBase ByteString := { consumer.base with nextSequence := consumer.base.nextSequence + 1 }
  let wrapper : SourceEventWrapper ByteString :=
    ⟨consumer.base.id, message.change, clock, consumer.base.nextSequence,
      some (encodePosition message.partition (advanceOffsets consumer.currentOffsets message))⟩
  refine ⟨(counted.orderEvent wrapper).2, rfl, rfl, ?_, ?_⟩
  · exact getElem?_dispatchEvent counted wrapper own
  · exact mark_dispatchEvent counted wrapper rfl known

theorem KafkaServed.consume (serving : KafkaServed start resume resumeBytes own seen consumer)
    (consumed : ConsumedFrom start (seen ++ [message])) (count : start.length ≤ maxPartitionCount)
    (range : ∀ offset ∈ start, Signed64 offset) (resumes : resumeOffsets resumeBytes = some resume)
    (length : resume.length = start.length) (clock : Int) :
    KafkaServed start resume resumeBytes own (seen ++ [message]) (consumer.consume message clock) := by
  obtain ⟨next, nextAt, reached⟩ := consumed.next_le
  have inside := (List.getElem?_eq_some_iff.mp nextAt).1
  have after := getElem?_advanceOffsets inside
  have size : (advanceOffsets (offsetsAfter start seen) message).length = start.length := by
    rw [advanceOffsets, length_set, length_offsetsAfter]
  have decodes : decodePosition (encodePosition message.partition (advanceOffsets (offsetsAfter start seen) message)) =
      some (message.partition, advanceOffsets (offsetsAfter start seen) message) := by
    apply decodePosition_encodePosition
    · rwa [advanceOffsets, length_set]
    · rwa [size]
    · rw [← offsetsAfter_concat]
      exact consumed.signed range
  obtain ⟨dispatcher, here, delivered, checkpoints⟩ := serving.delivered
  obtain ⟨event, carried, change, dispatched, marks⟩ :=
    consume_effect consumer message clock (List.getElem?_eq_some_iff.mp here).1
  rw [serving.offsets] at carried
  have passes := serving.passes consumed resumes length carried decodes
  have written := checkpointedOffsets_of_decodes carried decodes
  rw [length_encodePosition, size] at written
  rw [here, Option.map_some] at dispatched
  have offsets : (consumer.consume message clock).currentOffsets = offsetsAfter start (seen ++ [message]) := by
    rw [offsetsAfter_concat, ← serving.offsets]
    rfl
  by_cases gets : handed resumeBytes resume seen ≠ [] ∨ opens resumeBytes resume message
  · rw [decide_eq_true gets] at passes
    rw [passes, if_pos rfl] at dispatched marks
    have grown : handed resumeBytes resume (seen ++ [message]) = handed resumeBytes resume seen ++ [message] := by
      rw [handed_concat, if_pos gets]
    refine ⟨offsets, ⟨_, dispatched, ?_, ?_⟩, ?_, ?_⟩
    · rw [grown, SourceDispatcher.deliver, Channel.delivered_send, map_append, map_append, delivered]
      exact congrArg (_ ++ [·]) (ofEvent_of_decodes carried change decodes after)
    · intro vector
      have open_ : ∃ other ∈ seen ++ [message], opens resumeBytes resume other :=
        handed_ne_nil_iff.mp (by rw [grown]; exact append_ne_nil_of_right_ne_nil _ (cons_ne_nil _ _))
      have last : vector ∈ [event].filterMap checkpointedOffsets ↔ 8 + 8 * start.length ≤ maxSourcePositionBytes ∧
          (∃ other ∈ seen ++ [message], opens resumeBytes resume other) ∧ vector = offsetsAfter start (seen ++ [message]) := by
        rw [filterMap_cons, written, offsetsAfter_concat]
        by_cases fits : 8 + 8 * start.length ≤ maxSourcePositionBytes
        · rw [if_pos fits]
          exact ⟨fun same => ⟨fits, open_, mem_singleton.mp same⟩, fun holds => mem_singleton.mpr holds.2.2⟩
        · rw [if_neg fits]
          exact ⟨fun member => absurd member not_mem_nil, fun holds => absurd holds.1 fits⟩
      rw [SourceDispatcher.deliver, Channel.delivered_send, filterMap_append, mem_append, checkpoints vector,
        exists_split_concat, and_or_left]
      exact or_congr Iff.rfl last
    · intro none
      rw [grown] at none
      simp at none
    · intro _
      refine ⟨_, _, _, marks.trans carried, decodes, size, ?_⟩
      rw [offsetsAfter_concat]
      exact AtLeast.refl _
  · rw [decide_eq_false gets] at passes
    rw [passes, if_neg Bool.false_ne_true] at dispatched marks
    rw [not_or, not_not] at gets
    have still : handed resumeBytes resume (seen ++ [message]) = [] := by
      rw [handed_concat, if_neg (not_or.mpr ⟨not_not.mpr gets.1, gets.2⟩)]
    refine ⟨offsets, ⟨_, dispatched, ?_, ?_⟩, ?_, ?_⟩
    · rw [still]
      exact delivered.trans (by rw [gets.1])
    · intro vector
      have shut : ¬ ∃ other ∈ seen ++ [message], opens resumeBytes resume other :=
        fun some => handed_ne_nil_iff.mpr some still
      rw [exists_split_concat, or_iff_left (fun both => shut both.1)]
      exact checkpoints vector
    · intro _
      exact marks.trans (serving.closed gets.1)
    · intro some
      exact absurd still some

theorem KafkaServed.consumeAll (messages : List (KafkaMessage × Int))
    (serving : KafkaServed start resume resumeBytes own seen consumer)
    (consumed : ConsumedFrom start (seen ++ messages.map (·.1))) (count : start.length ≤ maxPartitionCount)
    (range : ∀ offset ∈ start, Signed64 offset) (resumes : resumeOffsets resumeBytes = some resume)
    (length : resume.length = start.length) :
    KafkaServed start resume resumeBytes own (seen ++ messages.map (·.1)) (consumer.consumeAll messages) := by
  induction messages generalizing seen consumer with
  | nil =>
    rw [map_nil, append_nil]
    exact serving
  | cons entry messages ih =>
    rw [map_cons, append_cons] at consumed ⊢
    exact ih (serving.consume consumed.before count range resumes length entry.2) consumed

end Step

section Subscriptions

variable {source : KafkaSource} {subscribers : List (SourceSubscriptionSettings ByteString)} {capacity : Nat}

structure Subscribed (subscribers : List (SourceSubscriptionSettings ByteString)) (source : KafkaSource) : Prop where
  count : source.base.dispatchers.length = subscribers.length
  fresh : ∀ dispatcher ∈ source.base.dispatchers, dispatcher.channel.delivered = []
  marks : ∀ own settings position, subscribers[own]? = some settings → settings.resumeFrom = some position →
    source.base.subscriberResumePositions own = some position
  offsets : ∀ settings ∈ subscribers, ∀ resume, settings.resumeFrom.bind resumeOffsets = some resume →
    source.subscriberResumePositions.lookup settings.queryId = some resume
  known : ∀ entry ∈ source.subscriberResumePositions.entries, ∃ position, resumeOffsets position = some entry.2

section

variable (settings : SourceSubscriptionSettings ByteString) (base : SourceBase ByteString)

theorem dispatchers_subscribeWithBootstrap (capacity : Nat) :
    (base.subscribeWithBootstrap settings capacity).dispatchers =
      base.dispatchers ++ [(SourceDispatcher.new settings capacity).enter .done] := by
  unfold subscribeWithBootstrap modifyDispatcher
  cases settings.resumeFrom <;>
    simp [createStreamingReceiver, insertResumePosition, modify_eq_take_cons_drop]

theorem marks_subscribeWithBootstrap (capacity : Nat) :
    (base.subscribeWithBootstrap settings capacity).subscriberResumePositions =
      settings.resumeFrom.elim base.subscriberResumePositions fun position =>
        Function.update base.subscriberResumePositions base.dispatchers.length (some position) := by
  unfold subscribeWithBootstrap modifyDispatcher
  cases settings.resumeFrom <;>
    simp [createStreamingReceiver, insertResumePosition]

theorem Subscribed.subscribe (subscribed : Subscribed subscribers source)
    (other : settings.queryId ∉ subscribers.map (·.queryId)) :
    Subscribed (subscribers ++ [settings]) (source.subscribe settings capacity) where
  count := by
    rw [KafkaSource.subscribe, dispatchers_subscribeWithBootstrap, length_append, length_append, subscribed.count]
    rfl
  fresh := by
    intro dispatcher member
    rw [KafkaSource.subscribe, dispatchers_subscribeWithBootstrap] at member
    rcases mem_append.mp member with before | last
    · exact subscribed.fresh dispatcher before
    · rw [mem_singleton.mp last]
      rfl
  marks := by
    intro own known position here resumes
    rw [KafkaSource.subscribe, marks_subscribeWithBootstrap, subscribed.count]
    rcases getElem?_concat_cases here with before | ⟨rfl, rfl⟩
    · have inside := (List.getElem?_eq_some_iff.mp before).1
      have marked := subscribed.marks own known position before resumes
      cases settings.resumeFrom with
      | none => exact marked
      | some other => exact (Function.update_of_ne inside.ne _ _).trans marked
    · rw [resumes]
      exact Function.update_self ..
  offsets := by
    intro known member resume resumes
    unfold KafkaSource.subscribe
    rcases mem_append.mp member with before | last
    · have looked := subscribed.offsets known before resume resumes
      have differ : known.queryId ≠ settings.queryId :=
        fun same => other (same ▸ mem_map_of_mem before)
      dsimp only
      split
      · rwa [AList.lookup_insert_ne differ]
      · exact looked
    · obtain rfl := mem_singleton.mp last
      simp only [resumes, AList.lookup_insert]
  known := by
    intro entry member
    unfold KafkaSource.subscribe at member
    dsimp only at member
    split at member
    next offsets resumes =>
      obtain ⟨position, _, decoded⟩ := Option.bind_eq_some_iff.mp resumes
      rw [AList.entries_insert] at member
      rcases mem_cons.mp member with rfl | old
      · exact ⟨position, decoded⟩
      · exact subscribed.known entry ((kerase_sublist _ _).subset old)
    next => exact subscribed.known entry member

end

theorem subscribed_subscribeAll (id : String) (capacity : Nat) (distinct : (subscribers.map (·.queryId)).Nodup) :
    Subscribed subscribers ((KafkaSource.new id).subscribeAll subscribers capacity) := by
  induction subscribers using reverseRecOn with
  | nil =>
    exact ⟨rfl, fun _ member => absurd member not_mem_nil, fun _ _ _ here => absurd here (by simp),
      fun _ member => absurd member not_mem_nil, fun _ member => absurd member not_mem_nil⟩
  | append_singleton subscribers settings ih =>
    rw [map_append, nodup_append] at distinct
    rw [subscribeAll, foldl_concat]
    apply (ih distinct.1).subscribe
    intro member
    exact distinct.2.2 _ member _ (mem_singleton_self _) rfl

/-- The least offsets, over the vectors with an offset for every partition. -/
structure IsLeast (partitions : Nat) (vectors : List (List Int)) (least : List Int) : Prop where
  length : least.length = partitions
  lower : ∀ vector ∈ vectors, vector.length = partitions → AtLeast least vector
  among : ∀ offset ∈ least, ∃ vector ∈ vectors, offset ∈ vector

theorem atLeast_zipWith_min (one two : List Int) :
    AtLeast (zipWith min one two) one ∧ AtLeast (zipWith min one two) two := by
  constructor <;> intro partition least next leastAt nextAt
  all_goals
    rw [getElem?_zipWith_eq_some] at leastAt
    obtain ⟨left, right, leftAt, rightAt, rfl⟩ := leastAt
  · rw [leftAt] at nextAt
    exact Option.some.inj nextAt ▸ min_le_left left right
  · rw [rightAt] at nextAt
    exact Option.some.inj nextAt ▸ min_le_right left right

theorem AtLeast.trans {one two three} (first : AtLeast one two) (second : AtLeast two three)
    (length : one.length = two.length) : AtLeast one three := by
  intro partition least next leastAt nextAt
  have inside := (List.getElem?_eq_some_iff.mp leastAt).1
  have middleAt := List.getElem?_eq_getElem (length ▸ inside : partition < two.length)
  exact (first partition least _ leastAt middleAt).trans (second partition _ next middleAt nextAt)

variable {partitions : Nat} {vectors : List (List Int)} {least vector : List Int}

theorem IsLeast.zipWith_min (isLeast : IsLeast partitions vectors least) (length : vector.length = partitions) :
    IsLeast partitions (vectors ++ [vector]) (zipWith min least vector) := by
  have size : (zipWith min least vector).length = partitions := by
    rw [length_zipWith, isLeast.length, length, Nat.min_self]
  refine ⟨size, ?_, ?_⟩
  · intro other member known
    rcases mem_append.mp member with before | last
    · exact (atLeast_zipWith_min least vector).1.trans (isLeast.lower other before known) (size.trans isLeast.length.symm)
    · rw [mem_singleton.mp last]
      exact (atLeast_zipWith_min least vector).2
  · intro offset member
    obtain ⟨partition, at_⟩ := mem_iff_getElem?.mp member
    obtain ⟨left, right, leftAt, rightAt, rfl⟩ := getElem?_zipWith_eq_some.mp at_
    rcases min_choice left right with isLeft | isRight
    · rw [isLeft]
      obtain ⟨other, known, inside⟩ := isLeast.among left (mem_of_getElem? leftAt)
      exact ⟨other, mem_append_left _ known, inside⟩
    · rw [isRight]
      exact ⟨vector, mem_concat_self, mem_of_getElem? rightAt⟩

theorem foldl_takeMinimum (partitions : Nat) (vectors : List (List Int)) :
    match vectors.foldl (takeMinimum partitions) none with
    | none => ∀ vector ∈ vectors, vector.length ≠ partitions
    | some least => IsLeast partitions vectors least := by
  induction vectors using reverseRecOn with
  | nil => exact fun _ member => absurd member not_mem_nil
  | append_singleton vectors vector ih =>
    rw [foldl_concat]
    generalize vectors.foldl (takeMinimum partitions) none = minOffsets at ih ⊢
    unfold takeMinimum
    by_cases length : vector.length = partitions
    · rw [if_neg (not_not.mpr length)]
      cases minOffsets with
      | none =>
        refine ⟨length, ?_, fun offset inside => ⟨vector, mem_concat_self, inside⟩⟩
        intro other member known
        rcases mem_append.mp member with before | last
        · exact absurd known (ih other before)
        · rw [mem_singleton.mp last]
          exact .refl vector
      | some least => exact ih.zipWith_min length
    · rw [if_pos length]
      cases minOffsets with
      | none =>
        intro other member
        rcases mem_append.mp member with before | last
        · exact ih other before
        · rwa [mem_singleton.mp last]
      | some least =>
        refine ⟨ih.length, ?_, ?_⟩
        · intro other member known
          rcases mem_append.mp member with before | last
          · exact ih.lower other before known
          · rw [mem_singleton.mp last] at known
            exact absurd known length
        · intro offset inside
          obtain ⟨other, member, known⟩ := ih.among offset inside
          exact ⟨other, mem_append_left _ member, known⟩

end Subscriptions

/-- Messages a subscriber has seen before it resumes come before all that are due to it, and not at all to one that resumes
from the boundary of a bootstrap. -/
def UndueFirst (resume : List Int) (messages : List KafkaMessage) : Prop :=
  ∀ before message after, messages = before ++ message :: after → due resume message = false →
    (decodePosition resumeBytes).isSome ∧ ∀ other ∈ before, due resume other = false

/-- When a due message is consumed, the other partitions have reached the offsets the subscriber resumes from. -/
def CaughtUp (start resume : List Int) (messages : List KafkaMessage) : Prop :=
  ∀ before message after, messages = before ++ message :: after → due resume message →
    ∀ (partition : Nat) (least next : Int), partition ≠ message.partition → resume[partition]? = some least →
      (offsetsAfter start before)[partition]? = some next → least ≤ next

section Exactness

variable {start resume : List Int} {resumeBytes : ByteString} {messages : List KafkaMessage}

theorem handed_eq_filter_iff :
    handed resumeBytes resume messages = messages.filter (due resume) ↔ UndueFirst resumeBytes resume messages := by
  have due_opens (message : KafkaMessage) (isDue : due resume message) : opens resumeBytes resume message := by
    rw [opens, isDue, Bool.or_true]
  unfold handed UndueFirst
  rw [dropWhile_eq_filter_iff messages due_opens]
  constructor
  · intro shut before message after split undue
    have closed := shut before message after split undue
    have own := closed message mem_concat_self
    rw [opens, Bool.or_eq_false_iff, Option.isNone_eq_false_iff] at own
    refine ⟨own.1, fun other member => ?_⟩
    exact (Bool.or_eq_false_iff.mp (closed other (mem_append_left _ member))).2
  · intro first before message after split undue other member
    obtain ⟨native, seen⟩ := first before message after split undue
    rw [opens, Bool.or_eq_false_iff, Option.isNone_eq_false_iff]
    refine ⟨native, ?_⟩
    rcases mem_append.mp member with earlier | same
    · exact seen other earlier
    · rwa [mem_singleton.mp same]

/-- A vector written with a due message reaches the resume offsets if those of the other partitions do. -/
theorem atLeast_advanceOffsets_iff {offsets message} (isDue : due resume message) :
    AtLeast resume (advanceOffsets offsets message) ↔
      ∀ (partition : Nat) (least next : Int), partition ≠ message.partition → resume[partition]? = some least →
        offsets[partition]? = some next → least ≤ next := by
  constructor
  · intro atLeast partition least next other leastAt nextAt
    apply atLeast partition least next leastAt
    rwa [advanceOffsets, getElem?_set_ne (Ne.symm other)]
  · intro others partition least next leastAt nextAt
    by_cases same : message.partition = partition
    · subst same
      rw [due, leastAt, Option.all_some, decide_eq_true_eq] at isDue
      rw [advanceOffsets, getElem?_set, if_pos rfl] at nextAt
      split at nextAt
      · have isNext := Option.some.inj nextAt
        omega
      · cases nextAt
    · rw [advanceOffsets, getElem?_set_ne same] at nextAt
      exact others partition least next (.symm same) leastAt nextAt

/-- What a subscriber got is right just under the two conditions. -/
theorem KafkaServed.deliversReplay_iff {own consumer}
    (served : KafkaServed start resume resumeBytes own messages consumer) :
    ∃ dispatcher, consumer.base.dispatchers[own]? = some dispatcher ∧
      (DeliversReplay resume messages dispatcher.channel.delivered ↔ UndueFirst resumeBytes resume messages ∧
        (8 + 8 * start.length ≤ maxSourcePositionBytes → CaughtUp start resume messages)) := by
  obtain ⟨dispatcher, here, delivered, checkpoints⟩ := served.delivered
  refine ⟨dispatcher, here, ?_⟩
  unfold DeliversReplay
  rw [delivered, map_inj_right (fun _ _ => Option.some.inj), handed_eq_filter_iff]
  apply and_congr_right
  intro undueFirst
  simp only [checkpoints]
  constructor
  · intro written fits before message after split isDue
    apply (atLeast_advanceOffsets_iff isDue).mp
    rw [← offsetsAfter_concat]
    apply written _ ⟨fits, before, message, after, split, ⟨message, mem_concat_self, ?_⟩, rfl⟩
    rw [opens, isDue, Bool.or_true]
  · intro caught offsets holds
    obtain ⟨fits, before, message, after, split, ⟨other, member, open_⟩, rfl⟩ := holds
    -- With the seen messages first, only due ones were handed out.
    have isDue : due resume message := by
      by_contra undue
      obtain ⟨native, seen⟩ := undueFirst before message after split (Bool.not_eq_true _ ▸ undue)
      rw [opens, Option.isNone_eq_false_iff.mpr native, Bool.false_or] at open_
      rcases mem_append.mp member with earlier | same
      · rw [seen other earlier] at open_
        cases open_
      · rw [mem_singleton.mp same] at open_
        exact undue open_
    rw [offsetsAfter_concat, atLeast_advanceOffsets_iff isDue]
    exact caught fits before message after split isDue

end Exactness

theorem Subscribed.served {subscribers source} (subscribed : Subscribed subscribers source) {own settings position}
    (here : subscribers[own]? = some settings) (resumes : settings.resumeFrom = some position) (start resume : List Int) :
    KafkaServed start resume position own [] ⟨source.base, start⟩ := by
  have inside : own < source.base.dispatchers.length := by
    rw [subscribed.count]
    exact (List.getElem?_eq_some_iff.mp here).1
  have fresh := subscribed.fresh _ (List.getElem_mem inside)
  refine ⟨rfl, ⟨_, List.getElem?_eq_getElem inside, by rw [fresh]; rfl, ?_⟩, ?_, fun some => absurd rfl some⟩
  · intro offsets
    rw [fresh]
    refine ⟨fun member => absurd member not_mem_nil, fun holds => ?_⟩
    obtain ⟨before, message, after, split, _⟩ := holds.2
    exact absurd split.symm (append_ne_nil_of_right_ne_nil _ (cons_ne_nil _ _))
  · intro _
    exact subscribed.marks own settings position here resumes

/-- **Replay of a topic**: a subscriber gets every message from the offsets it resumes from on, once, and checkpoints nothing
below them, just if the messages it has seen come first and the other partitions catch up before its first event. -/
theorem kafka_replay_exactly_once_iff {id : String} {capacity partitions : Nat}
    {subscribers : List (SourceSubscriptionSettings ByteString)} {consumer : KafkaConsumer}
    (distinct : (subscribers.map (·.queryId)).Nodup)
    (vectors : ∀ settings ∈ subscribers, ∃ position offsets, settings.resumeFrom = some position ∧
      resumeOffsets position = some offsets ∧ offsets.length = partitions)
    (resumed : KafkaConsumer.resume ((KafkaSource.new id).subscribeAll subscribers capacity) partitions = some consumer)
    {messages : List (KafkaMessage × Int)} (consumed : ConsumedFrom consumer.currentOffsets (messages.map (·.1)))
    {own : Nat} {settings : SourceSubscriptionSettings ByteString} {position : ByteString} {resume : List Int}
    (here : subscribers[own]? = some settings) (resumes : settings.resumeFrom = some position)
    (decodes : resumeOffsets position = some resume) :
    ∃ dispatcher, (consumer.consumeAll messages).base.dispatchers[own]? = some dispatcher ∧
      (DeliversReplay resume (messages.map (·.1)) dispatcher.channel.delivered ↔
        UndueFirst position resume (messages.map (·.1)) ∧
          (8 + 8 * partitions ≤ maxSourcePositionBytes →
            CaughtUp consumer.currentOffsets resume (messages.map (·.1)))) := by
  have subscribed := subscribed_subscribeAll id capacity distinct
  obtain ⟨start, found, rfl⟩ := Option.map_eq_some_iff.mp resumed
  have isLeast := foldl_takeMinimum partitions
    (((KafkaSource.new id).subscribeAll subscribers capacity).subscriberResumePositions.entries.map (·.2))
  unfold minimumResumeOffsets at found
  rw [found] at isLeast
  have length : resume.length = partitions := by
    obtain ⟨other, offsets, sameFrom, sameOffsets, known⟩ := vectors settings (mem_of_getElem? here)
    obtain rfl : position = other := Option.some.inj (resumes.symm.trans sameFrom)
    obtain rfl : resume = offsets := Option.some.inj (decodes.symm.trans sameOffsets)
    exact known
  have range : ∀ offset ∈ start, Signed64 offset := by
    intro offset member
    obtain ⟨vector, vectorKnown, inside⟩ := isLeast.among offset member
    obtain ⟨entry, entryKnown, rfl⟩ := mem_map.mp vectorKnown
    obtain ⟨bytes, from_⟩ := subscribed.known entry entryKnown
    exact (bounds_of_resumeOffsets from_).2 offset inside
  have count : start.length ≤ maxPartitionCount := by
    rw [isLeast.length, ← length]
    exact (bounds_of_resumeOffsets decodes).1
  have served := (subscribed.served here resumes start resume).consumeAll messages consumed count range decodes
    (length.trans isLeast.length.symm)
  have exact_ := served.deliversReplay_iff
  rw [isLeast.length] at exact_
  exact exact_

section Samples

def resumingOffsets (queryId : String) (offsets : List Int) : SourceSubscriptionSettings ByteString :=
  ⟨queryId, some (encodePosition 0 offsets), none, false⟩

def messageAt (partition : Nat) (offset : Int) : KafkaMessage := ⟨partition, offset, .delete ⟨⟨"topic", "key"⟩, [], 0⟩⟩

/-- The consumer for queries that resume from the given offsets. -/
def consumerFrom (vectors : List (List Int)) (start : List Int) : KafkaConsumer :=
  ⟨((KafkaSource.new "topic").subscribeAll (vectors.mapIdx fun index => resumingOffsets (toString index)) 16).base, start⟩

def twoSubscribers : List (SourceSubscriptionSettings ByteString) := [resumingOffsets "0" [1, 1], resumingOffsets "1" [2, 1]]

def replayed : List KafkaMessage := [messageAt 0 1, messageAt 0 2, messageAt 1 1]

/-- Two queries resume on two partitions. The second one has seen one message more: it gets the two messages after it. -/
theorem kafka_replay_exactly_once_second :
    ∃ dispatcher, ((consumerFrom [[1, 1], [2, 1]] [1, 1]).consumeAll (replayed.map (·, 0))).base.dispatchers[1]? =
        some dispatcher ∧
      replayed.filter (due [2, 1]) = [messageAt 0 2, messageAt 1 1] ∧
      DeliversReplay [2, 1] replayed dispatcher.channel.delivered := by
  have decodes : resumeOffsets (encodePosition 0 [2, 1]) = some [2, 1] := by decide +kernel
  have decodes' : resumeOffsets (encodePosition 0 [1, 1]) = some [1, 1] := by decide +kernel
  have consumed : ConsumedFrom [1, 1] ((replayed.map (·, (0 : Int))).map (·.1)) := by
    refine ⟨?_, ?_, ?_⟩ <;> simp [replayed, messageAt]
  have vectors : ∀ settings ∈ twoSubscribers, ∃ position offsets, settings.resumeFrom = some position ∧
      resumeOffsets position = some offsets ∧ offsets.length = 2 := by
    simp only [twoSubscribers, forall_mem_cons]
    exact ⟨⟨_, _, rfl, decodes', rfl⟩, ⟨_, _, rfl, decodes, rfl⟩, forall_mem_nil _⟩
  have resumed : KafkaConsumer.resume ((KafkaSource.new "topic").subscribeAll twoSubscribers 16) 2 =
      some (consumerFrom [[1, 1], [2, 1]] [1, 1]) :=
    Option.map_eq_some_iff.mpr ⟨[1, 1], by decide +kernel, rfl⟩
  have second : twoSubscribers[1]? = some (resumingOffsets "1" [2, 1]) := rfl
  obtain ⟨dispatcher, here, delivers⟩ :=
    kafka_replay_exactly_once_iff (by decide) vectors resumed consumed second rfl decodes
  have splits {before after : List KafkaMessage} {message : KafkaMessage} (split : replayed = before ++ message :: after) :
      before = [] ∧ message = messageAt 0 1 ∨ before = [messageAt 0 1] ∧ message = messageAt 0 2 ∨
        before = [messageAt 0 1, messageAt 0 2] ∧ message = messageAt 1 1 := by
    rcases before with _ | ⟨_, _ | ⟨_, _ | ⟨_, _⟩⟩⟩ <;> simp_all [replayed]
  refine ⟨dispatcher, here, rfl, delivers.mpr ⟨?_, fun _ => ?_⟩⟩
  · intro before message after split undue
    rcases splits split with ⟨rfl, rfl⟩ | ⟨rfl, rfl⟩ | ⟨rfl, rfl⟩
    · exact ⟨by decide +kernel, forall_mem_nil _⟩
    · exact absurd undue (by decide)
    · exact absurd undue (by decide)
  · intro before message after split isDue partition least next other leastAt nextAt
    rcases splits split with ⟨rfl, rfl⟩ | ⟨rfl, rfl⟩ | ⟨rfl, rfl⟩
    · exact absurd isDue (by decide)
    · exact (Option.some.inj (leastAt.symm.trans nextAt)).le
    · rcases partition with _ | _ | _
      · obtain rfl : 2 = least := Option.some.inj leastAt
        obtain rfl : 3 = next := Option.some.inj nextAt
        decide
      · exact absurd rfl other
      · cases leastAt

/-- Two queries have each seen ten messages of one of two partitions. The first message of the other partition resets what
the first query has seen, so that it gets an old message again; and its checkpoint falls back. -/
theorem replay_hands_out_seen_message :
    ∃ dispatcher,
      KafkaConsumer.resume
        ((KafkaSource.new "topic").subscribeAll [resumingOffsets "0" [0, 10], resumingOffsets "1" [10, 0]] 16) 2 =
          some (consumerFrom [[0, 10], [10, 0]] [0, 0]) ∧
      ConsumedFrom [0, 0] [messageAt 0 0, messageAt 1 0] ∧
      ((consumerFrom [[0, 10], [10, 0]] [0, 0]).consumeAll
        [(messageAt 0 0, 0), (messageAt 1 0, 0)]).base.dispatchers[0]? = some dispatcher ∧
      ¬ DeliversReplay [0, 10] [messageAt 0 0, messageAt 1 0] dispatcher.channel.delivered := by
  have counts : (((consumerFrom [[0, 10], [10, 0]] [0, 0]).consumeAll
      [(messageAt 0 0, 0), (messageAt 1 0, 0)]).base.dispatchers[0]?).map (·.channel.delivered.length) = some 2 := by
    decide +kernel
  obtain ⟨dispatcher, here, two⟩ := Option.map_eq_some_iff.mp counts
  refine ⟨dispatcher, Option.map_eq_some_iff.mpr ⟨[0, 0], by decide +kernel, rfl⟩, ?_, here, ?_⟩
  · refine ⟨?_, ?_, ?_⟩
    · simp [messageAt]
    · simp [messageAt]
    · simp [messageAt]
  · intro delivers
    have length := congrArg List.length delivers.1
    rw [length_map, two] at length
    exact absurd length (by decide)

end Samples

end DrasiCore.Proofs
