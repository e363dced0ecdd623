import DrasiCore.ShadowedFutureQueue
import DrasiCore.Proofs.SessionAtomicity

/-! When the shadow of the head of the queue is right. It follows the queue as the open session sees it, so it is wrong
after a rollback that takes back what it followed, and after a peek that entered the committed head while a session had
changed it. -/

namespace DrasiCore

open Library RocksDbFutureQueue SessionState

namespace SessionState

variable {Contents : StoreFamily → Type} {Answer ε : Type} {fromIndex : IndexError → ε} {state : SessionState Contents}

theorem Sound.begin_reads (sound : state.Sound) :
    state.begin.2.committed = state.committed ∧ state.begin.2.view = state.view := by
  unfold SessionState.begin
  split
  · exact ⟨rfl, rfl⟩
  split
  · exact ⟨rfl, rfl⟩
  case isFalse outermost =>
    have closed : state.txn = none := sound.mpr (by omega)
    exact ⟨rfl, (view_of_closed closed).symm⟩

/-- A commit changes nothing, publishes what the session sees, or is rejected and gives it up. -/
theorem commit_reads (state : SessionState Contents) (outcome : CommitOutcome) :
    ((state.commit outcome).2.committed = state.committed ∧ (state.commit outcome).2.view = state.view) ∨
      ((state.commit outcome).2.committed = state.view ∧ (state.commit outcome).2.view = state.view) ∨
      ((∃ error, outcome = .rejected error) ∧ (state.commit outcome).2.committed = state.committed ∧
        (state.commit outcome).2.view = state.committed) := by
  unfold SessionState.commit
  split
  · exact .inl ⟨rfl, rfl⟩
  split
  · exact .inl ⟨rfl, rfl⟩
  split
  · exact .inl ⟨rfl, rfl⟩
  · split
    · exact .inl ⟨rfl, rfl⟩
    case h_2 writes isOpen =>
      split
      case h_1 => exact .inr (.inr ⟨⟨_, rfl⟩, rfl, rfl⟩)
      case h_2 => exact .inr (.inl ⟨by simp [view, isOpen], by simp [view, isOpen, Stores.applyAll]⟩)
  · exact .inl ⟨rfl, rfl⟩

theorem rollback_reads (state : SessionState Contents) : state.rollback.2.committed = state.committed ∧
    (state.rollback.2.view = state.view ∨ state.rollback.2.view = state.committed) := by
  unfold rollback
  split
  · exact ⟨rfl, .inl rfl⟩
  split
  · exact ⟨rfl, .inl rfl⟩
  · exact ⟨rfl, .inr rfl⟩

theorem withTxn_reads {family} (needs : family.worksWithoutSession = false) (call : StoreCall Contents Answer ε family)
    (state : SessionState Contents) :
    (∃ error, state.withTxn fromIndex family call = (.error error, state)) ∨
      (state.txn ≠ none ∧ (state.withTxn fromIndex family call).1 = (answered fromIndex (call state.committed state.view)).1 ∧
        (state.withTxn fromIndex family call).2.committed = state.committed ∧
        (state.withTxn fromIndex family call).2.view =
          state.view.applyAll (answered fromIndex (call state.committed state.view)).2 ∧
        (state.withTxn fromIndex family call).2.txn ≠ none) := by
  unfold withTxn
  split
  · exact .inl ⟨_, rfl⟩
  split
  case h_1 staged isOpen => exact .inr ⟨by simp [isOpen], rfl, rfl, by simp [view, isOpen, Stores.applyAll_append], by simp⟩
  case h_2 =>
    rw [if_neg (by simp [needs])]
    exact .inl ⟨_, rfl⟩

end SessionState

namespace RocksDbFutureQueue

variable (data : RocksDbFutureQueue)

theorem dueTimes_eq : data.dueTimes = (data.queue.keys.map (·.1) : List ElementTimestamp) := by
  have same : data.queue.entries.map (·.2.2.dueTime) = data.queue.keys.map (·.1) := by
    rw [AList.keys, List.keys, List.map_map]
    apply List.map_congr_left
    intro entry member
    exact (congrArg Prod.fst (data.keyed entry member)).symm
  exact congrArg _ same

theorem hasLeast_peekDueTime : HasLeast data.dueTimes data.peekDueTime := by
  rw [dueTimes_eq]
  cases found : data.peekDueTime with
  | none => exact congrArg _ (List.min?_eq_none_iff.mp found)
  | some least =>
    obtain ⟨member, below⟩ := List.min?_eq_some_iff.mp found
    exact ⟨member, fun dueTime inside => below dueTime inside⟩

theorem mem_dueKeys_put (stored : StoredFuture) (dueTime : ElementTimestamp) :
    dueTime ∈ (data.put stored).queue.keys.map (·.1) ↔
      dueTime = stored.2.dueTime ∨ dueTime ∈ data.queue.keys.map (·.1) := by
  simp only [put, List.mem_map, ← AList.mem_keys, AList.mem_insert]
  constructor
  · rintro ⟨key, rfl | old, rfl⟩
    · exact .inl rfl
    · exact .inr ⟨key, old, rfl⟩
  · rintro (rfl | ⟨key, old, rfl⟩)
    · exact ⟨(stored.2.dueTime, stored), .inl rfl, rfl⟩
    · exact ⟨key, .inr old, rfl⟩

theorem peekDueTime_put (stored : StoredFuture) :
    (data.put stored).peekDueTime =
      some (match data.peekDueTime with
        | some head => if stored.2.dueTime < head then stored.2.dueTime else head
        | none => stored.2.dueTime) := by
  have member := mem_dueKeys_put data stored
  apply List.min?_eq_some_iff.mpr
  cases found : data.peekDueTime with
  | none =>
    have empty := List.min?_eq_none_iff.mp found
    rw [empty] at member
    refine ⟨(member _).mpr (.inl rfl), fun other inside => ?_⟩
    rcases (member other).mp inside with rfl | old
    · exact le_refl _
    · cases old
  | some head =>
    obtain ⟨there, below⟩ := List.min?_eq_some_iff.mp found
    by_cases earlier : stored.2.dueTime < head
    · simp only [earlier, if_true]
      refine ⟨(member _).mpr (.inl rfl), fun other inside => ?_⟩
      rcases (member other).mp inside with rfl | old
      · exact le_refl _
      · exact earlier.le.trans (below other old)
    · simp only [earlier, if_false]
      refine ⟨(member _).mpr (.inr there), fun other inside => ?_⟩
      rcases (member other).mp inside with rfl | old
      · exact not_lt.mp earlier
      · exact below other old

theorem peekDueTime_push_le (pushType : PushType) (stored : StoredFuture) :
    ∃ head, (data.push pushType stored).peekDueTime = some head ∧ head ≤ stored.2.dueTime := by
  have put (other : RocksDbFutureQueue) : ∃ head, (other.put stored).peekDueTime = some head ∧ head ≤ stored.2.dueTime := by
    refine ⟨_, peekDueTime_put other stored, ?_⟩
    split
    · split
      · exact le_refl _
      case isFalse later => exact not_lt.mp later
    · exact le_refl _
  cases pushType with
  | overwrite => exact put _
  | _ => exact put data

end RocksDbFutureQueue

namespace Proofs

open ShadowedFutureQueue

variable (queue : ShadowedFutureQueue)

/-- The session has not changed the least due time, or there is none. -/
def HeadUnchanged : Prop := queue.view.peekDueTime = queue.committed.peekDueTime

/-- A peek reads the database, and a session with a known head is given up, only while the session has not changed the
least due time. -/
def SparesHead : ShadowAction → Prop
  | .peekRead => HeadUnchanged queue
  | .rollback => queue.headShadow = .unknown ∨ HeadUnchanged queue
  | .commit (.rejected _) => queue.headShadow = .unknown ∨ HeadUnchanged queue
  | _ => True

/-- A known head is that of the session, once the push under way has looked at it. -/
def FollowsHead (shadow : HeadItemShadow) : Prop :=
  ∀ head, (match queue.pushing with | none => shadow | some push => shadow.pushed push) = .known head →
    queue.view.peekDueTime = head

structure ShadowRight (queue : ShadowedFutureQueue) : Prop where
  sound : queue.session.Sound
  shadow : FollowsHead queue queue.headShadow
  /-- What a peek has read is right, too, and it only reads when the head is not known. -/
  read : ∀ read, queue.peeking = some read →
    queue.headShadow = .unknown ∧ read = queue.committed.peekDueTime ∧ FollowsHead queue (.known read)
  /-- A push is under way inside a session only, and what it pushed is there. -/
  pushes : ∀ push, queue.pushing = some push → queue.session.txn ≠ none ∧
    (push.result = true → ∃ head, queue.view.peekDueTime = some head ∧ head ≤ push.dueTime)

theorem follows_unknown : FollowsHead queue .unknown := by
  intro head known
  split at known
  · cases known
  · simp only [HeadItemShadow.pushed] at known
    split at known
    · cases known
    · split at known <;> cases known

theorem follows_of_idle {queue shadow} (idle : queue.pushing = none)
    (right : ∀ head, shadow = .known head → queue.view.peekDueTime = head) : FollowsHead queue shadow := by
  intro head known
  rw [idle] at known
  exact right head known

namespace ShadowRight

variable {queue after : ShadowedFutureQueue}

theorem idle_follows {shadow} (follows : FollowsHead queue shadow) (idle : queue.pushing = none) {head}
    (known : shadow = .known head) : queue.view.peekDueTime = head :=
  follows head (by rw [idle]; exact known)

theorem new (committed : Stores QueueStores) : ShadowRight (.new committed) where
  sound := ⟨fun _ => rfl, fun _ => rfl⟩
  shadow := follows_unknown _
  read _ reading := nomatch reading
  pushes _ pushing := nomatch pushing

section

variable (right : ShadowRight queue)
include right

section

variable (idle : queue.pushing = none)
include idle

variable {session : SessionState QueueStores}

/-- A session step outside a push. The shadow stays right where the view keeps its head or the shadow is not known, and so
does what a peek has read where the view does not change or both queues become the same. -/
theorem of_session
    (sound : session.Sound)
    (heads : queue.headShadow = .unknown ∨
      peekDueTime (.ofStores session.view) = queue.view.peekDueTime)
    (reads : (session.committed = queue.session.committed ∧
        (session.view = queue.session.view ∨ session.view = queue.session.committed)) ∨
      (session.committed = queue.session.view ∧ session.view = queue.session.view)) :
    ShadowRight { queue with session := session } where
  sound := sound
  shadow := by
    rcases heads with unknown | same
    · simp only [unknown]
      exact follows_unknown _
    · exact follows_of_idle idle fun head known => same.trans (idle_follows right.shadow idle known)
  read read reading := by
    obtain ⟨unknown, fromCommitted, follows⟩ := right.read read reading
    have fromView := idle_follows follows idle rfl
    refine ⟨unknown, ?_, follows_of_idle idle fun head known => ?_⟩
    · rcases reads with ⟨kept, _⟩ | ⟨published, _⟩
      · simpa [ShadowedFutureQueue.committed, kept] using fromCommitted
      · simpa [ShadowedFutureQueue.committed, published, ShadowedFutureQueue.view] using fromView.symm
    · obtain rfl := HeadItemShadow.known.inj known
      rcases reads with ⟨_, same | dropped⟩ | ⟨_, same⟩
      · simpa [ShadowedFutureQueue.view, same] using fromView
      · simpa [ShadowedFutureQueue.view, ShadowedFutureQueue.committed, dropped] using fromCommitted.symm
      · simpa [ShadowedFutureQueue.view, same] using fromView
  pushes push pushing := nomatch idle.symm.trans pushing

theorem begin : ShadowRight { queue with session := queue.session.begin.2 } := by
  obtain ⟨committed, view⟩ := right.sound.begin_reads
  exact right.of_session idle right.sound.begin (.inr (by rw [view]; rfl)) (.inl ⟨committed, .inl view⟩)

theorem commit {outcome} (spares : SparesHead queue (.commit outcome)) :
    ShadowRight { queue with session := (queue.session.commit outcome).2 } := by
  have sound := right.sound.commit outcome
  rcases queue.session.commit_reads outcome with ⟨committed, view⟩ | ⟨committed, view⟩ | ⟨⟨error, rfl⟩, committed, view⟩
  · exact right.of_session idle sound (.inr (by rw [view]; rfl)) (.inl ⟨committed, .inl view⟩)
  · exact right.of_session idle sound (.inr (by rw [view]; rfl)) (.inr ⟨committed, view⟩)
  · refine right.of_session idle sound ?_ (.inl ⟨committed, .inr view⟩)
    exact spares.imp_right fun unchanged => by rw [view]; exact unchanged.symm

theorem rollback (spares : SparesHead queue .rollback) :
    ShadowRight { queue with session := queue.session.rollback.2 } := by
  have sound := right.sound.rollback
  obtain ⟨committed, view | view⟩ := queue.session.rollback_reads
  · exact right.of_session idle sound (.inr (by rw [view]; rfl)) (.inl ⟨committed, .inl view⟩)
  · refine right.of_session idle sound ?_ (.inl ⟨committed, .inr view⟩)
    exact spares.imp_right fun unchanged => by rw [view]; exact unchanged.symm

theorem of_pushed {pushType : PushType} {result : Bool} (stored : StoredFuture) (sound : session.Sound)
    (isOpen : session.txn ≠ none) (committed : session.committed = queue.session.committed)
    (view : ofStores session.view = if result then queue.view.push pushType stored else queue.view) :
    ShadowRight { queue with session := session, pushing := some ⟨pushType, result, stored.2.dueTime⟩ } := by
  let pushed : ShadowedFutureQueue :=
    { queue with session := session, pushing := some ⟨pushType, result, stored.2.dueTime⟩ }
  have follows (shadow : HeadItemShadow) (before : FollowsHead queue shadow) : FollowsHead pushed shadow := by
    intro head known
    change peekDueTime (.ofStores session.view) = head
    rw [view]
    simp only [pushed, HeadItemShadow.pushed] at known
    split at known
    case isTrue => cases known
    case isFalse adds =>
      cases result with
      | false => exact idle_follows before idle known
      | true =>
        have put : queue.view.push pushType stored = queue.view.put stored := by
          cases pushType with
          | overwrite => exact absurd rfl adds
          | _ => rfl
        simp only [if_true] at known ⊢
        rw [put, peekDueTime_put]
        split at known
        case h_1 head =>
          rw [idle_follows before idle rfl]
          split at known
          case isTrue earlier => simpa [earlier] using HeadItemShadow.known.inj known
          case isFalse later => simpa [later] using HeadItemShadow.known.inj known
        case h_2 =>
          rw [idle_follows before idle rfl]
          exact HeadItemShadow.known.inj known
        case h_3 => cases known
  refine ⟨sound, follows _ right.shadow, ?_, ?_⟩
  · intro read reading
    obtain ⟨unknown, fromCommitted, before⟩ := right.read read reading
    exact ⟨unknown, by simpa [ShadowedFutureQueue.committed, committed] using fromCommitted, follows _ before⟩
  · intro push pushing
    obtain rfl := Option.some.inj pushing
    refine ⟨isOpen, ?_⟩
    rintro rfl
    change ∃ head, peekDueTime (.ofStores session.view) = some head ∧ _
    rw [view]
    exact peekDueTime_push_le _ _ _

theorem pushInner (pushType : PushType) (positionInQuery : Nat) (groupSignature : Signature)
    (elementRef : ElementReference) (originalTime dueTime : ElementTimestamp) :
    ShadowRight (queue.pushInner pushType positionInQuery groupSignature elementRef originalTime dueTime) := by
  let call := pushCall pushType positionInQuery groupSignature elementRef originalTime dueTime
  have sound : (queue.session.withTxn id .futureQueue call).2.Sound := right.sound.withTxn call
  have reads : (∃ error, queue.session.withTxn id .futureQueue call = (.error error, queue.session)) ∨ _ :=
    withTxn_reads rfl call queue.session
  rcases reads with ⟨error, failed⟩ | ⟨_, answer, committed, view, isOpen⟩
  · have same : queue.pushInner pushType positionInQuery groupSignature elementRef originalTime dueTime = queue := by
      unfold ShadowedFutureQueue.pushInner
      rw [failed]
    rw [same]
    exact right
  · unfold ShadowedFutureQueue.pushInner
    split
    case h_1 result session done =>
      replace done : queue.session.withTxn id .futureQueue call = (.ok result, session) := done
      rw [done] at sound answer committed view isOpen
      obtain rfl := Except.ok.inj answer
      let stored := storedFuture positionInQuery groupSignature elementRef originalTime dueTime
      refine right.of_pushed idle stored sound isOpen committed ?_
      change session.view .futureQueue = _
      rw [view]
      simp only [call, pushCall, pushOutcome, answered]
      split <;> rfl
    case h_2 error session failed =>
      replace failed : queue.session.withTxn id .futureQueue call = (.error error, session) := failed
      rw [failed] at answer
      cases answer

theorem of_forgotten (free : queue.peeking = none) {Answer : Type}
    (call : StoreCall QueueStores Answer IndexError .futureQueue) :
    ShadowRight { queue with headShadow := .unknown, session := (queue.session.withTxn id .futureQueue call).2 } where
  sound := right.sound.withTxn call
  shadow := follows_unknown _
  read _ reading := nomatch free.symm.trans reading
  pushes _ pushing := nomatch idle.symm.trans pushing

end

theorem pushShadow {push} (pending : queue.pushing = some push) (free : queue.peeking = none) :
    ShadowRight { queue with headShadow := queue.headShadow.pushed push, pushing := none } where
  sound := right.sound
  shadow head known := right.shadow head (by rw [pending]; exact known)
  read _ reading := nomatch free.symm.trans reading
  pushes _ pushing := nomatch pushing

/-- A peek that reads the head of the session enters what a push under way leaves as it is. -/
theorem peekRead (unknown : queue.headShadow = .unknown) (unchanged : HeadUnchanged queue) :
    ShadowRight { queue with peeking := some queue.committed.peekDueTime } where
  sound := right.sound
  shadow := right.shadow
  read read reading := by
    obtain rfl := Option.some.inj reading
    refine ⟨unknown, rfl, ?_⟩
    intro head known
    change queue.view.peekDueTime = head
    simp only at known
    split at known
    case h_1 => exact unchanged.trans (HeadItemShadow.known.inj known)
    case h_2 push pending =>
      simp only [HeadItemShadow.pushed] at known
      split at known
      · cases known
      split at known
      case isTrue pushed =>
        obtain ⟨least, found, before⟩ := (right.pushes push pending).2 pushed
        rw [← unchanged, found] at known
        simp only [not_lt.mpr before, if_false] at known
        exact found.trans (HeadItemShadow.known.inj known)
      case isFalse => exact unchanged.trans (HeadItemShadow.known.inj known)
  pushes := right.pushes

theorem step {action} (spares : SparesHead queue action) (taken : Step action queue after) : ShadowRight after := by
  cases taken with
  | begin idle => exact right.begin idle
  | commit outcome idle => exact right.commit idle spares
  | rollback idle => exact right.rollback idle spares
  | pushInner pushType positionInQuery groupSignature elementRef originalTime dueTime idle =>
    exact right.pushInner idle pushType positionInQuery groupSignature elementRef originalTime dueTime
  | pushShadow pending free => exact right.pushShadow pending free
  | remove positionInQuery groupSignature idle free => exact right.of_forgotten idle free _
  | pop order idle free => exact right.of_forgotten idle free _
  | peekRead free unknown => exact right.peekRead unknown spares
  | peekStore holds =>
    obtain ⟨_, _, follows⟩ := right.read _ holds
    exact ⟨right.sound, follows, (fun _ reading => nomatch reading), right.pushes⟩
  | peekDropped holds => exact ⟨right.sound, right.shadow, (fun _ reading => nomatch reading), right.pushes⟩

end

theorem reached {committed} (run : Reached SparesHead (.new committed) queue) : ShadowRight queue := by
  induction run with
  | refl => exact .new committed
  | tail _ last ih =>
    obtain ⟨action, spares, taken⟩ := last
    exact ih.step spares taken

/-- Outside a session a peek answers with the head of the committed queue. -/
theorem peekDueTime_eq (right : ShadowRight queue) (closed : queue.session.txn = none) :
    queue.peekDueTime = queue.committed.peekDueTime := by
  have idle : queue.pushing = none := by
    cases pending : queue.pushing with
    | none => rfl
    | some push => exact absurd closed (right.pushes push pending).1
  have same : queue.view = queue.committed := congrArg ofStores (view_of_closed closed)
  unfold ShadowedFutureQueue.peekDueTime
  split
  case h_1 read reading => exact (right.read read reading).2.1
  case h_2 =>
    split
    case h_1 head known => rw [← same, idle_follows right.shadow idle known]
    case h_2 => rfl

end ShadowRight

/-- **The shadow never hides a due future** in a run whose peeks read the database, and whose sessions with a known head
are given up, only while the session has not changed the least due time: once no session is open, a peek answers with the
least due time of the committed queue. -/
theorem shadow_never_hides_due_future {committed : Stores QueueStores} {queue : ShadowedFutureQueue}
    (run : Reached SparesHead (.new committed) queue) (closed : queue.session.txn = none) :
    HasLeast queue.committed.dueTimes queue.peekDueTime := by
  rw [(ShadowRight.reached run).peekDueTime_eq closed]
  exact queue.committed.hasLeast_peekDueTime

section Runs

def noFutures : Stores QueueStores
  | .futureQueue => empty
  | .elementIndex | .resultIndex | .checkpoint | .outbox | .liveResults => ()

/-- A session has begun and pushed one future, and the push has looked at the shadow. -/
def onePushed (pushType : PushType) : ShadowedFutureQueue :=
  let begun : ShadowedFutureQueue := { ShadowedFutureQueue.new noFutures with session := (SessionState.new noFutures).begin.2 }
  let pushed := begun.pushInner pushType 0 .zero ⟨"source", "element"⟩ 0 5
  { pushed with headShadow := pushed.headShadow.pushed ⟨pushType, true, 5⟩, pushing := none }

theorem reached_onePushed (allowed : ShadowedFutureQueue → ShadowAction → Prop) (pushType : PushType)
    (begins : ∀ queue, allowed queue .begin)
    (pushes : ∀ queue, allowed queue (.pushInner pushType 0 .zero ⟨"source", "element"⟩ 0 5))
    (looks : ∀ queue, allowed queue .pushShadow) : Reached allowed (.new noFutures) (onePushed pushType) := by
  have begun : Reached allowed (.new noFutures) _ := .single ⟨.begin, begins _, .begin rfl⟩
  refine (begun.tail ⟨_, pushes _, .pushInner pushType 0 .zero ⟨"source", "element"⟩ 0 5 rfl⟩).tail
    ⟨.pushShadow, looks _, .pushShadow ?_ rfl⟩
  cases pushType <;> rfl

def pushedAt (dueTime : ElementTimestamp) : ShadowAction := .pushInner .always 0 .zero ⟨"source", "element"⟩ 0 dueTime

/-- A push is committed and peeked at; the next push lowers the known head and is committed; a third session pushes a later
future, is peeked at and rolled back. -/
theorem shadow_never_hides_known_head :
    ∃ queue, Reached SparesHead (.new noFutures) queue ∧ queue.session.txn = none ∧ queue.headShadow = .known (some 3) ∧
      queue.committed.dueTimes = {3, 5} ∧ HasLeast queue.committed.dueTimes queue.peekDueTime := by
  have first := (reached_onePushed SparesHead .overwrite (fun _ => trivial) (fun _ => trivial) (fun _ => trivial)).tail
    ⟨.commit .succeeds, trivial, .commit .succeeds rfl⟩
  have read := first.tail ⟨.peekRead, rfl, .peekRead rfl rfl⟩
  have known := read.tail ⟨.peekStore, trivial, .peekStore rfl⟩
  have begun := known.tail ⟨.begin, trivial, .begin rfl⟩
  have pushed := begun.tail ⟨pushedAt 3, trivial, .pushInner .always 0 .zero ⟨"source", "element"⟩ 0 3 rfl⟩
  have lowered := pushed.tail ⟨.pushShadow, trivial, .pushShadow rfl rfl⟩
  have second := lowered.tail ⟨.commit .succeeds, trivial, .commit .succeeds rfl⟩
  have third := second.tail ⟨.begin, trivial, .begin rfl⟩
  have later := (third.tail ⟨pushedAt 9, trivial, .pushInner .always 0 .zero ⟨"source", "element"⟩ 0 9 rfl⟩).tail
    ⟨.pushShadow, trivial, .pushShadow rfl rfl⟩
  have removed := later.tail ⟨.remove 1 .zero, trivial, .remove 1 .zero rfl rfl⟩
  have reread := removed.tail ⟨.peekRead, rfl, .peekRead rfl rfl⟩
  have stored := reread.tail ⟨.peekStore, trivial, .peekStore rfl⟩
  have last := stored.tail ⟨.rollback, .inr rfl, .rollback rfl⟩
  exact ⟨_, last, rfl, rfl, rfl, shadow_never_hides_due_future last rfl⟩

/-- A peek between a push and its commit enters the empty committed queue, and hides the future afterwards. -/
theorem peek_before_commit_hides_future :
    ¬ ∀ (committed : Stores QueueStores) (queue : ShadowedFutureQueue),
      Reached (fun _ _ => True) (.new committed) queue → queue.session.txn = none →
        HasLeast queue.committed.dueTimes queue.peekDueTime := by
  intro right
  have read := (reached_onePushed (fun _ _ => True) .overwrite (fun _ => trivial) (fun _ => trivial)
    (fun _ => trivial)).tail ⟨.peekRead, trivial, .peekRead rfl rfl⟩
  have run := (read.tail ⟨.peekStore, trivial, .peekStore rfl⟩).tail ⟨.commit .succeeds, trivial, .commit .succeeds rfl⟩
  have empty : ({5} : Multiset ElementTimestamp) = 0 := right noFutures _ run rfl
  exact Multiset.singleton_ne_zero 5 empty

end Runs

end Proofs

end DrasiCore
