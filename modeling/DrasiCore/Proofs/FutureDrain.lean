import DrasiCore.Library.LexDescent
import DrasiCore.Proofs.EvalRules
import DrasiCore.QueryProcessor

/-! The loop that answers the due signal. It takes the first future of the queue without looking at the clock, so it
is on time only where nothing that is not due is queued, before the loop or by it. A future that is processed can only
ask for later ones: where all are due the loop ends. -/

namespace DrasiCore

open Library Eval List InMemoryFutureQueue

variable {order : IterationOrder} {dueTime : ElementTimestamp} {futureRef : FutureElementRef} {due : ElementTimestamp}

namespace InMemoryFutureQueue

def dueCount (data : InMemoryFutureQueue) (due : ElementTimestamp) : Nat :=
  data.queue.countP (·.2.dueTime = due)

theorem countP_foldl_erase_le {α β : Type} [BEq α] (test : α → Bool) (item : β → α) (entries : List β) (queue : List α) :
    (entries.foldl (fun queue entry => queue.erase (item entry)) queue).countP test ≤
      queue.countP test := by
  induction entries generalizing queue with
  | nil => exact Nat.le_refl _
  | cons entry entries ih =>
    have erased : (queue.erase (item entry)).countP test ≤ queue.countP test := erase_sublist.countP_le
    exact (ih _).trans erased

section

variable (data : InMemoryFutureQueue)

theorem dueCount_remove_le (positionInQuery : Nat) (groupSignature : Signature) (due : ElementTimestamp) :
    (data.remove positionInQuery groupSignature).dueCount due ≤ data.dueCount due := by
  unfold remove dueCount
  exact countP_foldl_erase_le _ (fun entry : ElementTimestamp × ElementTimestamp × ElementReference =>
    (positionInQuery, (⟨entry.2.2, entry.2.1, entry.1, groupSignature⟩ : FutureElementRef))) _ _

theorem dueCount_add_of_ne (positionInQuery : Nat) (groupSignature : Signature) (elementRef : ElementReference)
    (originalTime : ElementTimestamp) (other : due ≠ dueTime) :
    (data.add positionInQuery groupSignature elementRef originalTime dueTime).dueCount due = data.dueCount due := by
  unfold add dueCount
  dsimp only
  rw [List.insert]
  split
  · rfl
  · rw [countP_cons_of_neg]
    simpa using other.symm

theorem dueCount_push_le (pushType : PushType) (positionInQuery : Nat) (groupSignature : Signature)
    (elementRef : ElementReference) (originalTime : ElementTimestamp) (other : due ≠ dueTime) :
    (data.push pushType positionInQuery groupSignature elementRef originalTime dueTime).dueCount due ≤
      data.dueCount due := by
  cases pushType with
  | always => exact (data.dueCount_add_of_ne _ _ _ _ other).le
  | ifNotExists =>
    unfold push
    dsimp only
    split
    · exact (data.dueCount_add_of_ne _ _ _ _ other).le
    · exact Nat.le_refl _
  | overwrite =>
    have added := (data.remove positionInQuery groupSignature).dueCount_add_of_ne positionInQuery groupSignature
      elementRef originalTime other
    exact added.le.trans (data.dueCount_remove_le _ _ _)

end

theorem mem_queue_of_pop {data popped : InMemoryFutureQueue} (found : data.pop order = (some futureRef, popped)) :
    ∃ position, (position, futureRef) ∈ data.queue ∧ popped.queue = data.queue.erase (position, futureRef) := by
  unfold pop at found
  split at found
  · cases found
  next position first taken =>
    cases found
    have head := mem_of_head? taken
    rw [IterationOrder.mem_arrange] at head
    exact ⟨position, (mem_filter.mp head).1, rfl⟩

theorem dueCount_pop {data popped : InMemoryFutureQueue} (found : data.pop order = (some futureRef, popped)) :
    popped.dueCount futureRef.dueTime < data.dueCount futureRef.dueTime ∧
      ∀ due, popped.dueCount due ≤ data.dueCount due := by
  obtain ⟨position, member, erased⟩ := mem_queue_of_pop found
  unfold dueCount
  rw [erased]
  refine ⟨?_, fun due => erase_sublist.countP_le⟩
  have present : 0 < data.queue.countP (·.2.dueTime = futureRef.dueTime) :=
    countP_pos_iff.mpr ⟨_, member, by simp⟩
  have counted := countP_erase (·.2.dueTime = futureRef.dueTime) data.queue (position, futureRef)
  rw [counted]
  simp only [member, decide_true, and_self, if_true]
  omega

end InMemoryFutureQueue

/-- No future due by the limit has been added. -/
structure EarlierKept (limit : ElementTimestamp) (before after : EngineState) : Prop where
  counts : ∀ due ≤ limit, after.futureQueue.dueCount due ≤ before.futureQueue.dueCount due

instance (limit : ElementTimestamp) : Std.Refl (EarlierKept limit) := ⟨fun _ => ⟨fun _ _ => Nat.le_refl _⟩⟩

instance (limit : ElementTimestamp) : IsTrans EngineState (EarlierKept limit) :=
  ⟨fun _ _ _ first second => ⟨fun due early => (second.counts due early).trans (first.counts due early)⟩⟩

variable {query : ContinuousQuery}

/-- Processing a future asks for no future that is due as early. -/
theorem earlierKept_processFuture (plain : query.PatternsNeedAnchor) (order : IterationOrder)
    (futureRef : FutureElementRef) :
    Keeps (EarlierKept futureRef.dueTime) (query.processChangesInner order [.future futureRef]) := by
  apply keeps_processFuture _ plain
  · intro positionInQuery groupSignature
    exact ⟨fun state => ⟨fun due _ => state.futureQueue.dueCount_remove_le positionInQuery groupSignature due⟩⟩
  · intro pushType positionInQuery groupSignature elementRef originalTime dueTime later
    refine ⟨fun state => ⟨fun due early => ?_⟩⟩
    apply state.futureQueue.dueCount_push_le
    have before : due < dueTime := early.trans_lt later
    exact before.ne
  · exact fun _ _ => ⟨fun _ _ => Nat.le_refl _⟩

namespace QueryState

/-- A round takes out one future and adds none that is due as early. -/
theorem drainRound_dueCount (plain : query.PatternsNeedAnchor) {state next : QueryState}
    (goes : state.drainRound query order = some next) :
    ∃ futureRef, state.popped order = some futureRef ∧
      next.engine.futureQueue.dueCount futureRef.dueTime < state.engine.futureQueue.dueCount futureRef.dueTime ∧
      ∀ due < futureRef.dueTime, next.engine.futureQueue.dueCount due ≤ state.engine.futureQueue.dueCount due := by
  unfold drainRound at goes
  split at goes
  next due engine processed =>
    cases goes
    rw [ContinuousQuery.processDueFutures, run_read_bind] at processed
    cases taken : state.engine.futureQueue.pop (order.within [0]) with
    | mk first rest =>
      rw [taken] at processed
      cases first with
      | none => cases processed
      | some futureRef =>
        dsimp only at processed
        rw [run_modify_bind] at processed
        obtain ⟨results, between, inner, returned⟩ := run_bind_eq_ok processed
        have reached : between = engine := by
          cases results with
          | none => cases returned
          | some results => cases returned; rfl
        obtain ⟨fewer, others⟩ := dueCount_pop taken
        have later := (earlierKept_processFuture plain (order.within [1]) futureRef).kept
          { state.engine with futureQueue := rest }
        rw [inner, reached] at later
        refine ⟨futureRef, by rw [popped, taken], ?_, ?_⟩
        · exact (later.counts _ (Nat.le_refl _)).trans_lt fewer
        · intro due early
          exact (later.counts due early.le).trans (others due)
  next => cases goes

/-- The numbers of futures queued for each due time up to a given one. -/
def dueCounts (now : ElementTimestamp) (state : QueryState) (due : Fin (now + 1)) : Nat :=
  state.engine.futureQueue.dueCount due

/-- A loop that only meets due futures ends: a round takes out one of them, and those it adds are later. -/
theorem exists_beforeRound_eq_none (plain : query.PatternsNeedAnchor) (state : QueryState) (order : IterationOrder)
    (now : ElementTimestamp)
    (due : ∀ round reached futureRef, state.beforeRound query order round = some reached →
      reached.popped (order.within [round]) = some futureRef → futureRef.dueTime ≤ now) :
    ∃ round, state.beforeRound query order round = none := by
  apply exists_eq_none_of_descent _ (dueCounts now)
  intro round reached next found following
  rw [beforeRound, found, Option.bind_some] at following
  obtain ⟨futureRef, first, fewer, others⟩ := drainRound_dueCount plain following
  have early := due round reached futureRef found first
  apply toLex_lt_of_le_of_lt ⟨futureRef.dueTime, Nat.lt_succ_of_le early⟩
  · intro other earlier
    exact others other earlier
  · exact fewer

/-- Everything in the queue is due. -/
def AllDue (now : ElementTimestamp) (state : QueryState) : Prop :=
  ∀ entry ∈ state.engine.futureQueue.queue, entry.2.dueTime ≤ now

variable (state : QueryState) (query : ContinuousQuery) (order : IterationOrder) (now : ElementTimestamp)

/-- Every future a round of the loop adds to the queue is due. -/
def AddsDue : Prop :=
  ∀ round reached next, state.beforeRound query order round = some reached →
    state.beforeRound query order (round + 1) = some next →
    ∀ entry ∈ next.engine.futureQueue.queue, entry ∉ reached.engine.futureQueue.queue → entry.2.dueTime ≤ now

variable {state query order now}

theorem AddsDue.allDue (adds : state.AddsDue query order now) (start : state.AllDue now) {round reached}
    (found : state.beforeRound query order round = some reached) : reached.AllDue now := by
  induction round generalizing reached with
  | zero =>
    cases found
    exact start
  | succ round ih =>
    obtain ⟨earlier, before, _⟩ := Option.bind_eq_some_iff.mp found
    intro entry member
    by_cases old : entry ∈ earlier.engine.futureQueue.queue
    · exact ih before entry old
    · exact adds round earlier reached before found entry member old

/-- A loop that has ended stays so. -/
theorem beforeRound_eq_none {last round : Nat} (ended : state.beforeRound query order last = none)
    (later : last ≤ round) : state.beforeRound query order round = none := by
  induction later with
  | refl => exact ended
  | step _ ih => rw [beforeRound, ih, Option.bind_none]

end QueryState

/-! `MATCH (n) WHERE drasi.trueLater(true, n.due) AND drasi.trueLater(true, n.until) RETURN n.due`. The second filter
is looked at once the first one holds. -/

def timeProperty (name : String) : Expression :=
  .pureForm name fun queryVariables =>
    match queryVariables.get? "n" with
    | some (.element element) =>
      match element.getProperty name with
      | .integer value => .ok (.integer value)
      | _ => .ok .null
    | _ => .error (.unknownIdentifier "n")

def laterFilter (name : String) (positionInQuery : Nat) : Expression :=
  .future .trueLater (.pureForm "true" fun _ => .ok (.bool true)) (timeProperty name) positionInQuery

def laterPart : QueryPart :=
  ⟨[⟨⟨some "n", [], []⟩, [], false⟩], [laterFilter "due" 1, laterFilter "until" 2], .item [timeProperty "due"]⟩

def laterQuery : ContinuousQuery := ⟨⟨[laterPart]⟩, .fromQuery laterPart⟩

/-- A node inserted at time 1. -/
def laterNode (id : String) (due untilTime : Int) : Element :=
  .node ⟨⟨"source", id⟩, [], 1⟩ ((OrderedMap.empty.insert "due" (.integer due)).insert "until" (.integer untilTime))

def insertedLater (nodes : List Element) : QueryState :=
  (nodes.foldl (fun state node => state.bind (·.processChange laterQuery .stored (.insert node))) (some .empty)).getD
    .empty

def duesAt (state : QueryState) (round : Nat) : Option (List ElementTimestamp) :=
  (state.beforeRound laterQuery .stored round).map fun reached => reached.engine.futureQueue.queue.map (·.2.dueTime)

def twoDeadlines : QueryState := insertedLater [laterNode "x" 10 20]

theorem allDue_of_duesAt {state : QueryState} {round : Nat} {dues} (known : duesAt state round = some dues) {reached}
    (found : state.beforeRound laterQuery .stored round = some reached) {now} (early : ∀ due ∈ dues, due ≤ now) :
    reached.AllDue now := by
  rw [duesAt, found] at known
  cases known
  exact fun entry member => early _ (mem_map_of_mem member)

/-- A loop of two rounds after which only due futures are queued. -/
theorem addsDue_of_duesAt {state : QueryState} {now first second} (one : duesAt state 1 = some first)
    (two : duesAt state 2 = some second) (three : duesAt state 3 = none) (early : ∀ due ∈ first ++ second, due ≤ now) :
    state.AddsDue laterQuery .stored now := by
  intro round reached next _ after entry member _
  match round with
  | 0 => exact allDue_of_duesAt one after (fun due known => early due (by simp [known])) entry member
  | 1 => exact allDue_of_duesAt two after (fun due known => early due (by simp [known])) entry member
  | round + 2 =>
    have ended : state.beforeRound laterQuery .stored 3 = none := Option.map_eq_none_iff.mp three
    rw [QueryState.beforeRound_eq_none ended (by omega)] at after
    cases after

theorem laterQuery_patterns : laterQuery.PatternsNeedAnchor :=
  have plain : ∀ slot ∈ laterQuery.matchPath.slots, Expression.allNeedAnchor slot.spec.predicates = true := by decide
  plain

def earlyAndLate : QueryState := insertedLater [laterNode "x" 10 10, laterNode "y" 1000 1000]

end DrasiCore
