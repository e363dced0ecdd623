import DrasiCore.Proofs.MatchPathCompilation
import DrasiCore.Proofs.SlotGraph

/-! The compiled slots against the clauses as written: every constraint of the slots is written in the clauses, and the
constraints that are lost on the way are named. -/

namespace DrasiCore.Proofs

open Pattern MatchPath List

variable {queryPart : QueryPart}
variable {slot : Nat} {occurrence : Occurrence} {clauses : List MatchClause} {assignment : Nat → Element}
  {step : PatternStep} {valuation : PatternVariable → Element}

/-- A pair of variables a step enters, in the direction from the first to the second. -/
def EnteredPair (clauses : List MatchClause) (source target : PatternVariable) : Prop :=
  ∃ step ∈ steps 0 clauses, (source, target) ∈ step.outward

theorem fromQuery_length (queryPart : QueryPart) :
    (fromQuery queryPart).slots.length = (distinctVariables queryPart.matchClauses).length :=
  (fromQuery_compiled queryPart).choose_spec.length

theorem distinctVariables_nodup (queryPart : QueryPart) : (distinctVariables queryPart.matchClauses).Nodup :=
  (fromQuery_compiled queryPart).choose_spec.nodup

theorem fromQuery_name {found} (present : (fromQuery queryPart).slots[slot]? = some found) :
    ∃ subject, (distinctVariables queryPart.matchClauses)[slot]? = some subject := by
  have inside := (List.getElem?_eq_some_iff.mp present).1
  rw [fromQuery_length] at inside
  exact ⟨_, List.getElem?_eq_getElem inside⟩

theorem fromQuery_slot {subject} (named : (distinctVariables queryPart.matchClauses)[slot]? = some subject) :
    ∃ found, (fromQuery queryPart).slots[slot]? = some found ∧
      SlotOf (occurrences 0 queryPart.matchClauses) subject found := by
  have inside := (List.getElem?_eq_some_iff.mp named).1
  rw [← fromQuery_length] at inside
  have present := List.getElem?_eq_getElem inside
  exact ⟨_, present, (fromQuery_compiled queryPart).choose_spec.slots slot _ subject present named⟩

theorem fromQuery_neighbour {other direction} :
    Neighbour (fromQuery queryPart) slot other direction ↔
      ∃ source target, (distinctVariables queryPart.matchClauses)[slot]? = some source ∧
        (distinctVariables queryPart.matchClauses)[other]? = some target ∧
        match direction with
        | .outward => EnteredPair queryPart.matchClauses source target
        | .inward => EnteredPair queryPart.matchClauses target source := by
  obtain ⟨reached, compiled⟩ := fromQuery_compiled queryPart
  constructor
  · rintro ⟨found, present, listed⟩
    obtain ⟨source, named⟩ := fromQuery_name present
    cases direction with
    | outward =>
      obtain ⟨target, there, step⟩ := (compiled.outward slot found source other present named).mp listed
      exact ⟨source, target, named, there, step⟩
    | inward =>
      obtain ⟨target, there, step⟩ := (compiled.inward slot found source other present named).mp listed
      exact ⟨source, target, named, there, step⟩
  · rintro ⟨source, target, named, there, step⟩
    obtain ⟨found, present, -⟩ := fromQuery_slot named
    refine ⟨found, present, ?_⟩
    cases direction with
    | outward => exact (compiled.outward slot found source other present named).mpr ⟨target, there, step⟩
    | inward => exact (compiled.inward slot found source other present named).mpr ⟨target, there, step⟩

theorem fromQuery_closed (queryPart : QueryPart) : Closed (fromQuery queryPart) := by
  intro slot other direction neighbour
  obtain ⟨source, target, -, there, -⟩ := fromQuery_neighbour.mp neighbour
  rw [fromQuery_length]
  exact (List.getElem?_eq_some_iff.mp there).1

theorem fromQuery_mirrored (queryPart : QueryPart) : Mirrored (fromQuery queryPart) := by
  intro slot other
  rw [fromQuery_neighbour, fromQuery_neighbour]
  constructor
  · rintro ⟨source, target, here, there, entered⟩
    exact ⟨target, source, there, here, entered⟩
  · rintro ⟨source, target, here, there, entered⟩
    exact ⟨target, source, there, here, entered⟩

theorem optional_of_mem_pathOccurrences {optional position path}
    (member : occurrence ∈ pathOccurrences optional position path) : occurrence.optional = optional := by
  induction path generalizing position with
  | nil => cases member
  | cons step path ih =>
    obtain ⟨relationMatch, nodeMatch⟩ := step
    simp only [pathOccurrences, mem_cons] at member
    rcases member with rfl | rfl | later
    · rfl
    · rfl
    · exact ih later

theorem optional_of_mem_occurrences {position} (member : occurrence ∈ occurrences position clauses) :
    ∃ clause ∈ clauses, occurrence.optional = clause.optional := by
  induction clauses generalizing position with
  | nil => cases member
  | cons clause clauses ih =>
    rcases mem_append.mp member with here | later
    · refine ⟨clause, mem_cons_self, ?_⟩
      rcases mem_cons.mp here with rfl | inPath
      · rfl
      · exact optional_of_mem_pathOccurrences inPath
    · obtain ⟨other, found, same⟩ := ih later
      exact ⟨other, mem_cons_of_mem _ found, same⟩

/-- A path compiled from clauses none of which is optional has no optional slot. -/
theorem fromQuery_required (mandatory : ∀ clause ∈ queryPart.matchClauses, clause.optional = false) :
    Required (fromQuery queryPart) := by
  intro slot member
  obtain ⟨slotNum, present⟩ := getElem?_of_mem member
  obtain ⟨subject, named⟩ := fromQuery_name present
  obtain ⟨_, present', slotOf⟩ := fromQuery_slot named
  cases present.symm.trans present'
  obtain ⟨occurrence, seen, same⟩ := mem_map.mp (mem_eraseDups.mp (mem_of_getElem? named))
  obtain ⟨clause, inClauses, optional⟩ := optional_of_mem_occurrences seen
  cases every : slot.optional with
  | false => rfl
  | true => rw [← slotOf.optional.mp every occurrence seen same, optional, mandatory clause inClauses]

/-- The assignment of slots as a valuation of the variables of the clauses. -/
def onVariables (clauses : List MatchClause) (assignment : Nat → Element) (subject : PatternVariable) : Element :=
  assignment ((distinctVariables clauses).idxOf subject)

theorem onVariables_of_getElem? {subject} (named : (distinctVariables queryPart.matchClauses)[slot]? = some subject) :
    onVariables queryPart.matchClauses assignment subject = assignment slot := by
  have nodup := distinctVariables_nodup queryPart
  obtain ⟨inside, rfl⟩ := List.getElem?_eq_some_iff.mp named
  exact congrArg assignment (List.Nodup.idxOf_getElem nodup slot inside)

theorem EnteredPair.slots {source target} (entered : EnteredPair queryPart.matchClauses source target) :
    ∃ slot other : Nat, (distinctVariables queryPart.matchClauses)[slot]? = some source ∧
      (distinctVariables queryPart.matchClauses)[other]? = some target := by
  obtain ⟨step, member, pair⟩ := entered
  obtain ⟨prev, rel, node⟩ := (fromQuery_compiled queryPart).choose_spec.covered step member
  have both : source ∈ distinctVariables queryPart.matchClauses ∧
      target ∈ distinctVariables queryPart.matchClauses := by
    unfold PatternStep.outward at pair
    split at pair <;> simp only [mem_cons, Prod.mk.injEq, not_mem_nil, or_false] at pair
    · rcases pair with ⟨rfl, rfl⟩ | ⟨rfl, rfl⟩ <;> constructor <;> assumption
    · rcases pair with ⟨rfl, rfl⟩ | ⟨rfl, rfl⟩ <;> constructor <;> assumption
    · rcases pair with ⟨rfl, rfl⟩ | ⟨rfl, rfl⟩ | ⟨rfl, rfl⟩ | ⟨rfl, rfl⟩ <;> constructor <;> assumption
  obtain ⟨slot, here⟩ := getElem?_of_mem both.1
  obtain ⟨other, there⟩ := getElem?_of_mem both.2
  exact ⟨slot, other, here, there⟩

/-- The endpoint condition of the compiled path, in terms of variables: an entered pair is linked in one of the
directions it is entered in. -/
theorem satisfiesEndpoints_iff :
    SatisfiesEndpoints (fromQuery queryPart) assignment ↔
      ∀ source target, EnteredPair queryPart.matchClauses source target →
        OutwardLink (onVariables queryPart.matchClauses assignment source)
            (onVariables queryPart.matchClauses assignment target) ∨
          EnteredPair queryPart.matchClauses target source ∧
            OutwardLink (onVariables queryPart.matchClauses assignment target)
              (onVariables queryPart.matchClauses assignment source) := by
  constructor
  · intro endpoints source target entered
    obtain ⟨slot, other, here, there⟩ := entered.slots
    rw [onVariables_of_getElem? here, onVariables_of_getElem? there]
    obtain ⟨direction, neighbour, link⟩ := endpoints slot other
      ⟨.outward, fromQuery_neighbour.mpr ⟨source, target, here, there, entered⟩⟩
    cases direction with
    | outward => exact .inl link
    | inward =>
      obtain ⟨_, _, here', there', back⟩ := fromQuery_neighbour.mp neighbour
      cases here.symm.trans here'
      cases there.symm.trans there'
      exact .inr ⟨back, link⟩
  · rintro endpoints slot other ⟨direction, neighbour⟩
    obtain ⟨source, target, here, there, entered⟩ := fromQuery_neighbour.mp neighbour
    have outward : EnteredPair queryPart.matchClauses source target →
        Neighbour (fromQuery queryPart) slot other .outward :=
      fun entered => fromQuery_neighbour.mpr ⟨source, target, here, there, entered⟩
    have inward : EnteredPair queryPart.matchClauses target source →
        Neighbour (fromQuery queryPart) slot other .inward :=
      fun entered => fromQuery_neighbour.mpr ⟨source, target, here, there, entered⟩
    cases direction with
    | outward =>
      have linked := endpoints source target entered
      rw [onVariables_of_getElem? here, onVariables_of_getElem? there] at linked
      rcases linked with link | ⟨back, link⟩
      · exact ⟨.outward, outward entered, link⟩
      · exact ⟨.inward, inward back, link⟩
    | inward =>
      have linked := endpoints target source entered
      rw [onVariables_of_getElem? here, onVariables_of_getElem? there] at linked
      rcases linked with link | ⟨back, link⟩
      · exact ⟨.inward, inward entered, link⟩
      · exact ⟨.outward, outward back, link⟩

variable (truth : Expression → QueryVariables → Prop)

/-- The compiled slots accept the assignment: every slot its specification, and every two neighbours one of the
directions in which they are entered. -/
def SatisfiesSlots (path : MatchPath) (assignment : Nat → Element) : Prop :=
  (∀ (slot : Nat) found, path.slots[slot]? = some found → found.spec.Accepts truth (assignment slot)) ∧
    SatisfiesEndpoints path assignment

/-- The part of the written constraints that the slots hold: labels and predicates of first occurrences, and a link
between the variables of every entered pair in one of the directions in which they are entered. -/
def SatisfiesFirst (clauses : List MatchClause) (valuation : PatternVariable → Element) : Prop :=
  (∀ subject first, (occurrences 0 clauses).find? (·.subject = subject) = some first →
      first.spec.Accepts truth (valuation subject)) ∧
    ∀ source target, EnteredPair clauses source target → OutwardLink (valuation source) (valuation target) ∨
      EnteredPair clauses target source ∧ OutwardLink (valuation target) (valuation source)

theorem satisfiesSlots_iff {truth : Expression → QueryVariables → Prop} :
    SatisfiesSlots truth (fromQuery queryPart) assignment ↔
      SatisfiesFirst truth queryPart.matchClauses (onVariables queryPart.matchClauses assignment) := by
  refine and_congr ⟨fun accepted subject first hit => ?_, fun accepted slot found present => ?_⟩ satisfiesEndpoints_iff
  · have same : first.subject = subject := by simpa using find?_some hit
    obtain ⟨slot, named⟩ := getElem?_of_mem (mem_slotNames (mem_of_find?_eq_some hit))
    rw [same] at named
    obtain ⟨found, present, slotOf⟩ := fromQuery_slot named
    have spec := slotOf.spec
    rw [hit, Option.map_some, Option.some.injEq] at spec
    rw [onVariables_of_getElem? named, spec]
    exact accepted slot found present
  · obtain ⟨subject, named⟩ := fromQuery_name present
    obtain ⟨_, present', slotOf⟩ := fromQuery_slot named
    cases present.symm.trans present'
    obtain ⟨first, hit, spec⟩ := Option.map_eq_some_iff.mp slotOf.spec
    have here := accepted subject first hit
    rw [onVariables_of_getElem? named] at here
    exact spec ▸ here

/-- What the written relation steps ask beyond links between neighbours. -/
structure KeepsEnds (clauses : List MatchClause) (valuation : PatternVariable → Element) : Prop where
  /-- A relation pattern stands for a relation. -/
  relations : ∀ step ∈ steps 0 clauses, (valuation step.rel).IsRelation
  /-- A relation in either direction is attached by different ends. -/
  ends : ∀ step ∈ steps 0 clauses, step.direction = .either →
    (valuation step.prev).getReference ≠ (valuation step.node).getReference ∨ (valuation step.rel).IsLoop
  /-- A directed step keeps its direction where its variables are also entered the other way round. -/
  directions : ∀ step ∈ steps 0 clauses, step.direction ≠ .either →
    ∀ source target, (source, target) ∈ step.outward → EnteredPair clauses target source →
      OutwardLink (valuation source) (valuation target)

/-- The written constraints that have no counterpart in the slots. -/
structure KeepsDropped (truth : Expression → QueryVariables → Prop) (clauses : List MatchClause)
    (valuation : PatternVariable → Element) : Prop extends KeepsEnds clauses valuation where
  /-- Labels and predicates of an alias that occurred before. -/
  repeated : ∀ earlier occurrence later, occurrences 0 clauses = earlier ++ occurrence :: later →
    (∃ first ∈ earlier, first.subject = occurrence.subject) →
      occurrence.spec.Accepts truth (valuation occurrence.subject)

theorem connects_iff {rel source target} :
    Connects rel source target ↔ rel.IsRelation ∧ OutwardLink source rel ∧ OutwardLink rel target := by
  cases rel <;> cases source <;> cases target <;> simp [Connects, Element.IsRelation, OutwardLink]

theorem holds_iff_of_directed (directed : step.direction ≠ .either) :
    step.Holds valuation ↔ (valuation step.rel).IsRelation ∧
      ∀ source target, (source, target) ∈ step.outward → OutwardLink (valuation source) (valuation target) := by
  unfold PatternStep.Holds PatternStep.outward
  cases way : step.direction with
  | right => simp [connects_iff, or_imp, forall_and]
  | left => simp [connects_iff, or_imp, forall_and]
  | either => exact absurd way directed

theorem holds_iff_of_either (either : step.direction = .either) :
    step.Holds valuation ↔ (valuation step.rel).IsRelation ∧
      (OutwardLink (valuation step.prev) (valuation step.rel) ∧ OutwardLink (valuation step.rel) (valuation step.node) ∨
        OutwardLink (valuation step.node) (valuation step.rel) ∧
          OutwardLink (valuation step.rel) (valuation step.prev)) := by
  simp only [PatternStep.Holds, either, connects_iff, and_or_left]

/-- A step that holds links its pairs, in the written direction or, where both are entered, in one of them. -/
theorem linked_of_holds (holds : step.Holds valuation) {source target} (pair : (source, target) ∈ step.outward) :
    OutwardLink (valuation source) (valuation target) ∨
      (target, source) ∈ step.outward ∧ OutwardLink (valuation target) (valuation source) := by
  by_cases either : step.direction = .either
  · rw [holds_iff_of_either either] at holds
    simp only [PatternStep.outward, either, mem_cons, Prod.mk.injEq, not_mem_nil, or_false] at pair ⊢
    rcases pair with ⟨rfl, rfl⟩ | ⟨rfl, rfl⟩ | ⟨rfl, rfl⟩ | ⟨rfl, rfl⟩ <;> rcases holds.2 with ⟨first, second⟩ | ⟨first, second⟩ <;>
      simp [first, second]
  · exact .inl (((holds_iff_of_directed either).mp holds).2 source target pair)

/-- A relation that touches two elements by either end touches them by different ends, unless they are one element and
the relation is no loop. -/
theorem attached_iff {rel prev node} (relation : rel.IsRelation) :
    (OutwardLink prev rel ∧ OutwardLink rel node ∨ OutwardLink node rel ∧ OutwardLink rel prev) ↔
      (OutwardLink prev rel ∨ OutwardLink rel prev) ∧ (OutwardLink rel node ∨ OutwardLink node rel) ∧
        (prev.getReference ≠ node.getReference ∨ rel.IsLoop) := by
  cases rel with
  | node => cases relation
  | relation metadata inNode outNode properties =>
    cases prev with
    | relation => simp [OutwardLink]
    | node first _ =>
      cases node with
      | relation => simp [OutwardLink]
      | node second _ =>
        simp only [OutwardLink, Element.getReference, Element.getMetadata, Element.IsLoop]
        grind

variable {truth : Expression → QueryVariables → Prop}

theorem satisfiesFirst_of_satisfies (satisfies : Pattern.Satisfies truth clauses valuation) :
    SatisfiesFirst truth clauses valuation := by
  obtain ⟨accepted, holds⟩ := satisfies
  constructor
  · intro subject first hit
    have same : first.subject = subject := by simpa using find?_some hit
    exact same ▸ accepted first (mem_of_find?_eq_some hit)
  · rintro source target ⟨step, member, pair⟩
    rcases linked_of_holds (holds step member) pair with link | ⟨back, link⟩
    · exact .inl link
    · exact .inr ⟨⟨step, member, back⟩, link⟩

/-- Where all entered pairs are linked, the written steps hold exactly if they keep their ends. -/
theorem steps_hold_iff_of_linked
    (endpoints : ∀ source target, EnteredPair clauses source target →
      OutwardLink (valuation source) (valuation target) ∨
        EnteredPair clauses target source ∧ OutwardLink (valuation target) (valuation source)) :
    (∀ step ∈ steps 0 clauses, step.Holds valuation) ↔ KeepsEnds clauses valuation := by
  constructor
  · intro holds
    refine ⟨fun step member => ?_, fun step member either => ?_, fun step member directed source target pair _ => ?_⟩
    · by_cases either : step.direction = .either
      · exact ((holds_iff_of_either either).mp (holds step member)).1
      · exact ((holds_iff_of_directed either).mp (holds step member)).1
    · obtain ⟨relation, attached⟩ := (holds_iff_of_either either).mp (holds step member)
      exact ((attached_iff relation).mp attached).2.2
    · exact ((holds_iff_of_directed directed).mp (holds step member)).2 source target pair
  · intro kept step member
    have relation := kept.relations step member
    by_cases either : step.direction = .either
    · have linked (source target : PatternVariable) (pair : (source, target) ∈ step.outward) :=
        (endpoints source target ⟨step, member, pair⟩).imp_right And.right
      refine (holds_iff_of_either either).mpr ⟨relation, (attached_iff relation).mpr ⟨?_, ?_, ?_⟩⟩
      · exact linked step.prev step.rel (by simp [PatternStep.outward, either])
      · exact linked step.rel step.node (by simp [PatternStep.outward, either])
      · exact kept.ends step member either
    · refine (holds_iff_of_directed either).mpr ⟨relation, fun source target pair => ?_⟩
      rcases endpoints source target ⟨step, member, pair⟩ with link | ⟨back, -⟩
      · exact link
      · exact kept.directions step member either source target pair back

theorem steps_hold_iff (endpoints : SatisfiesEndpoints (fromQuery queryPart) assignment) :
    (∀ step ∈ steps 0 queryPart.matchClauses, step.Holds (onVariables queryPart.matchClauses assignment)) ↔
      KeepsEnds queryPart.matchClauses (onVariables queryPart.matchClauses assignment) :=
  steps_hold_iff_of_linked (satisfiesEndpoints_iff.mp endpoints)

theorem first_or_repeated {seen} (member : occurrence ∈ seen) :
    seen.find? (·.subject = occurrence.subject) = some occurrence ∨
      ∃ earlier later, seen = earlier ++ occurrence :: later ∧ ∃ first ∈ earlier, first.subject = occurrence.subject := by
  obtain ⟨earlier, later, rfl⟩ := append_of_mem member
  by_cases before : ∃ first ∈ earlier, first.subject = occurrence.subject
  · exact .inr ⟨earlier, later, rfl, before⟩
  · left
    have none : earlier.find? (·.subject = occurrence.subject) = none :=
      find?_eq_none.mpr fun first found => by simpa using fun same => before ⟨first, found, same⟩
    simp [find?_append, none]

/-- Where the slots accept a valuation, the clauses do so exactly if it keeps the dropped constraints. -/
theorem satisfies_iff_of_satisfiesFirst (slots : SatisfiesFirst truth clauses valuation) :
    Pattern.Satisfies truth clauses valuation ↔ KeepsDropped truth clauses valuation := by
  obtain ⟨accepted, endpoints⟩ := slots
  constructor
  · rintro ⟨everywhere, holds⟩
    refine ⟨(steps_hold_iff_of_linked endpoints).mp holds, fun earlier occurrence later whole _ => ?_⟩
    exact everywhere occurrence (whole ▸ mem_append_right _ mem_cons_self)
  · intro dropped
    refine ⟨fun occurrence member => ?_, (steps_hold_iff_of_linked endpoints).mpr dropped.toKeepsEnds⟩
    rcases first_or_repeated member with first | ⟨earlier, later, whole, before⟩
    · exact accepted occurrence.subject occurrence first
    · exact dropped.repeated earlier occurrence later whole before

/-- The compiled slots and the clauses as written agree on an assignment exactly if it keeps the dropped constraints
or already violates one of those that the slots hold. -/
theorem fromQuery_faithful_iff (truth : Expression → QueryVariables → Prop) (queryPart : QueryPart)
    (assignment : Nat → Element) :
    (SatisfiesSlots truth (fromQuery queryPart) assignment ↔
        Pattern.Satisfies truth queryPart.matchClauses (onVariables queryPart.matchClauses assignment)) ↔
      (SatisfiesFirst truth queryPart.matchClauses (onVariables queryPart.matchClauses assignment) →
        KeepsDropped truth queryPart.matchClauses (onVariables queryPart.matchClauses assignment)) := by
  rw [satisfiesSlots_iff]
  constructor
  · exact fun faithful slots => (satisfies_iff_of_satisfiesFirst slots).mp (faithful.mp slots)
  · exact fun kept =>
      ⟨fun slots => (satisfies_iff_of_satisfiesFirst slots).mpr (kept slots), satisfiesFirst_of_satisfies⟩

/-- `MATCH (n:A), (n:B)` compiles to one slot that asks for `A` only, so a node without the label `B` is accepted. -/
theorem fromQuery_drops_repeated_labels :
    let queryPart : QueryPart := ⟨[⟨⟨some "n", ["A"], []⟩, [], false⟩, ⟨⟨some "n", ["B"], []⟩, [], false⟩], [], .item []⟩
    let assignment : Nat → Element := fun _ => .node ⟨⟨"s", "n"⟩, ["A"], 0⟩ .empty
    ¬ (SatisfiesSlots (fun _ _ => True) (fromQuery queryPart) assignment ↔
      Pattern.Satisfies (fun _ _ => True) queryPart.matchClauses (onVariables queryPart.matchClauses assignment)) := by
  intro queryPart assignment faithful
  have slots : SatisfiesSlots (fun _ _ => True) (fromQuery queryPart) assignment := by
    have compiled : (fromQuery queryPart).slots = [⟨⟨some "n", ["A"], []⟩, [], [], [1, 0], false⟩] := rfl
    constructor
    · intro slot found present
      cases mem_singleton.mp (compiled ▸ mem_of_getElem? present)
      exact ⟨by decide, nofun⟩
    · rintro slot other ⟨direction, found, present, listed⟩
      cases mem_singleton.mp (compiled ▸ mem_of_getElem? present)
      cases direction <;> cases listed
  have second : ⟨.named "n", ⟨some "n", ["B"], []⟩, false⟩ ∈ occurrences 0 queryPart.matchClauses :=
    mem_cons_of_mem _ mem_cons_self
  exact absurd ((faithful.mp slots).1 _ second).1 (by decide)

end DrasiCore.Proofs
