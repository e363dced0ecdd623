import DrasiCore.Pattern

/-! What the compilation of match clauses builds: one slot for every variable, in the order of first occurrences, with
the specification of the first occurrence, and neighbour lists that hold the ends of every relation step. -/

namespace DrasiCore.Proofs

open MatchPathBuilder Pattern List Option

variable {seen : List Occurrence} {occurrence : Occurrence} {subject : PatternVariable}

theorem eraseDups_concat {α : Type} [DecidableEq α] (items : List α) (item : α) :
    (items ++ [item]).eraseDups = if item ∈ items then items.eraseDups else items.eraseDups ++ [item] := by
  rw [eraseDups_append]
  split
  · next member => simp [removeAll, member]
  · next fresh => simp [removeAll, fresh, eraseDups_cons]

/-- The variables of some occurrences, in the order of their slots. -/
def slotNames (seen : List Occurrence) : List PatternVariable := (seen.map (·.subject)).eraseDups

theorem mem_slotNames (member : occurrence ∈ seen) : occurrence.subject ∈ slotNames seen :=
  mem_eraseDups.mpr (mem_map.mpr ⟨occurrence, member, rfl⟩)

theorem slotNames_concat_old (member : occurrence.subject ∈ slotNames seen) :
    slotNames (seen ++ [occurrence]) = slotNames seen := by
  rw [slotNames, mem_eraseDups] at member
  simp only [slotNames, map_append, map_cons, map_nil, eraseDups_concat, if_pos member]

theorem slotNames_concat_new (new : occurrence.subject ∉ slotNames seen) :
    slotNames (seen ++ [occurrence]) = slotNames seen ++ [occurrence.subject] := by
  rw [slotNames, mem_eraseDups] at new
  simp only [slotNames, map_append, map_cons, map_nil, eraseDups_concat, if_neg new]

theorem getElem?_concat_eq_some {α : Type} {items : List α} {item found place} :
    (items ++ [item])[place]? = some found ↔ items[place]? = some found ∨ place = items.length ∧ found = item := by
  rw [getElem?_append]
  split
  · next inside => exact ⟨.inl, fun either => either.resolve_right fun last => absurd last.1 (Nat.ne_of_lt inside)⟩
  · next outside =>
    have past : items[place]? = none := getElem?_eq_none (Nat.le_of_not_lt outside)
    rw [past, getElem?_singleton]
    split
    · next zero => simp [eq_comm, show place = items.length by omega]
    · next more => simp [show place ≠ items.length by omega]

theorem slot_unique {names : List PatternVariable} (nodup : names.Nodup) {slot other : Nat}
    (here : names[slot]? = some subject) (there : names[other]? = some subject) : slot = other :=
  (List.getElem?_inj (List.getElem?_eq_some_iff.mp here).1 nodup).mp (here.trans there.symm)

structure SlotOf (seen : List Occurrence) (subject : PatternVariable) (slot : MatchPathSlot) : Prop where
  spec : (seen.find? (·.subject = subject)).map (·.spec) = some slot.spec
  optional : slot.optional = true ↔ ∀ occurrence ∈ seen, occurrence.subject = subject → occurrence.optional = true

/-- The state of the compilation after some occurrences and steps. Anonymous variables are named by their positions, so
those at `position` and later are fresh. -/
structure Compiled (builder : MatchPathBuilder) (seen : List Occurrence) (steps : List PatternStep) (position : Nat) :
    Prop where
  length : builder.slots.length = (slotNames seen).length
  nodup : (slotNames seen).Nodup
  aliases : ∀ name slot, builder.aliasMap name = some slot ↔ (slotNames seen)[slot]? = some (.named name)
  fresh : ∀ earlier, .anonymous earlier ∈ slotNames seen → earlier < position
  slots : ∀ (slot : Nat) found subject, builder.slots[slot]? = some found → (slotNames seen)[slot]? = some subject →
    SlotOf seen subject found
  outward : ∀ (slot : Nat) found subject (other : Nat), builder.slots[slot]? = some found → (slotNames seen)[slot]? = some subject →
    (other ∈ found.outSlots ↔ ∃ target, (slotNames seen)[other]? = some target ∧
      ∃ step ∈ steps, (subject, target) ∈ step.outward)
  inward : ∀ (slot : Nat) found subject (other : Nat), builder.slots[slot]? = some found → (slotNames seen)[slot]? = some subject →
    (other ∈ found.inSlots ↔ ∃ target, (slotNames seen)[other]? = some target ∧
      ∃ step ∈ steps, (target, subject) ∈ step.outward)
  covered : ∀ step ∈ steps, step.prev ∈ slotNames seen ∧ step.rel ∈ slotNames seen ∧ step.node ∈ slotNames seen

theorem empty_compiled : Compiled .empty [] [] 0 where
  length := rfl
  nodup := nodup_nil
  aliases _ _ := ⟨nofun, nofun⟩
  fresh := nofun
  slots := nofun
  outward := nofun
  inward := nofun
  covered := nofun

variable {builder : MatchPathBuilder} {steps : List PatternStep} {position : Nat}

theorem SlotOf.concat_other {slot} (slotOf : SlotOf seen subject slot) (different : occurrence.subject ≠ subject) :
    SlotOf (seen ++ [occurrence]) subject slot where
  spec := by
    rw [find?_append, map_or, slotOf.spec]
    rfl
  optional := by
    rw [slotOf.optional]
    simp only [mem_append, mem_singleton]
    constructor
    · rintro all other (before | rfl) same
      · exact all other before same
      · exact absurd same different
    · exact fun all other before => all other (.inl before)

theorem SlotOf.first (new : ∀ other ∈ seen, other.subject ≠ occurrence.subject) {inSlots outSlots paths} :
    SlotOf (seen ++ [occurrence]) occurrence.subject
      ⟨occurrence.spec, inSlots, outSlots, paths, occurrence.optional⟩ where
  spec := by
    have none : seen.find? (·.subject = occurrence.subject) = none :=
      find?_eq_none.mpr fun other member => by simpa using new other member
    simp [find?_append, none]
  optional := by
    simp only [mem_append, mem_singleton]
    constructor
    · rintro now other (before | rfl) same
      · exact absurd same (new other before)
      · exact now
    · exact fun all => all occurrence (.inr rfl) rfl

theorem SlotOf.concat_same {slot} (slotOf : SlotOf seen subject slot) (same : occurrence.subject = subject)
    (paths : List Nat) :
    SlotOf (seen ++ [occurrence]) subject
      { slot with optional := occurrence.optional && slot.optional, paths := paths } where
  spec := by
    rw [find?_append, map_or, slotOf.spec]
    rfl
  optional := by
    simp only [Bool.and_eq_true, slotOf.optional, mem_append, mem_singleton]
    constructor
    · rintro ⟨now, all⟩ other (before | rfl) named
      · exact all other before named
      · exact now
    · exact fun all => ⟨all _ (.inr rfl) same, fun other before => all other (.inl before)⟩

section

variable (compiled : Compiled builder seen steps position)
include compiled

theorem Compiled.repeated (occurrence : Occurrence) {slotNum : Nat}
    (found : (slotNames seen)[slotNum]? = some occurrence.subject) (pathIndex : Nat) :
    Compiled
      { builder with
        slots := builder.slots.modify slotNum fun slot =>
          { slot with optional := occurrence.optional && slot.optional, paths := slot.paths.insert pathIndex } }
      (seen ++ [occurrence]) steps (position + 1) := by
  have names : slotNames (seen ++ [occurrence]) = slotNames seen :=
    slotNames_concat_old (mem_of_getElem? found)
  have modified : ∀ (slot : Nat) changed, (builder.slots.modify slotNum fun slot =>
      { slot with optional := occurrence.optional && slot.optional, paths := slot.paths.insert pathIndex })[slot]? =
        some changed → ∃ before, builder.slots[slot]? = some before ∧
          changed.inSlots = before.inSlots ∧ changed.outSlots = before.outSlots := by
    intro slot changed present
    rw [getElem?_modify] at present
    obtain ⟨before, old, rfl⟩ := map_eq_some_iff.mp present
    refine ⟨before, old, ?_⟩
    split <;> exact ⟨rfl, rfl⟩
  refine ⟨?_, names ▸ compiled.nodup, ?_, ?_, ?_, ?_, ?_, ?_⟩
  · rw [length_modify, compiled.length, names]
  · rw [names]
    exact compiled.aliases
  · rw [names]
    exact fun earlier member => Nat.lt_succ_of_lt (compiled.fresh earlier member)
  · rw [names]
    intro slot changed subject present named
    rw [getElem?_modify] at present
    obtain ⟨before, old, rfl⟩ := map_eq_some_iff.mp present
    have slotOf := compiled.slots slot before subject old named
    split
    · next same =>
      subst same
      exact slotOf.concat_same (some.inj (found.symm.trans named)) _
    · next different =>
      exact slotOf.concat_other fun same => different (slot_unique compiled.nodup (same ▸ found) named)
  · rw [names]
    intro slot changed subject other present named
    obtain ⟨before, old, -, same⟩ := modified slot changed present
    rw [same]
    exact compiled.outward slot before subject other old named
  · rw [names]
    intro slot changed subject other present named
    obtain ⟨before, old, same, -⟩ := modified slot changed present
    rw [same]
    exact compiled.inward slot before subject other old named
  · rw [names]
    exact compiled.covered

theorem Compiled.added (occurrence : Occurrence)
    (new : occurrence.subject ∉ slotNames seen) (pathIndex : Nat) (aliasMap : String → Option Nat)
    (aliases : ∀ name slot, aliasMap name = some slot ↔
      (slotNames seen ++ [occurrence.subject])[slot]? = some (.named name))
    (fresh : ∀ earlier, occurrence.subject = .anonymous earlier → earlier ≤ position) :
    Compiled ⟨builder.slots ++ [⟨occurrence.spec, [], [], [pathIndex], occurrence.optional⟩], aliasMap⟩
      (seen ++ [occurrence]) steps (position + 1) := by
  have names := slotNames_concat_new new
  -- a slot of the longer list is an old one or the new one
  have split : ∀ (slot : Nat) found subject,
      (builder.slots ++ [⟨occurrence.spec, [], [], [pathIndex], occurrence.optional⟩])[slot]? = some found →
        (slotNames seen ++ [occurrence.subject])[slot]? = some subject →
          builder.slots[slot]? = some found ∧ (slotNames seen)[slot]? = some subject ∨
            found = ⟨occurrence.spec, [], [], [pathIndex], occurrence.optional⟩ ∧ subject = occurrence.subject := by
    intro slot found subject present named
    have length := compiled.length
    rcases getElem?_concat_eq_some.mp present, getElem?_concat_eq_some.mp named with ⟨old | ⟨last, rfl⟩, before | ⟨_, rfl⟩⟩
    · exact .inl ⟨old, before⟩
    · have := (List.getElem?_eq_some_iff.mp old).1
      omega
    · have := (List.getElem?_eq_some_iff.mp before).1
      omega
    · exact .inr ⟨rfl, rfl⟩
  -- no step has reached the new variable
  have unused : ∀ step ∈ steps, ∀ target, (occurrence.subject, target) ∉ step.outward ∧
      (target, occurrence.subject) ∉ step.outward := by
    intro step member target
    obtain ⟨prev, rel, node⟩ := compiled.covered step member
    have different : occurrence.subject ≠ step.prev ∧ occurrence.subject ≠ step.rel ∧
        occurrence.subject ≠ step.node := ⟨fun same => new (same ▸ prev), fun same => new (same ▸ rel),
      fun same => new (same ▸ node)⟩
    unfold PatternStep.outward
    cases step.direction <;> simp [different]
  -- so it is no neighbour of an old one
  have extended : ∀ (other : Nat) (joined : PatternVariable → Prop), ¬ joined occurrence.subject →
      ((∃ target, (slotNames seen)[other]? = some target ∧ joined target) ↔
        ∃ target, (slotNames seen ++ [occurrence.subject])[other]? = some target ∧ joined target) := by
    intro other joined apart
    constructor
    · rintro ⟨target, named, found⟩
      exact ⟨target, getElem?_concat_eq_some.mpr (.inl named), found⟩
    · rintro ⟨target, named, found⟩
      rcases getElem?_concat_eq_some.mp named with before | ⟨-, rfl⟩
      · exact ⟨target, before, found⟩
      · exact absurd found apart
  refine ⟨?_, ?_, names ▸ aliases, ?_, ?_, ?_, ?_, ?_⟩
  · rw [names, length_append, length_append, compiled.length]
    rfl
  · rw [names]
    exact nodup_append.mpr ⟨compiled.nodup, by simp, by
      rintro earlier before _ (last : _ ∈ [_]) rfl
      exact new (mem_singleton.mp last ▸ before)⟩
  · rw [names]
    intro earlier member
    rcases mem_append.mp member with before | last
    · exact Nat.lt_succ_of_lt (compiled.fresh earlier before)
    · exact Nat.lt_succ_of_le (fresh earlier (mem_singleton.mp last).symm)
  · rw [names]
    intro slot found subject present named
    rcases split slot found subject present named with ⟨old, before⟩ | ⟨rfl, rfl⟩
    · exact (compiled.slots slot found subject old before).concat_other fun same =>
        new (same ▸ mem_of_getElem? before)
    · exact SlotOf.first fun other member same => new (same ▸ mem_slotNames member)
  · rw [names]
    intro slot found subject other present named
    rcases split slot found subject present named with ⟨old, before⟩ | ⟨rfl, rfl⟩
    · rw [compiled.outward slot found subject other old before]
      exact extended other (fun target => ∃ step ∈ steps, (subject, target) ∈ step.outward)
        fun ⟨step, member, entered⟩ => (unused step member subject).2 entered
    · simp only [not_mem_nil, false_iff]
      rintro ⟨target, -, step, member, entered⟩
      exact (unused step member target).1 entered
  · rw [names]
    intro slot found subject other present named
    rcases split slot found subject present named with ⟨old, before⟩ | ⟨rfl, rfl⟩
    · rw [compiled.inward slot found subject other old before]
      exact extended other (fun target => ∃ step ∈ steps, (target, subject) ∈ step.outward)
        fun ⟨step, member, entered⟩ => (unused step member subject).1 entered
    · simp only [not_mem_nil, false_iff]
      rintro ⟨target, -, step, member, entered⟩
      exact (unused step member target).2 entered
  · rw [names]
    intro step member
    obtain ⟨prev, rel, node⟩ := compiled.covered step member
    exact ⟨mem_append_left _ prev, mem_append_left _ rel, mem_append_left _ node⟩

theorem Compiled.mergeMatch (spec : SlotElementSpec) (pathIndex : Nat) (optional : Bool) :
    Compiled (builder.mergeMatch spec pathIndex optional).1
        (seen ++ [⟨.of spec.annotationName position, spec, optional⟩]) steps (position + 1) ∧
      (slotNames (seen ++ [⟨.of spec.annotationName position, spec, optional⟩]))[
        (builder.mergeMatch spec pathIndex optional).2]? = some (.of spec.annotationName position) := by
  unfold MatchPathBuilder.mergeMatch
  cases named : spec.annotationName with
  | none =>
    have new : PatternVariable.anonymous position ∉ slotNames seen :=
      fun member => Nat.lt_irrefl _ (compiled.fresh position member)
    constructor
    · refine compiled.added ⟨.anonymous position, spec, optional⟩ new pathIndex builder.aliasMap (fun name slot => ?_) ?_
      · rw [compiled.aliases, getElem?_concat_eq_some]
        simp
      · rintro earlier ⟨⟩
        exact Nat.le_refl _
    · rw [slotNames_concat_new new]
      exact getElem?_concat_eq_some.mpr (.inr ⟨compiled.length, rfl⟩)
  | some name =>
    dsimp only
    cases known : builder.aliasMap name with
    | some slotNum =>
      have found := (compiled.aliases name slotNum).mp known
      have member : (⟨.named name, spec, optional⟩ : Occurrence).subject ∈ slotNames seen := mem_of_getElem? found
      exact ⟨compiled.repeated ⟨.named name, spec, optional⟩ found pathIndex, slotNames_concat_old member ▸ found⟩
    | none =>
      have new : PatternVariable.named name ∉ slotNames seen := by
        intro member
        obtain ⟨slot, found⟩ := getElem?_of_mem member
        rw [(compiled.aliases name slot).mpr found] at known
        cases known
      constructor
      · refine compiled.added ⟨.named name, spec, optional⟩ new pathIndex _ (fun other slot => ?_) nofun
        rw [getElem?_concat_eq_some, ← compiled.aliases, ← compiled.length]
        split
        · next same => simp [same, known, eq_comm]
        · next different => simp [different]
      · rw [slotNames_concat_new new]
        exact getElem?_concat_eq_some.mpr (.inr ⟨compiled.length, rfl⟩)

end

/-- The neighbour lists of the slots, read as relations between variables. -/
def Joined (slots : List MatchPathSlot) (names : List PatternVariable)
    (out into : PatternVariable → PatternVariable → Prop) : Prop :=
  ∀ (slot : Nat) found subject (other : Nat), slots[slot]? = some found → names[slot]? = some subject →
    (other ∈ found.outSlots ↔ ∃ target, names[other]? = some target ∧ out subject target) ∧
      (other ∈ found.inSlots ↔ ∃ target, names[other]? = some target ∧ into subject target)

section joined

variable {names : List PatternVariable} {out into : PatternVariable → PatternVariable → Prop} {slotNum target : Nat}
  {reached : PatternVariable}

variable (nodup : names.Nodup) (here : names[slotNum]? = some subject) (there : names[target]? = some reached)
include nodup here there

theorem mem_pushed {items : List Nat} {slot other : Nat} {source : PatternVariable} (named : names[slot]? = some source)
    (old : other ∈ items ↔ ∃ found, names[other]? = some found ∧ out source found) :
    (other ∈ if slotNum = slot then items ++ [target] else items) ↔
      ∃ found, names[other]? = some found ∧ (out source found ∨ source = subject ∧ found = reached) := by
  split
  · next same =>
    subst same
    cases here.symm.trans named
    rw [mem_append, old, mem_singleton]
    constructor
    · rintro (⟨found, place, link⟩ | rfl)
      · exact ⟨found, place, .inl link⟩
      · exact ⟨reached, there, .inr ⟨rfl, rfl⟩⟩
    · rintro ⟨found, place, link | ⟨-, rfl⟩⟩
      · exact .inl ⟨found, place, link⟩
      · exact .inr (slot_unique nodup place there)
  · next different =>
    have apart : source ≠ subject := fun same => different (slot_unique nodup (same ▸ here) named)
    simp [old, apart]

section

variable (joined : Joined builder.slots names out into)
include joined

theorem Joined.pushOut : Joined (builder.pushOut slotNum target).slots names
      (fun source other => out source other ∨ source = subject ∧ other = reached) into := by
  intro slot changed source other present named
  obtain ⟨before, old, rfl⟩ := map_eq_some_iff.mp ((getElem?_modify _ _ _ _).symm.trans present)
  obtain ⟨outward, inward⟩ := joined slot before source other old named
  simp only [apply_ite MatchPathSlot.outSlots, apply_ite MatchPathSlot.inSlots, ite_self]
  exact ⟨mem_pushed nodup here there named outward, inward⟩

theorem Joined.pushIn : Joined (builder.pushIn slotNum target).slots names out
      (fun source other => into source other ∨ source = subject ∧ other = reached) := by
  intro slot changed source other present named
  obtain ⟨before, old, rfl⟩ := map_eq_some_iff.mp ((getElem?_modify _ _ _ _).symm.trans present)
  obtain ⟨outward, inward⟩ := joined slot before source other old named
  simp only [apply_ite MatchPathSlot.outSlots, apply_ite MatchPathSlot.inSlots, ite_self]
  exact ⟨outward, mem_pushed nodup here there named inward⟩

omit here there in
theorem Joined.connect {step : PatternStep} {prev rel node} (atPrev : names[prev]? = some step.prev)
    (atRel : names[rel]? = some step.rel) (atNode : names[node]? = some step.node) :
    Joined (builder.connect step.direction prev rel node).slots names
      (fun source other => out source other ∨ (source, other) ∈ step.outward)
      (fun source other => into source other ∨ (other, source) ∈ step.outward) := by
  unfold MatchPathBuilder.connect
  have congr : ∀ {slots : List MatchPathSlot} {out into out' into' : PatternVariable → PatternVariable → Prop},
      Joined slots names out into → (∀ source other, out source other ↔ out' source other) →
        (∀ source other, into source other ↔ into' source other) → Joined slots names out' into' := by
    intro slots out into out' into' before outward inward slot found subject other present named
    simpa only [outward, inward] using before slot found subject other present named
  unfold PatternStep.outward
  cases step.direction with
  | right =>
    have pushed := (((joined.pushOut nodup atPrev atRel).pushIn nodup atRel atPrev).pushOut nodup atRel atNode).pushIn
      nodup atNode atRel
    refine congr pushed (fun source other => ?_) fun source other => ?_ <;> grind
  | left =>
    have pushed := (((joined.pushIn nodup atPrev atRel).pushOut nodup atRel atPrev).pushIn nodup atRel atNode).pushOut
      nodup atNode atRel
    refine congr pushed (fun source other => ?_) fun source other => ?_ <;> grind
  | either =>
    have towards := (((joined.pushIn nodup atPrev atRel).pushOut nodup atPrev atRel).pushIn nodup atRel atPrev).pushOut
      nodup atRel atPrev
    have pushed := (((towards.pushIn nodup atNode atRel).pushOut nodup atNode atRel).pushIn nodup atRel atNode).pushOut
      nodup atRel atNode
    refine congr pushed (fun source other => ?_) fun source other => ?_ <;> grind

end

end joined

@[simp] theorem connect_aliasMap (builder : MatchPathBuilder) (direction : Direction) (prev rel node : Nat) :
    (builder.connect direction prev rel node).aliasMap = builder.aliasMap := by
  cases direction <;> rfl

theorem map_modify {α β : Type} (view : α → β) (change : α → α) (same : ∀ item, view (change item) = view item)
    (items : List α) (place : Nat) : (items.modify place change).map view = items.map view := by
  apply ext_getElem?
  intro other
  simp only [getElem?_map, getElem?_modify, Option.map_eq_map, Option.map_map]
  congr 1
  funext item
  dsimp only [Function.comp]
  split
  · exact same item
  · rfl

theorem connect_slots (builder : MatchPathBuilder) (direction : Direction) (prev rel node : Nat) :
    (builder.connect direction prev rel node).slots.map (fun slot => (slot.spec, slot.optional)) =
      builder.slots.map fun slot => (slot.spec, slot.optional) := by
  have pushed (builder : MatchPathBuilder) (slotNum target : Nat) :
      (builder.pushOut slotNum target).slots.map (fun slot => (slot.spec, slot.optional)) =
          builder.slots.map (fun slot => (slot.spec, slot.optional)) ∧
        (builder.pushIn slotNum target).slots.map (fun slot => (slot.spec, slot.optional)) =
          builder.slots.map fun slot => (slot.spec, slot.optional) := by
    constructor <;> exact map_modify _ _ (by exact fun _ => rfl) _ _
  cases direction <;> simp only [MatchPathBuilder.connect, pushed]

theorem Compiled.connect (compiled : Compiled builder seen steps position) (step : PatternStep) {prev rel node}
    (atPrev : (slotNames seen)[prev]? = some step.prev) (atRel : (slotNames seen)[rel]? = some step.rel)
    (atNode : (slotNames seen)[node]? = some step.node) :
    Compiled (builder.connect step.direction prev rel node) seen (steps ++ [step]) position := by
  have joined : Joined builder.slots (slotNames seen)
      (fun source other => ∃ step ∈ steps, (source, other) ∈ step.outward)
      (fun source other => ∃ step ∈ steps, (other, source) ∈ step.outward) :=
    fun slot found subject other present named =>
      ⟨compiled.outward slot found subject other present named, compiled.inward slot found subject other present named⟩
  have connected := joined.connect compiled.nodup atPrev atRel atNode
  have same := connect_slots builder step.direction prev rel node
  refine ⟨?_, compiled.nodup, ?_, compiled.fresh, ?_, ?_, ?_, ?_⟩
  · rw [← compiled.length]
    simpa using congrArg List.length same
  · simpa using compiled.aliases
  · intro slot changed subject present named
    have entry := congrArg (·[slot]?) same
    simp only [getElem?_map, present, map_some] at entry
    obtain ⟨before, old, equal⟩ := map_eq_some_iff.mp entry.symm
    have slotOf := compiled.slots slot before subject old named
    have spec : before.spec = changed.spec := congrArg Prod.fst equal
    have optional : before.optional = changed.optional := congrArg Prod.snd equal
    exact ⟨spec ▸ slotOf.spec, optional ▸ slotOf.optional⟩
  · intro slot changed subject other present named
    rw [(connected slot changed subject other present named).1]
    simp only [mem_append, mem_singleton, or_and_right, exists_or, exists_eq_left]
  · intro slot changed subject other present named
    rw [(connected slot changed subject other present named).2]
    simp only [mem_append, mem_singleton, or_and_right, exists_or, exists_eq_left]
  · intro other member
    rcases mem_append.mp member with before | last
    · exact compiled.covered other before
    · cases mem_singleton.mp last
      exact ⟨mem_of_getElem? atPrev, mem_of_getElem? atRel, mem_of_getElem? atNode⟩

theorem slotNames_append {more : List Occurrence} {slot : Nat} (named : (slotNames seen)[slot]? = some subject) :
    (slotNames (seen ++ more))[slot]? = some subject := by
  simp only [slotNames, map_append, eraseDups_append]
  exact (List.getElem?_append_left (List.getElem?_eq_some_iff.mp named).1).trans named

theorem Compiled.addSteps (pathIndex : Nat) (optional : Bool) (path : List (RelationMatch × NodeMatch)) {prev : Nat}
    (compiled : Compiled builder seen steps position) (atPrev : (slotNames seen)[prev]? = some subject) :
    Compiled (MatchPathBuilder.addSteps pathIndex optional builder prev path)
      (seen ++ pathOccurrences optional position path) (steps ++ pathSteps position subject path)
      (position + 2 * path.length) := by
  induction path generalizing builder seen steps position prev subject with
  | nil => simpa [MatchPathBuilder.addSteps, pathOccurrences, pathSteps] using compiled
  | cons step path ih =>
    obtain ⟨relationMatch, nodeMatch⟩ := step
    obtain ⟨withRelation, atRel⟩ := compiled.mergeMatch (.fromRelationMatch relationMatch) pathIndex optional
    obtain ⟨withNode, atNode⟩ := withRelation.mergeMatch (.fromNodeMatch nodeMatch) pathIndex optional
    have connected := withNode.connect ⟨relationMatch.direction, subject, _, _⟩
      (slotNames_append (slotNames_append atPrev)) (slotNames_append atRel) atNode
    have rest := ih connected atNode
    simp only [append_assoc, cons_append, nil_append] at rest
    have length : position + 1 + 1 + 2 * path.length = position + 2 * (path.length + 1) := by omega
    rw [length] at rest
    exact rest

theorem Compiled.addClause (compiled : Compiled builder seen steps position) (pathIndex : Nat) (clause : MatchClause) :
    Compiled (builder.addClause pathIndex clause) (seen ++ clauseOccurrences position clause)
      (steps ++ clauseSteps position clause) (position + 1 + 2 * clause.path.length) := by
  obtain ⟨withStart, atStart⟩ := compiled.mergeMatch (.fromNodeMatch clause.start) pathIndex clause.optional
  have rest := withStart.addSteps pathIndex clause.optional clause.path atStart
  rw [append_assoc] at rest
  exact rest

theorem Compiled.addClauses (pathIndex : Nat) (clauses : List MatchClause)
    (compiled : Compiled builder seen steps position) :
    ∃ reached, Compiled (builder.addClauses pathIndex clauses) (seen ++ occurrences position clauses)
      (steps ++ Pattern.steps position clauses) reached := by
  induction clauses generalizing builder seen steps position pathIndex with
  | nil => exact ⟨position, by simpa [MatchPathBuilder.addClauses, occurrences, Pattern.steps] using compiled⟩
  | cons clause clauses ih =>
    have rest := ih (pathIndex + 1) (compiled.addClause pathIndex clause)
    rw [append_assoc, append_assoc] at rest
    exact rest

theorem fromQuery_compiled (queryPart : QueryPart) :
    ∃ reached, Compiled (MatchPathBuilder.empty.addClauses 0 queryPart.matchClauses)
      (occurrences 0 queryPart.matchClauses) (Pattern.steps 0 queryPart.matchClauses) reached :=
  empty_compiled.addClauses 0 queryPart.matchClauses

end DrasiCore.Proofs
