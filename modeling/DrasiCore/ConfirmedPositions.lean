import DrasiCore.SourceDispatch

/-! The positions that subscribers confirm to a source, over the whole life of their subscriptions. A query stores the
sequence of every committed change in its handle; the source takes the least one and looks up a position for it. The queue
of a query keeps the order of one source, so a query is taken to process what its receiver holds one by one. -/

namespace DrasiCore

open Library

variable {P : Type}

/-- The query behind a dispatcher, as far as the one source is concerned. -/
structure SourceReader (P : Type) where
  queryId : String
  /-- The checkpoint the query starts with. -/
  seed : Option Nat
  /-- The entry of the source in the dedup cache. -/
  checkpoint : Option Nat
  /-- The handle that the source has registered for the query is the one of this subscription. -/
  linked : Bool
  /-- The position in the handle when this subscription began. -/
  resumed : Option Nat
  seeded : Bool
  running : Bool
  committed : List (SourceEventWrapper P)

namespace SourceReader

def new (queryId : String) (seed : Option Nat) : SourceReader P := ⟨queryId, seed, seed, false, none, false, true, []⟩

variable (reader : SourceReader P) (event : SourceEventWrapper P)

def skips : Bool := reader.checkpoint.any (event.sequence ≤ ·)

/-- The processor takes an event; a change it cannot process stops it. -/
def process (succeeds : Bool) : SourceReader P :=
  if reader.skips event then reader
  else if succeeds then
    { reader with checkpoint := some event.sequence, committed := reader.committed ++ [event] }
  else { reader with running := false }

/-- The processor committed the event and stores its sequence in the handle. -/
def confirms (succeeds : Bool) : Bool :=
  !reader.skips event && succeeds

/-- The handle is registered for this subscription, with the value it has. -/
def link (value : Option Nat) (reader : SourceReader P) : SourceReader P :=
  { reader with linked := true, resumed := value.filter (· ≠ SourceBase.unconfirmed) }

/-- The handle of a query now belongs to nobody, or to another subscription of the query. -/
def unlink (queryId : String) (reader : SourceReader P) : SourceReader P :=
  if reader.queryId = queryId then { reader with linked := false } else reader

def seedHandle : SourceReader P :=
  { reader with seeded := true, resumed := if reader.linked then reader.seed.or reader.resumed else reader.resumed }

end SourceReader

structure ConfirmingSystem (P : Type) where
  source : SourceSystem P
  /-- One for each dispatcher. -/
  readers : List (SourceReader P)
  /-- All events dispatched. No program state. -/
  history : List (SourceEventWrapper P)

inductive ConfirmAction (P : Type) where
  | source (action : SourceAction P)
  | attach (seed : Option Nat)
  | createHandle (own : Nat)
  | seedHandle (own : Nat)
  | process (own : Nat) (succeeds : Bool)
  | halt (own : Nat)
  | removeHandle (queryId : String)
  | prune (upTo : Nat)
  | clear

def SourceAction.plain : SourceAction P → Bool
  | .attach | .createHandle _ | .receive _ => false
  | _ => true

variable (base : SourceBase P)

def SourceAction.begun : SourceAction P → List (SourceEventWrapper P)
  | .dispatchSourceChange change clock => [(base.orderChange change clock).2]
  | .dispatchEvent wrapper => [(base.orderEvent wrapper).2]
  | _ => []

namespace ConfirmingSystem

def start : ConfirmingSystem P := ⟨.start base, [], []⟩

/-- Store a sequence in the handle of a reader; a handle that is no longer registered does not matter to the source. -/
def storeFor (reader : SourceReader P) (sequence : Nat) : SourceBase P :=
  if reader.linked then base.storePosition reader.queryId sequence else base

def withBase (system : ConfirmingSystem P) (base : SourceBase P) : ConfirmingSystem P :=
  { system with source := { system.source with base := base } }

inductive Step (positionReached : Option (P → P → Bool)) (capacity : Nat) :
    ConfirmAction P → ConfirmingSystem P → ConfirmingSystem P → Prop where
  | source {system action source} (plain : action.plain)
      (step : SourceSystem.Step positionReached capacity action system.source source) :
      Step positionReached capacity (.source action) system
        ⟨source, system.readers, system.history ++ action.begun system.source.base⟩
  /-- A query subscribes again only after its earlier tasks have ended. -/
  | attach {system settings before after} (seed : Option Nat)
      (started : system.source.starting = before ++ settings :: after) (unread : system.source.reading = false)
      (ended : ∀ reader ∈ system.readers, reader.queryId = settings.queryId → reader.running = false) :
      Step positionReached capacity (.attach seed) system
        ⟨{ system.source with
            base := system.source.base.createStreamingReceiver settings capacity
            starting := before ++ after },
          system.readers ++ [.new settings.queryId seed], system.history⟩
  | createHandle {system : ConfirmingSystem P} {own} {dispatcher : SourceDispatcher P}
      (here : system.source.base.dispatchers[own]? = some dispatcher) (filtered : dispatcher.phase = .filtered) :
      Step positionReached capacity (.createHandle own) system
        ⟨system.source.withPhase (system.source.base.requestPositionHandle dispatcher.settings) own .done,
          if dispatcher.settings.requestPositionHandle then
            (system.readers.map (·.unlink dispatcher.settings.queryId)).modify own (·.link
              ((system.source.base.requestPositionHandle dispatcher.settings).positionHandles.lookup
                dispatcher.settings.queryId))
          else system.readers, system.history⟩
  | seedHandle {system own dispatcher reader}
      (here : system.source.base.dispatchers[own]? = some dispatcher) (done : dispatcher.phase = .done)
      (reads : system.readers[own]? = some reader) (unseeded : reader.seeded = false) :
      Step positionReached capacity (.seedHandle own) system
        { system.withBase (reader.seed.elim system.source.base (storeFor system.source.base reader)) with
          readers := system.readers.modify own (·.seedHandle) }
  | process {system own dispatcher reader event rest} (succeeds : Bool)
      (here : system.source.base.dispatchers[own]? = some dispatcher) (reads : system.readers[own]? = some reader)
      (seeded : reader.seeded) (running : reader.running) (waiting : dispatcher.channel.waiting = event :: rest) :
      Step positionReached capacity (.process own succeeds) system
        { system.withBase ((if reader.confirms event succeeds then storeFor system.source.base reader event.sequence
            else system.source.base).modifyDispatcher own (·.receive)) with
          readers := system.readers.modify own (·.process event succeeds) }
  | halt {system} (own : Nat) :
      Step positionReached capacity (.halt own) system
        { system with readers := system.readers.modify own ({ · with running := false }) }
  /-- A query stops, or its handle is found stale. -/
  | removeHandle {system} (queryId : String) :
      Step positionReached capacity (.removeHandle queryId) system
        { system.withBase (system.source.base.removePositionHandle queryId) with
          readers := system.readers.map (·.unlink queryId) }
  | prune {system} (upTo : Nat) :
      Step positionReached capacity (.prune upTo) system (system.withBase (system.source.base.prunePositionMap upTo))
  | clear {system} :
      Step positionReached capacity .clear system (system.withBase system.source.base.clearSequencePositionMap)

/-- States reached by steps that are all allowed in the state they are taken in. -/
def Reached (positionReached : Option (P → P → Bool)) (capacity : Nat)
    (allowed : ConfirmingSystem P → ConfirmAction P → Prop) (start system : ConfirmingSystem P) : Prop :=
  Relation.ReflTransGen (fun before after => ∃ action, allowed before action ∧
    Step positionReached capacity action before after) start system

end ConfirmingSystem

end DrasiCore
