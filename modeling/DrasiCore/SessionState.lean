import DrasiCore.OutputLifecycle

/-! Sessions over the stores of a query in one database. All writes of a change go through the session's transaction; a
session may be begun inside another, and a guard rolls back whatever was not committed. -/

namespace DrasiCore

open Library

inductive StoreFamily where
  | elementIndex | resultIndex | futureQueue | checkpoint | outbox | liveResults
deriving DecidableEq

namespace StoreFamily

/-- Outbox and live results are written directly where no session is active; every other write needs one. -/
def worksWithoutSession : StoreFamily → Bool
  | .outbox | .liveResults => true
  | _ => false

end StoreFamily

inductive IndexError where
  | sessionState (message : String)
  | poison
  | join
  | corruptedData
  | other (message : String)
deriving DecidableEq

abbrev Stores (Contents : StoreFamily → Type) := ∀ family, Contents family

structure StoreWrite (Contents : StoreFamily → Type) where
  family : StoreFamily
  update : Contents family → Contents family

variable {Contents : StoreFamily → Type}

namespace Stores

variable (stores : Stores Contents)

def apply (write : StoreWrite Contents) : Stores Contents :=
  Function.update stores write.family (write.update (stores write.family))

def applyAll (writes : List (StoreWrite Contents)) : Stores Contents := writes.foldl apply stores

end Stores

/-- What the database does with a commit: its blocking task is cancelled before it starts, or the transaction is rejected. -/
inductive CommitOutcome where
  | succeeds
  | cancelled
  | rejected (error : IndexError)
deriving DecidableEq

/-- What becomes of the blocking tasks that begin and commit a session. -/
structure SessionFaults where
  beginCancelled : Bool
  commitOutcome : CommitOutcome
deriving DecidableEq

/-- A call on a store answers, possibly with an error after some of its writes, or panics while it holds the session's lock. -/
inductive CallOutcome (State Answer ε : Type) where
  | returns (answer : Except ε Answer) (updates : List (State → State))
  | panics (updates : List (State → State))

/-- A call reads the committed contents or those of the session, and writes to one store. -/
abbrev StoreCall (Contents : StoreFamily → Type) (Answer ε : Type) (family : StoreFamily) :=
  (committed session : Stores Contents) → CallOutcome (Contents family) Answer ε

/-- The committed contents, the writes of the open transaction, how deep sessions are nested, and whether the lock is
poisoned. -/
structure SessionState (Contents : StoreFamily → Type) where
  committed : Stores Contents
  txn : Option (List (StoreWrite Contents))
  depth : Nat
  poisoned : Bool

namespace SessionState

variable {Answer ε : Type}

def new (committed : Stores Contents) : SessionState Contents := ⟨committed, none, 0, false⟩

variable (state : SessionState Contents)

def view : Stores Contents := state.committed.applyAll (state.txn.getD [])

def begin : Except IndexError Unit × SessionState Contents :=
  if state.poisoned then (.error .poison, state)
  else if 0 < state.depth then (.ok (), { state with depth := state.depth + 1 })
  else (.ok (), { state with txn := some [], depth := 1 })

def commit (outcome : CommitOutcome) : Except IndexError Unit × SessionState Contents :=
  if outcome = .cancelled then (.error .join, state)
  else if state.poisoned then (.error .poison, state)
  else match state.depth with
    | 0 => (.error (.sessionState "commit() called with no active transaction"), state)
    | 1 => match state.txn with
      | none =>
        (.error (.sessionState "commit() at depth 1 but no transaction present — invariant violated"), state)
      | some writes => match outcome with
        | .rejected error => (.error error, { state with txn := none, depth := 0 })
        | _ => (.ok (), { state with committed := state.committed.applyAll writes, txn := none, depth := 0 })
    | depth + 1 => (.ok (), { state with depth := depth })

def rollback : Except IndexError Unit × SessionState Contents :=
  if state.poisoned then (.error .poison, state)
  else if state.depth = 0 then (.ok (), state)
  else (.ok (), { state with txn := none, depth := 0 })

/-- The answer of a call, and the writes it made before it ended. -/
def answered (fromIndex : IndexError → ε) {family : StoreFamily} :
    CallOutcome (Contents family) Answer ε → Except ε Answer × List (StoreWrite Contents)
  | .returns answer updates => (answer, updates.map (⟨family, ·⟩))
  | .panics updates => (.error (fromIndex .join), updates.map (⟨family, ·⟩))

def panicked {State : Type} : CallOutcome State Answer ε → Bool
  | .returns .. => false
  | .panics _ => true

/-- A call that goes to the database itself, past any transaction. -/
def onDatabase (fromIndex : IndexError → ε) (family : StoreFamily) (call : StoreCall Contents Answer ε family)
    (state : SessionState Contents) : Except ε Answer × SessionState Contents :=
  let (answer, writes) := answered fromIndex (call state.committed state.committed)
  (answer, { state with committed := state.committed.applyAll writes })

/-- A call on a store, into the transaction where one is open. A direct call takes no lock while it works. -/
def withTxn (fromIndex : IndexError → ε) (family : StoreFamily) (call : StoreCall Contents Answer ε family)
    (state : SessionState Contents) : Except ε Answer × SessionState Contents :=
  if state.poisoned then (.error (fromIndex .poison), state)
  else match state.txn with
    | some staged =>
      let outcome := call state.committed state.view
      let (answer, writes) := answered fromIndex outcome
      (answer, { state with txn := some (staged ++ writes), poisoned := panicked outcome })
    | none =>
      if family.worksWithoutSession then state.onDatabase fromIndex family call
      else (.error (fromIndex (.sessionState "operation requires an active session")), state)

end SessionState

end DrasiCore
