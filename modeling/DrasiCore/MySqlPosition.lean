import DrasiCore.Library.ByteKeys
import DrasiCore.SourceBase

/-! Positions in the binary log of a MySQL server and their order. -/

namespace DrasiCore

open Library

structure ReplicationState where
  binlogFile : String
  binlogPosition : Nat
  /-- The row of the transaction; none stands for the end of the transaction. -/
  rowOffset : Option Nat
deriving DecidableEq

/-- What is before and after the last separator. -/
def rsplitOnce (separator : Char) : List Char → Option (List Char × List Char)
  | [] => none
  | char :: rest =>
    match rsplitOnce separator rest with
    | some (before, after) => some (char :: before, after)
    | none => if char = separator then some ([], rest) else none

/-- The name without a number and the number, by its significant digits and their count. -/
def binlogFileKey (file : List Char) : List Char × Option (Nat × List Char) :=
  match rsplitOnce '.' file with
  | some (stem, suffix) =>
    if !suffix.isEmpty && suffix.all Char.isDigit then
      let digits := suffix.dropWhile (· = '0')
      (stem, some (digits.length, digits))
    else (file, none)
  | none => (file, none)

def compareNumber : Option (Nat × List Char) → Option (Nat × List Char) → Ordering
  | none, none => .eq
  | none, some _ => .lt
  | some _, none => .gt
  | some left, some right => (compare left.1 right.1).then (compare left.2 right.2)

def compareFileKey (left right : List Char × Option (Nat × List Char)) : Ordering :=
  (compare left.1 right.1).then (compareNumber left.2 right.2)

def compareRow : Option Nat → Option Nat → Ordering
  | some left, some right => compare left right
  | none, some _ => .gt
  | some _, none => .lt
  | none, none => .eq

def ReplicationState.compareCursor (self other : ReplicationState) : Ordering :=
  ((compareFileKey (binlogFileKey self.binlogFile.toList) (binlogFileKey other.binlogFile.toList)).then
    (compare self.binlogPosition other.binlogPosition)).then (compareRow self.rowOffset other.rowOffset)

/-- Whether an event is after the position at which a subscriber resumes. Tokens are read by a decoder; an event with an
unreadable token is not, and an unreadable resume position lets all other events pass. -/
def mySqlPositionReached (fromPositionBytes : ByteString → Option ReplicationState) (eventPos resumePos : ByteString) : Bool :=
  match fromPositionBytes eventPos with
  | none => false
  | some eventState =>
    match fromPositionBytes resumePos with
    | none => true
    | some resumeState => (eventState.compareCursor resumeState).isGT

end DrasiCore
