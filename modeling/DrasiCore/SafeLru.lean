import DrasiCore.Library.Lru

/-! The operations of the cache that the index wrappers use. -/

namespace DrasiCore

abbrev SafeLru := Library.Lru

namespace SafeLru

open Library

variable {K V : Type} [DecidableEq K] (cache : SafeLru K V)

/-- The value of a key is changed in place, as a reference to it allows. -/
def getMut (key : K) (write : V → V) : SafeLru K V :=
  match cache.peek key with
  | some value => cache.put key (write value)
  | none => cache

inductive Operation (K V : Type) where
  | put (key : K) (value : V)
  | get (key : K)
  | getMut (key : K) (write : V → V)
  | remove (key : K)
  | purge

def perform : Operation K V → SafeLru K V
  | .put key value => cache.put key value
  | .get key => (cache.get key).2
  | .getMut key write => getMut cache key write
  | .remove key => cache.remove key
  | .purge => cache.purge

def run (cap : Nat) (operations : List (Operation K V)) : SafeLru K V := operations.foldl perform (Lru.new cap)

end SafeLru

end DrasiCore
