import DrasiCore.SourceJoins
import DrasiCore.Library.Lru

/-! The element index behind a cache. Elements, the slots they are known to have or not to have, and the references found
at either end of relations are kept in four bounded maps in front of an index that may change elements nobody named. -/

namespace DrasiCore

open Library

class ElementIndexStore (Index : Type) where
  getElement : Index → ElementReference → Option Element
  getSlotElementByRef : Index → Nat → ElementReference → Option Element
  getSlotElementsByInbound : Index → Nat → ElementReference → List Element
  getSlotElementsByOutbound : Index → Nat → ElementReference → List Element
  setElement : Index → Element → List Nat → Index
  deleteElement : Index → ElementReference → Index
  begin : Index → Index
  commit : Index → Index
  rollback : Index → Index

/-- Whatever is found through a slot is the element filed under its reference. -/
class LawfulElementIndex (Index : Type) [ElementIndexStore Index] : Prop where
  slot (index : Index) (slot : Nat) (ref : ElementReference) (element : Element) :
    ElementIndexStore.getSlotElementByRef index slot ref = some element → ElementIndexStore.getElement index ref = some element
  inbound (index : Index) (slot : Nat) (ref : ElementReference) (element : Element) :
    element ∈ ElementIndexStore.getSlotElementsByInbound index slot ref →
      ElementIndexStore.getElement index element.getReference = some element
  outbound (index : Index) (slot : Nat) (ref : ElementReference) (element : Element) :
    element ∈ ElementIndexStore.getSlotElementsByOutbound index slot ref →
      ElementIndexStore.getElement index element.getReference = some element

structure CachedElementIndex (Index : Type) where
  elementIndex : Index
  elementCache : Lru ElementReference Element
  slotCache : Lru ElementReference (AList fun _ : Nat => Bool)
  inboundCache : Lru (ElementReference × Nat) (List ElementReference)
  outboundCache : Lru (ElementReference × Nat) (List ElementReference)

namespace CachedElementIndex

variable {Index : Type} [ElementIndexStore Index]

def new (elementIndex : Index) (cacheSize : Nat) : CachedElementIndex Index :=
  ⟨elementIndex, .new cacheSize, .new cacheSize, .new cacheSize, .new cacheSize⟩

/-- The element, from the cache or else from the index, and the cache afterwards. -/
def getElementInternal (elementIndex : Index) (cache : Lru ElementReference Element) (elementRef : ElementReference) :
    Option Element × Lru ElementReference Element :=
  match cache.get elementRef with
  | (some element, cache) => (some element, cache)
  | (none, cache) =>
    match ElementIndexStore.getElement elementIndex elementRef with
    | some element => (some element, cache.put elementRef element)
    | none => (none, cache)

variable (index : CachedElementIndex Index) (elementRef : ElementReference)

def getElement : Option Element × CachedElementIndex Index :=
  let found := getElementInternal index.elementIndex index.elementCache elementRef
  (found.1, { index with elementCache := found.2 })

def setElement (element : Element) (slotAffinity : List Nat) : CachedElementIndex Index where
  elementIndex := ElementIndexStore.setElement index.elementIndex element slotAffinity
  elementCache := index.elementCache.put element.getReference element
  slotCache := index.slotCache.remove element.getReference
  inboundCache := index.inboundCache.purge
  outboundCache := index.outboundCache.purge

def deleteElement : CachedElementIndex Index where
  elementIndex := ElementIndexStore.deleteElement index.elementIndex elementRef
  elementCache := index.elementCache.remove elementRef
  slotCache := index.slotCache.remove elementRef
  inboundCache := index.inboundCache.purge
  outboundCache := index.outboundCache.purge

/-- A slot known to be had leads to the element, whatever the index says of its slots. -/
def getSlotElementByRef (slot : Nat) (elementRef : ElementReference) : Option Element × CachedElementIndex Index :=
  let slotElements := index.slotCache.get elementRef
  let touched := { index with slotCache := slotElements.2 }
  match slotElements.1.bind (·.lookup slot) with
  | some true => touched.getElement elementRef
  | some false => (none, touched)
  | none =>
    let result := ElementIndexStore.getSlotElementByRef index.elementIndex slot elementRef
    let slots := (slotElements.1.getD ∅).insert slot result.isSome
    (result, { index with slotCache := slotElements.2.put elementRef slots })

/-- The elements of cached references; those that are gone are skipped. -/
def getElements (elementIndex : Index) : Lru ElementReference Element → List ElementReference →
    List Element × Lru ElementReference Element
  | cache, [] => ([], cache)
  | cache, elementRef :: rest =>
    let found := getElementInternal elementIndex cache elementRef
    let others := getElements elementIndex found.2 rest
    (found.1.toList ++ others.1, others.2)

/-- What both lookups over relations do: their cached references, or else those of the elements the index finds. -/
def getSlotElements (found : List Element) (cache : Lru (ElementReference × Nat) (List ElementReference))
    (key : ElementReference × Nat) :
    List Element × Lru ElementReference Element × Lru (ElementReference × Nat) (List ElementReference) :=
  match cache.get key with
  | (some elements, cache) =>
    let read := getElements index.elementIndex index.elementCache elements
    (read.1, read.2, cache)
  | (none, cache) => (found, index.elementCache, cache.put key (found.map Element.getReference))

def getSlotElementsByInbound (slot : Nat) (inboundRef : ElementReference) : List Element × CachedElementIndex Index :=
  let read := index.getSlotElements (ElementIndexStore.getSlotElementsByInbound index.elementIndex slot inboundRef)
    index.inboundCache (inboundRef, slot)
  (read.1, { index with elementCache := read.2.1, inboundCache := read.2.2 })

def getSlotElementsByOutbound (slot : Nat) (outboundRef : ElementReference) : List Element × CachedElementIndex Index :=
  let read := index.getSlotElements (ElementIndexStore.getSlotElementsByOutbound index.elementIndex slot outboundRef)
    index.outboundCache (outboundRef, slot)
  (read.1, { index with elementCache := read.2.1, outboundCache := read.2.2 })

end CachedElementIndex

inductive ElementRead where
  | getElement (elementRef : ElementReference)
  | getSlotElementByRef (slot : Nat) (elementRef : ElementReference)
  | getSlotElementsByInbound (slot : Nat) (inboundRef : ElementReference)
  | getSlotElementsByOutbound (slot : Nat) (outboundRef : ElementReference)

/-- The calls that may change the index. The sessions are controlled beside the cache, which is not told of them. -/
inductive ElementUpdate where
  | setElement (element : Element) (slotAffinity : List Nat)
  | deleteElement (elementRef : ElementReference)
  | begin
  | commit
  | rollback

inductive ElementCall where
  | read (read : ElementRead)
  | update (update : ElementUpdate)

def ElementRead.of {Index : Type} [ElementIndexStore Index] (index : Index) : ElementRead → List Element
  | getElement elementRef => (ElementIndexStore.getElement index elementRef).toList
  | getSlotElementByRef slot elementRef => (ElementIndexStore.getSlotElementByRef index slot elementRef).toList
  | getSlotElementsByInbound slot inboundRef => ElementIndexStore.getSlotElementsByInbound index slot inboundRef
  | getSlotElementsByOutbound slot outboundRef => ElementIndexStore.getSlotElementsByOutbound index slot outboundRef

def ElementUpdate.apply {Index : Type} [ElementIndexStore Index] (index : Index) : ElementUpdate → Index
  | setElement element slotAffinity => ElementIndexStore.setElement index element slotAffinity
  | deleteElement elementRef => ElementIndexStore.deleteElement index elementRef
  | begin => ElementIndexStore.begin index
  | commit => ElementIndexStore.commit index
  | rollback => ElementIndexStore.rollback index

namespace CachedElementIndex

variable {Index : Type} [ElementIndexStore Index] (index : CachedElementIndex Index)

def read : ElementRead → List Element × CachedElementIndex Index
  | .getElement elementRef => ((index.getElement elementRef).1.toList, (index.getElement elementRef).2)
  | .getSlotElementByRef slot elementRef =>
    ((index.getSlotElementByRef slot elementRef).1.toList, (index.getSlotElementByRef slot elementRef).2)
  | .getSlotElementsByInbound slot inboundRef => index.getSlotElementsByInbound slot inboundRef
  | .getSlotElementsByOutbound slot outboundRef => index.getSlotElementsByOutbound slot outboundRef

def update : ElementUpdate → CachedElementIndex Index
  | .setElement element slotAffinity => index.setElement element slotAffinity
  | .deleteElement elementRef => index.deleteElement elementRef
  | session => { index with elementIndex := session.apply index.elementIndex }

def perform : ElementCall → CachedElementIndex Index
  | .read read => (index.read read).2
  | .update update => index.update update

def performAll (calls : List ElementCall) : CachedElementIndex Index :=
  calls.foldl perform index

end CachedElementIndex

def ElementCall.applyAll {Index : Type} [ElementIndexStore Index] (index : Index) (calls : List ElementCall) : Index :=
  calls.foldl (fun index call => match call with
    | .read _ => index
    | .update change => change.apply index) index

end DrasiCore
