import MinaGuard.Clients.Checkpoint
import MinaGuard.Foundations.Heap
import MinaGuard.Foundations.TransitionSystem

/-!
# The incremental store cache

`IncrementalStoreCache` of `store-checkpoint.ts`.  Calls of `get` run until they
wait for their source, which may answer anything or fail, and take turns
there.  Stores live in memory: two of them can share a container, and
whoever holds stores can change their containers in place.
-/

namespace MinaGuard

open Foundations

/-- What can be changed in place. -/
inductive Container where
  | owners (owners : List PublicKey)
  | tree (map : MerkleMap)
  | keyArray (keys : List Fp)
  | keySet (keys : List String)
  | divergence (divergent : DivergentBlock)

instance : Inhabited Container := ⟨.owners []⟩

namespace Container

def toOwners : Container → List PublicKey
  | owners l => l
  | _ => []

def toTree : Container → MerkleMap
  | tree map => map
  | _ => fun _ ↦ 0

def toKeyArray : Container → List Fp
  | keyArray keys => keys
  | _ => []

def toKeySet : Container → List String
  | keySet keys => keys
  | _ => []

def toDivergence : Container → DivergentBlock
  | divergence divergent => divergent
  | _ => ⟨none, none⟩

end Container

/-- Rebuilt stores, by the addresses of their containers. -/
structure StoreRefs where
  owners : ℕ
  approvalTree : ℕ
  approvalKeys : ℕ
  nullifierTree : ℕ
  nullifierKeys : ℕ
  divergent : ℕ
deriving DecidableEq

namespace StoreRefs

/-- Six addresses in a row. -/
def startingAt (base : ℕ) : StoreRefs :=
  ⟨base, base + 1, base + 2, base + 3, base + 4, base + 5⟩

variable (refs : StoreRefs) (heap : Heap Container)

def addresses : List ℕ :=
  [refs.owners, refs.approvalTree, refs.approvalKeys, refs.nullifierTree, refs.nullifierKeys,
    refs.divergent]

def contents : RebuiltStores where
  ownerStore := ⟨(heap.read refs.owners).toOwners⟩
  approvalStore := ⟨(heap.read refs.approvalTree).toTree, (heap.read refs.approvalKeys).toKeyArray⟩
  nullifierStore := ⟨(heap.read refs.nullifierTree).toTree, (heap.read refs.nullifierKeys).toKeySet⟩
  firstDivergentBlock := (heap.read refs.divergent).toDivergence

end StoreRefs

def RebuiltStores.containers (stores : RebuiltStores) : List Container :=
  [.owners stores.ownerStore.owners, .tree stores.approvalStore.map,
    .keyArray stores.approvalStore.keys, .tree stores.nullifierStore.map,
    .keySet stores.nullifierStore.keys, .divergence stores.firstDivergentBlock]

/-- Stores with containers of their own. -/
def newStores (heap : Heap Container) (stores : RebuiltStores) : StoreRefs × Heap Container :=
  (.startingAt heap.length, heap ++ stores.containers)

/-- Each container is copied. -/
def cloneStores (heap : Heap Container) (refs : StoreRefs) : StoreRefs × Heap Container :=
  (.startingAt heap.length, heap ++ refs.addresses.map heap.read)

/-- Writes both maps in place. -/
def writeMaps (heap : Heap Container) (refs : StoreRefs) (stores : RebuiltStores) :
    Heap Container :=
  (((heap.set refs.approvalTree (.tree stores.approvalStore.map)).set refs.approvalKeys
    (.keyArray stores.approvalStore.keys)).set refs.nullifierTree
      (.tree stores.nullifierStore.map)).set refs.nullifierKeys
        (.keySet stores.nullifierStore.keys)

section Rebuild

variable {E : Env} (B : Base58 E)

/-- `rebuildStores` on stores in memory: the maps of the initial stores are filled in
place, the owners go to a new list.  Where it throws, the maps are left as
`partialStores`. -/
def rebuildStoresIn (heap : Heap Container) (events : List IndexedEvent)
    (initial : Option StoreRefs) (partialStores : RebuiltStores) :
    Option StoreRefs × Heap Container :=
  match initial, rebuildStores B events (initial.map fun refs ↦ refs.contents heap) with
  | none, .error _ => (none, heap)
  | none, .ok stores =>
      let (refs, heap) := newStores heap stores
      (some refs, heap)
  | some refs, .error _ => (none, writeMaps heap refs partialStores)
  | some refs, .ok stores =>
      (some { refs with owners := heap.length, divergent := heap.length + 1 },
        writeMaps heap refs stores ++
          [.owners stores.ownerStore.owners, .divergence stores.firstDivergentBlock])

end Rebuild

structure CachedStores where
  stores : StoreRefs
  throughBlock : Option ℕ

structure CheckpointSource where
  key : String
  scope : StoreScope

/-- One round of the loop in `load`. -/
inductive Attempt where
  /-- From the block after `throughBlock`, on a copy of the cached stores. -/
  | incremental (cached : CachedStores) (throughBlock : ℕ)
  | full

/-- Outcome of a call: stores and the chain state they were checked against, or
`none` where it throws. -/
abbrev GetResult := Option (StoreRefs × ChainState)

inductive LoadPhase where
  /-- For the call before it with the same key. -/
  | waiting (previous : Option ℕ)
  | reading
  | fetching (attempt : Attempt)
  /-- The chain state is asked for. -/
  | checking (attempt : Attempt) (events : List IndexedEvent) (stores : StoreRefs)
  | writing (stores : StoreRefs) (chain : ChainState)
  | settled (result : GetResult)
  /-- The caller has the result. -/
  | finished (result : GetResult)

def LoadPhase.result : LoadPhase → Option GetResult
  | settled result => some result
  | finished result => some result
  | _ => none

structure GetCall where
  source : CheckpointSource
  phase : LoadPhase

structure StoreCache where
  heap : Heap Container
  cache : InsertionMap String CachedStores
  /-- The last call of each key that has one under way. -/
  pending : InsertionMap String ℕ
  calls : List GetCall

inductive CacheAction where
  | get (source : CheckpointSource)
  | load (call : ℕ)
  /-- The answer to `read`, `none` where there is none. -/
  | read (call : ℕ) (checkpoint : Option StoreCheckpoint)
  | events (call : ℕ) (answer : Option (List IndexedEvent)) (partialStores : RebuiltStores)
  | chain (call : ℕ) (answer : Option ChainState)
  /-- Whether the checkpoint is written or dropped. -/
  | write (call : ℕ)
  | finish (call : ℕ)
  /-- Whoever has the result of a call changes a container of it. -/
  | mutate (call : ℕ) (address : ℕ) (container : Container)

def throughBlockOf (checkpoint : StoreCheckpoint) : Option ℕ :=
  match checkpoint.throughBlock with
  | .number q => some q.num.toNat
  | _ => none

/-- A safe integer, from `fromBlock` on. -/
def isPlaced (fromBlock : ℕ) (e : IndexedEvent) : Bool :=
  match e.blockHeight with
  | some height => height ≤ maxSafeInteger ∧ fromBlock ≤ height
  | none => false

/-- How far the events go, `none` if one has no height. -/
def advanceThrough : Option ℕ → List IndexedEvent → Option ℕ
  | throughBlock, [] => throughBlock
  | throughBlock, e :: events =>
      if isPlaced 0 e then
        advanceThrough (some (max (throughBlock.getD 0) (e.blockHeight.getD 0))) events
      else none

namespace Attempt

/-- The attempt that cached stores allow. -/
def first (cached : CachedStores) : Attempt :=
  match cached.throughBlock with
  | some throughBlock => incremental cached throughBlock
  | none => full

def throughBlock : Attempt → Option ℕ
  | incremental _ throughBlock => some throughBlock
  | full => none

/-- The events are in the range that was asked for. -/
def accepts (attempt : Attempt) (events : List IndexedEvent) : Bool :=
  match attempt with
  | incremental _ throughBlock => events.all (isPlaced (throughBlock + 1))
  | full => true

end Attempt

namespace StoreCache

variable {E : Env} (B : Base58 E) (s : StoreCache)

def setPhase (n : ℕ) (call : GetCall) (phase : LoadPhase) : StoreCache :=
  { s with calls := s.calls.set n { call with phase } }

def isSettled : Option ℕ → Bool
  | none => true
  | some m => s.calls[m]?.all fun call ↦ call.phase.result.isSome

/-- `catch` in `load`: the full attempt follows the incremental one. -/
def caught (n : ℕ) (call : GetCall) (attempt : Attempt) : StoreCache :=
  let s := { s with cache := s.cache.erase call.source.key }
  match attempt with
  | .incremental _ _ => s.setPhase n call (.fetching .full)
  | .full => s.setPhase n call (.settled none)

def get (source : CheckpointSource) : StoreCache :=
  { s with
    calls := s.calls ++ [⟨source, .waiting (s.pending.get? source.key)⟩]
    pending := s.pending.set source.key s.calls.length }

def load (n : ℕ) (call : GetCall) : Option StoreCache :=
  match call.phase with
  | .waiting previous =>
      if s.isSettled previous then
        match s.cache.get? call.source.key with
        | some cached => some (s.setPhase n call (.fetching (.first cached)))
        | none => some (s.setPhase n call .reading)
      else none
  | _ => none

def read (n : ℕ) (call : GetCall) (checkpoint : Option StoreCheckpoint) : Option StoreCache :=
  match call.phase, checkpoint with
  | .reading, none => some (s.setPhase n call (.fetching .full))
  | .reading, some checkpoint =>
      match restoreStoreCheckpoint B checkpoint call.source.scope with
      | .error _ => some (s.setPhase n call (.fetching .full))
      | .ok stores =>
          let (refs, heap) := newStores s.heap stores
          some ({ s with heap }.setPhase n call
            (.fetching (.first ⟨refs, throughBlockOf checkpoint⟩)))
  | _, _ => none

/-- The rebuild of one attempt. -/
def rebuild (attempt : Attempt) (events : List IndexedEvent) (partialStores : RebuiltStores) :
    Option StoreRefs × Heap Container :=
  match attempt with
  | .incremental cached _ =>
      let (copy, heap) := cloneStores s.heap cached.stores
      rebuildStoresIn B heap events (some copy) partialStores
  | .full => rebuildStoresIn B s.heap events none partialStores

def events (n : ℕ) (call : GetCall) (answer : Option (List IndexedEvent))
    (partialStores : RebuiltStores) : Option StoreCache :=
  match call.phase, answer with
  | .fetching attempt, none => some (s.caught n call attempt)
  | .fetching attempt, some events =>
      if attempt.accepts events then
        match s.rebuild B attempt events partialStores with
        | (none, heap) => some ({ s with heap }.caught n call attempt)
        | (some stores, heap) =>
            some ({ s with heap }.setPhase n call (.checking attempt events stores))
      else some (s.caught n call attempt)
  | _, _ => none

/-- At most four entries stay. -/
def evict (cache : InsertionMap String CachedStores) : InsertionMap String CachedStores :=
  cache.drop (cache.length - 4)

variable (E) in
/-- The checks of `load`. -/
def verify (stores : StoreRefs) (chain : ChainState) : Except String Unit := do
  requireRoots chain
  assertStoresMatchChain E (stores.contents s.heap) chain

variable (E) in
def chain (n : ℕ) (call : GetCall) (answer : Option ChainState) : Option StoreCache :=
  match call.phase, answer with
  | .checking attempt _ _, none => some (s.caught n call attempt)
  | .checking attempt events stores, some chain =>
      match s.verify E stores chain with
      | .error _ => some (s.caught n call attempt)
      | .ok () =>
          let cached : CachedStores := ⟨stores, advanceThrough attempt.throughBlock events⟩
          let cache := evict ((s.cache.erase call.source.key).set call.source.key cached)
          some ({ s with cache }.setPhase n call (.writing stores chain))
  | _, _ => none

def write (n : ℕ) (call : GetCall) : Option StoreCache :=
  match call.phase with
  | .writing stores chain =>
      let (copy, heap) := cloneStores s.heap stores
      some ({ s with heap }.setPhase n call (.settled (some (copy, chain))))
  | _ => none

def finish (n : ℕ) (call : GetCall) : Option StoreCache :=
  match call.phase with
  | .settled result =>
      let pending := if s.pending.get? call.source.key = some n then
        s.pending.erase call.source.key else s.pending
      some ({ s with pending }.setPhase n call (.finished result))
  | _ => none

def mutate (call : GetCall) (address : ℕ) (container : Container) : Option StoreCache :=
  match call.phase with
  | .finished (some (refs, _)) =>
      if address ∈ refs.addresses then some { s with heap := s.heap.set address container }
      else none
  | _ => none

def step (s : StoreCache) : CacheAction → Option StoreCache
  | .get source => some (s.get source)
  | .load n => s.calls[n]?.bind (s.load n)
  | .read n checkpoint => s.calls[n]?.bind fun call ↦ s.read B n call checkpoint
  | .events n answer partialStores =>
      s.calls[n]?.bind fun call ↦ s.events B n call answer partialStores
  | .chain n answer => s.calls[n]?.bind fun call ↦ s.chain E n call answer
  | .write n => s.calls[n]?.bind (s.write n)
  | .finish n => s.calls[n]?.bind (s.finish n)
  | .mutate n address container => s.calls[n]?.bind fun call ↦ s.mutate call address container

end StoreCache

/-- A new cache and the calls of its clients. -/
def cacheSystem {E : Env} (B : Base58 E) : TransitionSystem StoreCache CacheAction :=
  .ofFunction (fun s ↦ s = ⟨[], [], [], []⟩) (StoreCache.step B)

end MinaGuard
