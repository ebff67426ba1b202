import Mathlib

/-!
# The queues between the emulator and its life support

One producer and one consumer share a ring without a lock.  Each step of a party
is one load or store of an index, or the copy of one element; what a routine
computes between them belongs to the step before.  The `signal` of a queue is
seen as what it does to a consumer that found the queue empty.
-/

namespace Queue

/-- The queue in the communications area; element sizes are left to `α`. -/
structure EmbQueue (α : Type*) where
  queueSize : Nat
  putIndex : Nat
  takeIndex : Nat
  elementArray : Nat → α

/-- The routines of the producer; a buffer has the `length` elements it is called
with. -/
inductive PutCall (α : Type*) where
  | put (ep : α)
  | putWord (elt : α)
  | putByte (elt : α)
  | putWords (buffer : List α)
  | putBytes (buffer : List α)

/-- The routines of the consumer. -/
inductive TakeCall where
  | take
  | takeWord
  | takeByte
  | takeWords (length : Nat)
  | takeBytes (length : Nat)

/-- Where the producer is. -/
inductive Producer (α : Type*) where
  | idle
  /-- About to fill in the element at the put index. -/
  | fill (put : Nat) (ep : α)
  /-- In the wait for a slot, with the incremented put index. -/
  | wait (original put : Nat) (ep : α)
  /-- About to store the put index. -/
  | store (original put : Nat) (ep : α)
  /-- At the head of the loop over contiguous blocks. -/
  | loop (original put : Nat) (buffer : List α)
  /-- Copying `chunk` to the put index, `copied` elements of it done. -/
  | copy (original put : Nat) (chunk : List α) (copied : Nat) (buffer : List α)
  /-- About to see whether the queue had been empty. -/
  | check (original : Nat)

/-- Where the consumer is. -/
inductive Consumer where
  | idle
  /-- About to load the put index. -/
  | load
  /-- About to copy the element at the take index. -/
  | read (take : Nat)
  /-- About to store the incremented take index. -/
  | store (take : Nat)
  | loop (take length : Nat)
  /-- Copying `count` elements from the take index, `copied` of them done. -/
  | copy (take count copied length : Nat)
  /-- Found the queue empty; `signalled` since then. -/
  | empty (signalled : Bool)
  deriving DecidableEq

/-- The queue, its two parties, and what they have put, published and taken. -/
structure State (α : Type*) where
  queue : EmbQueue α
  producer : Producer α
  consumer : Consumer
  /-- The elements of all calls of the producer, in order. -/
  offered : List α
  /-- The elements whose slots the put index has passed. -/
  published : List α
  taken : List α

variable {α : Type*}

def PutCall.elements : PutCall α → List α
  | .put ep => [ep]
  | .putWord elt => [elt]
  | .putByte elt => [elt]
  | .putWords buffer => buffer
  | .putBytes buffer => buffer

/-- `EmbQueuePut`, `EmbQueuePutWord` and `EmbQueuePutByte` on entry. -/
def putOne (q : EmbQueue α) (ep : α) : Producer α := .fill q.putIndex ep

/-- `EmbQueuePutWords` and `EmbQueuePutBytes` on entry. -/
def putMany (q : EmbQueue α) (buffer : List α) : Producer α := .loop q.putIndex q.putIndex buffer

def PutCall.enter (q : EmbQueue α) : PutCall α → Producer α
  | .put ep => putOne q ep
  | .putWord elt => putOne q elt
  | .putByte elt => putOne q elt
  | .putWords buffer => putMany q buffer
  | .putBytes buffer => putMany q buffer

def TakeCall.enter (q : EmbQueue α) : TakeCall → Consumer
  | .take => .load
  | .takeWord => .load
  | .takeByte => .load
  | .takeWords length => .loop q.takeIndex length
  | .takeBytes length => .loop q.takeIndex length

/-- The incremented index. -/
def increment (q : EmbQueue α) (i : Nat) : Nat := if q.queueSize ≤ i + 1 then 0 else i + 1

/-- The index after a block of `count` elements. -/
def advance (q : EmbQueue α) (i count : Nat) : Nat :=
  if i + count = q.queueSize then 0 else i + count

/-- As many elements as can be filled in contiguously. -/
def fillCount (q : EmbQueue α) (put take : Nat) : Nat :=
  if put < take then take - put - 1
  else if take = 0 then q.queueSize - put - 1
  else q.queueSize - put

/-- As many elements as can be taken contiguously. -/
def drainCount (q : EmbQueue α) (put take : Nat) : Nat :=
  if take ≤ put then put - take else q.queueSize - take

def EmbQueue.setElement (q : EmbQueue α) (i : Nat) (a : α) : EmbQueue α :=
  { q with elementArray := fun j => if j = i then a else q.elementArray j }

/-- `EmbSendSignal`, as the consumer sees it. -/
def Consumer.signal : Consumer → Consumer
  | .empty _ => .empty true
  | c => c

/-- One step of the producer. -/
def State.producerStep (s : State α) : State α :=
  let q := s.queue
  match s.producer with
  | .idle => s
  | .fill put ep =>
      { s with queue := q.setElement put ep, producer := .wait put (increment q put) ep }
  | .wait original put ep =>
      if put = q.takeIndex then s else { s with producer := .store original put ep }
  | .store original put ep =>
      { s with
        queue := { q with putIndex := put },
        published := s.published ++ [ep],
        producer := .check original }
  | .loop original put buffer =>
      if buffer = [] then { s with producer := .check original }
      else
        let count := fillCount q put q.takeIndex
        { s with producer := .copy original put (buffer.take count) 0 (buffer.drop count) }
  | .copy original put chunk copied buffer =>
      match chunk[copied]? with
      | some a =>
          { s with
            queue := q.setElement (put + copied) a,
            producer := .copy original put chunk (copied + 1) buffer }
      | none =>
          let put' := advance q put chunk.length
          { s with
            queue := { q with putIndex := put' },
            published := s.published ++ chunk,
            producer := .loop original put' buffer }
  | .check original =>
      { s with
        producer := .idle,
        consumer := if original = q.takeIndex then s.consumer.signal else s.consumer }

/-- One step of the consumer. -/
def State.consumerStep (s : State α) : State α :=
  let q := s.queue
  match s.consumer with
  | .idle => s
  | .load =>
      if q.putIndex = q.takeIndex then { s with consumer := .empty false }
      else { s with consumer := .read q.takeIndex }
  | .read take =>
      { s with
        taken := s.taken ++ [q.elementArray take],
        consumer := .store (increment q take) }
  | .store take => { s with queue := { q with takeIndex := take }, consumer := .idle }
  | .loop take length =>
      if length = 0 then { s with consumer := .idle }
      else
        let count := min (drainCount q q.putIndex take) length
        { s with consumer := .copy take count 0 (length - count) }
  | .copy take count copied length =>
      if copied < count then
        { s with
          taken := s.taken ++ [q.elementArray (take + copied)],
          consumer := .copy take count (copied + 1) length }
      else
        let take' := advance q take count
        { s with queue := { q with takeIndex := take' }, consumer := .loop take' length }
  | .empty _ => s

inductive Event (α : Type*) where
  | put (call : PutCall α)
  | take (call : TakeCall)
  | producer
  | consumer

/-- Any interleaving of calls and steps.  A consumer that found the queue empty
may look again at any time, or sleep. -/
def State.step (s : State α) : Event α → State α
  | .put call =>
      match s.producer with
      | .idle =>
          { s with producer := call.enter s.queue, offered := s.offered ++ call.elements }
      | _ => s
  | .take call =>
      match s.consumer with
      | .idle => { s with consumer := call.enter s.queue }
      | .empty _ => { s with consumer := call.enter s.queue }
      | _ => s
  | .producer => s.producerStep
  | .consumer => s.consumerStep

/-- Both parties before their first calls on an empty queue. -/
def State.init (q : EmbQueue α) : State α :=
  { queue := q, producer := .idle, consumer := .idle, offered := [], published := [], taken := [] }

end Queue
