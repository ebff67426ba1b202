import Mathlib
import OsxVlm.Emulator.Calls

/-!
# The stack cache of the VLM interpreter

The top of the stack is kept in a cache of eight-byte words; the stack registers are
byte addresses in it.  When it runs full a fixed number of words is dumped to memory
and the rest is moved down; when a return finds its frame below the cache the words
are moved up and the frame is filled from memory.
-/

namespace Interpreter

open Ivory

def cachesize : Int := 1792
def maxframesize : Nat := 128
def stackMargin : Nat := 128
def cachedumpquantum : Nat := 896

structure StackState where
  /-- Words of the stack cache, by address. -/
  cache : Int → LispObj
  /-- Words of the memory, by virtual address. -/
  memory : Int → LispObj
  iSP : Int
  iFP : Int
  iLP : Int
  restartsp : Int
  stackcachedata : Int
  stackcachebasevma : Int
  stackcachetopvma : Int
  scovlimit : Int
  scovdumpcount : Int

/-! ### Moving words -/

/-- `stack-block-copy`, from the first word on. -/
def stackBlockCopy : Nat → Int → Int → (Int → LispObj) → Int → LispObj
  | 0, _, _, cache => cache
  | count + 1, src, dst, cache =>
      stackBlockCopy count (src + 8) (dst + 8) (Function.update cache dst (cache src))

/-- `stack-block-copy` upwards, from the ends of the blocks down. -/
def stackBlockCopyUp : Nat → Int → Int → (Int → LispObj) → Int → LispObj
  | 0, _, _, cache => cache
  | count + 1, src, dst, cache =>
      stackBlockCopyUp count (src - 8) (dst - 8)
        (Function.update cache (dst - 8) (cache (src - 8)))

def stackFill (memory : Int → LispObj) : Nat → Int → Int → (Int → LispObj) → Int → LispObj
  | 0, _, _, cache => cache
  | count + 1, vma, sca, cache =>
      stackFill memory count (vma + 1) (sca + 8) (Function.update cache sca (memory vma))

/-- The first loop of `stack-dump`. -/
def dumpData (cache : Int → LispObj) : Nat → Int → Int → (Int → LispObj) → Int → LispObj
  | 0, _, _, memory => memory
  | count + 1, vma, sca, memory =>
      dumpData cache count (vma + 1) (sca + 8)
        (Function.update memory vma { memory vma with data := (cache sca).data })

/-- The second loop of `stack-dump`. -/
def dumpTags (cache : Int → LispObj) : Nat → Int → Int → (Int → LispObj) → Int → LispObj
  | 0, _, _, memory => memory
  | count + 1, vma, sca, memory =>
      dumpTags cache count (vma + 1) (sca + 8)
        (Function.update memory vma { memory vma with tag := (cache sca).tag })

namespace StackState

def scaToVMA (s : StackState) (sca : Int) : Int :=
  (sca - s.stackcachedata) / 8 + s.stackcachebasevma

/-- The first stores of `stack-dump`: so many of data and of tags. -/
def stackDump (s : StackState) (data tags : Nat) : StackState :=
  let memory := dumpData s.cache data s.stackcachebasevma s.stackcachedata s.memory
  { s with
    memory := dumpTags s.cache tags s.stackcachebasevma s.stackcachedata memory
    scovdumpcount := cachedumpquantum }

/-! ### Overflow -/

/-- `stack-cache-overflow-check`: there is room for `nwords` and the margin. -/
def stackCacheOverflowCheck (s : StackState) (nwords : Nat) : Bool :=
  let newSCA := 8 * ((stackMargin + nwords : Nat) : Int) + s.iSP
  let oldSCA := 8 * s.scovlimit + s.stackcachedata
  newSCA ≤ oldSCA

/-- What stops the handler: the page at the new end of the cache, or a store of the dump. -/
inductive Fault where
  | page
  | dump (data tags : Nat)

/-- The cache moved down by the quantum that was dumped. -/
def moveDown (s : StackState) : StackState :=
  let src := 8 * (cachedumpquantum : Int) + s.stackcachedata
  let iSP := s.iSP - 8 * cachedumpquantum
  { s with
    stackcachebasevma := s.stackcachebasevma + cachedumpquantum
    stackcachetopvma := s.stackcachetopvma + cachedumpquantum
    scovlimit := s.scovlimit - cachedumpquantum
    cache := stackBlockCopy cachedumpquantum src s.stackcachedata s.cache
    iSP := iSP
    iFP := s.iFP - 8 * cachedumpquantum
    iLP := s.iLP - 8 * cachedumpquantum
    restartsp := iSP }

/-- The start of `stack-cache-overflow-handler`: the limit is raised by another margin. -/
def raiseLimit (s : StackState) (nwords : Nat) : StackState :=
  let newSCA := 8 * ((stackMargin * 2 + nwords : Nat) : Int) + s.iSP
  { s with
    iSP := s.restartsp
    scovlimit := (newSCA - s.stackcachedata) / 8 }

/-- `stack-cache-overflow-handler`, and whether it got to its end. -/
def stackCacheOverflowHandler (s : StackState) (nwords : Nat) (fault : Option Fault) :
    StackState × Bool :=
  let s := s.raiseLimit nwords
  match fault with
  | some .page => (s, false)
  | fault =>
      if s.scovlimit ≤ cachesize then (s, true)
      else
        match fault with
        | some (.dump data tags) => (s.stackDump data tags, false)
        | _ => ((s.stackDump cachedumpquantum cachedumpquantum).moveDown, true)

/-! ### Underflow -/

def stackCacheUnderflowBody (s : StackState) (count : Nat) : StackState :=
  let src := s.stackcachedata
  let dst := 8 * (count : Int) + src
  let preserved := ((s.restartsp + 8 - src) / 8).toNat
  let cache := stackBlockCopyUp preserved (8 * preserved + src) (8 * preserved + dst) s.cache
  let base := s.stackcachebasevma - count
  { s with
    iFP := 8 * count + s.iFP
    iSP := 8 * count + s.iSP
    iLP := 8 * count + s.iLP
    restartsp := 8 * count + s.restartsp
    stackcachebasevma := base
    stackcachetopvma := s.stackcachetopvma - count
    cache := stackFill s.memory count base s.stackcachedata cache }

/-- `stack-cache-underflow-check` of the frame pointer. -/
def stackCacheUnderflowCheck (s : StackState) : StackState :=
  let count := s.stackcachedata - s.iFP
  if count ≤ 0 then s
  else if count / 8 ≤ 0 then s
  else s.stackCacheUnderflowBody (count / 8).toNat

/-! ### Pushing -/

def stackPush (s : StackState) (o : LispObj) : StackState :=
  { s with
    cache := Function.update s.cache (s.iSP + 8) o
    iSP := s.iSP + 8 }

end StackState

/-- What the interpreter does with the stack. -/
inductive StackAction where
  /-- The next instruction starts. -/
  | begin
  /-- Words are pushed after a check for `nwords`. -/
  | push (nwords : Nat) (words : List LispObj)
  /-- Words are popped, a frame is entered or left. -/
  | move (iSP iFP iLP : Int)
  | overflow (nwords : Nat) (fault : Option StackState.Fault)
  | underflow

def StackState.step (s : StackState) : StackAction → StackState
  | .begin => { s with restartsp := s.iSP }
  | .push _ words => words.foldl StackState.stackPush s
  | .move iSP iFP iLP => { s with iSP, iFP, iLP }
  | .overflow nwords fault => (s.stackCacheOverflowHandler nwords fault).1
  | .underflow => s.stackCacheUnderflowCheck

end Interpreter
