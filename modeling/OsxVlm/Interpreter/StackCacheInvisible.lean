import Mathlib
import OsxVlm.Interpreter.StackCache

/-!
# The stack cache is invisible

Where the cache stands and how far it reaches changes; which word a virtual address of
the stack denotes does not, as long as no more than two quanta are in use when a
quantum is dumped, and as long as the words that are moved up stay below the limit.
-/

namespace Interpreter

open Ivory

/-! ### What moving words does -/

/-- Copied down, no word is overwritten before it was read. -/
theorem stackBlockCopy_apply (count : Nat) (src dst : Int) (cache : Int → LispObj)
    (h : dst ≤ src) (k : Int) :
    stackBlockCopy count src dst cache (dst + 8 * k) =
      if 0 ≤ k ∧ k < count then cache (src + 8 * k) else cache (dst + 8 * k) := by
  induction count generalizing src dst cache k with
  | zero => rw [stackBlockCopy, if_neg (by omega)]
  | succ count ih =>
      have hnext := ih (src + 8) (dst + 8) (Function.update cache dst (cache src)) (by omega)
        (k - 1)
      have hdst : dst + 8 + 8 * (k - 1) = dst + 8 * k := by ring
      have hsrc : src + 8 + 8 * (k - 1) = src + 8 * k := by ring
      rw [hdst, hsrc] at hnext
      rw [stackBlockCopy, hnext]
      by_cases hk : k = 0
      · subst hk
        rw [if_neg (by omega), if_pos (by omega)]
        simp
      · by_cases hin : 0 ≤ k ∧ k < (count + 1 : Nat)
        · rw [if_pos (by omega), if_pos hin, Function.update_of_ne (by omega)]
        · rw [if_neg (by omega), if_neg hin, Function.update_of_ne (by omega)]

/-- The same upwards, from the ends of the blocks. -/
theorem stackBlockCopyUp_apply (count : Nat) (src dst : Int) (cache : Int → LispObj)
    (h : src ≤ dst) (k : Int) :
    stackBlockCopyUp count (8 * count + src) (8 * count + dst) cache (dst + 8 * k) =
      if 0 ≤ k ∧ k < count then cache (src + 8 * k) else cache (dst + 8 * k) := by
  induction count generalizing cache with
  | zero => rw [stackBlockCopyUp, if_neg (by omega)]
  | succ count ih =>
      have hsrc : 8 * ((count + 1 : Nat) : Int) + src - 8 = 8 * count + src := by
        push_cast
        ring
      have hdst : 8 * ((count + 1 : Nat) : Int) + dst - 8 = 8 * count + dst := by
        push_cast
        ring
      rw [stackBlockCopyUp, hsrc, hdst, ih]
      by_cases hk : k = count
      · subst hk
        rw [if_neg (by omega), if_pos (by omega), add_comm dst, Function.update_self,
          add_comm src]
      · by_cases hin : 0 ≤ k ∧ k < count
        · rw [if_pos hin, if_pos (by omega), Function.update_of_ne (by omega)]
        · rw [if_neg hin, if_neg (by omega), Function.update_of_ne (by omega)]

theorem stackFill_apply (memory : Int → LispObj) (count : Nat) (vma sca : Int)
    (cache : Int → LispObj) (k : Int) :
    stackFill memory count vma sca cache (sca + 8 * k) =
      if 0 ≤ k ∧ k < count then memory (vma + k) else cache (sca + 8 * k) := by
  induction count generalizing vma sca cache k with
  | zero => rw [stackFill, if_neg (by omega)]
  | succ count ih =>
      have hnext := ih (vma + 1) (sca + 8) (Function.update cache sca (memory vma)) (k - 1)
      have hsca : sca + 8 + 8 * (k - 1) = sca + 8 * k := by ring
      have hvma : vma + 1 + (k - 1) = vma + k := by ring
      rw [hsca, hvma] at hnext
      rw [stackFill, hnext]
      by_cases hk : k = 0
      · subst hk
        rw [if_neg (by omega), if_pos (by omega)]
        simp
      · by_cases hin : 0 ≤ k ∧ k < (count + 1 : Nat)
        · rw [if_pos (by omega), if_pos hin]
        · rw [if_neg (by omega), if_neg hin, Function.update_of_ne (by omega)]

theorem dumpData_apply (cache : Int → LispObj) (count : Nat) (vma sca : Int)
    (memory : Int → LispObj) (k : Int) :
    dumpData cache count vma sca memory (vma + k) =
      if 0 ≤ k ∧ k < count then ⟨(memory (vma + k)).tag, (cache (sca + 8 * k)).data⟩
      else memory (vma + k) := by
  induction count generalizing vma sca memory k with
  | zero => rw [dumpData, if_neg (by omega)]
  | succ count ih =>
      have hnext := ih (vma + 1) (sca + 8)
        (Function.update memory vma { memory vma with data := (cache sca).data }) (k - 1)
      have hvma : vma + 1 + (k - 1) = vma + k := by ring
      have hsca : sca + 8 + 8 * (k - 1) = sca + 8 * k := by ring
      rw [hvma, hsca] at hnext
      rw [dumpData, hnext]
      by_cases hk : k = 0
      · subst hk
        rw [if_neg (by omega), if_pos (by omega)]
        simp
      · by_cases hin : 0 ≤ k ∧ k < (count + 1 : Nat)
        · rw [if_pos (by omega), if_pos hin, Function.update_of_ne (by omega)]
        · rw [if_neg (by omega), if_neg hin, Function.update_of_ne (by omega)]

theorem dumpTags_apply (cache : Int → LispObj) (count : Nat) (vma sca : Int)
    (memory : Int → LispObj) (k : Int) :
    dumpTags cache count vma sca memory (vma + k) =
      if 0 ≤ k ∧ k < count then ⟨(cache (sca + 8 * k)).tag, (memory (vma + k)).data⟩
      else memory (vma + k) := by
  induction count generalizing vma sca memory k with
  | zero => rw [dumpTags, if_neg (by omega)]
  | succ count ih =>
      have hnext := ih (vma + 1) (sca + 8)
        (Function.update memory vma { memory vma with tag := (cache sca).tag }) (k - 1)
      have hvma : vma + 1 + (k - 1) = vma + k := by ring
      have hsca : sca + 8 + 8 * (k - 1) = sca + 8 * k := by ring
      rw [hvma, hsca] at hnext
      rw [dumpTags, hnext]
      by_cases hk : k = 0
      · subst hk
        rw [if_neg (by omega), if_pos (by omega)]
        simp
      · by_cases hin : 0 ≤ k ∧ k < (count + 1 : Nat)
        · rw [if_pos (by omega), if_pos hin, Function.update_of_ne (by omega)]
        · rw [if_neg (by omega), if_neg hin, Function.update_of_ne (by omega)]

/-! ### What a virtual address denotes -/

namespace StackState

/-- The allocated block has room for twice the cache. -/
def blockwords : Int := 2 * cachesize

def denoted (s : StackState) (v : Int) : LispObj :=
  if 0 ≤ v - s.stackcachebasevma ∧ v - s.stackcachebasevma < s.scovlimit then
    s.cache (s.stackcachedata + 8 * (v - s.stackcachebasevma))
  else s.memory v

/-- The words of the frame are in the cache, and in the block. -/
def FrameInCache (s : StackState) : Prop :=
  ∀ a, s.iFP ≤ a → a ≤ s.iSP → s.stackcachedata ≤ a ∧
    a < s.stackcachedata + 8 * s.scovlimit ∧ a < s.stackcachedata + 8 * blockwords

/-- An overflow or underflow that leaves the stack as it was; an overflow resets the
stack pointer to `sp`. -/
structure Invisible (s : StackState) (sp : Int) (s' : StackState) : Prop where
  words : ∀ v, v ≤ s.scaToVMA s.restartsp → s'.denoted v = s.denoted v
  iSP : s'.scaToVMA s'.iSP = s.scaToVMA sp
  iFP : s'.scaToVMA s'.iFP = s.scaToVMA s.iFP
  iLP : s'.scaToVMA s'.iLP = s.scaToVMA s.iLP
  restartsp : s'.scaToVMA s'.restartsp = s.scaToVMA s.restartsp
  inCache : s'.FrameInCache

/-- What holds in every state of a run. -/
structure Sane (s : StackState) : Prop where
  iSP_aligned : (s.iSP - s.stackcachedata) % 8 = 0
  iFP_aligned : (s.iFP - s.stackcachedata) % 8 = 0
  iLP_aligned : (s.iLP - s.stackcachedata) % 8 = 0
  restartsp_aligned : (s.restartsp - s.stackcachedata) % 8 = 0
  frame : s.iSP < s.iFP + 8 * maxframesize
  iSP_lt : s.iSP < s.stackcachedata + 8 * s.scovlimit
  restartsp_lt : s.restartsp < s.stackcachedata + 8 * s.scovlimit
  limit : (maxframesize : Int) ≤ s.scovlimit

/-- Pushes are guarded, and frames have at most 128 words; the handler of an overflow runs
when the check fails, in a frame that is in the cache. -/
def Permits (s : StackState) : StackAction → Prop
  | .begin => True
  | .push nwords words =>
      words.length ≤ nwords ∧ s.stackCacheOverflowCheck nwords = true ∧
        s.iSP + 8 * words.length < s.iFP + 8 * maxframesize
  | .move iSP iFP iLP =>
      (iSP - s.stackcachedata) % 8 = 0 ∧ (iFP - s.stackcachedata) % 8 = 0 ∧
        (iLP - s.stackcachedata) % 8 = 0 ∧ iSP ≤ s.iSP ∧ iSP < iFP + 8 * maxframesize
  | .overflow nwords _ =>
      nwords ≤ maxframesize ∧ s.stackCacheOverflowCheck nwords = false ∧
        s.stackcachedata ≤ s.iFP ∧ s.restartsp < s.iFP + 8 * maxframesize
  | .underflow => True

/-- A quantum is dumped only while two quanta hold all words that are in use; words are
moved up only below the limit. -/
def Careful (s : StackState) : StackAction → Prop
  | .overflow nwords none =>
      cachesize < (s.raiseLimit nwords).scovlimit →
        s.restartsp < s.stackcachedata + 8 * (2 * cachedumpquantum)
  | .underflow =>
      s.iFP < s.stackcachedata →
        s.restartsp + (s.stackcachedata - s.iFP) < s.stackcachedata + 8 * s.scovlimit
  | _ => True

/-- The action is an overflow or underflow that comes to its end. -/
def Completes (s : StackState) : StackAction → Prop
  | .overflow nwords fault => (s.stackCacheOverflowHandler nwords fault).2 = true
  | .underflow => s.iFP < s.stackcachedata
  | _ => False

/-- Where the stack pointer is afterwards. -/
def resetSP (s : StackState) : StackAction → Int
  | .overflow _ _ => s.restartsp
  | _ => s.iSP

variable {s : StackState}

/-! ### Overflow -/

theorem raiseLimit_scovlimit (h : s.Sane) {nwords : Nat} :
    8 * (s.raiseLimit nwords).scovlimit = 8 * (256 + nwords) + (s.iSP - s.stackcachedata) := by
  have haligned := h.iSP_aligned
  simp only [raiseLimit, stackMargin]
  push_cast
  omega

theorem stackCacheOverflowCheck_iff {nwords : Nat} :
    s.stackCacheOverflowCheck nwords = true ↔
      8 * (128 + nwords) + s.iSP ≤ 8 * s.scovlimit + s.stackcachedata := by
  unfold stackCacheOverflowCheck stackMargin
  rw [decide_eq_true_eq]
  push_cast
  rfl

/-- The raised limit is above the old one, by more than the margin. -/
theorem scovlimit_lt (h : s.Sane) {nwords : Nat}
    (hcheck : s.stackCacheOverflowCheck nwords = false) :
    s.scovlimit + 128 < (s.raiseLimit nwords).scovlimit := by
  have hlimit := @raiseLimit_scovlimit s h nwords
  rw [← Bool.not_eq_true, stackCacheOverflowCheck_iff] at hcheck
  omega

theorem denoted_cache {v : Int} (hlow : s.stackcachebasevma ≤ v)
    (hhigh : v < s.stackcachebasevma + s.scovlimit) :
    s.denoted v = s.cache (s.stackcachedata + 8 * (v - s.stackcachebasevma)) :=
  if_pos ⟨by omega, by omega⟩

theorem denoted_memory {v : Int}
    (h : v < s.stackcachebasevma ∨ s.stackcachebasevma + s.scovlimit ≤ v) :
    s.denoted v = s.memory v := if_neg (by omega)

theorem denoted_raiseLimit (h : s.Sane) {nwords : Nat}
    (hcheck : s.stackCacheOverflowCheck nwords = false) {v : Int}
    (hv : v ≤ s.scaToVMA s.restartsp) : (s.raiseLimit nwords).denoted v = s.denoted v := by
  have hlt := scovlimit_lt h hcheck
  have hrestart := h.restartsp_lt
  have haligned := h.restartsp_aligned
  have hbase : (s.raiseLimit nwords).stackcachebasevma = s.stackcachebasevma := rfl
  unfold scaToVMA at hv
  by_cases hin : s.stackcachebasevma ≤ v
  · rw [denoted_cache (by omega) (by omega), denoted_cache hin (by omega)]
    rfl
  · rw [denoted_memory (by omega), denoted_memory (by omega)]
    rfl

/-! ### The dump -/

theorem moveDown_memory : s.moveDown.memory = s.memory := by
  simp only [moveDown]

theorem moveDown_stackcachedata : s.moveDown.stackcachedata = s.stackcachedata := by
  simp only [moveDown]

theorem moveDown_stackcachebasevma :
    s.moveDown.stackcachebasevma = s.stackcachebasevma + cachedumpquantum := by
  simp only [moveDown]

theorem moveDown_scovlimit : s.moveDown.scovlimit = s.scovlimit - cachedumpquantum := by
  simp only [moveDown]

/-- The bottom of the cache is in the memory as well. -/
def Dumped (s : StackState) (quantum : Int) : Prop :=
  ∀ k, 0 ≤ k → k < quantum →
    s.memory (s.stackcachebasevma + k) = s.cache (s.stackcachedata + 8 * k)

theorem dumped_stackDump (quantum : Nat) : (s.stackDump quantum quantum).Dumped quantum := by
  intro k hk hlt
  show dumpTags s.cache quantum s.stackcachebasevma s.stackcachedata
    (dumpData s.cache quantum s.stackcachebasevma s.stackcachedata s.memory)
      (s.stackcachebasevma + k) = s.cache (s.stackcachedata + 8 * k)
  rw [dumpTags_apply, dumpData_apply, if_pos ⟨hk, hlt⟩, if_pos ⟨hk, hlt⟩]

/-- The stores of a dump change no word that is denoted by the cache. -/
theorem denoted_stackDump (data tags : Nat) (hdata : (data : Int) ≤ s.scovlimit)
    (htags : (tags : Int) ≤ s.scovlimit) (v : Int) :
    (s.stackDump data tags).denoted v = s.denoted v := by
  obtain ⟨k, rfl⟩ : ∃ k, v = s.stackcachebasevma + k := ⟨v - s.stackcachebasevma, by ring⟩
  have hbase : (s.stackDump data tags).stackcachebasevma = s.stackcachebasevma := rfl
  have hlimit : (s.stackDump data tags).scovlimit = s.scovlimit := rfl
  by_cases hin : 0 ≤ k ∧ k < s.scovlimit
  · rw [denoted_cache (by omega) (by omega), denoted_cache (by omega) (by omega)]
    rfl
  · rw [denoted_memory (by omega), denoted_memory (by omega)]
    show dumpTags _ _ _ _ _ _ = _
    rw [dumpTags_apply, if_neg (by omega), dumpData_apply, if_neg (by omega)]

theorem moveDown_cache_apply {k : Int} (hk : 0 ≤ k) (hlt : k < cachedumpquantum) :
    s.moveDown.cache (s.stackcachedata + 8 * k) =
      s.cache (s.stackcachedata + 8 * (cachedumpquantum + k)) := by
  simp only [moveDown]
  rw [stackBlockCopy_apply _ _ _ _ (by omega), if_pos ⟨hk, hlt⟩]
  congr 1
  ring

/-- A quantum that is in the memory is denoted by the memory, the next one, moved down, by
the cache. -/
theorem denoted_of_moved {s' : StackState} {quantum : Int}
    (hdata : s'.stackcachedata = s.stackcachedata)
    (hbase : s'.stackcachebasevma = s.stackcachebasevma + quantum)
    (hlimit : s'.scovlimit = s.scovlimit - quantum)
    (hmemory : s'.memory = s.memory) (hdumped : s.Dumped quantum)
    (hcache : ∀ {k}, 0 ≤ k → k < quantum → s'.cache (s.stackcachedata + 8 * k) =
      s.cache (s.stackcachedata + 8 * (quantum + k)))
    (hquantum : 0 ≤ quantum) {v : Int} (hv : v < s.stackcachebasevma + s.scovlimit)
    (hnext : v < s.stackcachebasevma + 2 * quantum) : s'.denoted v = s.denoted v := by
  obtain ⟨k, rfl⟩ : ∃ k, v = s.stackcachebasevma + k := ⟨v - s.stackcachebasevma, by ring⟩
  by_cases hlow : k < quantum
  · rw [denoted_memory (by omega), hmemory]
    by_cases hneg : 0 ≤ k
    · rw [denoted_cache (by omega) (by omega), add_sub_cancel_left, hdumped k hneg hlow]
    · rw [denoted_memory (by omega)]
  · have hindex : s.stackcachebasevma + k - (s.stackcachebasevma + quantum) = k - quantum := by
      ring
    rw [denoted_cache (by omega) (by omega), denoted_cache (by omega) (by omega), hdata, hbase,
      hindex, hcache (by omega) (by omega), add_sub_cancel_left, add_sub_cancel]

theorem denoted_moveDown (hdumped : s.Dumped cachedumpquantum) {v : Int}
    (hv : v < s.stackcachebasevma + s.scovlimit)
    (hnext : v < s.stackcachebasevma + 2 * cachedumpquantum) :
    s.moveDown.denoted v = s.denoted v :=
  denoted_of_moved moveDown_stackcachedata moveDown_stackcachebasevma moveDown_scovlimit
    moveDown_memory hdumped moveDown_cache_apply (Int.natCast_nonneg _) hv hnext

/-- The ways the handler of an overflow comes out. -/
theorem stackCacheOverflowHandler_cases (s : StackState) (nwords : Nat)
    (fault : Option Fault) :
    (s.stackCacheOverflowHandler nwords fault).1 = s.raiseLimit nwords ∧
        ((s.stackCacheOverflowHandler nwords fault).2 = true →
          (s.raiseLimit nwords).scovlimit ≤ cachesize) ∨
      (∃ data tags, cachesize < (s.raiseLimit nwords).scovlimit ∧
        s.stackCacheOverflowHandler nwords fault =
          ((s.raiseLimit nwords).stackDump data tags, false)) ∨
      fault = none ∧ cachesize < (s.raiseLimit nwords).scovlimit ∧
        s.stackCacheOverflowHandler nwords fault =
          (((s.raiseLimit nwords).stackDump cachedumpquantum cachedumpquantum).moveDown,
            true) := by
  by_cases hle : (s.raiseLimit nwords).scovlimit ≤ cachesize
  · left
    rcases fault with - | - | - <;> simp [stackCacheOverflowHandler, hle]
  · rcases fault with - | - | ⟨data, tags⟩
    · exact .inr (.inr ⟨rfl, not_le.mp hle, by simp only [stackCacheOverflowHandler, if_neg hle]⟩)
    · exact .inl ⟨rfl, fun h => Bool.noConfusion h⟩
    · exact .inr (.inl ⟨data, tags, not_le.mp hle, by
        simp only [stackCacheOverflowHandler, if_neg hle]⟩)

/-! ### Underflow -/

theorem underflow_cache_apply (count : Nat) {k : Int} :
    (s.stackCacheUnderflowBody count).cache (s.stackcachedata + 8 * k) =
      if 0 ≤ k ∧ k < count then s.memory (s.stackcachebasevma - count + k)
      else if 0 ≤ k - count ∧ k - count < ((s.restartsp + 8 - s.stackcachedata) / 8).toNat then
        s.cache (s.stackcachedata + 8 * (k - count))
      else s.cache (s.stackcachedata + 8 * k) := by
  have haddr : s.stackcachedata + 8 * k = 8 * (count : Int) + s.stackcachedata +
      8 * (k - count) := by ring
  simp only [stackCacheUnderflowBody]
  rw [stackFill_apply]
  congr 1
  rw [haddr, stackBlockCopyUp_apply _ _ _ _ (by omega)]

/-- What was in the memory is denoted by the cache, what was in the cache still is. -/
theorem denoted_underflow {count : Nat}
    (hroom : s.restartsp + 8 * count < s.stackcachedata + 8 * s.scovlimit) {v : Int}
    (hv : v ≤ s.scaToVMA s.restartsp) :
    (s.stackCacheUnderflowBody count).denoted v = s.denoted v := by
  obtain ⟨k, rfl⟩ : ∃ k, v = s.stackcachebasevma - count + k :=
    ⟨v - (s.stackcachebasevma - count), by ring⟩
  unfold scaToVMA at hv
  have hbase : (s.stackCacheUnderflowBody count).stackcachebasevma =
    s.stackcachebasevma - count := rfl
  have hlimit : (s.stackCacheUnderflowBody count).scovlimit = s.scovlimit := rfl
  have hmemory : (s.stackCacheUnderflowBody count).memory = s.memory := rfl
  have hdata : (s.stackCacheUnderflowBody count).stackcachedata = s.stackcachedata := rfl
  by_cases hin : 0 ≤ k ∧ k < s.scovlimit
  · rw [denoted_cache (by omega) (by omega), hbase, hdata, add_sub_cancel_left,
      underflow_cache_apply]
    by_cases hfilled : k < count
    · rw [if_pos ⟨hin.1, hfilled⟩, denoted_memory (by omega)]
    · have hindex : s.stackcachebasevma - count + k - s.stackcachebasevma = k - count := by ring
      rw [if_neg (by omega), if_pos (by omega), denoted_cache (by omega) (by omega), hindex]
  · rw [denoted_memory (by omega), hmemory, denoted_memory (by omega)]

theorem stackCacheUnderflowCheck_of_lt (haligned : (s.iFP - s.stackcachedata) % 8 = 0)
    (hlt : s.iFP < s.stackcachedata) :
    ∃ count : Nat, 8 * (count : Int) = s.stackcachedata - s.iFP ∧
      s.stackCacheUnderflowCheck = s.stackCacheUnderflowBody count := by
  refine ⟨((s.stackcachedata - s.iFP) / 8).toNat, by omega, ?_⟩
  simp only [stackCacheUnderflowCheck]
  rw [if_neg (by omega), if_neg (by omega)]

theorem stackCacheUnderflowCheck_of_le (hle : s.stackcachedata ≤ s.iFP) :
    s.stackCacheUnderflowCheck = s := by
  simp only [stackCacheUnderflowCheck]
  rw [if_pos (by omega)]

/-! ### One step -/

theorem Sane.raiseLimit (h : s.Sane) {nwords : Nat}
    (hcheck : s.stackCacheOverflowCheck nwords = false)
    (hframe : s.restartsp < s.iFP + 8 * maxframesize) : (s.raiseLimit nwords).Sane := by
  have hlt := scovlimit_lt h hcheck
  have hrestart : s.restartsp < s.stackcachedata + 8 * (s.raiseLimit nwords).scovlimit := by
    have := h.restartsp_lt
    omega
  have hlimit := h.limit
  exact ⟨h.restartsp_aligned, h.iFP_aligned, h.iLP_aligned, h.restartsp_aligned, hframe, hrestart,
    hrestart, by omega⟩

theorem Sane.stackDump (h : s.Sane) (data tags : Nat) : (s.stackDump data tags).Sane :=
  ⟨h.iSP_aligned, h.iFP_aligned, h.iLP_aligned, h.restartsp_aligned, h.frame, h.iSP_lt,
    h.restartsp_lt, h.limit⟩

theorem Sane.moveDown (h : s.Sane)
    (hlimit : (cachedumpquantum : Int) + maxframesize ≤ s.scovlimit) : s.moveDown.Sane := by
  obtain ⟨hSP, hFP, hLP, -, hframe, hlt, -, -⟩ := h
  constructor <;> simp only [StackState.moveDown] <;> omega

theorem Sane.underflow (h : s.Sane) {count : Nat}
    (hcount : 8 * (count : Int) = s.stackcachedata - s.iFP)
    (hroom : s.restartsp + 8 * count < s.stackcachedata + 8 * s.scovlimit) :
    (s.stackCacheUnderflowBody count).Sane := by
  obtain ⟨hSP, hFP, hLP, hrestart, hframe, -, -, hlimit⟩ := h
  constructor <;> simp only [stackCacheUnderflowBody] <;> omega

theorem foldl_stackPush (words : List LispObj) (s : StackState) :
    ∃ cache, words.foldl stackPush s =
      { s with cache := cache, iSP := s.iSP + 8 * words.length } := by
  induction words generalizing s with
  | nil => exact ⟨s.cache, by simp⟩
  | cons o words ih =>
      obtain ⟨cache, hcache⟩ := ih (s.stackPush o)
      refine ⟨cache, ?_⟩
      rw [List.foldl_cons, hcache]
      simp only [stackPush, List.length_cons]
      congr 1
      push_cast
      ring

/-- No step the interpreter may take, taken with care, breaks what holds of the registers. -/
theorem Sane.step (h : s.Sane) {a : StackAction} (hpermits : s.Permits a)
    (hcareful : s.Careful a) : (s.step a).Sane := by
  cases a with
  | begin =>
      exact ⟨h.iSP_aligned, h.iFP_aligned, h.iLP_aligned, h.iSP_aligned, h.frame, h.iSP_lt,
        h.iSP_lt, h.limit⟩
  | push nwords words =>
      obtain ⟨hlength, hcheck, hframe⟩ := hpermits
      obtain ⟨cache, hcache⟩ := foldl_stackPush words s
      rw [stackCacheOverflowCheck_iff] at hcheck
      have haligned := h.iSP_aligned
      show (words.foldl stackPush s).Sane
      rw [hcache]
      exact ⟨by simp only; omega, h.iFP_aligned, h.iLP_aligned, h.restartsp_aligned, hframe,
        by simp only; omega, h.restartsp_lt, h.limit⟩
  | move iSP iFP iLP =>
      obtain ⟨hSP, hFP, hLP, hle, hframe⟩ := hpermits
      exact ⟨hSP, hFP, hLP, h.restartsp_aligned, hframe, lt_of_le_of_lt hle h.iSP_lt,
        h.restartsp_lt, h.limit⟩
  | overflow nwords fault =>
      obtain ⟨-, hcheck, -, hframe⟩ := hpermits
      have hraised := h.raiseLimit hcheck hframe
      show (s.stackCacheOverflowHandler nwords fault).1.Sane
      obtain ⟨hresult, -⟩ | ⟨data, tags, -, hresult⟩ | ⟨-, hlimit, hresult⟩ :=
        stackCacheOverflowHandler_cases s nwords fault
      · rw [hresult]
        exact hraised
      · rw [hresult]
        exact hraised.stackDump data tags
      · rw [hresult]
        refine (hraised.stackDump cachedumpquantum cachedumpquantum).moveDown ?_
        have hsum : (cachedumpquantum : Int) + maxframesize ≤ cachesize := by decide
        exact le_trans hsum hlimit.le
  | underflow =>
      show s.stackCacheUnderflowCheck.Sane
      by_cases hlt : s.iFP < s.stackcachedata
      · obtain ⟨count, hcount, hresult⟩ := stackCacheUnderflowCheck_of_lt h.iFP_aligned hlt
        have hroom := hcareful hlt
        rw [hresult]
        exact h.underflow hcount (by omega)
      · rw [stackCacheUnderflowCheck_of_le (not_lt.mp hlt)]
        exact h

/-! ### Invisibility -/

theorem Invisible.trans {s' s'' : StackState} {sp : Int} (h : Invisible s sp s')
    (h' : Invisible s' s'.iSP s'') : Invisible s sp s'' where
  words v hv := (h'.words v (h.restartsp ▸ hv)).trans (h.words v hv)
  iSP := h'.iSP.trans h.iSP
  iFP := h'.iFP.trans h.iFP
  iLP := h'.iLP.trans h.iLP
  restartsp := h'.restartsp.trans h.restartsp
  inCache := h'.inCache

theorem invisible_raiseLimit (h : s.Sane) {nwords : Nat}
    (hcheck : s.stackCacheOverflowCheck nwords = false) (hframe : s.stackcachedata ≤ s.iFP)
    (hlt : s.restartsp < s.stackcachedata + 8 * cachesize) :
    Invisible s s.restartsp (s.raiseLimit nwords) := by
  refine ⟨fun v hv => denoted_raiseLimit h hcheck hv, rfl, rfl, rfl, rfl, fun a hFP hSP => ?_⟩
  have hlimit := scovlimit_lt h hcheck
  have hrestart := h.restartsp_lt
  have hsize : cachesize ≤ blockwords := by decide
  change s.iFP ≤ a at hFP
  change a ≤ s.restartsp at hSP
  change s.stackcachedata ≤ a ∧ a < s.stackcachedata + 8 * (s.raiseLimit nwords).scovlimit ∧
    a < s.stackcachedata + 8 * blockwords
  omega

theorem invisible_stackDump {quantum : Nat} (hin : s.FrameInCache)
    (hle : (quantum : Int) ≤ s.scovlimit) :
    Invisible s s.iSP (s.stackDump quantum quantum) :=
  ⟨fun v _ => denoted_stackDump quantum quantum hle hle v, rfl, rfl, rfl, rfl, hin⟩

theorem scaToVMA_moveDown (a : Int) :
    s.moveDown.scaToVMA (a - 8 * cachedumpquantum) = s.scaToVMA a := by
  simp only [scaToVMA, moveDown]
  omega

theorem invisible_moveDown (h : s.Sane) (hdumped : s.Dumped cachedumpquantum)
    (hsp : s.iSP = s.restartsp) (hin : s.FrameInCache)
    (hFP : s.stackcachedata + 8 * cachedumpquantum ≤ s.iFP)
    (hSP : s.restartsp < s.stackcachedata + 8 * (2 * cachedumpquantum)) :
    Invisible s s.iSP s.moveDown := by
  have hlt := h.restartsp_lt
  have hrestart : s.moveDown.restartsp = s.restartsp - 8 * cachedumpquantum := by
    simp only [moveDown, hsp]
  have hblock : cachedumpquantum ≤ blockwords := by decide
  constructor
  case words =>
    intro v hv
    unfold scaToVMA at hv
    exact denoted_moveDown hdumped (by omega) (by omega)
  case iSP => exact scaToVMA_moveDown s.iSP
  case iFP => exact scaToVMA_moveDown s.iFP
  case iLP => exact scaToVMA_moveDown s.iLP
  case restartsp => rw [hrestart, scaToVMA_moveDown]
  case inCache =>
    intro a hlow hhigh
    simp only [moveDown] at hlow hhigh ⊢
    obtain ⟨hdata, hlimit, -⟩ := hin (a + 8 * cachedumpquantum) (by omega) (by omega)
    omega

/-- Where a quantum is dumped, the frame is above it. -/
theorem invisible_dump (h : s.Sane) {nwords quantum : Nat} (hquantum : quantum = cachedumpquantum)
    (hpermits : s.Permits (.overflow nwords none))
    (hlimit : cachesize < (s.raiseLimit nwords).scovlimit)
    (hcareful : s.restartsp < s.stackcachedata + 8 * (2 * cachedumpquantum)) :
    Invisible s s.restartsp ((s.raiseLimit nwords).stackDump quantum quantum).moveDown := by
  obtain ⟨hwords, hcheck, hdata, hsize⟩ := hpermits
  have hraised := h.raiseLimit hcheck hsize
  have hframe := h.frame
  have hraise := @raiseLimit_scovlimit s h nwords
  have htwice : (2 * cachedumpquantum : Int) = cachesize := by decide
  have hmax : (256 + 2 * maxframesize : Int) + cachedumpquantum ≤ cachesize := by decide
  have hfirst := invisible_raiseLimit h hcheck hdata (htwice ▸ hcareful)
  have hdump := invisible_stackDump hfirst.inCache
    (show (quantum : Int) ≤ (s.raiseLimit nwords).scovlimit by omega)
  have hdumped := @dumped_stackDump (s.raiseLimit nwords) quantum
  refine (hfirst.trans hdump).trans (invisible_moveDown (hraised.stackDump _ _)
    (fun k hk hlt => hdumped k hk (hquantum ▸ hlt)) rfl hdump.inCache ?_ ?_)
  all_goals
    simp only [stackDump, raiseLimit]
    omega

theorem invisible_underflow (h : s.Sane) {count : Nat}
    (hcount : 8 * (count : Int) = s.stackcachedata - s.iFP)
    (hroom : s.restartsp + 8 * count < s.stackcachedata + 8 * s.scovlimit) :
    Invisible s s.iSP (s.stackCacheUnderflowBody count) := by
  have hframe := h.frame
  have hlimit := h.limit
  have hsize : (maxframesize : Int) ≤ blockwords := by decide
  constructor
  case words => exact fun v hv => denoted_underflow hroom hv
  case inCache =>
    intro a hFP hSP
    change 8 * (count : Int) + s.iFP ≤ a at hFP
    change a ≤ 8 * (count : Int) + s.iSP at hSP
    change s.stackcachedata ≤ a ∧ a < s.stackcachedata + 8 * s.scovlimit ∧
      a < s.stackcachedata + 8 * blockwords
    omega
  all_goals
    simp only [scaToVMA, stackCacheUnderflowBody]
    omega

/-! ### Runs -/

/-- The states a run from `s₀` comes to, of steps the interpreter may take, with care. -/
inductive Run (s₀ : StackState) : StackState → Prop where
  | start : Run s₀ s₀
  | step {s : StackState} {a : StackAction} :
      Run s₀ s → s.Permits a → s.Careful a → Run s₀ (s.step a)

variable {s₀ : StackState}

theorem Run.sane (h : Run s₀ s) (hs₀ : s₀.Sane) : s.Sane := by
  induction h with
  | start => exact hs₀
  | step _ hpermits hcareful ih => exact ih.step hpermits hcareful

/-- The stack cache is invisible: whatever run led to it, a completed overflow or underflow
changes no word of the stack, and where no register points to. -/
theorem stackCache_invisible (hs₀ : s₀.Sane) (h : Run s₀ s) {a : StackAction}
    (hpermits : s.Permits a) (hcareful : s.Careful a) (hcompletes : s.Completes a) :
    Invisible s (s.resetSP a) (s.step a) := by
  have hsane := h.sane hs₀
  cases a with
  | begin => exact hcompletes.elim
  | push nwords words => exact hcompletes.elim
  | move iSP iFP iLP => exact hcompletes.elim
  | overflow nwords fault =>
      obtain ⟨-, hcheck, hframe, -⟩ := id hpermits
      show Invisible s s.restartsp (s.stackCacheOverflowHandler nwords fault).1
      obtain ⟨hresult, hle⟩ | ⟨data, tags, -, hresult⟩ | ⟨rfl, hlimit, hresult⟩ :=
        stackCacheOverflowHandler_cases s nwords fault
      · rw [hresult]
        have hlimit := scovlimit_lt hsane hcheck
        have hrestart := hsane.restartsp_lt
        exact invisible_raiseLimit hsane hcheck hframe (by have := hle hcompletes; omega)
      · have hfault : (s.stackCacheOverflowHandler nwords fault).2 = true := hcompletes
        rw [hresult] at hfault
        exact Bool.noConfusion hfault
      · rw [hresult]
        exact invisible_dump hsane rfl hpermits hlimit (hcareful hlimit)
  | underflow =>
      have hlt : s.iFP < s.stackcachedata := hcompletes
      have hroom := hcareful hlt
      obtain ⟨count, hcount, hresult⟩ := stackCacheUnderflowCheck_of_lt hsane.iFP_aligned hlt
      show Invisible s s.iSP s.stackCacheUnderflowCheck
      rw [hresult]
      exact invisible_underflow hsane hcount (by omega)

/-- Boot, with `sp` words of zeros on the stack and an empty frame above them. -/
def blank (sp limit : Int) : StackState where
  cache := fun _ => ⟨0, 0⟩
  memory := fun _ => ⟨0, 0⟩
  iSP := 8 * sp
  iFP := 8 * sp
  iLP := 8 * sp
  restartsp := 8 * sp
  stackcachedata := 0
  stackcachebasevma := 0
  stackcachetopvma := cachesize
  scovlimit := limit
  scovdumpcount := 0

theorem sane_blank {sp limit : Int} (hsp : sp < limit) (hlimit : (maxframesize : Int) ≤ limit) :
    (blank sp limit).Sane := by
  have hmax : (maxframesize : Int) = 128 := rfl
  constructor <;> simp only [blank] <;> omega

/-- Without a fault the handler gets to its end. -/
theorem completes_overflow (s : StackState) (nwords : Nat) :
    s.Completes (.overflow nwords none) := by
  show (s.stackCacheOverflowHandler nwords none).2 = true
  simp only [stackCacheOverflowHandler]
  split <;> rfl

theorem stackCache_invisible_sample :
    (blank 1500 1700).Sane ∧
      Invisible (blank 1500 1700) (8 * 1500) ((blank 1500 1700).step (.overflow 100 none)) := by
  have hsane : (blank 1500 1700).Sane := sane_blank (by decide) (by decide)
  have hpermits : (blank 1500 1700).Permits (.overflow 100 none) :=
    ⟨by decide, by decide, by decide, by decide⟩
  have hcareful : (blank 1500 1700).Careful (.overflow 100 none) := fun _ => by decide
  exact ⟨hsane, stackCache_invisible hsane .start hpermits hcareful (completes_overflow _ _)⟩

/-! ### More than two quanta -/

/-- A cache that is full of `o` does not change when `o` is pushed. -/
theorem foldl_stackPush_replicate {o : LispObj} (count : Nat) (s : StackState)
    (hs : s.cache = fun _ => o) :
    (List.replicate count o).foldl stackPush s = { s with iSP := s.iSP + 8 * count } := by
  induction count generalizing s with
  | zero => simp
  | succ count ih =>
      have hpush : s.stackPush o = { s with iSP := s.iSP + 8 } := by
        simp only [stackPush, hs]
        congr 1
        exact Function.update_eq_self (s.iSP + 8) fun _ => o
      rw [List.replicate_succ, List.foldl_cons, hpush, ih { s with iSP := s.iSP + 8 } hs]
      simp only
      congr 1
      push_cast
      ring

/-- A frame of zeros. -/
theorem Run.frame {sp limit : Int} (h : Run s₀ (blank sp limit)) (words : Nat)
    (hwords : words < maxframesize) (hroom : 128 + words + sp ≤ limit) :
    Run s₀ (blank (sp + words) limit) := by
  have hmax : (maxframesize : Int) = 128 := rfl
  have hpushed := h.step (a := .push words (List.replicate words ⟨0, 0⟩))
    ⟨(List.length_replicate).le, stackCacheOverflowCheck_iff.mpr (by simp only [blank]; omega), by
      simp only [blank, List.length_replicate]
      omega⟩ trivial
  have hsp : 8 * sp + 8 * (words : Int) = 8 * (sp + words) := by ring
  have hresult : (blank sp limit).step (.push words (List.replicate words ⟨0, 0⟩)) =
      { blank sp limit with iSP := 8 * (sp + words) } := by
    rw [← hsp]
    exact foldl_stackPush_replicate words (blank sp limit) rfl
  rw [hresult] at hpushed
  have hmoved := hpushed.step (a := .move (8 * (sp + words)) (8 * (sp + words)) (8 * (sp + words)))
    ⟨by simp only [blank]; omega, by simp only [blank]; omega, by simp only [blank]; omega, le_rfl,
      by omega⟩ trivial
  exact hmoved.step (a := .begin) trivial trivial

/-- The limit is raised, without a dump: it stays low, or the page at it is missing. -/
theorem Run.raise {sp limit : Int} (h : Run s₀ (blank sp limit)) (hsp : 0 ≤ sp)
    (hover : limit < 228 + sp) (fault : Option Fault)
    (hfault : 356 + sp ≤ cachesize ∧ fault = none ∨ fault = some .page) :
    Run s₀ (blank sp (356 + sp)) := by
  have hlimit : ((blank sp limit).raiseLimit 100).scovlimit = 356 + sp := by
    simp only [raiseLimit, blank, stackMargin]
    omega
  have hraise : (blank sp limit).raiseLimit 100 = blank sp (356 + sp) := by
    rw [← hlimit]
    rfl
  have hcheck : (blank sp limit).stackCacheOverflowCheck 100 = false := by
    rw [← Bool.not_eq_true, stackCacheOverflowCheck_iff]
    simp only [blank]
    omega
  have hpermits : (blank sp limit).Permits (.overflow 100 fault) :=
    ⟨by decide, hcheck, by simp only [blank]; omega, by simp only [blank, maxframesize]; omega⟩
  obtain ⟨hle, rfl⟩ | rfl := hfault
  · have hstep := h.step hpermits fun hlt => absurd hlt (by rw [hlimit]; exact not_lt.mpr hle)
    have hresult : (blank sp limit).step (.overflow 100 none) = blank sp (356 + sp) := by
      show ((blank sp limit).stackCacheOverflowHandler 100 none).1 = _
      simp only [stackCacheOverflowHandler]
      rw [if_pos (by rw [hlimit]; exact hle), hraise]
    rwa [hresult] at hstep
  · have hstep := h.step hpermits trivial
    rwa [show (blank sp limit).step (.overflow 100 (some .page)) = blank sp (356 + sp) from hraise]
      at hstep

theorem Run.round {sp limit : Int} (h : Run s₀ (blank sp limit)) (hsp : 0 ≤ sp)
    (hover : limit < 228 + sp) (hle : 356 + sp ≤ cachesize) :
    Run s₀ (blank (sp + 200) (356 + sp)) := by
  have hraised := h.raise hsp hover none (.inl ⟨hle, rfl⟩)
  have htwice := (hraised.frame 100 (by decide) (by omega)).frame 100 (by decide) (by omega)
  have hsum : sp + (100 : Nat) + (100 : Nat) = sp + 200 := by omega
  rwa [hsum] at htwice

/-- An overflow at 1600 words finds the page at its new limit missing, and the handler of the
fault goes on to 1799 words. -/
theorem run_handler : Run (blank 0 256) (blank 1799 1956) := by
  have hboot : Run (blank 0 256) (blank 100 256) := Run.start.frame 100 (by decide) (by decide)
  have h300 : Run (blank 0 256) (blank 300 456) := hboot.round (by decide) (by decide) (by decide)
  have h500 : Run (blank 0 256) (blank 500 656) := h300.round (by decide) (by decide) (by decide)
  have h700 : Run (blank 0 256) (blank 700 856) := h500.round (by decide) (by decide) (by decide)
  have h900 : Run (blank 0 256) (blank 900 1056) := h700.round (by decide) (by decide) (by decide)
  have h1100 : Run (blank 0 256) (blank 1100 1256) :=
    h900.round (by decide) (by decide) (by decide)
  have h1250 : Run (blank 0 256) (blank 1250 1456) :=
    ((h1100.raise (by decide) (by decide) none (.inl ⟨by decide, rfl⟩)).frame 100 (by decide)
      (by decide)).frame 50 (by decide) (by decide)
  have h1400 : Run (blank 0 256) (blank 1400 1606) :=
    ((h1250.raise (by decide) (by decide) none (.inl ⟨by decide, rfl⟩)).frame 100 (by decide)
      (by decide)).frame 50 (by decide) (by decide)
  have h1600 : Run (blank 0 256) (blank 1600 1756) :=
    h1400.round (by decide) (by decide) (by decide)
  exact ((h1600.raise (by decide) (by decide) (some .page) (.inr rfl)).frame 100 (by decide)
    (by decide)).frame 99 (by decide) (by decide)

/-- A word above two quanta stays where it is, and another address denotes it. -/
theorem denoted_moveDown_above {v : Int}
    (hv : s.stackcachebasevma + 2 * cachedumpquantum ≤ v)
    (hlt : v < s.stackcachebasevma + s.scovlimit) :
    s.moveDown.denoted v =
      s.cache (s.stackcachedata + 8 * (v - s.stackcachebasevma - cachedumpquantum)) := by
  have hbase := @moveDown_stackcachebasevma s
  have hlimit := @moveDown_scovlimit s
  have hindex : v - (s.stackcachebasevma + cachedumpquantum) =
      v - s.stackcachebasevma - cachedumpquantum := by ring
  rw [denoted_cache (by rw [hbase]; omega) (by rw [hbase, hlimit]; omega), hbase, hindex]
  simp only [moveDown]
  rw [stackBlockCopy_apply _ _ _ _ (by omega), if_neg (by omega)]

/-- The handler of the fault has pushed a word 1800 as well. -/
def overfull : StackState := ((blank 1799 1956).step (.push 1 [⟨0, 1⟩])).step .begin

/-- The word 1800 of the stack is not among those that are moved down. -/
theorem stackCache_overrun : ∃ s₀ s a, s₀.Sane ∧ Run s₀ s ∧ s.Permits a ∧ s.Completes a ∧
    ¬ Invisible s (s.resetSP a) (s.step a) := by
  have hpushed := run_handler.step (a := .push 1 [⟨0, 1⟩])
    ⟨le_rfl, by decide, by decide⟩ trivial
  have hrun : Run (blank 0 256) overfull := hpushed.step (a := .begin) trivial trivial
  refine ⟨_, overfull, .overflow 100 none, sane_blank (by decide) (by decide), hrun,
    ⟨by decide, by decide, by decide, by decide⟩, completes_overflow _ _, fun h => ?_⟩
  have hlimit : (overfull.raiseLimit 100).scovlimit = 2156 := by decide
  have hresult : overfull.step (.overflow 100 none) =
      ((overfull.raiseLimit 100).stackDump cachedumpquantum cachedumpquantum).moveDown := by
    show (overfull.stackCacheOverflowHandler 100 none).1 = _
    simp only [stackCacheOverflowHandler]
    rw [if_neg (by rw [hlimit]; decide)]
  have hword := h.words 1800 (by decide)
  rw [hresult, denoted_moveDown_above (by decide) (by decide)] at hword
  have hold : overfull.denoted 1800 = ⟨0, 1⟩ := by decide
  rw [hold] at hword
  exact absurd hword (by decide)

end StackState

end Interpreter
