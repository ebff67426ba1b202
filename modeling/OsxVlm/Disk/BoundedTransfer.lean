import Mathlib
import OsxVlm.Disk.DoDiskIO

/-!
# Where the bytes of a disk command go

The range test is on the page and the count of a command, the bytes moved are
those of its address pairs.  A loop over whole batches moves the sum of the pairs
from the start of the range on; a loop that meets a batch that fails, or comes up
short, has moved the batches before it.
-/

namespace Disk

variable {io : VectorCall} {command : EmbDiskQueueElement}

/-- The number of address pairs; a negative one counts as none. -/
def EmbDiskQueueElement.pairs (command : EmbDiskQueueElement) : Nat :=
  command.nAddresses.toInt.toNat

/-- All address pairs of the command. -/
def EmbDiskQueueElement.buffers (command : EmbDiskQueueElement) : List EmbAddressPair :=
  (List.range command.pairs).map command.addresses

/-- The vectors of batch `k`. -/
def batch (command : EmbDiskQueueElement) (k : Nat) : List EmbAddressPair :=
  vectors command (NIOVectors * k) (command.pairs - NIOVectors * k)

/-- The host moves all of batch `k`. -/
def Whole (io : VectorCall) (command : EmbDiskQueueElement) (k : Nat) : Prop :=
  ∃ n, io.call (NIOVectors * k) (batch command k) = .ok n ∧ (n : Int) = byteCount (batch command k)

def AllWhole (io : VectorCall) (command : EmbDiskQueueElement) (first : Nat) : Prop :=
  ∀ k, first ≤ k → NIOVectors * k < command.pairs → Whole io command k

/-- The host fails on a batch of which it moves nothing, behind empty batches. -/
def FailsUntouched (io : VectorCall) (command : EmbDiskQueueElement) (first : Nat) : Prop :=
  ∃ k, first ≤ k ∧ NIOVectors * k < command.pairs ∧
    (∀ i, first ≤ i → i < k → Whole io command i ∧ byteCount (batch command i) = 0) ∧
    ((∃ e, io.call (NIOVectors * k) (batch command k) = .error e) ∨
      io.call (NIOVectors * k) (batch command k) = .ok 0 ∧ byteCount (batch command k) ≠ 0)

/-- The loop at the start of batch `k`. -/
def batchLoop (io : VectorCall) (command : EmbDiskQueueElement) (offset : Int) (k : Nat) :
    Except Errno Unit × List Move :=
  transferLoop io command offset (NIOVectors * k) (command.pairs - NIOVectors * k)

/-- The bytes asked of batch `k` and those behind it. -/
def bytesFrom (command : EmbDiskQueueElement) (k : Nat) : Int :=
  byteCount ((List.range' (NIOVectors * k) (command.pairs - NIOVectors * k)).map command.addresses)

theorem byteCount_append (xs ys : List EmbAddressPair) :
    byteCount (xs ++ ys) = byteCount xs + byteCount ys := by
  simp [byteCount]

theorem bytesFrom_zero : bytesFrom command 0 = byteCount command.buffers := by
  simp [bytesFrom, EmbDiskQueueElement.buffers, List.range_eq_range']

theorem bytesFrom_done {k : Nat} (h : command.pairs ≤ NIOVectors * k) : bytesFrom command k = 0 := by
  simp [bytesFrom, Nat.sub_eq_zero_of_le h, byteCount]

theorem bytesFrom_step (command : EmbDiskQueueElement) (k : Nat) :
    bytesFrom command k = byteCount (batch command k) + bytesFrom command (k + 1) := by
  unfold bytesFrom batch vectors
  rw [← byteCount_append, ← List.map_append]
  congr 2
  rcases Nat.le_total (command.pairs - NIOVectors * k) NIOVectors with hle | hge
  · have hrest : command.pairs - NIOVectors * (k + 1) = 0 := by
      rw [Nat.mul_add]
      omega
    rw [Nat.min_eq_left hle, hrest, List.range'_zero, List.append_nil]
  · have hrest : command.pairs - NIOVectors * k =
        NIOVectors + (command.pairs - NIOVectors * (k + 1)) := by
      rw [Nat.mul_add]
      omega
    rw [Nat.min_eq_right hge, Nat.mul_add, Nat.mul_one, List.range'_append_1, ← Nat.mul_succ,
      ← hrest]

theorem transferLoop_done (io : VectorCall) (command : EmbDiskQueueElement) (offset : Int)
    (addressPair : Nat) : transferLoop io command offset addressPair 0 = (.ok (), []) := by
  rw [transferLoop, if_pos rfl]

theorem batchLoop_done {offset : Int} {k : Nat} (h : command.pairs ≤ NIOVectors * k) :
    batchLoop io command offset k = (.ok (), []) := by
  rw [batchLoop, Nat.sub_eq_zero_of_le h, transferLoop_done]

/-- Behind a batch the loop goes on with the next one. -/
theorem transferLoop_rest (offset : Int) (k : Nat) :
    transferLoop io command offset (NIOVectors * k + (batch command k).length)
      (command.pairs - NIOVectors * k - (batch command k).length) =
        batchLoop io command offset (k + 1) := by
  unfold batchLoop batch
  rw [vectors_length]
  rcases Nat.le_total (command.pairs - NIOVectors * k) NIOVectors with hle | hge
  · have hrest : command.pairs - NIOVectors * (k + 1) = 0 := by
      rw [Nat.mul_add]
      omega
    rw [Nat.min_eq_left hle, Nat.sub_self, hrest, transferLoop_done, transferLoop_done]
  · rw [Nat.min_eq_right hge, Nat.mul_succ, Nat.sub_sub]

theorem batchLoop_error {offset : Int} {k : Nat} {e : Errno} (hk : NIOVectors * k < command.pairs)
    (hcall : io.call (NIOVectors * k) (batch command k) = .error e) :
    batchLoop io command offset k = (.error e, []) := by
  rw [batchLoop, transferLoop, if_neg (by omega)]
  unfold batch at hcall
  simp [hcall]

theorem batchLoop_short {offset : Int} {k n : Nat} (hk : NIOVectors * k < command.pairs)
    (hcall : io.call (NIOVectors * k) (batch command k) = .ok n)
    (hshort : (n : Int) ≠ byteCount (batch command k)) :
    batchLoop io command offset k = (.error EINTR, [⟨offset, batch command k, n⟩]) := by
  rw [batchLoop, transferLoop, if_neg (by omega)]
  unfold batch at hcall hshort ⊢
  simp [hcall, hshort]

theorem batchLoop_whole {offset : Int} {k n : Nat} (hk : NIOVectors * k < command.pairs)
    (hcall : io.call (NIOVectors * k) (batch command k) = .ok n)
    (hwhole : (n : Int) = byteCount (batch command k)) :
    batchLoop io command offset k =
      ((batchLoop io command (offset + n) (k + 1)).1,
        ⟨offset, batch command k, n⟩ :: (batchLoop io command (offset + n) (k + 1)).2) := by
  rw [← transferLoop_rest (offset + n) k, batchLoop, transferLoop, if_neg (by omega)]
  unfold batch at hcall hwhole ⊢
  simp [hcall, hwhole]

/-- Batch by batch: what holds behind the last batch, at one that fails, at one
that comes up short, and of a whole batch before the rest, holds from any batch on. -/
theorem batch_induction (io : VectorCall) (command : EmbDiskQueueElement)
    {P : Nat → Int → Prop}
    (done : ∀ k offset, command.pairs ≤ NIOVectors * k → P k offset)
    (error : ∀ k offset e, NIOVectors * k < command.pairs →
      io.call (NIOVectors * k) (batch command k) = .error e → P k offset)
    (short : ∀ k offset n, NIOVectors * k < command.pairs →
      io.call (NIOVectors * k) (batch command k) = .ok n →
      (n : Int) ≠ byteCount (batch command k) → P k offset)
    (whole : ∀ k offset n, NIOVectors * k < command.pairs →
      io.call (NIOVectors * k) (batch command k) = .ok n →
      (n : Int) = byteCount (batch command k) → P (k + 1) (offset + n) → P k offset)
    (k : Nat) (offset : Int) : P k offset := by
  induction hd : command.pairs - NIOVectors * k using Nat.strong_induction_on generalizing k offset with
  | h d ih =>
      rcases Nat.lt_or_ge (NIOVectors * k) command.pairs with hk | hge
      · cases hcall : io.call (NIOVectors * k) (batch command k) with
        | error e => exact error k offset e hk hcall
        | ok n =>
            by_cases heq : (n : Int) = byteCount (batch command k)
            · apply whole k offset n hk hcall heq
              apply ih (command.pairs - NIOVectors * (k + 1)) _ (k + 1) (offset + n) rfl
              have hpos : 0 < NIOVectors := by decide
              rw [Nat.mul_succ]
              omega
            · exact short k offset n hk hcall heq
      · exact done k offset hge

theorem AllWhole.next {k : Nat} (h : AllWhole io command (k + 1)) (hk : Whole io command k) :
    AllWhole io command k := by
  intro j hj hlt
  rcases Nat.eq_or_lt_of_le hj with rfl | hgt
  · exact hk
  · exact h j hgt hlt

/-- The loop wins when the host moves every batch whole. -/
theorem batchLoop_ok (io : VectorCall) (command : EmbDiskQueueElement) (k : Nat)
    (offset : Int) :
    (batchLoop io command offset k).1 = .ok () ↔ AllWhole io command k := by
  induction k, offset using batch_induction io command with
  | done k offset hk =>
      rw [batchLoop_done hk]
      simp only [true_iff]
      intro j hj hlt
      exact absurd (Nat.mul_le_mul_left NIOVectors hj) (by omega)
  | error k offset e hk hcall =>
      rw [batchLoop_error hk hcall]
      simp only [reduceCtorEq, false_iff]
      intro hall
      obtain ⟨n, hn, -⟩ := hall k le_rfl hk
      rw [hcall] at hn
      cases hn
  | short k offset n hk hcall hshort =>
      rw [batchLoop_short hk hcall hshort]
      simp only [reduceCtorEq, false_iff]
      intro hall
      obtain ⟨m, hm, heq⟩ := hall k le_rfl hk
      rw [hcall] at hm
      cases hm
      exact hshort heq
  | whole k offset n hk hcall hwhole ih =>
      rw [batchLoop_whole hk hcall hwhole, ih]
      constructor
      · intro hall
        exact hall.next ⟨n, hcall, hwhole⟩
      · intro hall j hj hlt
        exact hall j (by omega) hlt

/-- A loop that wins moves the bytes of its pairs, one behind the other. -/
theorem batchLoop_moves (io : VectorCall) (command : EmbDiskQueueElement) (k : Nat)
    (offset : Int) :
    (batchLoop io command offset k).1 = .ok () →
      movedBytes (batchLoop io command offset k).2 = bytesFrom command k ∧
      0 ≤ bytesFrom command k ∧
      ∀ m ∈ (batchLoop io command offset k).2,
        offset ≤ m.fileOffset ∧ m.fileOffset + m.nBytes ≤ offset + bytesFrom command k := by
  induction k, offset using batch_induction io command with
  | done k offset hk =>
      rw [batchLoop_done hk, bytesFrom_done hk]
      simp [movedBytes]
  | error k offset e hk hcall =>
      rw [batchLoop_error hk hcall]
      simp
  | short k offset n hk hcall hshort =>
      rw [batchLoop_short hk hcall hshort]
      simp
  | whole k offset n hk hcall hwhole ih =>
      rw [batchLoop_whole hk hcall hwhole, bytesFrom_step, ← hwhole]
      intro hok
      obtain ⟨hsum, hpos, hin⟩ := ih hok
      refine ⟨?_, by omega, ?_⟩
      · rw [← hsum]
        simp [movedBytes]
      · intro m hm
        rcases List.mem_cons.mp hm with rfl | hm
        · exact ⟨le_rfl, by simp only; omega⟩
        · have := hin m hm
          omega

/-- A loop that loses has moved nothing when the batch it lost on, and those
before, moved nothing. -/
theorem batchLoop_untouched (io : VectorCall) (command : EmbDiskQueueElement) (k : Nat)
    (offset : Int) :
    (batchLoop io command offset k).1 ≠ .ok () →
      ((∀ m ∈ (batchLoop io command offset k).2, m.nBytes = 0) ↔ FailsUntouched io command k) := by
  induction k, offset using batch_induction io command with
  | done k offset hk =>
      rw [batchLoop_done hk]
      simp
  | error k offset e hk hcall =>
      rw [batchLoop_error hk hcall]
      intro _
      simp only [List.not_mem_nil, false_implies, implies_true, true_iff]
      exact ⟨k, le_rfl, hk, fun i hi hlt => absurd hi (by omega), .inl ⟨e, hcall⟩⟩
  | short k offset n hk hcall hshort =>
      rw [batchLoop_short hk hcall hshort]
      intro _
      simp only [List.mem_singleton, forall_eq]
      constructor
      · intro hn
        subst hn
        exact ⟨k, le_rfl, hk, fun i hi hlt => absurd hi (by omega), .inr ⟨hcall, Ne.symm hshort⟩⟩
      · rintro ⟨j, hj, hlt, hbefore, hfail⟩
        rcases Nat.eq_or_lt_of_le hj with rfl | hgt
        · rcases hfail with ⟨e, he⟩ | ⟨hzero, -⟩
          · rw [hcall] at he
            cases he
          · rw [hcall] at hzero
            exact Except.ok.inj hzero
        · obtain ⟨⟨m, hm, heq⟩, -⟩ := hbefore k le_rfl hgt
          rw [hcall] at hm
          cases hm
          exact absurd heq hshort
  | whole k offset n hk hcall hwhole ih =>
      rw [batchLoop_whole hk hcall hwhole]
      intro hlost
      simp only [List.mem_cons, forall_eq_or_imp, ih hlost]
      constructor
      · rintro ⟨hn, j, hj, hlt, hbefore, hfail⟩
        refine ⟨j, by omega, hlt, ?_, hfail⟩
        intro i hi hij
        rcases Nat.eq_or_lt_of_le hi with rfl | hgt
        · exact ⟨⟨n, hcall, hwhole⟩, by omega⟩
        · exact hbefore i hgt hij
      · rintro ⟨j, hj, hlt, hbefore, hfail⟩
        rcases Nat.eq_or_lt_of_le hj with rfl | hgt
        · rcases hfail with ⟨e, he⟩ | ⟨hzero, hne⟩
          · rw [hcall] at he
            cases he
          · rw [hcall] at hzero
            cases hzero
            exact absurd hwhole.symm hne
        · refine ⟨?_, j, hgt, hlt, fun i hi hij => hbefore i (by omega) hij, hfail⟩
          have := (hbefore k le_rfl hgt).2
          omega

/-! ### A command as `DiskLife` answers it -/

variable {host : Host} {channel : DiskChannel}

/-- The system call of a command. -/
def Host.vectorCall (host : Host) : EmbDiskCmd → VectorCall
  | .writeCmd => host.writev
  | _ => host.readv

def DiskChannel.startingOffset (channel : DiskChannel) (command : EmbDiskQueueElement) : Int :=
  command.page.toInt * channel.blocksize.toInt

/-- The command passes every test in front of the transfer, and the seek. -/
structure Reaches (host : Host) (channel : DiskChannel) (command : EmbDiskQueueElement) : Prop where
  writable : command.cmd = .writeCmd → channel.readOnly = false
  clear : channel.errorPending = false
  isOpen : channel.fd ≠ -1
  page_nonneg : 0 ≤ command.page.toInt
  end_le : (command.page + command.count).toInt ≤ channel.numberOfPages.toInt
  seek : host.lseek (channel.startingOffset command) = none

/-- A command that won moved exactly its pages, and these are the unit's; any
other left the file and the buffers alone. -/
def BoundedTransfer (host : Host) (channel : DiskChannel) (command : EmbDiskQueueElement) : Prop :=
  let answer := serve host channel command
  if answer.command.status = .wonStatus then
    0 ≤ command.page.toInt ∧
      command.page.toInt + command.count.toInt ≤ channel.numberOfPages.toInt ∧
      (∀ m ∈ answer.moves,
        command.page.toInt * channel.blocksize.toInt ≤ m.fileOffset ∧
          m.fileOffset + m.nBytes ≤
            (command.page.toInt + command.count.toInt) * channel.blocksize.toInt) ∧
      movedBytes answer.moves = command.count.toInt * channel.blocksize.toInt
  else
    (answer.command.status = .lostStatus ∨
      channel.errorPending = true ∧ answer.command.status = .abortStatus) ∧
      ∀ m ∈ answer.moves, m.nBytes = 0

/-- A command that reaches the transfer names pages of the unit and as many bytes
as those have, all of which the host moves; or the host fails before it moves any. -/
def Exact (host : Host) (channel : DiskChannel) (command : EmbDiskQueueElement) : Prop :=
  Reaches host channel command →
    AllWhole (host.vectorCall command.cmd) command 0 ∧
        command.page.toInt + command.count.toInt ≤ channel.numberOfPages.toInt ∧
        byteCount command.buffers = command.count.toInt * channel.blocksize.toInt ∨
      FailsUntouched (host.vectorCall command.cmd) command 0

/-- In front of the transfer nothing is moved. -/
theorem doDiskIO_refused (h : command.page.toInt < 0 ∨
      channel.numberOfPages.toInt < (command.page + command.count).toInt ∨
      host.lseek (channel.startingOffset command) ≠ none) :
    ∃ e, doDiskIO host channel command = (.error e, []) := by
  unfold doDiskIO
  split
  · exact ⟨EINVAL, rfl⟩
  · next hrange =>
      cases hseek : host.lseek (command.page.toInt * channel.blocksize.toInt) with
      | some e => exact ⟨e, by simp [hseek]⟩
      | none =>
          have hnone : host.lseek (channel.startingOffset command) = none := hseek
          grind

theorem doDiskIO_reached (hcmd : command.cmd.Transfers) (h : Reaches host channel command) :
    doDiskIO host channel command =
      batchLoop (host.vectorCall command.cmd) command (channel.startingOffset command) 0 := by
  have hseek : host.lseek (command.page.toInt * channel.blocksize.toInt) = none := h.seek
  have hrange : ¬ (command.page.toInt < 0 ∨
      channel.numberOfPages.toInt < (command.page + command.count).toInt) := by
    have := h.page_nonneg
    have := h.end_le
    omega
  unfold doDiskIO
  rw [if_neg hrange]
  rcases hcmd with hcmd | hcmd <;>
    simp [hseek, hcmd, Host.vectorCall, batchLoop, EmbDiskQueueElement.pairs,
      DiskChannel.startingOffset]

theorem serve_transfers (hcmd : command.cmd.Transfers) :
    serve host channel command =
      if command.cmd = .writeCmd ∧ channel.readOnly = true then
        ⟨{ command with status := .lostStatus, errorCode := EROFS }, channel, []⟩
      else transfer host channel command := by
  unfold serve
  rcases hcmd with hcmd | hcmd <;> simp [hcmd]

/-- A command that does not reach the transfer moves nothing and does not win. -/
theorem serve_refused (hcmd : command.cmd.Transfers) (h : ¬ Reaches host channel command) :
    (serve host channel command).moves = [] ∧
      ((serve host channel command).command.status = .lostStatus ∨
        channel.errorPending = true ∧
          (serve host channel command).command.status = .abortStatus) := by
  rw [serve_transfers hcmd]
  split
  · exact ⟨rfl, .inl rfl⟩
  · next hro =>
      unfold transfer
      split
      · next hpending => exact ⟨rfl, .inr ⟨hpending, rfl⟩⟩
      · next hclear =>
          split
          · exact ⟨rfl, .inl rfl⟩
          · next hopen =>
              have hrefused : command.page.toInt < 0 ∨
                  channel.numberOfPages.toInt < (command.page + command.count).toInt ∨
                  host.lseek (channel.startingOffset command) ≠ none := by
                by_contra hall
                push Not at hall
                obtain ⟨hpage, hend, hseek⟩ := hall
                exact h ⟨by grind, by simpa using hclear, hopen, hpage, hend, hseek⟩
              obtain ⟨e, he⟩ := doDiskIO_refused hrefused
              rw [he]
              exact ⟨rfl, .inl rfl⟩

/-- A command that reaches the transfer is answered as its loop ends. -/
theorem serve_reached (hcmd : command.cmd.Transfers) (h : Reaches host channel command) :
    (serve host channel command).moves =
        (batchLoop (host.vectorCall command.cmd) command (channel.startingOffset command) 0).2 ∧
      (serve host channel command).command.status =
        if (batchLoop (host.vectorCall command.cmd) command
            (channel.startingOffset command) 0).1 = .ok () then .wonStatus else .lostStatus := by
  have hro : ¬ (command.cmd = .writeCmd ∧ channel.readOnly = true) := by
    rintro ⟨hw, hro⟩
    rw [h.writable hw] at hro
    cases hro
  rw [serve_transfers hcmd, if_neg hro]
  unfold transfer
  rw [if_neg (by rw [h.clear]; decide), if_neg h.isOpen, doDiskIO_reached hcmd h]
  cases batchLoop (host.vectorCall command.cmd) command (channel.startingOffset command) 0 with
  | mk result moves =>
      cases result with
      | ok u => exact ⟨rfl, rfl⟩
      | error e => exact ⟨rfl, rfl⟩

/-- A host that moves everything it is asked to. -/
def wholeCall : VectorCall where
  call _ iovs :=
    if ∀ p ∈ iovs, 0 ≤ p.nWords.toInt then .ok (byteCount iovs).toNat else .error EINVAL
  le_byteCount := by
    intro _ iovs n h
    split at h
    · next hall =>
        cases h
        have hpos : 0 ≤ byteCount iovs := by
          apply List.sum_nonneg
          intro x hx
          obtain ⟨p, hp, rfl⟩ := List.mem_map.mp hx
          have := hall p hp
          omega
        omega
    · cases h
  nonneg := by
    intro _ iovs n h
    split at h
    · next hall => exact hall
    · cases h

def wholeHost : Host where
  lseek _ := none
  readv := wholeCall
  writev := wholeCall

/-- Ten pages of 8192 bytes. -/
def sampleChannel : DiskChannel where
  readOnly := false
  numberOfPages := 10
  blocksize := 8192
  errorPending := false
  fd := 3

/-- A read of `count` pages from page `page` into one buffer. -/
def sampleRead (page count nWords : EmbWord) : EmbDiskQueueElement where
  cmd := .readCmd
  page := page
  count := count
  nAddresses := 1
  status := .abortStatus
  errorCode := 0
  addresses _ := ⟨0x1000, nWords⟩

end Disk
