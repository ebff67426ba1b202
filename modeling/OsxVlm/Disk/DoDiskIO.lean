import Mathlib

/-!
# Disk life support, one command

The guest queues commands that name pages of the partition and, separately, the
address pairs of its buffers.  `DoDiskIO` moves the pairs to or from the file 32
at a time.  What the system calls answered is the `Host`'s; what they moved is
the list of `Move`s.
-/

namespace Disk

/-- Words of the communications area are signed. -/
abbrev EmbWord := BitVec 32

abbrev EmbPtr := BitVec 32

/-- An error number; zero is success and none of these. -/
abbrev Errno := { e : Nat // e ≠ 0 }

def EINTR : Errno := ⟨4, by decide⟩
def ENXIO : Errno := ⟨6, by decide⟩
def EINVAL : Errno := ⟨22, by decide⟩
def EROFS : Errno := ⟨30, by decide⟩

inductive EmbDiskCmd where
  | readCmd
  | writeCmd
  | resetCmd
  | initializeCmd
  /-- The other codes of the three-bit field. -/
  | other
  deriving DecidableEq

inductive EmbDiskStatus where
  | wonStatus
  | lostStatus
  | abortStatus
  deriving DecidableEq

structure EmbAddressPair where
  address : EmbPtr
  nWords : EmbWord

/-- A command in guest memory; `addresses` is what stands there from its first
address pair on. -/
structure EmbDiskQueueElement where
  cmd : EmbDiskCmd
  page : EmbWord
  count : EmbWord
  nAddresses : EmbWord
  status : EmbDiskStatus
  errorCode : Nat
  addresses : Nat → EmbAddressPair

/-- The channel in guest memory and the state the host keeps for it. -/
structure DiskChannel where
  readOnly : Bool
  numberOfPages : EmbWord
  blocksize : EmbWord
  errorPending : Bool
  /-- The descriptor of the partition, -1 where none is open. -/
  fd : Int

def NIOVectors : Nat := 32

/-- The bytes asked of one system call; a negative length is one no call takes. -/
def byteCount (iovs : List EmbAddressPair) : Int := (iovs.map fun p => 4 * p.nWords.toInt).sum

/-- `readv` or `writev`: what the call for the vectors from address pair `first`
on answers.  It moves at most what it was asked and refuses a negative length. -/
structure VectorCall where
  call : (first : Nat) → List EmbAddressPair → Except Errno Nat
  le_byteCount : ∀ {first iovs n}, call first iovs = .ok n → (n : Int) ≤ byteCount iovs
  nonneg : ∀ {first iovs n}, call first iovs = .ok n → ∀ p ∈ iovs, 0 ≤ p.nWords.toInt

/-- What the system calls of one command answer. -/
structure Host where
  /-- The error of a seek to the offset, if it has one. -/
  lseek : Int → Option Errno
  readv : VectorCall
  writev : VectorCall

/-- One call moved `nBytes` between the file, from `fileOffset` on, and the
buffers, filled or drained in order. -/
structure Move where
  fileOffset : Int
  buffers : List EmbAddressPair
  nBytes : Nat

/-- The vectors of the batch that starts at `addressPair`. -/
def vectors (command : EmbDiskQueueElement) (addressPair nAddresses : Nat) : List EmbAddressPair :=
  (List.range' addressPair (min nAddresses NIOVectors)).map command.addresses

theorem vectors_length (command : EmbDiskQueueElement) (addressPair nAddresses : Nat) :
    (vectors command addressPair nAddresses).length = min nAddresses NIOVectors := by
  simp [vectors]

/-- The loop over the batches, with the file at `offset`. -/
def transferLoop (io : VectorCall) (command : EmbDiskQueueElement) (offset : Int)
    (addressPair nAddresses : Nat) : Except Errno Unit × List Move :=
  if nAddresses = 0 then (.ok (), [])
  else
    let iovs := vectors command addressPair nAddresses
    match io.call addressPair iovs with
    | .error e => (.error e, [])
    | .ok actualBytes =>
        let move := ⟨offset, iovs, actualBytes⟩
        if (actualBytes : Int) ≠ byteCount iovs then (.error EINTR, [move])
        else
          let rest := transferLoop io command (offset + actualBytes)
            (addressPair + iovs.length) (nAddresses - iovs.length)
          (rest.1, move :: rest.2)
termination_by nAddresses
decreasing_by
  rw [vectors_length]
  simp only [NIOVectors]
  omega

/-- `DoDiskIO`.  The end of the range is computed in 32 bits. -/
def doDiskIO (host : Host) (channel : DiskChannel) (command : EmbDiskQueueElement) :
    Except Errno Unit × List Move :=
  if command.page.toInt < 0 ∨ channel.numberOfPages.toInt < (command.page + command.count).toInt then
    (.error EINVAL, [])
  else
    let startingOffset := command.page.toInt * channel.blocksize.toInt
    match host.lseek startingOffset with
    | some e => (.error e, [])
    | none =>
        match command.cmd with
        | .readCmd =>
            transferLoop host.readv command startingOffset 0 command.nAddresses.toInt.toNat
        | .writeCmd =>
            transferLoop host.writev command startingOffset 0 command.nAddresses.toInt.toNat
        | _ => (.error EINVAL, [])

/-- What `DiskLife` made of a command. -/
structure Answer where
  command : EmbDiskQueueElement
  channel : DiskChannel
  moves : List Move

/-- The `ReadCmd` case of `DiskLife`, which writes share. -/
def transfer (host : Host) (channel : DiskChannel) (command : EmbDiskQueueElement) : Answer :=
  if channel.errorPending then ⟨{ command with status := .abortStatus }, channel, []⟩
  else if channel.fd = -1 then
    ⟨{ command with status := .lostStatus, errorCode := ENXIO }, channel, []⟩
  else
    match doDiskIO host channel command with
    | (.ok _, moves) => ⟨{ command with status := .wonStatus, errorCode := 0 }, channel, moves⟩
    | (.error e, moves) =>
        ⟨{ command with status := .lostStatus, errorCode := e },
          { channel with errorPending := true }, moves⟩

/-- The switch of `DiskLife`. -/
def serve (host : Host) (channel : DiskChannel) (command : EmbDiskQueueElement) : Answer :=
  match command.cmd with
  | .writeCmd =>
      if channel.readOnly then
        ⟨{ command with status := .lostStatus, errorCode := EROFS }, channel, []⟩
      else transfer host channel command
  | .readCmd => transfer host channel command
  | .resetCmd => ⟨{ command with status := .wonStatus }, { channel with errorPending := false }, []⟩
  | .initializeCmd =>
      ⟨{ command with status := .wonStatus }, { channel with errorPending := false }, []⟩
  | .other => ⟨{ command with status := .lostStatus, errorCode := ENXIO }, channel, []⟩

/-- A command that moves pages. -/
def EmbDiskCmd.Transfers (cmd : EmbDiskCmd) : Prop := cmd = .readCmd ∨ cmd = .writeCmd

/-- The bytes the calls moved. -/
def movedBytes (moves : List Move) : Int := (moves.map fun m => (m.nBytes : Int)).sum

end Disk
