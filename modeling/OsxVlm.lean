import OsxVlm.Chaos.Close
import OsxVlm.Chaos.Ack
import OsxVlm.Chaos.Receive
import OsxVlm.Chaos.ArpRequests
import OsxVlm.Chaos.Foreign
import OsxVlm.Chaos.InBounds
import OsxVlm.Stream.NoDataLost
import OsxVlm.Stream.Laws
import OsxVlm.Remote.EvalReply
import OsxVlm.Remote.CheckForm
import OsxVlm.Remote.Spool
import OsxVlm.Tape.RoundTrip
import OsxVlm.Queue.WakeUp
import OsxVlm.Queue.Transfers
import OsxVlm.Memory.ScanPage
import OsxVlm.Memory.PHTScan
import OsxVlm.Memory.CreatePage
import OsxVlm.Memory.CopyAndForward
import OsxVlm.Memory.TagSearch
import OsxVlm.Memory.BlockWords
import OsxVlm.Memory.WorldLoad
import OsxVlm.Memory.LockstepRuns
import OsxVlm.Emulator.Traps
import OsxVlm.Interpreter.CallReturn
import OsxVlm.Interpreter.StackCacheInvisible
import OsxVlm.Disk.DiskLife
import OsxVlm.Network.Delivery
import OsxVlm.Spy.MemorySpy
import OsxVlm.Spy.Requests
import OsxVlm.Terminal.Xterm
import OsxVlm.Terminal.Session
import OsxVlm.World.IvoryPage
import OsxVlm.World.PageRoundTrip
import OsxVlm.World.CopyQs
import OsxVlm.World.Canonicalize
import OsxVlm.World.Repave
import OsxVlm.World.MergeRounds
import OsxVlm.Translator.LowHalves
import OsxVlm.Translator.VMAccess
import OsxVlm.Translator.AccessOverrides
import OsxVlm.Translator.AccessSpecs
import OsxVlm.Translator.MemoryWrite
import OsxVlm.Translator.StackDump
import OsxVlm.Tape.Inspector
import OsxVlm.Tape.Backward
import OsxVlm.Spy.RemoteMemory
import OsxVlm.Print.ExactOutline
import OsxVlm.Print.Reordered
import OsxVlm.Terminal.KeyStream
import OsxVlm.Terminal.ScreenRenderer
import OsxVlm.Configuration.AddressString
import OsxVlm.Console.Opening
import OsxVlm.Console.Transfer
import OsxVlm.ColdLoad.NoOverrun
import OsxVlm.ColdLoad.Replay
import OsxVlm.Emulator.EnsureRange
import OsxVlm.Emulator.StackScroll
import OsxVlm.Emulator.MemoryCycles
import OsxVlm.Emulator.ListInstructions
import OsxVlm.Emulator.EntrySpread
import OsxVlm.Emulator.CacheRuns
import OsxVlm.Interpreter.FakeFrames
import OsxVlm.Interpreter.LongArrays
import OsxVlm.Interpreter.FixnumArithmetic
import OsxVlm.Interpreter.HiddenAccesses
import OsxVlm.Emulator.ArithmeticExact
import OsxVlm.Emulator.RegisterInstructions
import OsxVlm.Terminal.GridArrays
import OsxVlm.Emulator.FormsAgree
import OsxVlm.Terminal.Supdup
import OsxVlm.World.SaveRoundTrip
import OsxVlm.World.ByteSwap
import OsxVlm.Library.BinarySearch
import OsxVlm.Memory.FaultHandler
import OsxVlm.Memory.ResidentPages
import OsxVlm.Memory.Faults
