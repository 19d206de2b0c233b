import Risu.Lib.ByteOrder
import Risu.Lib.Process
import Risu.Lib.Duplex
import Risu.Lib.Scan
import Risu.Lib.Bits
import Risu.Lib.Loop
import Risu.Lib.Pipe
import Risu.Lib.Relate
import Risu.Lib.Log
import Risu.Lib.Chain
import Risu.Arm.Reginfo
import Risu.Arm.Mismatch
import Risu.M68k.Reginfo
import Risu.S390x.Reginfo
import Risu.Interface
import Risu.Comms
import Risu.Writev
import Risu.Retry
import Risu.Exchange
import Risu.Record
import Risu.Session
import Risu.Receive
import Risu.Settle
import Risu.Live
import Risu.Protocol
import Risu.Atomic
import Risu.Pipe
import Risu.Leftover
import Risu.Pairing
import Risu.Accept
import Risu.Ppc64.Sync
import Risu.Verdict
import Risu.Trace
import Risu.Ppc64.Endian
import Risu.Ppc64.Float
import Risu.Ppc64.Reginfo
import Risu.Ppc64.Tolerance
import Risu.Ppc64.Compare
import Risu.Ppc64.Port
import Risu.Ppc64.Monotone
import Risu.Ppc64.Accepted
import Risu.Ppc64.Division
import Risu.Ppc64.Confine
import Risu.Ppc64.Report
import Risu.Ppc64.Resync
import Risu.Ppc64.Rounding
import Risu.Ppc64.Commands
import Risu.Lib.BitField
import Risu.Gen.Perl
import Risu.Gen.Tokens
import Risu.Gen.Config
import Risu.Gen.Layout
import Risu.Gen.Partition
import Risu.Gen.Fields
import Risu.Gen.Blank
import Risu.Gen.Braces
import Risu.Gen.Groups
import Risu.Lib.Memory
import Risu.Gen.Ppc.Machine
import Risu.Gen.Ppc.Emit
import Risu.Gen.Ppc.Double
import Risu.Gen.Arm
import Risu.Gen.Arm.Machine
import Risu.Gen.Arm.Writers
import Risu.Gen.Arm.Address
import Risu.Gen.Arm.Sve
import Risu.Gen.Arm.Cleanup
import Risu.Gen.Arm.Inline
import Risu.Gen.Arm.InlineA32
import Risu.Gen.Arm.InlineA64
import Risu.Gen.Arm.Emit
import Risu.Gen.Arm.TestCode
import Risu.Gen.Arm.Align
import Risu.Gen.Constants
import Risu.Gen.Random
import Risu.Gen.S390x
import Risu.Gen.M68k
import Risu.Lib.Partial
import Risu.Lib.Image
import Risu.Gen.LoongArch
import Risu.Gen.Ppc.Branch
import Risu.Gen.Ppc.RunsOnce
import Risu.Gen.Ppc.Loads
import Risu.Gen.Ppc.Independence
import Risu.Gen.Ppc.LoadPatterns
import Risu.Gen.Ppc.Fpscr
import Risu.Gen.Ppc.Setup
import Risu.Gen.Ppc.Agree
import Risu.Gen.Ppc.Walk
import Risu.Loongarch64.Reginfo
import Risu.Loongarch64.Frames
import Risu.Loongarch64.Mismatch
import Risu.I386.Reginfo
import Risu.I386.Xsave
import Risu.I386.Mismatch
import Risu.Aarch64.Reginfo
import Risu.Aarch64.Mismatch
import Risu.Aarch64.Frames
import Risu.Mismatch
import Risu.Shell.Argcargv
import Risu.Shell.Eval
import Risu.Ppc64.Value
import Risu.Ppc64.Byteswap
import Risu.Lib.Segments
import Risu.Shell.Getopt
import Risu.Shell.Options
import Risu.Shell.Permute
import Risu.Ppc64.CommandLine
import Risu.Ppc64.Twins
import Risu.Risuops
