import UnixProgramming.Machine.ByteMemory
import UnixProgramming.Machine.Requests
import UnixProgramming.Sdb.BreakpointTable
import UnixProgramming.Text.CString
import UnixProgramming.Sdb.CommandLine
import UnixProgramming.Sdb.FileParsers
import UnixProgramming.Sdb.Debugger
import UnixProgramming.Sdb.Command
import UnixProgramming.Sdb.Kernel
import UnixProgramming.Machine.Overlay
import UnixProgramming.Sdb.Primitives
import UnixProgramming.Sdb.Frame
import UnixProgramming.Sdb.OverlayInvariant
import UnixProgramming.Sdb.StepOver
import UnixProgramming.Sdb.Uniqueness
import UnixProgramming.Sdb.Session
import UnixProgramming.Sdb.Lifecycle
import UnixProgramming.Sdb.MissingArgument
import UnixProgramming.Machine.X86
import UnixProgramming.Logger.Transparency
import UnixProgramming.Libmini.Setjmp
import UnixProgramming.Libmini.SignalMask
import UnixProgramming.Machine.Stepping
import UnixProgramming.Sdb.Hardware
import UnixProgramming.Sdb.NativeRefinement
import UnixProgramming.Sdb.Registers
import UnixProgramming.Libmini.Sigaction
import UnixProgramming.Sdb.StopCause
import UnixProgramming.Sdb.FailedRequests
import UnixProgramming.Sdb.Disassembly
import UnixProgramming.Sdb.Invisible
import UnixProgramming.Sdb.ObtainedBytes
import UnixProgramming.Sdb.ElfParser
import UnixProgramming.Sdb.ElfWellFormed
import UnixProgramming.Lsof.Listing
import UnixProgramming.Libmini.SignalSets
import UnixProgramming.Libmini.Perror
import UnixProgramming.Libmini.Signal
import UnixProgramming.Machine.Routines
import UnixProgramming.Libmini.Sleep
import UnixProgramming.Logger.Transferred
import UnixProgramming.Text.Lines
import UnixProgramming.Text.Search
import UnixProgramming.Lsof.Maps
import UnixProgramming.Lsof.Names
import UnixProgramming.Lsof.UserTable
import UnixProgramming.NameBounds
import UnixProgramming.Sdb.Dump
import UnixProgramming.Sdb.Mappings
import UnixProgramming.Machine.OrderedMap
import UnixProgramming.Sdb.TableRefinement
import UnixProgramming.Libmini.Open
import UnixProgramming.Libmini.Wrappers
import UnixProgramming.Lsof.Arguments
import UnixProgramming.Sdb.UserView
import UnixProgramming.Sdb.UserRefinement
import UnixProgramming.Logger.Launcher
import UnixProgramming.Lsof.Main
import UnixProgramming.Libmini.CriticalSection
import UnixProgramming.Libmini.Dispositions
import UnixProgramming.Libmini.Stubs
import UnixProgramming.Sdb.Main
import UnixProgramming.Libmini.Interruptions
import UnixProgramming.Sdb.NativeCourse
import UnixProgramming.Libmini.Handlers
import UnixProgramming.Libmini.JumpBuffers
