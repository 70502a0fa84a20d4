import KudOS.AddressSpaces
import KudOS.ArgumentContract
import KudOS.Assembly
import KudOS.BlinkDisplay
import KudOS.BlinkList
import KudOS.BlinkPictures
import KudOS.BlinkingCharacters
import KudOS.CStrings
import KudOS.CallPrograms
import KudOS.CatRuns
import KudOS.CheckedBuffers
import KudOS.CommandSplitting
import KudOS.CountedLoop
import KudOS.CounterRuns
import KudOS.CurrentProcess
import KudOS.DescriptorLaw
import KudOS.DescriptorTable
import KudOS.DescriptorTables
import KudOS.DescriptorValidation
import KudOS.DirectoryReading
import KudOS.EchoAnchor
import KudOS.ExecutableCheck
import KudOS.ExecuteCases
import KudOS.ExitStatus
import KudOS.FileLookup
import KudOS.FileReading
import KudOS.Filesystem
import KudOS.FishPrograms
import KudOS.FocusedState
import KudOS.FormatStrings
import KudOS.FrameCells
import KudOS.FrameRuns
import KudOS.GrepLines
import KudOS.GrepOutput
import KudOS.HaltCases
import KudOS.HardwareCursor
import KudOS.InputLine
import KudOS.InterruptController
import KudOS.InterruptDrivers
import KudOS.InterruptLogic
import KudOS.InterruptMasks
import KudOS.InterruptNesting
import KudOS.InterruptRuns
import KudOS.KernelRuns
import KudOS.KernelState
import KudOS.KeyboardDriver
import KudOS.LineDiscipline
import KudOS.LineEditing
import KudOS.LinkedLists
import KudOS.ListPositions
import KudOS.LowMemory
import KudOS.LsRuns
import KudOS.MemoryRoutines
import KudOS.ModifierFlags
import KudOS.ModifierKeys
import KudOS.NumberRendering
import KudOS.Numerals
import KudOS.Paging
import KudOS.ProcessNesting
import KudOS.ProcessStacks
import KudOS.ProgramArguments
import KudOS.ProgramLoading
import KudOS.ProgramResults
import KudOS.ProgramRuns
import KudOS.ProtectedMode
import KudOS.ReadPositions
import KudOS.RtcHandshake
import KudOS.ScreenCells
import KudOS.ScreenLayout
import KudOS.ShellRuns
import KudOS.ShellStart
import KudOS.SlotReuse
import KudOS.StringInstructions
import KudOS.SyscallGateway
import KudOS.SystemCalls
import KudOS.SystemTestRuns
import KudOS.SystemTests
import KudOS.TerminalBounds
import KudOS.TerminalDriver
import KudOS.TerminalIndependence
import KudOS.TerminalLocality
import KudOS.TerminalReading
import KudOS.TerminalSwitching
import KudOS.TextLines
import KudOS.UnmappedKeys
import KudOS.UserPrograms
import KudOS.VideoMapping
