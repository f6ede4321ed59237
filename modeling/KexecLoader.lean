import KexecLoader.Library.CString
import KexecLoader.Library.Stream
import KexecLoader.Library.Numeral
import KexecLoader.Library.PathStack
import KexecLoader.Library.PathText
import KexecLoader.Library.FileTree
import KexecLoader.Misc
import KexecLoader.Disk
import KexecLoader.MountById
import KexecLoader.Vfs
import KexecLoader.VfsContainment
import KexecLoader.Library.Runs
import KexecLoader.Boot
import KexecLoader.Settings
import KexecLoader.Grub
import KexecLoader.Conf
import KexecLoader.GrubMap
import KexecLoader.ConfFormat
import KexecLoader.ConfFidelity
import KexecLoader.Library.Decoder
import KexecLoader.Console
import KexecLoader.KeyDecoding
import KexecLoader.CursorReport
import KexecLoader.Modprobe
import KexecLoader.ModuleOrder
import KexecLoader.FileCalls
import KexecLoader.Tar
import KexecLoader.TarFormat
import KexecLoader.TarFidelity
import KexecLoader.TarFailures
import KexecLoader.MenuSelection
import KexecLoader.Library.Blocks
import KexecLoader.ConfView
import KexecLoader.KmodOptions
import KexecLoader.Shell
import KexecLoader.Library.Memory
import KexecLoader.LineEditor
import KexecLoader.TextLine
import KexecLoader.LineEditing
import KexecLoader.EditorRefinement
import KexecLoader.EditorBounds
import KexecLoader.StringInsertion
import KexecLoader.TabCompletion
import KexecLoader.OptionLookup
import KexecLoader.Trace
import KexecLoader.SymbolLookup
import KexecLoader.BootTarget
import KexecLoader.KexecInvocation
import KexecLoader.Library.Terminal
import KexecLoader.Redraw
import KexecLoader.RedrawTracking
import KexecLoader.Library.WordCompletion
import KexecLoader.Completion
import KexecLoader.CompletionCandidates
import KexecLoader.CompletionSearch
import KexecLoader.CompletionContexts
import KexecLoader.CompletionExact
import KexecLoader.ShellTarget
import KexecLoader.MenuLst
import KexecLoader.MenuView
import KexecLoader.TargetBlocks
import KexecLoader.MenuBlocks
import KexecLoader.GrubCfg
import KexecLoader.GrubCfgView
import KexecLoader.Comments
import KexecLoader.Cmdline
import KexecLoader.VolatileId
import KexecLoader.Startup
import KexecLoader.Library.Glob
import KexecLoader.Globcmp
import KexecLoader.GlobMatching
import KexecLoader.MountTable
import KexecLoader.PathResolution
import KexecLoader.GrubLoad
import KexecLoader.BracketDevice
import KexecLoader.GdevGrammar
import KexecLoader.GdevLookup
import KexecLoader.SearchLine
import KexecLoader.GrubCfgCommands
import KexecLoader.GrubCfgPosition
import KexecLoader.GrubCfgFormat
import KexecLoader.GrubCfgFidelity
import KexecLoader.DiskFilter
import KexecLoader.DiskTags
import KexecLoader.MenuRejection
import KexecLoader.Library.LinkedList
import KexecLoader.Unmounting
import KexecLoader.EntryNames
import KexecLoader.TimeoutPrecedence
import KexecLoader.ModuleCalls
import KexecLoader.ModuleScan
import KexecLoader.ModuleTermination
import KexecLoader.Library.ByteOrder
import KexecLoader.Elf
import KexecLoader.ElfFormat
import KexecLoader.SectionLookup
import KexecLoader.TableReads
import KexecLoader.ModinfoScan
import KexecLoader.TarSkipping
import KexecLoader.ParentDirs
import KexecLoader.TarPlaces
import KexecLoader.TarContainment
import KexecLoader.Library.NumeralScan
import KexecLoader.HeaderChecksum
import KexecLoader.ListFunctions
import KexecLoader.TargetStore
import KexecLoader.MenuStore
import KexecLoader.VfsFiles
import KexecLoader.FileSearch
import KexecLoader.GrubDetect
import KexecLoader.BootSession
import KexecLoader.ConsoleSize
import KexecLoader.Library.Words
import KexecLoader.Keymap
import KexecLoader.KeymapConv
import KexecLoader.ModuleTars
import KexecLoader.Countdown
import KexecLoader.ShellHistory
import KexecLoader.DiskBay
import KexecLoader.GrubBoot
import KexecLoader.PowerOn
import KexecLoader.PowerOnBoot
import KexecLoader.Library.Grid
import KexecLoader.MenuScreen
import KexecLoader.ScreenSelection
