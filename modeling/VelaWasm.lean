import VelaWasm.Chre.Completion
import VelaWasm.Chre.DataMaps
import VelaWasm.Chre.EventWrapper
import VelaWasm.Chre.Params
import VelaWasm.Chre.Results
import VelaWasm.Dbus.AllOrNothing
import VelaWasm.Dbus.Args
import VelaWasm.Dbus.ArgsRoundTrip
import VelaWasm.Dbus.BasicValues
import VelaWasm.Dbus.CallIdx
import VelaWasm.Dbus.ConnTable
import VelaWasm.Dbus.DispatchStatus
import VelaWasm.Dbus.ErrorObject
import VelaWasm.Dbus.Filter
import VelaWasm.Dbus.MessageArgs
import VelaWasm.Dbus.NonInterference
import VelaWasm.Dbus.ObjectPath
import VelaWasm.Dbus.PendingCall
import VelaWasm.Dbus.RemoveFilter
import VelaWasm.Dbus.UserData
import VelaWasm.Dbus.UserDataAlike
import VelaWasm.Dbus.Watch
import VelaWasm.Irq.Accounting
import VelaWasm.Irq.Argument
import VelaWasm.Irq.Attach
import VelaWasm.Irq.CallOrder
import VelaWasm.Irq.Drain
import VelaWasm.Irq.LiveNodes
import VelaWasm.Irq.Shutdown
import VelaWasm.Irq.ShutdownEnds
import VelaWasm.Irq.Vectors
import VelaWasm.Irq.WakeUp
import VelaWasm.Irq.Worker
import VelaWasm.Lib.Align
import VelaWasm.Lib.CString
import VelaWasm.Lib.Chain
import VelaWasm.Lib.HeapTrace
import VelaWasm.Lib.InPlace
import VelaWasm.Lib.Ledger
import VelaWasm.Lib.ListSet
import VelaWasm.Lib.LockStep
import VelaWasm.Lib.NodeList
import VelaWasm.Lib.NodeMap
import VelaWasm.Lib.Ownership
import VelaWasm.Lib.Preprocessor
import VelaWasm.Lib.Rest
import VelaWasm.Lib.Run
import VelaWasm.Lib.SlotMap
import VelaWasm.Lib.SlotTable
import VelaWasm.LibcBypass.AlignedMap
import VelaWasm.LibcBypass.AreaArguments
import VelaWasm.LibcBypass.Bounds
import VelaWasm.LibcBypass.Bridges
import VelaWasm.LibcBypass.Buffer
import VelaWasm.LibcBypass.Compare
import VelaWasm.LibcBypass.Cursor
import VelaWasm.LibcBypass.FiniteMap
import VelaWasm.LibcBypass.Format
import VelaWasm.LibcBypass.FormatReading
import VelaWasm.LibcBypass.Forwarding
import VelaWasm.LibcBypass.ListCalls
import VelaWasm.LibcBypass.Memalign
import VelaWasm.LibcBypass.Msghdr
import VelaWasm.LibcBypass.Nesting
import VelaWasm.LibcBypass.Once
import VelaWasm.LibcBypass.Output
import VelaWasm.LibcBypass.Pairing
import VelaWasm.LibcBypass.PointerCells
import VelaWasm.LibcBypass.Printf
import VelaWasm.LibcBypass.Rendering
import VelaWasm.LibcBypass.ResultLists
import VelaWasm.LibcBypass.Scanf
import VelaWasm.LibcBypass.Strsep
import VelaWasm.LibcBypass.Strto
import VelaWasm.LibcBypass.TempBuffers
import VelaWasm.LibcBypass.Varargs
import VelaWasm.LibcBypass.Walkers
import VelaWasm.Lwac.Entries
import VelaWasm.Lwac.Execute
import VelaWasm.Lwac.ExitStatus
import VelaWasm.Lwac.FindByName
import VelaWasm.Lwac.LinkedRegistry
import VelaWasm.Lwac.LiveHandles
import VelaWasm.Lwac.Main
import VelaWasm.Lwac.ModuleIds
import VelaWasm.Lwac.Options
import VelaWasm.Lwac.Processes
import VelaWasm.Lwac.Registry
import VelaWasm.Lwac.Release
import VelaWasm.Lwac.Runtime
import VelaWasm.Memory.BoundsCheck
import VelaWasm.Pointers
import VelaWasm.Tools.Agreement
import VelaWasm.Tools.Arity
import VelaWasm.Tools.DotsGlue
import VelaWasm.Tools.FormatGlue
import VelaWasm.Tools.GenerateFunctions
import VelaWasm.Tools.GenerateTable
import VelaWasm.Tools.GlueMeaning
import VelaWasm.Tools.HandwrittenGlue
import VelaWasm.Tools.Includes
import VelaWasm.Tools.Letters
import VelaWasm.Tools.Linking
import VelaWasm.Tools.MkWamrGlue
import VelaWasm.Wamr
import VelaWasm.Wapi.Config
import VelaWasm.Wapi.ScanList
