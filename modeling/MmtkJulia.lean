import MmtkJulia.Runs
import MmtkJulia.Handshake
import MmtkJulia.HandshakeSafety
import MmtkJulia.HandshakeRaces
import MmtkJulia.GcTrigger
import MmtkJulia.GcTriggerPending
import MmtkJulia.GcTriggerTarget
import MmtkJulia.GcTriggerThrashing
import MmtkJulia.Finalizer
import MmtkJulia.FinalizerSweep
import MmtkJulia.FinalizerMark
import MmtkJulia.FinalizerScan
import MmtkJulia.FinalizerRuns
import MmtkJulia.Cursor
import MmtkJulia.Memory
import MmtkJulia.Layouts
import MmtkJulia.GenericMemory
import MmtkJulia.ShadowStack
import MmtkJulia.ParkedStack
import MmtkJulia.ObjectModel
import MmtkJulia.HeapObjects
import MmtkJulia.Copied
import MmtkJulia.ScanCopy
import MmtkJulia.CopyCommutes
import MmtkJulia.GcTriggerLedger
import MmtkJulia.GcTriggerLimit
import MmtkJulia.FinalizerAsserts
import MmtkJulia.MemorySlice
import MmtkJulia.FinalizerFrame
import MmtkJulia.MemoryRefs
import MmtkJulia.ObjectExtent
import MmtkJulia.Checked
import MmtkJulia.GcTriggerCurve
import MmtkJulia.GcTriggerSmooth
import MmtkJulia.SimpleVector
import MmtkJulia.Backtrace
import MmtkJulia.Packets
import MmtkJulia.ThreadRoots
import MmtkJulia.Mutators
import MmtkJulia.RootsWork
import MmtkJulia.Evacuation
import MmtkJulia.StackTracing
import MmtkJulia.HandshakeProgress
import MmtkJulia.Bitfields
import MmtkJulia.GcTriggerPacing
import MmtkJulia.TypeFlags
import MmtkJulia.Payload
import MmtkJulia.WeakReferences
