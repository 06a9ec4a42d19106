import ForgeAlloc.Library.MachineInt
import ForgeAlloc.Library.Memory
import ForgeAlloc.Library.PackedWord
import ForgeAlloc.Library.XorShift
import ForgeAlloc.Library.Run
import ForgeAlloc.Library.Chain
import ForgeAlloc.Library.SlotPool
import ForgeAlloc.Library.Threaded
import ForgeAlloc.Library.RegionStack
import ForgeAlloc.Library.DelayLine
import ForgeAlloc.Library.Custody
import ForgeAlloc.Library.InFlight
import ForgeAlloc.Library.Paging
import ForgeAlloc.Library.WholePages
import ForgeAlloc.Library.ObjectStore
import ForgeAlloc.Library.FetchUpdate
import ForgeAlloc.Core.NonZeroLayout
import ForgeAlloc.Core.Allocator
import ForgeAlloc.Core.Usable
import ForgeAlloc.Core.Recording
import ForgeAlloc.Core.Policing
import ForgeAlloc.Core.OwnedRange
import ForgeAlloc.Core.Component
import ForgeAlloc.Core.ClientRun
import ForgeAlloc.Core.ClientView
import ForgeAlloc.Core.Carving
import ForgeAlloc.Core.Wrapping
import ForgeAlloc.Core.Forwarding
import ForgeAlloc.Core.GuardRun
import ForgeAlloc.Core.Ledger
import ForgeAlloc.Core.Metering
import ForgeAlloc.Core.FreelistProtection
import ForgeAlloc.Core.StdCompat
import ForgeAlloc.Core.Padding
import ForgeAlloc.Core.Testing
import ForgeAlloc.Core.Tracked
import ForgeAlloc.Backing.Inline
import ForgeAlloc.Backing.Mmap
import ForgeAlloc.Backing.Protect
import ForgeAlloc.Backing.LazyCommit
import ForgeAlloc.Backing.OsProcess
import ForgeAlloc.Backing.HugePageBacked
import ForgeAlloc.Backing.LockedMmap
import ForgeAlloc.Backing.InlineContract
import ForgeAlloc.Backing.HeapBytes
import ForgeAlloc.Layout.Bump
import ForgeAlloc.Layout.BumpRun
import ForgeAlloc.Layout.BumpGrow
import ForgeAlloc.Layout.BumpScope
import ForgeAlloc.Layout.BumpStdCompat
import ForgeAlloc.Layout.SharedBump
import ForgeAlloc.Layout.Slab
import ForgeAlloc.Layout.SlabRun
import ForgeAlloc.Layout.SlabAttack
import ForgeAlloc.Layout.SlabIndex
import ForgeAlloc.Layout.SlabTamper
import ForgeAlloc.Layout.SlabTamperRun
import ForgeAlloc.Layout.SlabBlocks
import ForgeAlloc.Layout.SlabContract
import ForgeAlloc.Layout.SlabOwner
import ForgeAlloc.Layout.SlabOwnerRun
import ForgeAlloc.Layout.SlabOwnerDrain
import ForgeAlloc.Layout.SlabOwnerRetry
import ForgeAlloc.Layout.SlabOwnerMirror
import ForgeAlloc.Layout.ExtendableSlab
import ForgeAlloc.Layout.ExtendableSlabRun
import ForgeAlloc.Layout.ExtendableSlabAlone
import ForgeAlloc.Layout.ExtendableSlabBuild
import ForgeAlloc.Layout.Generational
import ForgeAlloc.Layout.GenerationalRun
import ForgeAlloc.Layout.GenerationalMap
import ForgeAlloc.Layout.MoveAlignment
import ForgeAlloc.Layout.UntypedSlab
import ForgeAlloc.Layout.SizeClassed
import ForgeAlloc.Layout.SizeClassedBacking
import ForgeAlloc.Layout.SizeClassedPick
import ForgeAlloc.Layout.SizeClassedRun
import ForgeAlloc.Layout.SizeClassedReturn
import ForgeAlloc.Layout.StackAlloc
import ForgeAlloc.Layout.StackAllocRun
import ForgeAlloc.Layout.StackAllocResize
import ForgeAlloc.Layout.StackAllocContract
import ForgeAlloc.Layout.SizeClassedOverStack
import ForgeAlloc.Layout.LazyCommit
import ForgeAlloc.Layout.LazyCommitRun
import ForgeAlloc.Layout.Layers
import ForgeAlloc.Layout.BumpSteps
import ForgeAlloc.Layout.Fallback
import ForgeAlloc.Layout.FallbackRun
import ForgeAlloc.Layout.ArenaComponents
import ForgeAlloc.Layout.SlabComponents
import ForgeAlloc.Layout.ExtendableSlabComponent
import ForgeAlloc.Layout.SizeClassedComponent
import ForgeAlloc.Layout.FallbackComponent
import ForgeAlloc.Layout.Conformance
import ForgeAlloc.Layout.ArenaPool
import ForgeAlloc.Layout.ArenaPoolRun
import ForgeAlloc.Layout.ArenaPoolMmap
import ForgeAlloc.Layout.ArenaPoolReuse
import ForgeAlloc.Hardening.Quarantine
import ForgeAlloc.Hardening.QuarantineRun
import ForgeAlloc.Hardening.QuarantineDrop
import ForgeAlloc.Hardening.Canary
import ForgeAlloc.Hardening.CanaryRun
import ForgeAlloc.Hardening.CacheJitter
import ForgeAlloc.Hardening.CacheJitterRun
import ForgeAlloc.Hardening.CacheJitterDraws
import ForgeAlloc.Hardening.Statistics
import ForgeAlloc.Hardening.StatisticsRun
import ForgeAlloc.Hardening.Watermark
import ForgeAlloc.Hardening.Scrub
import ForgeAlloc.Hardening.ScrubResize
import ForgeAlloc.Hardening.Components
import ForgeAlloc.Hardening.Forwarders
import ForgeAlloc.Hardening.ScrubStack
import ForgeAlloc.Hardening.GuardPage
import ForgeAlloc.Hardening.GuardPageRun
import ForgeAlloc.Hardening.NumaPolicy
import ForgeAlloc.Hardening.OsRegion
import ForgeAlloc.Hardening.OsRegionRun
import ForgeAlloc.Hardening.NumaBinding
import ForgeAlloc.Hardening.StackClient
import ForgeAlloc.Hardening.Telemetry
import ForgeAlloc.Hardening.CorruptionEvents
import ForgeAlloc.Hardening.CapacityBytes
import ForgeAlloc.Hardening.FaultPolicy
import ForgeAlloc.Hardening.FaultyRun
import ForgeAlloc.Hardening.ResetRun
import ForgeAlloc.Containers.AlignedCol
import ForgeAlloc.Containers.AlignedColRun
import ForgeAlloc.Capi.Bump
import ForgeAlloc.Capi.BumpRun
import ForgeAlloc.Fuzz.Harness
import ForgeAlloc.Fuzz.Targets
import ForgeAlloc.Core.ClientKept
import ForgeAlloc.Hardening.Forgetting
import ForgeAlloc.Layout.SlabDrop
import ForgeAlloc.Layout.SlabDebug
