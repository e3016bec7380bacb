import NVMeVirt.Lib.Outcome
import NVMeVirt.Lib.Census
import NVMeVirt.Params
import NVMeVirt.ChannelModel
import NVMeVirt.Ssd
import NVMeVirt.ConvFtl
import NVMeVirt.ConvNamespace
import NVMeVirt.Lib.Digits
import NVMeVirt.ConvGeometry
import NVMeVirt.ConvInvariant
import NVMeVirt.ConvPage
import NVMeVirt.ConvPointer
import NVMeVirt.ConvMap
import NVMeVirt.ConvGc
import NVMeVirt.ConvCommands
import NVMeVirt.ConvInit
import NVMeVirt.ConvRun
import NVMeVirt.ConvConsistency
import NVMeVirt.ConvSpace
import NVMeVirt.ConvProvision
import NVMeVirt.Lib.Batches
import NVMeVirt.ConvBuffer
import NVMeVirt.IoWorker
import NVMeVirt.Lib.Chains
import NVMeVirt.IoLists
import NVMeVirt.IoRun
import NVMeVirt.IoDispatch
import NVMeVirt.IoThread
import NVMeVirt.IoTrace
import NVMeVirt.IoDrain
import NVMeVirt.IoSlots
import NVMeVirt.ZnsFtl
import NVMeVirt.ZnsReadWrite
import NVMeVirt.ZnsActions
import NVMeVirt.ZnsWrites
import NVMeVirt.ZnsZrwaWrites
import NVMeVirt.ZnsRun
import NVMeVirt.Lib.Ranges
import NVMeVirt.ZnsHistory
import NVMeVirt.ZnsAtomic
import NVMeVirt.ZnsAppend
import NVMeVirt.ZnsZrwa
import NVMeVirt.ZnsBuffer
import NVMeVirt.IoCopy
import NVMeVirt.ZnsCopy
import NVMeVirt.IoNamespaces
import NVMeVirt.KvFtl
import NVMeVirt.Lib.Links
import NVMeVirt.KvTable
import NVMeVirt.KvMap
import NVMeVirt.KvValues
import NVMeVirt.Admin
import NVMeVirt.AdminCompletions
import NVMeVirt.CompletionRing
import NVMeVirt.CompletionRace
import NVMeVirt.Doorbells
import NVMeVirt.SubmissionRing
import NVMeVirt.Bars
import NVMeVirt.PowerOn
import NVMeVirt.QueueLife
import NVMeVirt.ChannelTimeline
import NVMeVirt.ZnsTraps
import NVMeVirt.ZnsZrwaOff
import NVMeVirt.ConvWaiting
import NVMeVirt.QueueDispatch
import NVMeVirt.Lib.Heaps
import NVMeVirt.PQueueOrder
import NVMeVirt.ConvSteps
import NVMeVirt.VictimQueue
import NVMeVirt.Lib.Bags
import NVMeVirt.PQueueRuns
import NVMeVirt.GcEffect
import NVMeVirt.NandTiming
import NVMeVirt.WriteOrder
import NVMeVirt.ReadCommands
import NVMeVirt.Lib.Floor
import NVMeVirt.IoOrder
import NVMeVirt.CompletionDoorbell
import NVMeVirt.PrpPaths
import NVMeVirt.ChannelIdle
import NVMeVirt.ChannelOrder
import NVMeVirt.CellTypes
import NVMeVirt.ZoneAddresses
import NVMeVirt.ZoneFill
import NVMeVirt.Lib.LittleEndian
import NVMeVirt.ZoneReport
import NVMeVirt.ZnsLeftovers
import NVMeVirt.KvBatch
import NVMeVirt.KvKeys
import NVMeVirt.KvRuns
import NVMeVirt.KvParts
import NVMeVirt.KvPayload
import NVMeVirt.KvAllocators
import NVMeVirt.PageNumbers
import NVMeVirt.ProGeometry
import NVMeVirt.Lib.Striping
import NVMeVirt.ZoneDies
import NVMeVirt.KvIter
import NVMeVirt.Lib.Paging
import NVMeVirt.KvListing
import NVMeVirt.KvHandles
import NVMeVirt.Lib.FlashStore
import NVMeVirt.FtlStore
import NVMeVirt.Wear
import NVMeVirt.Lib.Notify
import NVMeVirt.Interrupts
import NVMeVirt.Lib.ZonedDevice
import NVMeVirt.ZnsDevice
import NVMeVirt.ByteStore
import NVMeVirt.Lib.PackedStore
import NVMeVirt.KvDevice
import NVMeVirt.Lib.Registers
import NVMeVirt.PciConfig
import NVMeVirt.CommandExchange
import NVMeVirt.HandlerLog
import NVMeVirt.ExchangeDispatch
