import IpSentinel.Foundation.CompareFunc
import IpSentinel.Foundation.HeapOrder
import IpSentinel.Foundation.Runs
import IpSentinel.Foundation.Simulation
import IpSentinel.Foundation.FirstRule
import IpSentinel.Foundation.Calls
import IpSentinel.Foundation.Platform
import IpSentinel.Foundation.VectorLib
import IpSentinel.Foundation.KeyedTable
import IpSentinel.Foundation.InPlace
import IpSentinel.Foundation.Memory
import IpSentinel.Foundation.Strtol
import IpSentinel.Parameters
import IpSentinel.Net.Addresses
import IpSentinel.Net.ArpMessage
import IpSentinel.Net.Buffer
import IpSentinel.Net.AddressLib
import IpSentinel.Net.EtherAton
import IpSentinel.Net.EtherNtoa
import IpSentinel.PriorityQueue.HeapProperty
import IpSentinel.PriorityQueue.Growth
import IpSentinel.PriorityQueue.Operations
import IpSentinel.PriorityQueue.Powify
import IpSentinel.AntiDOS.RateLimit
import IpSentinel.Worker.Conservation
import IpSentinel.Worker.Pending
import IpSentinel.Worker.Schedule
import IpSentinel.Worker.Ends
import IpSentinel.BlackList.Precedence
import IpSentinel.BlackList.Duplicates
import IpSentinel.BlackList.BlockedSender
import IpSentinel.BlackList.Reload
import IpSentinel.BlackList.ErrorCount
import IpSentinel.BlackList.FileChanges
import IpSentinel.BlackList.Meaning
import IpSentinel.AntiDOS.Sweep
import IpSentinel.AntiDOS.ClockSteps
import IpSentinel.AntiDOS.ExtraRequests
import IpSentinel.AntiDOS.Recovery
import IpSentinel.AntiDOS.Invariant
import IpSentinel.MainLoop.Machine
import IpSentinel.MainLoop.TableCalls
import IpSentinel.MainLoop.Leftovers
import IpSentinel.MainLoop.ReloadRequests
import IpSentinel.MainLoop.IdealCounters
import IpSentinel.MainLoop.JobLimit
import IpSentinel.MainLoop.Isolation
import IpSentinel.MainLoop.Ends
import IpSentinel.Daemon.Machine
import IpSentinel.Daemon.Broadcast
import IpSentinel.Daemon.FrameContents
import IpSentinel.Daemon.Amplification
import IpSentinel.Worker.PrintJob
import IpSentinel.Daemon.JobLog
import IpSentinel.Foundation.Windows
import IpSentinel.MainLoop.RandomMacs
import IpSentinel.BlackList.NetMask
import IpSentinel.BlackList.Grammar
import IpSentinel.BlackList.RangeNumbers
import IpSentinel.BlackList.ExpandBuffer
import IpSentinel.BlackList.ParseMemory
import IpSentinel.BlackList.RoundTrip
import IpSentinel.Startup.Kernel
import IpSentinel.Startup.Options
import IpSentinel.Startup.Main
import IpSentinel.Startup.Confinement
import IpSentinel.Startup.Failures
