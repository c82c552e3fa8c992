import ChatApp.AtomicQueue
import ChatApp.AtomicQueueOrder
import ChatApp.AtomicQueueProgress
import ChatApp.AtomicQueueSlots
import ChatApp.AtomicQueueTickets
import ChatApp.AtomicQueueTurns
import ChatApp.BalancedGrowth
import ChatApp.Bookkeeping
import ChatApp.Broadcasts
import ChatApp.ChatOrder
import ChatApp.ClientArray
import ChatApp.ClientStops
import ChatApp.ClientThreads
import ChatApp.ClientWire
import ChatApp.Codec
import ChatApp.ColourBounds
import ChatApp.ComingToRest
import ChatApp.Descriptors
import ChatApp.EndedWorkers
import ChatApp.FrameReuse
import ChatApp.Framing
import ChatApp.InterleavedAlone
import ChatApp.InterleavedClients
import ChatApp.InterleavedCustody
import ChatApp.InterleavedHands
import ChatApp.InterleavedIds
import ChatApp.InterleavedListener
import ChatApp.InterleavedRuns
import ChatApp.InterleavedTable
import ChatApp.Interleaving
import ChatApp.Library.Bits
import ChatApp.Library.Conservation
import ChatApp.Library.Linearizable
import ChatApp.Library.Scripts
import ChatApp.ListenerErrors
import ChatApp.LiveWorkers
import ChatApp.MessageLengths
import ChatApp.MessageQueues
import ChatApp.PartialSends
import ChatApp.QueueContents
import ChatApp.QueueLayout
import ChatApp.Quiescence
import ChatApp.Refusals
import ChatApp.Relays
import ChatApp.ReplyLeaks
import ChatApp.SenderIdentity
import ChatApp.ServerExit
import ChatApp.Shutdown
import ChatApp.SleepingWorkers
import ChatApp.SlotIntegrity
import ChatApp.SpreadFirst
import ChatApp.StuckClients
import ChatApp.ThreadLimit
import ChatApp.WakeUp
import ChatApp.WorkerFaults
import ChatApp.WorkerFrames
