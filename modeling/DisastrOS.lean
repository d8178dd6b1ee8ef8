import DisastrOS.Awakenings
import DisastrOS.ByteDelivery
import DisastrOS.Children
import DisastrOS.ClockProcess
import DisastrOS.FailedOpens
import DisastrOS.HandleTable
import DisastrOS.Leftovers
import DisastrOS.ListCalls
import DisastrOS.ListSafety
import DisastrOS.LostWakeups
import DisastrOS.MessageOrder
import DisastrOS.NonBlocking
import DisastrOS.OpeningCounts
import DisastrOS.ProcessStatus
import DisastrOS.ProcessStorage
import DisastrOS.ProcessTree
import DisastrOS.Progress
import DisastrOS.QueueDrain
import DisastrOS.QueueOwnership
import DisastrOS.QueuePermissions
import DisastrOS.ReceiveBounds
import DisastrOS.Refinement
import DisastrOS.ResourceTable
import DisastrOS.RoundRobin
import DisastrOS.RoundTrips
import DisastrOS.Shutdown
import DisastrOS.Sleeping
import DisastrOS.StorageConservation
import DisastrOS.StorageUse
import DisastrOS.TableConsistency
import DisastrOS.TimerOrder
import DisastrOS.WaitReports
import DisastrOS.Wakeups
