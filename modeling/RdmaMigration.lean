import RdmaMigration.Containers.Accepts
import RdmaMigration.Containers.Lifecycle
import RdmaMigration.Containers.PageSizes
import RdmaMigration.Containers.Requests
import RdmaMigration.Containers.Roaming
import RdmaMigration.Coordinator.Alignment
import RdmaMigration.Coordinator.CounterProgress
import RdmaMigration.Coordinator.LinkShutdown
import RdmaMigration.Coordinator.ListText
import RdmaMigration.Coordinator.MeshProgress
import RdmaMigration.Coordinator.RecordText
import RdmaMigration.FaultTolerant.Agreement
import RdmaMigration.FaultTolerant.Alone
import RdmaMigration.FaultTolerant.LivePartitions
import RdmaMigration.FaultTolerant.Mapping
import RdmaMigration.FaultTolerant.Outcomes
import RdmaMigration.FaultTolerant.ProcessList
import RdmaMigration.FaultTolerant.Reports
import RdmaMigration.FaultTolerant.Requests
import RdmaMigration.FaultTolerant.Resolution
import RdmaMigration.FaultTolerant.SegmentRecord
import RdmaMigration.Manager.Polling
import RdmaMigration.Manager.Registration
import RdmaMigration.Migration.Delivery
import RdmaMigration.Migration.FailedPull
import RdmaMigration.Migration.Keys
import RdmaMigration.Migration.Recycling
import RdmaMigration.Network.Exchange
import RdmaMigration.Network.OneSided
import RdmaMigration.Network.RegisterMemory
import RdmaMigration.Network.WireFormat
import RdmaMigration.Paging.Correspondence
import RdmaMigration.Paging.Drain
import RdmaMigration.Paging.Tiling
import RdmaMigration.Paging.Transparency
import RdmaMigration.Utils.QueueProgress
