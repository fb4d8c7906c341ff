import ObjectStore.StorageMetadata.Service
import ObjectStore.StorageMetadata.Persistence
import ObjectStore.StorageMetadata.Integrity
import ObjectStore.Library.Codec
import ObjectStore.StorageMetadata.Json
import ObjectStore.StorageMetadata.Lookup
import ObjectStore.StorageMetadata.Availability
import ObjectStore.StorageMetadata.UnderReplication
import ObjectStore.StorageMetadata.Restart
import ObjectStore.Library.Circle
import ObjectStore.StorageMetadata.HashRing
import ObjectStore.StorageMetadata.RangeOwnership
import ObjectStore.StorageMetadata.Membership
import ObjectStore.StorageMetadata.Redistribution
import ObjectStore.Library.ByteFile
import ObjectStore.Library.LittleEndian
import ObjectStore.StorageNode.Disk
import ObjectStore.StorageNode.ChunkStore
import ObjectStore.StorageNode.SlotLayout
import ObjectStore.StorageNode.BoundedMap
import ObjectStore.Library.Crc32
import ObjectStore.StorageNode.Recovery
import ObjectStore.Library.Program
import ObjectStore.StorageNode.Service
import ObjectStore.StorageMetadata.Migration
import ObjectStore.StorageMetadata.Effect
import ObjectStore.StorageMetadata.Atomicity
import ObjectStore.StorageMetadata.Reservation
import ObjectStore.StorageMetadata.View
import ObjectStore.StorageMetadata.Cluster
import ObjectStore.StorageMetadata.Mutation
import ObjectStore.StorageMetadata.Rejoin
import ObjectStore.StorageMetadata.Listing
import ObjectStore.Deployment.Rpc
import ObjectStore.ApiGateway.Handlers
import ObjectStore.Deployment.Effect
import ObjectStore.ApiGateway.Upload
import ObjectStore.ApiGateway.Chunking
import ObjectStore.ApiGateway.Download
import ObjectStore.ApiGateway.Deletion
import ObjectStore.Library.Readers
import ObjectStore.ApiGateway.Visibility
import ObjectStore.ApiGateway.UploadRecord
import ObjectStore.StorageMetadata.Routing
import ObjectStore.StorageMetadata.Watcher
import ObjectStore.StorageMetadata.OwnerAddress
import ObjectStore.StorageMetadata.Isolation
import ObjectStore.StorageMetadata.Leftovers
import ObjectStore.StorageMetadata.ReplicaLists
import ObjectStore.StorageMetadata.Dispatch
import ObjectStore.StorageMetadata.ChunkRouting
import ObjectStore.StorageMetadata.ConcurrentReads
import ObjectStore.StorageMetadata.Registry
import ObjectStore.Library.Ownership
import ObjectStore.StorageNode.SlotTable
import ObjectStore.StorageNode.Faults
import ObjectStore.StorageNode.DiskChunks
import ObjectStore.StorageNode.Reopening
import ObjectStore.StorageNode.Durability
import ObjectStore.StorageNode.TornWrites
import ObjectStore.ApiGateway.Listing
import ObjectStore.Library.Tasks
import ObjectStore.ApiGateway.Agreement
import ObjectStore.StorageNode.WriteRequests
import ObjectStore.StorageMetadata.IndexAtRest
import ObjectStore.ReplicationService.Concurrency
import ObjectStore.ReplicationService.Turns
import ObjectStore.ReplicationService.Budget
import ObjectStore.ReplicationService.Cleanup
import ObjectStore.ReplicationService.Healing
import ObjectStore.StorageNode.GrpcUtils
import ObjectStore.StorageNode.SlotLeaks
import ObjectStore.StorageNode.FsyncCadence
import ObjectStore.StorageNode.RecoveredChunks
import ObjectStore.StorageNode.Resizing
import ObjectStore.StorageMetadata.Gathering
import ObjectStore.Library.Delimited
import ObjectStore.ApiGateway.ObjectNames
import ObjectStore.StorageNode.Transfers
import ObjectStore.StorageNode.HeaderCodec
import ObjectStore.Library.Refinement
import ObjectStore.Library.KeyValue
import ObjectStore.Library.Rely
import ObjectStore.Library.Layers
import ObjectStore.Library.Protocol
import ObjectStore.System.Tidy
import ObjectStore.System.Answers
import ObjectStore.System.Uploads
import ObjectStore.System.Deletions
import ObjectStore.System.Cycles
import ObjectStore.System.Listings
import ObjectStore.System.Store
import ObjectStore.System.Convergence
import ObjectStore.System.Provenance
import ObjectStore.System.Sources
import ObjectStore.System.Fitting
import ObjectStore.System.Survival
import ObjectStore.System.OnDisk
import ObjectStore.System.Restarts
import ObjectStore.System.InFlight
import ObjectStore.System.Traffic
import ObjectStore.System.ConcurrentUploads
import ObjectStore.Deployment.Startup
import ObjectStore.Library.Failover
import ObjectStore.ReplicationService.Main
import ObjectStore.System.Outages
import ObjectStore.Library.Draining
import ObjectStore.System.Backlog
