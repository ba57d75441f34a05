import FlexStore.Retry.Do
import FlexStore.Placement.Ranking
import FlexStore.Metadata.Closing
import FlexStore.Metadata.Durability
import FlexStore.Metadata.Occupancy
import FlexStore.Metadata.Overwrite
import FlexStore.Metadata.PartLocks
import FlexStore.Metadata.Versions
import FlexStore.Metadata.Interleaving
import FlexStore.Metadata.Provenance
import FlexStore.Metadata.Immutability
import FlexStore.Metadata.Requeue
import FlexStore.Metadata.Reapers
import FlexStore.Metadata.Counter
import FlexStore.Metadata.Listing
import FlexStore.Metadata.Migrations
import FlexStore.Storage.Crash
import FlexStore.Storage.Usage
import FlexStore.Storage.Reading
import FlexStore.Storage.Inventory
import FlexStore.Coordinator.Corruption
import FlexStore.Coordinator.CacheView
import FlexStore.Cache.Keys
import FlexStore.Health.Monitor
import FlexStore.Coordinator.Requests
import FlexStore.Coordinator.Workers
import FlexStore.Coordinator.Destinations
import FlexStore.Coordinator.Inventory
import FlexStore.Gateway.FailedWrites
import FlexStore.Gateway.Limits
import FlexStore.Gateway.RoundTrip
import FlexStore.Gateway.Reports
