import DynamicCache.Base.Simulate
import DynamicCache.Tags.Occupancy
import DynamicCache.Tags.CDynaNoninterference
import DynamicCache.Tags.CDynaWays
import DynamicCache.Cache.Uses
import DynamicCache.Cache.Coherence
import DynamicCache.Cache.Ownership
import DynamicCache.Cache.Membership
import DynamicCache.Cache.Blocking
import DynamicCache.Cache.TempBlock
import DynamicCache.Cache.Adjust
import DynamicCache.Cache.QueueCalls
import DynamicCache.Cache.WriteOrder
import DynamicCache.Cache.HighVictim
import DynamicCache.Port.Delivery
import DynamicCache.Port.Functional
import DynamicCache.Bus.Noncoherent
import DynamicCache.Bus.Coherent
import DynamicCache.Bus.PortMap
import DynamicCache.Bus.Drain
import DynamicCache.Bus.Retry
import DynamicCache.Dram.MemoryPort
import DynamicCache.Dram.TurnSchedule
import DynamicCache.Dram.TurnService
import DynamicCache.Dram.AddressOrder
import DynamicCache.Dram.OpenRows
import DynamicCache.Dram.RefreshTimer
import DynamicCache.Dram.AddressMapping
import DynamicCache.Latency.Pipeline
import DynamicCache.Latency.Agreement
