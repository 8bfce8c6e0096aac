import P4OfAgent.Lib.Runs
import P4OfAgent.Lib.Store
import P4OfAgent.Lib.Bytes
import P4OfAgent.Lib.Bits
import P4OfAgent.Lib.Headers
import P4OfAgent.Lib.Slots
import P4OfAgent.Lib.Priority
import P4OfAgent.OpenFlow
import P4OfAgent.Parse
import P4OfAgent.State
import P4OfAgent.FlowCallbacks
import P4OfAgent.FlowRuns
import P4OfAgent.FlowIdentity
import P4OfAgent.PipelineSync
import P4OfAgent.FlowAtomicity
import P4OfAgent.StaleIds
import P4OfAgent.Groups
import P4OfAgent.GroupHandles
import P4OfAgent.GroupReports
import P4OfAgent.CpuPacket
import P4OfAgent.Fabric
import P4OfAgent.Wire
import P4OfAgent.PacketOut
import P4OfAgent.PacketOutFrames
import P4OfAgent.PacketOutActions
import P4OfAgent.PacketIn
import P4OfAgent.PacketInFrames
import P4OfAgent.BufferBounds
import P4OfAgent.StaticBuffers
import P4OfAgent.ParseActions
import P4OfAgent.ParseInstructions
import P4OfAgent.SignatureBits
import P4OfAgent.OfpatTables
import P4OfAgent.OfpatGates
import P4OfAgent.Rewrites
import P4OfAgent.HeaderChain
import P4OfAgent.ActionSetOrder
import P4OfAgent.TableInfluence
import P4OfAgent.TtlDecrement
import P4OfAgent.ActionArguments
import P4OfAgent.SetFields
import P4OfAgent.ActionOrder
import P4OfAgent.FlowPriority
import P4OfAgent.PipelineIndex
import P4OfAgent.FlowStats
import P4OfAgent.FeaturesReply
import P4OfAgent.Switch
import P4OfAgent.FlowTables
import P4OfAgent.ActionLists
import P4OfAgent.FlowExecution
import P4OfAgent.FlowWindows
import P4OfAgent.Hops
import P4OfAgent.FlowLedger
import P4OfAgent.FlowIsolation
import P4OfAgent.GroupTables
import P4OfAgent.TableStats
import P4OfAgent.GroupExecution
import P4OfAgent.GroupWindows
