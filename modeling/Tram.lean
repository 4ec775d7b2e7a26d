import Tram.Agent.Replay
import Tram.Agent.Results
import Tram.Agent.Rotation
import Tram.ClickHouse.Delivery
import Tram.Connectors.BridgeQueue
import Tram.Controller.Completion
import Tram.Controller.Execution
import Tram.Controller.Intention
import Tram.Controller.Queue
import Tram.Controller.Rollups
import Tram.Executor.AckOrder
import Tram.Executor.Conservation
import Tram.Executor.FailedFlush
import Tram.Executor.FlushBuffer
import Tram.Executor.GlobalChain
import Tram.Executor.RateLimit
import Tram.Executor.Replayable
import Tram.Executor.RetryState
import Tram.Executor.ThreadedUnits
import Tram.Executor.Unparseable
import Tram.FileSink.Confinement
import Tram.FileSink.CsvRecords
import Tram.FileSink.Survival
import Tram.Kafka.CommitSafety
import Tram.Persistence.CheckpointRows
import Tram.Persistence.RevisionChain
import Tram.Placement.Bookkeeping
import Tram.Placement.Distinct
import Tram.Placement.Race
import Tram.Placement.SlotWrites
import Tram.Placement.Starvation
import Tram.Transforms.CounterTurns
import Tram.Transforms.Sort
import Tram.Transforms.WindowGroups
import Tram.Transforms.WindowReference
