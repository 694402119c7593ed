import Act.Basic.Clock
import Act.Basic.Run
import Act.Device.Geometry
import Act.Device.Buffer
import Act.Device.Descriptor
import Act.Device.Random
import Act.Device.Names
import Act.Pipeline.Model
import Act.Pipeline.Counter
import Act.Pipeline.FanOut
import Act.Pipeline.Histogram
import Act.Pipeline.Latency
import Act.Pipeline.Offsets
import Act.Pipeline.Order
import Act.Pipeline.Shutdown
import Act.System.Io
import Act.System.Join
import Act.Timing.Pacing
import Act.Timing.LargeBlocks
