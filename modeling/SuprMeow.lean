import SuprMeow.Gpu.Bf16
import SuprMeow.Library.RankInsertion
import SuprMeow.Library.Ranking
import SuprMeow.Library.Runs
import SuprMeow.Gpu.FlatSort
import SuprMeow.Gpu.Histogram
import SuprMeow.Gpu.HistogramSelect
import SuprMeow.Gpu.TopkSelect
import SuprMeow.Gpu.TopkExact
import SuprMeow.Stratum.Client
import SuprMeow.Stratum.Handshake
import SuprMeow.Stratum.Messages
import SuprMeow.Stratum.Lines
import SuprMeow.Stratum.SubmitIds
import SuprMeow.Stratum.Tally
import SuprMeow.Poi.Coordinator
import SuprMeow.Poi.Miner
import SuprMeow.Poi.Sequences
import SuprMeow.Poi.Windows
import SuprMeow.Poi.Labels
import SuprMeow.Poi.Pool
import SuprMeow.Poi.CurrentJob
import SuprMeow.Poi.Egress
import SuprMeow.Poi.Canary
import SuprMeow.Poi.HandOff
import SuprMeow.Poi.Barrier
import SuprMeow.Library.Fallible
import SuprMeow.Engine.Llama
import SuprMeow.Engine.Lane
import SuprMeow.Engine.Prompts
import SuprMeow.Engine.Stepwise
import SuprMeow.Engine.Double
import SuprMeow.Library.Sieve
import SuprMeow.Precheck.Gates
import SuprMeow.Precheck.Evaluate
import SuprMeow.Library.InsertionDict
import SuprMeow.Poi.CleanJobs
import SuprMeow.Vllm.Bridge
import SuprMeow.Vllm.Shares
import SuprMeow.Gpu.Sort32
import SuprMeow.Gpu.Wire
import SuprMeow.Gpu.HistogramStats
import SuprMeow.Gpu.Scratch
import SuprMeow.Poi.Injection
import SuprMeow.Library.MaskedFold
import SuprMeow.Sampler.Reference
import SuprMeow.Sampler.Staged
import SuprMeow.Sampler.TopK
import SuprMeow.Sampler.Tail
import SuprMeow.Sampler.Refinement
import SuprMeow.Sampler.Prefix
import SuprMeow.Poi.VdfTriple
import SuprMeow.Library.Pairs
import SuprMeow.Poi.Hex
import SuprMeow.Poi.Admission
import SuprMeow.Vllm.Messages
import SuprMeow.Library.Segments
import SuprMeow.Stratum.Framing
import SuprMeow.Engine.Prefill
import SuprMeow.Engine.HostCopies
import SuprMeow.Engine.Capacity
import SuprMeow.Library.Positional
import SuprMeow.Library.Compact
import SuprMeow.Poi.ParamSwitch
import SuprMeow.Poi.Payload
import SuprMeow.Poi.HeaderHash
import SuprMeow.Poi.AdjustedBits
import SuprMeow.Poi.ClaimedHash
import SuprMeow.Poi.JobTable
import SuprMeow.Poi.NoncePorts
import SuprMeow.Library.LowerBound
import SuprMeow.Sampler.CompactCdf
import SuprMeow.Sampler.CompactDraw
import SuprMeow.Poi.Partition
import SuprMeow.Poi.CanaryPrompt
import SuprMeow.Library.Decimal
import SuprMeow.Stratum.PoolUrl
import SuprMeow.Host.DeviceSpec
import SuprMeow.Host.DeviceTuning
import SuprMeow.Precheck.CreditTier
import SuprMeow.Library.Checked
import SuprMeow.Precheck.Scaffold
import SuprMeow.Precheck.ScaffoldBounds
import SuprMeow.Precheck.Bounds
import SuprMeow.Poi.SaltedPrompts
import SuprMeow.Library.WrappingLoop
import SuprMeow.Library.PartialSort
import SuprMeow.Poi.CanaryRef
import SuprMeow.Library.ByteMemory
import SuprMeow.Library.RowLaunch
import SuprMeow.Library.Strided
import SuprMeow.Fuse.Graph
import SuprMeow.Fuse.Matchers
import SuprMeow.Fuse.Kernels
import SuprMeow.Fuse.Liveness
import SuprMeow.Fuse.Values
import SuprMeow.Fuse.Windows
import SuprMeow.Fuse.Preservation
import SuprMeow.Library.BucketPower
import SuprMeow.Vdf.Forms
import SuprMeow.Vdf.PartialGcd
import SuprMeow.Vdf.Compress
import SuprMeow.Vdf.Bqfc
import SuprMeow.Vdf.HashPrime
import SuprMeow.Vdf.Prover
import SuprMeow.Vdf.Verifier
import SuprMeow.Vdf.Interface
import SuprMeow.Library.Words
import SuprMeow.Library.PiecewiseLinear
import SuprMeow.Precheck.Price
import SuprMeow.Precheck.TotalPrice
import SuprMeow.Precheck.FlatRegion
import SuprMeow.Library.Intervals
import SuprMeow.Precheck.Sunset
import SuprMeow.Precheck.Compose
