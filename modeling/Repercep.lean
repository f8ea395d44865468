import Repercep.Foundation.Machine
import Repercep.Router.ErrorAtomicity
import Repercep.Router.Lifecycle
import Repercep.Router.FrameOrder
import Repercep.Scheduling.Reference
import Repercep.Scheduling.Refinement
import Repercep.Metering.Meter
import Repercep.Metering.ChunkInvariance
import Repercep.Metering.Suppression
import Repercep.Metering.Proxy
import Repercep.Metering.BilledOnce
import Repercep.Billing.Gateway
import Repercep.Billing.Overshoot
import Repercep.Router.Rules
import Repercep.Driver.Model
import Repercep.Driver.Termination
import Repercep.Driver.Stalling
import Repercep.Router.EndOfStream
import Repercep.Driver.StreamPrefix
import Repercep.Scheduling.Bookkeeping
import Repercep.Scheduling.Agreement
import Repercep.Scheduling.Interleaved
import Repercep.Scheduling.EndMarker
import Repercep.Scheduling.Wakeups
import Repercep.Serving.WorldSession
import Repercep.Serving.SessionAccounting
import Repercep.Serving.SessionLeaks
import Repercep.Models.DreamZero
import Repercep.Models.Isolation
import Repercep.Serving.Application
import Repercep.Serving.Steps
import Repercep.Serving.Ownership
import Repercep.Serving.Phases
import Repercep.Serving.Stages
import Repercep.Serving.Admission
import Repercep.Serving.Atomicity
import Repercep.Serving.Notices
import Repercep.Serving.Interruption
import Repercep.Router.Drained
import Repercep.Foundation.AsyncQueue
import Repercep.Router.Fallback
import Repercep.Serving.Teardown
import Repercep.Metering.CallSinks
import Repercep.Models.SdpaPatch
import Repercep.Foundation.KeyedMap
import Repercep.Cache.Model
import Repercep.Cache.Agreement
import Repercep.Cache.Invariants
import Repercep.Tenancy.KeyStore
import Repercep.Tenancy.BearerKeys
import Repercep.Tenancy.Resolution
import Repercep.Ledger.Clock
import Repercep.Ledger.Model
import Repercep.Foundation.Grouping
import Repercep.Ledger.Views
import Repercep.Metering.Reported
import Repercep.Metering.Forwarding
import Repercep.Ledger.Exhaustion
import Repercep.Router.Parity
import Repercep.Router.FallbackRules
import Repercep.Driver.FallbackTermination
import Repercep.Router.Reaping
import Repercep.Foundation.Paired
import Repercep.VJepa.Engine
import Repercep.VJepa.CachedStepping
import Repercep.Foundation.CausalStack
import Repercep.VJepa.Adapter
import Repercep.Serving.FallbackScheduler
import Repercep.Serving.Cancellation
import Repercep.VJepa.CacheParity
import Repercep.Denoise.Loop
import Repercep.Denoise.Trace
import Repercep.Denoise.Floor
import Repercep.Foundation.Json
import Repercep.Foundation.Decimal
import Repercep.Foundation.JsonText
import Repercep.Foundation.JsonReading
import Repercep.Metering.PlanRequest
import Repercep.Metering.RequestBody
import Repercep.Foundation.PythonJson
import Repercep.Scheduling.Delivery
import Repercep.Scheduling.Payload
import Repercep.Foundation.Batch
import Repercep.Cache.Overflow
import Repercep.Denoise.Guidance
import Repercep.VJepa.Energies
import Repercep.VJepa.CacheTokens
import Repercep.Foundation.Buffer
import Repercep.Foundation.OnlineSoftmax
import Repercep.Kernels.Amx
import Repercep.Kernels.SoftmaxPass
import Repercep.Kernels.FlashBf16
import Repercep.Kernels.Packing
import Repercep.Kernels.KeyLoop
import Repercep.Kernels.Attention
import Repercep.Kernels.AttentionBf16
import Repercep.Kernels.Fp8Gemm
import Repercep.Kernels.ExpPs
import Repercep.Kernels.FlashInt8
import Repercep.Kernels.Int8Products
import Repercep.Kernels.Int8Rows
import Repercep.Kernels.CausalTiles
import Repercep.Kernels.ValueLeak
import Repercep.Kernels.Fp8Flash
import Repercep.Kernels.Fp8FlashExact
import Repercep.Attention.Ops
import Repercep.Attention.Selection
import Repercep.Foundation.Tensor
import Repercep.Foundation.Tolerance
import Repercep.Kernels.ExpAccuracy
import Repercep.Models.ActionCodec
import Repercep.Models.Latents
import Repercep.Models.VlaTokenize
import Repercep.Runtime.Quantize
import Repercep.Foundation.Files
import Repercep.Foundation.JsonIndented
import Repercep.Foundation.Preorder
import Repercep.Kernels.ConfigCache
import Repercep.Kernels.ConfigRaces
import Repercep.Runtime.ModuleGraph
import Repercep.Runtime.Walkers
import Repercep.Foundation.Base64
import Repercep.Foundation.JsonCompact
import Repercep.Foundation.DoubleText
import Repercep.Driver.FrameLines
import Repercep.Serving.Projection
import Repercep.Serving.Responses
import Repercep.Models.Cosmos
import Repercep.Models.CosmosGuardrail
import Repercep.Models.CompileGate
import Repercep.Models.LingBotVA
import Repercep.Models.LingBotSessions
import Repercep.Models.LingBotCache
import Repercep.Tenants.Gateway
import Repercep.Tenants.Attribution
import Repercep.Tenants.Separation
import Repercep.Foundation.SoftmaxError
import Repercep.Foundation.FloatFormat
import Repercep.Kernels.Int8Accuracy
import Repercep.Kernels.ScaledMm
import Repercep.Models.DreamZeroEngine
import Repercep.Models.DreamZeroTape
