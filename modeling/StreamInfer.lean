import StreamInfer.Batch.SplitMerge
import StreamInfer.Colocated.Conservation
import StreamInfer.Cuda.Coverage
import StreamInfer.Cuda.Fp8Experts
import StreamInfer.Cuda.PreprocessFused
import StreamInfer.Engine.ExpertSegments
import StreamInfer.Engine.PrefillFirst
import StreamInfer.Engine.ProfileRouter
import StreamInfer.Engine.Routes
import StreamInfer.Frontend.Completion
import StreamInfer.General.Reach
import StreamInfer.Kv.Admission
import StreamInfer.Kv.Failures
import StreamInfer.Kv.PackingPaths
import StreamInfer.Kv.Refinement
import StreamInfer.Kv.WaitingLoop
import StreamInfer.Nixl.Exhaustion
import StreamInfer.Nixl.Polling
import StreamInfer.Nixl.SendOwnership
import StreamInfer.Overlap.ExpertGraphs
import StreamInfer.Overlap.Reuse
import StreamInfer.Placement.Launch
import StreamInfer.Placement.Pipeline
import StreamInfer.Pool.AdvancedLayerScheduler
import StreamInfer.Pool.Aggregation
import StreamInfer.Pool.Defragging
import StreamInfer.Pool.FailedGets
import StreamInfer.Pool.LegacyLayerScheduler
import StreamInfer.Pool.MuBookkeeping
import StreamInfer.Pool.MuServing
import StreamInfer.Pool.Serving
import StreamInfer.Staging.Device
import StreamInfer.Transport.Pairing
import StreamInfer.Transport.PendingSends
import StreamInfer.Ucxq.Adapters
import StreamInfer.Ucxq.BoundedFifo
import StreamInfer.Ucxq.FanIn
