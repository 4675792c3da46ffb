import SlimeBoard.Lib.Radix
import SlimeBoard.Lib.Search
import SlimeBoard.Board.Geometry
import SlimeBoard.Board.Traverse
import SlimeBoard.Board.Moves
import SlimeBoard.Board.Engine
import SlimeBoard.Board.Layout
import SlimeBoard.Board.Mask
import SlimeBoard.Board.Paths
import SlimeBoard.Board.Run
import SlimeBoard.Board.Safety
import SlimeBoard.Board.Routes
import SlimeBoard.Board.TurnedRun
import SlimeBoard.Lib.Collective
import SlimeBoard.Lib.Spans
import SlimeBoard.Parallel.Batch
import SlimeBoard.Parallel.Pairing
import SlimeBoard.Rollout.Contexts
import SlimeBoard.Parallel.Formats
import SlimeBoard.Parallel.LogProbs
import SlimeBoard.Train.TerminalReward
import SlimeBoard.Train.LossScale
import SlimeBoard.Train.Whiten
import SlimeBoard.Train.EstimatorSlices
import SlimeBoard.Async.OldActor
import SlimeBoard.Rollout.DataSource
import SlimeBoard.Async.Resume
import SlimeBoard.Rollout.TrainData
import SlimeBoard.Rollout.Collect
import SlimeBoard.Parallel.WeightUpdate
import SlimeBoard.Rollout.Generate
import SlimeBoard.Parallel.ReplayLayouts
import SlimeBoard.Rollout.Epochs
import SlimeBoard.Parallel.ConvertToHf
import SlimeBoard.Rollout.GroupNorm
import SlimeBoard.Parallel.HfAttention
import SlimeBoard.Parallel.TensorGather
import SlimeBoard.Parallel.TensorUpdate
import SlimeBoard.Rollout.SamplingBatch
import SlimeBoard.Train.MicroBatches
import SlimeBoard.Rollout.RolloutBuffer
import SlimeBoard.Rollout.PassRate
import SlimeBoard.Rollout.ServerGroups
import SlimeBoard.Parallel.GatedQkv
import SlimeBoard.Rollout.BuildMessages
import SlimeBoard.Rollout.LossMask
import SlimeBoard.Async.HealthMonitor
import SlimeBoard.Rollout.TraceSpans
import SlimeBoard.Board.RailTrie
import SlimeBoard.Parallel.PackInt32
import SlimeBoard.Rollout.PortAllocation
import SlimeBoard.Rollout.RankBatches
import SlimeBoard.Parallel.ParamInfos
import SlimeBoard.Rollout.Ending
import SlimeBoard.Parallel.ParamBuckets
import SlimeBoard.Parallel.PipelineRun
import SlimeBoard.Rollout.RadixMap
import SlimeBoard.Rollout.KvRows
