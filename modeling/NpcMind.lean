import NpcMind.Action
import NpcMind.Agent.Basic
import NpcMind.Agent.Learning
import NpcMind.Agent.Snapshot
import NpcMind.Agent.Tick
import NpcMind.Archetype
import NpcMind.BoundedText
import NpcMind.Budget
import NpcMind.Config.Basic
import NpcMind.Config.Codec
import NpcMind.Config.Toml
import NpcMind.Console.Argument
import NpcMind.Console.Figures
import NpcMind.Console.Scene
import NpcMind.Console.View
import NpcMind.Consolidation.Accumulator
import NpcMind.Consolidation.Consolidator
import NpcMind.Consolidation.FisherTable
import NpcMind.Consolidation.Task
import NpcMind.Decimal.Scaled
import NpcMind.Decimal.Shortest
import NpcMind.Decision
import NpcMind.Document.Basic
import NpcMind.Document.Codec
import NpcMind.Document.Json.Printer
import NpcMind.Document.Json.Reader
import NpcMind.Document.Patch
import NpcMind.Document.Toml.Reader
import NpcMind.Document.Toml.Table
import NpcMind.Emotion
import NpcMind.Error
import NpcMind.Guard
import NpcMind.Kernel.Elementwise
import NpcMind.Kernel.Product
import NpcMind.Kernel.Reduction
import NpcMind.Memory.Board
import NpcMind.Memory.Links
import NpcMind.Memory.Ranking
import NpcMind.Memory.Store
import NpcMind.Mind.Affect
import NpcMind.Mind.Attention
import NpcMind.Mind.Choice
import NpcMind.Mind.Percept
import NpcMind.Mind.Reflex
import NpcMind.Mind.Speech
import NpcMind.Opinion
import NpcMind.Profile
import NpcMind.Proofs.Acceptance
import NpcMind.Proofs.Acquisition
import NpcMind.Proofs.Admission
import NpcMind.Proofs.Alike
import NpcMind.Proofs.Allotments
import NpcMind.Proofs.Attending
import NpcMind.Proofs.Batches
import NpcMind.Proofs.Cadence
import NpcMind.Proofs.Chronicles
import NpcMind.Proofs.Codecs
import NpcMind.Proofs.Components
import NpcMind.Proofs.Consolidation
import NpcMind.Proofs.Derivatives
import NpcMind.Proofs.Feelings
import NpcMind.Proofs.Filling
import NpcMind.Proofs.Finiteness
import NpcMind.Proofs.FlatOrder
import NpcMind.Proofs.Fractions
import NpcMind.Proofs.Friendliness
import NpcMind.Proofs.Gradients
import NpcMind.Proofs.Halting
import NpcMind.Proofs.Handles
import NpcMind.Proofs.Histories
import NpcMind.Proofs.Holding
import NpcMind.Proofs.Impressions
import NpcMind.Proofs.Independence
import NpcMind.Proofs.Invariants
import NpcMind.Proofs.Json
import NpcMind.Proofs.LambdaRange
import NpcMind.Proofs.LaneSums
import NpcMind.Proofs.LastLayer
import NpcMind.Proofs.Layout
import NpcMind.Proofs.Locality
import NpcMind.Proofs.Matrices
import NpcMind.Proofs.Memories
import NpcMind.Proofs.Numerals
import NpcMind.Proofs.Occupancy
import NpcMind.Proofs.Order
import NpcMind.Proofs.Outcome
import NpcMind.Proofs.OutputModes
import NpcMind.Proofs.Overflow
import NpcMind.Proofs.Ownership
import NpcMind.Proofs.Padding
import NpcMind.Proofs.Parameters
import NpcMind.Proofs.Penalties
import NpcMind.Proofs.Portions
import NpcMind.Proofs.Products
import NpcMind.Proofs.Pruning
import NpcMind.Proofs.Rankings
import NpcMind.Proofs.Readiness
import NpcMind.Proofs.Recollection
import NpcMind.Proofs.Reflexes
import NpcMind.Proofs.Replay
import NpcMind.Proofs.Requests
import NpcMind.Proofs.Restoring
import NpcMind.Proofs.Resume
import NpcMind.Proofs.Rewards
import NpcMind.Proofs.Rollback
import NpcMind.Proofs.Rotation
import NpcMind.Proofs.RoundTrip
import NpcMind.Proofs.Rounding
import NpcMind.Proofs.Sampling
import NpcMind.Proofs.Sensing
import NpcMind.Proofs.Sharing
import NpcMind.Proofs.Signs
import NpcMind.Proofs.Singles
import NpcMind.Proofs.SlotErrors
import NpcMind.Proofs.SlotPool
import NpcMind.Proofs.Snapshots
import NpcMind.Proofs.Soundness
import NpcMind.Proofs.SparseEntries
import NpcMind.Proofs.Sparsification
import NpcMind.Proofs.Spawning
import NpcMind.Proofs.StatePools
import NpcMind.Proofs.Steadiness
import NpcMind.Proofs.Storable
import NpcMind.Proofs.Streams
import NpcMind.Proofs.TaskIds
import NpcMind.Proofs.TaskList
import NpcMind.Proofs.Truncation
import NpcMind.Proofs.Twins
import NpcMind.Proofs.Upkeep
import NpcMind.Proofs.Validity
import NpcMind.Proofs.Weighting
import NpcMind.Proofs.WriteOrder
import NpcMind.Proofs.Writes
import NpcMind.Recurrent.Cell
import NpcMind.Recurrent.Pools
import NpcMind.Recurrent.Stack
import NpcMind.Recurrent.State
import NpcMind.Region
import NpcMind.Sampler
import NpcMind.Scene.Encounter
import NpcMind.Scene.Senses
import NpcMind.Single
import NpcMind.SlotPool
import NpcMind.Society
import NpcMind.Tensor
import NpcMind.Uuid
