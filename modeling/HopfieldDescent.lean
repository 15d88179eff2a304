import HopfieldDescent.Config.Json
import HopfieldDescent.Config.Session
import HopfieldDescent.Decimal.Shortest
import HopfieldDescent.Objective.Landscape
import HopfieldDescent.Objective.Quadratic
import HopfieldDescent.Observer.Log
import HopfieldDescent.Observer.Stall
import HopfieldDescent.Problem.Setup
import HopfieldDescent.Random.ChaCha
import HopfieldDescent.Run
import HopfieldDescent.Proofs.Outcome
import HopfieldDescent.Proofs.Vec.Pairing
import HopfieldDescent.Proofs.Vec.Spread
import HopfieldDescent.Proofs.Squashing.Proxy
import HopfieldDescent.Proofs.Scalar.Exact
import HopfieldDescent.Proofs.Scalar.Double
import HopfieldDescent.Proofs.Problem.WellFormed
import HopfieldDescent.Proofs.Config.Accepted
import HopfieldDescent.Proofs.Dual.Fit
import HopfieldDescent.Proofs.Dual.Projection
import HopfieldDescent.Proofs.Dual.InnerDescends
import HopfieldDescent.Proofs.Dual.FirstOrder
import HopfieldDescent.Proofs.Problem.StartBox
import HopfieldDescent.Proofs.Problem.ShrunkBox
import HopfieldDescent.Proofs.Problem.SampledSmoothness
import HopfieldDescent.Proofs.Run.Descent
import HopfieldDescent.Proofs.Run.Backtracking
import HopfieldDescent.Proofs.Run.Truncation
import HopfieldDescent.Proofs.Run.Protocol
import HopfieldDescent.Proofs.Direction.Slope
import HopfieldDescent.Proofs.Direction.Bend
import HopfieldDescent.Proofs.Direction.Angle
import HopfieldDescent.Proofs.Run.Absorption
import HopfieldDescent.Proofs.Run.Total
import HopfieldDescent.Proofs.Dual.Settled
import HopfieldDescent.Proofs.Dual.Climb
import HopfieldDescent.Proofs.Lagrangian.Increment
import HopfieldDescent.Proofs.Lagrangian.SlackMinimum
import HopfieldDescent.Proofs.Run.Reuse
import HopfieldDescent.Proofs.Run.Provenance
import HopfieldDescent.Proofs.Run.HiddenState
import HopfieldDescent.Proofs.Run.Seed
import HopfieldDescent.Proofs.Json.Record
import HopfieldDescent.Proofs.Config.Choice
import HopfieldDescent.Proofs.Config.Fields
import HopfieldDescent.Proofs.Config.Valid
import HopfieldDescent.Proofs.Config.Document
import HopfieldDescent.Proofs.DenseMatrix.PowerIteration
import HopfieldDescent.Proofs.Squashing.Unsaturated
import HopfieldDescent.Proofs.BoxMap.RoundTrip
import HopfieldDescent.Proofs.BoxMap.Slope
import HopfieldDescent.Proofs.DenseMatrix.Symmetric
import HopfieldDescent.Proofs.Objective.Quadratic
import HopfieldDescent.Proofs.Observer.Stall
