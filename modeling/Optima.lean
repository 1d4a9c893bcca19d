import Optima.Assignment.Ragged
import Optima.External.Scripted
import Optima.Flow.Unchecked.LeastCost
import Optima.Graph.Unchecked
import Optima.Knapsack.Unchecked
import Optima.Proofs.Assignment.Agreement
import Optima.Proofs.Assignment.Failures
import Optima.Proofs.Assignment.Refusal
import Optima.Proofs.Assignment.Reroute.Course
import Optima.Proofs.Assignment.Rows
import Optima.Proofs.External.Consistency
import Optima.Proofs.Flow.LeastCost.Classification
import Optima.Proofs.Flow.LeastCost.NegativeCycle
import Optima.Proofs.Flow.LeastCost.Shipping
import Optima.Proofs.Flow.LeastCost.Supplies
import Optima.Proofs.Flow.Maximum.Course
import Optima.Proofs.Flow.Maximum.Cut
import Optima.Proofs.Flow.Maximum.LeastCut
import Optima.Proofs.Graph.Failures
import Optima.Proofs.Graph.Predecessor
import Optima.Proofs.Knapsack.Outcome
import Optima.Proofs.Limits
import Optima.Proofs.Limits.Firing
import Optima.Proofs.Number.Range
import Optima.Proofs.Problem.WellFormed
import Optima.Proofs.Service.Dispatch
import Optima.Proofs.Service.Failures
import Optima.Proofs.Service.Forms
import Optima.Proofs.Service.Tables
import Optima.Proofs.Solver.MixedLengths
import Optima.Proofs.Solver.Native
import Optima.Proofs.Solver.ShortestPath
import Optima.Service
