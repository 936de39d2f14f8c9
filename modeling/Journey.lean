import Journey.Json.Printer
import Journey.Main
import Journey.Proofs.Exact
import Journey.Proofs.Penalties
import Journey.Proofs.IndexSet
import Journey.Proofs.Loop
import Journey.Proofs.Span
import Journey.Proofs.Timetable.WellFormed
import Journey.Proofs.Timetable.Assembly
import Journey.Proofs.Timetable.Chronology
import Journey.Proofs.Timetable.Edits
import Journey.Proofs.Search.Fits
import Journey.Proofs.Search.Storing
import Journey.Proofs.Search.Legality
import Journey.Proofs.Search.Run
import Journey.Proofs.Search.Traces
import Journey.Proofs.Search.Scan
import Journey.Proofs.Search.Moments
import Journey.Proofs.Search.Coverage
import Journey.Proofs.Search.Tightening
import Journey.Proofs.Search.Sweep
import Journey.Proofs.Search.Scanning
import Journey.Proofs.Search.Walking
import Journey.Proofs.Search.Settled
import Journey.Proofs.Search.Totality
import Journey.Proofs.Search.Reconstruction
import Journey.Proofs.Search.Answer
import Journey.Proofs.Search.Telling
import Journey.Proofs.Search.Bounds
import Journey.Proofs.Search.Twins
import Journey.Proofs.Search.ModeRuns
import Journey.Proofs.Search.Lockstep
import Journey.Proofs.Search.Following
import Journey.Proofs.Search.Retelling
import Journey.Proofs.Search.Beginnings
import Journey.Proofs.Search.RoundCounts
import Journey.Proofs.Search.Moves
import Journey.Proofs.Search.WaysOn
import Journey.Proofs.Search.Restarting
import Journey.Proofs.EarliestArrival
import Journey.Proofs.DirectRides
import Journey.Proofs.Feasibility
import Journey.Proofs.Sample
import Journey.Proofs.Timetable.Layout
import Journey.Proofs.LegCosts
import Journey.Proofs.TransferLimit
import Journey.Proofs.VehicleChanges
import Journey.Proofs.CandidateOrder
import Journey.Proofs.WholeTrips
import Journey.Proofs.TransferCosts
import Journey.Proofs.Growth
import Journey.Proofs.Pruning
import Journey.Proofs.DistinctStops
import Journey.Proofs.MoreRounds
import Journey.Proofs.Convergence
import Journey.Proofs.Reuse
import Journey.Proofs.Findings
import Journey.Proofs.Timetable.FirstDefect
import Journey.Proofs.Access.KeptLegs
import Journey.Proofs.Access.Signs
import Journey.Proofs.Search.RunStarts
import Journey.Proofs.InRange
import Journey.Proofs.Timetable.EarliestTrips
import Journey.Proofs.Timetable.KeptFootpaths
import Journey.Proofs.Timetable.FootpathSources
import Journey.Proofs.Search.BetweenRounds
import Journey.Proofs.Search.HeldVehicles
import Journey.Proofs.BestWalks
import Journey.Proofs.CheapestCandidates
import Journey.Proofs.BestArrivals
import Journey.Proofs.Timetable.NearStops
import Journey.Proofs.Access.Offers
import Journey.Proofs.Access.CheapestModes
import Journey.Proofs.Access.DrawnModes
import Journey.Proofs.Measuring
import Journey.Proofs.FloatingPoint
import Journey.Proofs.Rounding
import Journey.Proofs.Timetable.NearestStop
import Journey.Proofs.Access.WalkingRange
import Journey.Proofs.ModeChanges
import Journey.Proofs.ConsistentLegs
import Journey.Proofs.WholeNumbers
import Journey.Proofs.WrittenTimes
import Journey.Proofs.Pool.Uses
import Journey.Proofs.Pool.Exclusive
import Journey.Proofs.InsertionOrder
import Journey.Proofs.Search.LongestRuns
import Journey.Proofs.Search.Additions
import Journey.Proofs.Search.ScanStarts
import Journey.Proofs.Mirroring
