import JourneyPlanner.Decimal.Fixed
import JourneyPlanner.Proofs.Checked.Answer
import JourneyPlanner.Proofs.Exact.Answer
import JourneyPlanner.Proofs.Journey.Accepted
import JourneyPlanner.Proofs.Journey.Distinct
import JourneyPlanner.Proofs.Layer.Activation
import JourneyPlanner.Proofs.Layer.Named
import JourneyPlanner.Proofs.Network.Additions
import JourneyPlanner.Proofs.Request.Constraints
import JourneyPlanner.Proofs.Request.Cost
import JourneyPlanner.Proofs.Request.Destination
import JourneyPlanner.Proofs.Request.Egress
import JourneyPlanner.Proofs.Request.Journeys
import JourneyPlanner.Proofs.Request.OnFoot
import JourneyPlanner.Proofs.Request.PartialJourneys
import JourneyPlanner.Proofs.Request.Refused
import JourneyPlanner.Proofs.Request.Reordered
import JourneyPlanner.Proofs.Request.Rides
import JourneyPlanner.Proofs.Request.Shortest
import JourneyPlanner.Proofs.Request.Transfers
import JourneyPlanner.Proofs.Request.Walks
import JourneyPlanner.Proofs.Search.BestArrival
import JourneyPlanner.Proofs.Search.Candidates
import JourneyPlanner.Proofs.Search.Departures
import JourneyPlanner.Proofs.Search.Overtaking
import JourneyPlanner.Proofs.Solver.Session
import JourneyPlanner.Proofs.Time.Written
import JourneyPlanner.Proofs.Timetable.Earliest
import JourneyPlanner.Proofs.Timetable.Recorded
import JourneyPlanner.Proofs.Timetable.Refused
import JourneyPlanner.Solver.Basic
