import FleetBoot.Config.Load
import FleetBoot.Http.Server
import FleetBoot.Objects.Cloud
import FleetBoot.Plan.Race
import FleetBoot.Store.Dump
import FleetBoot.Proofs.Plan.Eval
import FleetBoot.Proofs.Plan.Safe
import FleetBoot.Proofs.Plan.World
import FleetBoot.Proofs.Race.History
import FleetBoot.Proofs.Store.Rows
import FleetBoot.Proofs.Race.Finish
import FleetBoot.Proofs.Service.Answer
import FleetBoot.Proofs.Service.Choice
import FleetBoot.Proofs.Service.Exact
import FleetBoot.Proofs.Service.Idempotence
import FleetBoot.Proofs.Race.Calls
import FleetBoot.Proofs.Service.FirstBoot
import FleetBoot.Proofs.Race.Rows
import FleetBoot.Proofs.Service.Candidate
import FleetBoot.Proofs.Service.Contest
import FleetBoot.Proofs.Plan.Change
import FleetBoot.Proofs.Plan.Rows
import FleetBoot.Proofs.Service.Operation
import FleetBoot.Proofs.Service.Frame
import FleetBoot.Proofs.Plan.Deadline
import FleetBoot.Proofs.Service.Timing
import FleetBoot.Proofs.Identity
import FleetBoot.Proofs.Store.Pattern
import FleetBoot.Proofs.Service.Token
import FleetBoot.Proofs.Race.Kept
import FleetBoot.Proofs.Text.Numeral
import FleetBoot.Proofs.Address.Text
import FleetBoot.Proofs.Address.Cidr
import FleetBoot.Proofs.Store.Network
import FleetBoot.Proofs.Store.Registration
import FleetBoot.Proofs.Service.Network
import FleetBoot.Proofs.Canonical
import FleetBoot.Proofs.Service.Names
import FleetBoot.Proofs.Plan.Faults
import FleetBoot.Proofs.Service.Assigned
import FleetBoot.Proofs.Store.Grounded
import FleetBoot.Proofs.Plan.Grounded
import FleetBoot.Proofs.Service.Grounded
import FleetBoot.Proofs.Service.Events
import FleetBoot.Proofs.Text.Order
import FleetBoot.Proofs.Store.Listing
import FleetBoot.Proofs.Store.History
import FleetBoot.Proofs.Service.Creation
import FleetBoot.Proofs.Service.Commute
import FleetBoot.Proofs.Http.Discretion
import FleetBoot.Proofs.Address.Prefix
import FleetBoot.Proofs.Store.HostRoute
import FleetBoot.Proofs.Service.Listed
import FleetBoot.Proofs.Json.Object
import FleetBoot.Proofs.Json.Scalar
import FleetBoot.Proofs.Json.Text
import FleetBoot.Proofs.Store.Parameters
import FleetBoot.Proofs.Text.Lowercase
import FleetBoot.Proofs.Identity.Separators
import FleetBoot.Proofs.Identity.Repeated
import FleetBoot.Proofs.Objects.Twin
import FleetBoot.Proofs.Address.Spelling
import FleetBoot.Proofs.Store.Blocks
import FleetBoot.Proofs.Template.Placeholder
import FleetBoot.Proofs.Template.Parse
import FleetBoot.Proofs.Template.Render
import FleetBoot.Proofs.Objects.Locate
import FleetBoot.Proofs.Service.Rejection
import FleetBoot.Proofs.Plan.Elapse
import FleetBoot.Proofs.Plan.Waits
import FleetBoot.Proofs.Plan.WriteBack
import FleetBoot.Proofs.Objects.Lifetime
import FleetBoot.Proofs.Json.RoundTrip
