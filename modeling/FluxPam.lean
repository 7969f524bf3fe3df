import FluxPam.Interaction.Prog
import FluxPam.Interaction.Steps
import FluxPam.Interaction.System
import FluxPam.Interaction.Monitor
import FluxPam.Interaction.Play
import FluxPam.Interaction.Safe
import FluxPam.Interaction.Budget
import FluxPam.Interaction.Expand
import FluxPam.Interaction.Drain
import FluxPam.Interaction.Project
import FluxPam.Interaction.Given
import FluxPam.Interaction.Strengthen
import FluxPam.Rewriting.Template
import FluxPam.Text
import FluxPam.Names
import FluxPam.Forest
import FluxPam.Json
import FluxPam.Slice
import FluxPam.Ops
import FluxPam.Helper
import FluxPam.Scripts
import FluxPam.Account
import FluxPam.Classify
import FluxPam.Grounds
import FluxPam.Session
import FluxPam.Calls
import FluxPam.Node
import FluxPam.Server
import FluxPam.Watch
import FluxPam.Conform
import FluxPam.View
import FluxPam.Protocol
import FluxPam.Discipline
import FluxPam.Progress
import FluxPam.Admission
import FluxPam.Lifecycle
import FluxPam.Healing
import FluxPam.Containment
import FluxPam.Cleanup
import FluxPam.Quiescence
import FluxPam.Attach
import FluxPam.Transaction
import FluxPam.Update
import FluxPam.Managed
import FluxPam.Footprint
import FluxPam.Paths
import FluxPam.Isolation
import FluxPam.Deeds
import FluxPam.Escalation
import FluxPam.Backoff
import FluxPam.Units
import FluxPam.Sections
import FluxPam.Teardown
import FluxPam.Owner
import FluxPam.Readings
import FluxPam.Devices
import FluxPam.Constraints
import FluxPam.Locking
import FluxPam.FailClosed
import FluxPam.Availability
import FluxPam.Custody
import FluxPam.Orphans
import FluxPam.Install
import FluxPam.Deadline
