import Questbook.Encode
import Questbook.Engine.Command
import Questbook.Settings
import Questbook.Progress.Writer
import Questbook.Proofs.Line.Grammar
import Questbook.Proofs.Progress.Keyed
import Questbook.Proofs.Engine.Storage
import Questbook.Proofs.Engine.Completion
import Questbook.Proofs.Progress.Delivery
import Questbook.Proofs.Package.Grounded
import Questbook.Proofs.Package.Search
import Questbook.Proofs.Package.References
import Questbook.Proofs.Package.Options
import Questbook.Proofs.Package.Compile
import Questbook.Proofs.Package.Partition
import Questbook.Proofs.Package.Vocabulary
import Questbook.Proofs.Engine.Refusal
import Questbook.Proofs.Engine.Restart
import Questbook.Proofs.Engine.Termination
import Questbook.Proofs.Engine.Waiting
import Questbook.Proofs.Engine.Teardown
import Questbook.Proofs.Engine.Schedule
import Questbook.Proofs.Engine.Private
import Questbook.Proofs.Engine.Interference
import Questbook.Proofs.Engine.Turns
import Questbook.Proofs.Engine.Deferral
import Questbook.Proofs.Engine.Rechecks
import Questbook.Proofs.Engine.Landing
import Questbook.Proofs.Engine.Flat
import Questbook.Proofs.Engine.Pruning
import Questbook.Proofs.Progress.Agreement
import Questbook.Proofs.Package.Construction
import Questbook.Proofs.Engine.Provenance
import Questbook.Proofs.Engine.Soundness
import Questbook.Proofs.Package.Written
import Questbook.Proofs.Engine.Logic
import Questbook.Proofs.Engine.Punctual
import Questbook.Proofs.Engine.Delays
import Questbook.Proofs.Engine.Untouched
import Questbook.Proofs.Engine.Endings
import Questbook.Proofs.Engine.Hunts
import Questbook.Proofs.Engine.Kills
import Questbook.Proofs.Template
import Questbook.Proofs.Line.Arguments
import Questbook.Proofs.Engine.Reload
import Questbook.Proofs.Engine.Handlings
import Questbook.Proofs.Package.Arrangement
import Questbook.Proofs.Package.Blame
import Questbook.Proofs.Package.Failures
import Questbook.Proofs.Package.Mentions
import Questbook.Proofs.Package.Cycles
import Questbook.Proofs.Package.CycleReports
import Questbook.Proofs.Package.Merging
import Questbook.Proofs.Package.Loading
import Questbook.Proofs.Engine.Payment
import Questbook.Proofs.Engine.Facing
import Questbook.Proofs.Engine.Range
import Questbook.Proofs.Engine.Stacks
import Questbook.Proofs.Talk.Paging
import Questbook.Proofs.Engine.Accumulation
import Questbook.Proofs.Package.Conversations
import Questbook.Proofs.Engine.Exchange
import Questbook.Proofs.Engine.Astray
import Questbook.Proofs.Engine.Occupancy
