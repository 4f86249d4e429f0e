import HartBoot.Boot
import HartBoot.Fatal
import HartBoot.Hart.Build
import HartBoot.ModeSwitch
import HartBoot.Pmp.Configure
import HartBoot.Pmp.Lookup
import HartBoot.Toolchain
import HartBoot.Proofs.RegisterFile
import HartBoot.Proofs.Access
import HartBoot.Proofs.Caution
import HartBoot.Proofs.Probing
import HartBoot.Proofs.Bits
import HartBoot.Proofs.Survey
import HartBoot.Proofs.Detection
import HartBoot.Proofs.Entries
import HartBoot.Proofs.Matching
import HartBoot.Proofs.Encoding
import HartBoot.Proofs.Plan
import HartBoot.Proofs.Booting
import HartBoot.Proofs.Enforcement
import HartBoot.Proofs.AddressWidth
import HartBoot.Proofs.Baseline
import HartBoot.Proofs.Initialization
import HartBoot.Proofs.Restart
import HartBoot.Proofs.Restoration
import HartBoot.Checked
import HartBoot.Proofs.Checked
import HartBoot.Proofs.Endurance
import HartBoot.Proofs.Presets
import HartBoot.Proofs.Establishment
import HartBoot.Proofs.Forgetting
import HartBoot.Proofs.Departure
import HartBoot.Scratch.Cell
import HartBoot.Scratch.Storage
import HartBoot.Proofs.Reservation
import HartBoot.Proofs.Contents
import HartBoot.Cluster
import HartBoot.Proofs.Discretion
import HartBoot.Proofs.Records
import HartBoot.Proofs.Isolation
import HartBoot.Proofs.Exhaustion
import HartBoot.Calls
import HartBoot.Checked.Calls
import HartBoot.Proofs.Respelling
import HartBoot.Proofs.Reach
import HartBoot.Proofs.Indifference
import HartBoot.Proofs.Custody
import HartBoot.Proofs.Acceptance
import HartBoot.Proofs.Accounting
import HartBoot.Proofs.Handover
import HartBoot.Proofs.Transcript
import HartBoot.Proofs.Enlargement
import HartBoot.Proofs.Rounding
import HartBoot.Proofs.Independence
import HartBoot.Proofs.Repetition
import HartBoot.Proofs.Packing
import HartBoot.Proofs.Truncation
import HartBoot.Proofs.Decoding
import HartBoot.Proofs.Extensions
import HartBoot.Proofs.Ledger
