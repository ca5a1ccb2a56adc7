import IPPcode24.Machine.Effect
import IPPcode24.Main
import IPPcode24.Proofs.Results
import IPPcode24.Proofs.Access
import IPPcode24.Proofs.Agreement
import IPPcode24.Proofs.Effects
import IPPcode24.Proofs.Steps
import IPPcode24.Proofs.Atomicity
import IPPcode24.Proofs.Labels
import IPPcode24.Proofs.Records
import IPPcode24.Proofs.Control
import IPPcode24.Proofs.Runs
import IPPcode24.Proofs.Sequence
import IPPcode24.Proofs.Renaming
import IPPcode24.Proofs.RenamedFrames
import IPPcode24.Proofs.Mirror
import IPPcode24.Proofs.Names
import IPPcode24.Proofs.Insertion
import IPPcode24.Proofs.Stacks
import IPPcode24.Proofs.FrameUse
import IPPcode24.Proofs.Nesting
import IPPcode24.Proofs.Declarations
import IPPcode24.Proofs.Layout
import IPPcode24.Proofs.Denotation
import IPPcode24.Proofs.Integers
import IPPcode24.Proofs.Literals
import IPPcode24.Proofs.Escapes
import IPPcode24.Proofs.Notation
import IPPcode24.Proofs.Pages
import IPPcode24.Proofs.Concatenation
import IPPcode24.Proofs.Image
import IPPcode24.Proofs.Listing
import IPPcode24.Proofs.Output
import IPPcode24.Proofs.Limits
import IPPcode24.Proofs.InputLines
import IPPcode24.Proofs.Reads
import IPPcode24.Proofs.Numbering
import IPPcode24.Proofs.Verdicts
import IPPcode24.Proofs.ReadBack
import IPPcode24.Proofs.TypeValues
import IPPcode24.Proofs.Portions
import IPPcode24.Proofs.Acceptance
import IPPcode24.Proofs.Stages
import IPPcode24.Proofs.ExitCodes
import IPPcode24.Proofs.Equality
import IPPcode24.Proofs.Order
import IPPcode24.Proofs.Evaluation
import IPPcode24.Proofs.Arithmetic
import IPPcode24.Proofs.Characters
import IPPcode24.Proofs.Termination
import IPPcode24.Proofs.Transfer
import IPPcode24.Proofs.Store
import IPPcode24.Proofs.Sorting
import IPPcode24.Proofs.Definitions
import IPPcode24.Proofs.Framing
import IPPcode24.Proofs.Checks
import IPPcode24.Proofs.Decimals
import IPPcode24.Proofs.Edits
import IPPcode24.Proofs.Reports
import IPPcode24.Proofs.ByteOrder
import IPPcode24.Proofs.Symbols
