import Lifter.Address
import Lifter.Opcode
import Lifter.Text.Blank
import Lifter.Xml.CharData
import Lifter.Element
import Lifter.Documents
import Lifter.Context
import Lifter.Instruction
import Lifter.Specification.Reader
import Lifter.Image.Flat
import Lifter.Image.Load
import Lifter.Engine
import Lifter.Listing.Format
import Lifter.Listing.Sweep
import Lifter.Main
import Lifter.Proofs.FirstMatch
import Lifter.Proofs.Requests
import Lifter.Proofs.NoBreach
import Lifter.Proofs.Sweep
import Lifter.Proofs.Leftovers
import Lifter.Proofs.History
import Lifter.Proofs.Wrapping
import Lifter.Proofs.Alignment
import Lifter.Proofs.WithOps
import Lifter.Proofs.Operands
import Lifter.Proofs.Numbering
import Lifter.Proofs.Printed
import Lifter.Proofs.Outputs
import Lifter.Proofs.Temporaries
import Lifter.Proofs.Appending
import Lifter.Proofs.Regions
import Lifter.Proofs.Relevance
import Lifter.Proofs.Advancing
import Lifter.Proofs.Stopping
import Lifter.Proofs.Framing
import Lifter.Proofs.Segments
import Lifter.Proofs.CodeRanges
import Lifter.Proofs.Updates
import Lifter.Proofs.Commuting
import Lifter.Proofs.OperandFailures
import Lifter.Proofs.Targets
import Lifter.Proofs.Constants
import Lifter.Proofs.Composing
import Lifter.Proofs.Rebasing
import Lifter.Proofs.ElfSegments
import Lifter.Proofs.PeSegments
import Lifter.Proofs.LastAddress
import Lifter.Proofs.BothForms
import Lifter.Proofs.Overlap
import Lifter.Proofs.Runs
import Lifter.Proofs.NumberForms
import Lifter.Proofs.RegisterNames
import Lifter.Proofs.WrittenConstants
import Lifter.Proofs.Placeholders
