import Chomsky.Document.Json
import Chomsky.Grammar.Derivation
import Chomsky.Main
import Chomsky.Proofs.Naming
import Chomsky.Proofs.Construction
import Chomsky.Proofs.Derivation
import Chomsky.Proofs.Producers
import Chomsky.Proofs.Table.Contents
import Chomsky.Proofs.Recognition
import Chomsky.Proofs.Description
import Chomsky.Proofs.Histories
import Chomsky.Proofs.Spelling
import Chomsky.Proofs.Lookups
import Chomsky.Proofs.Cache.Transparency
import Chomsky.Proofs.Cache.Accounting
import Chomsky.Proofs.ProperDescription
import Chomsky.Proofs.Document.Groups
import Chomsky.Proofs.Document.Rebuilding
import Chomsky.Proofs.Document.Validity
import Chomsky.Proofs.Document.RoundTrip
import Chomsky.Proofs.Document.Language
import Chomsky.Proofs.Representation
import Chomsky.Proofs.Origins
import Chomsky.Proofs.Reader.Format
import Chomsky.Proofs.Reader.Acceptance
import Chomsky.Proofs.Judging
import Chomsky.Proofs.Building
import Chomsky.Reader.Cursor
import Chomsky.Proofs.Reader.Iteration
import Chomsky.Proofs.Reader.Refusals
import Chomsky.Proofs.Reader.Concatenation
import Chomsky.Proofs.Reader.Faults
import Chomsky.Proofs.Reader.Printing
import Chomsky.Proofs.Decoding
import Chomsky.Proofs.Guarded.Histories
import Chomsky.Proofs.Memory
import Chomsky.Proofs.Work
import Chomsky.Proofs.RuleOrder
import Chomsky.Proofs.Reader.Limits
import Chomsky.Proofs.Reader.LineEnds
import Chomsky.Proofs.FiniteSets
import Chomsky.Proofs.Table.Order
