import DesignCoupling.Design.History
import DesignCoupling.Document.Writing
import DesignCoupling.Main
import DesignCoupling.Proofs.Containment
import DesignCoupling.Proofs.EntitySet
import DesignCoupling.Proofs.Coupling.Units
import DesignCoupling.Proofs.Coupling.Aggregation
import DesignCoupling.Proofs.Document.Validation
import DesignCoupling.Proofs.Design.Consistency
import DesignCoupling.Proofs.Design.Growth
import DesignCoupling.Proofs.Design.Cycles
import DesignCoupling.Proofs.Design.Representation
import DesignCoupling.Proofs.Document.Assembly
import DesignCoupling.Proofs.Design.UnitGraph
import DesignCoupling.Proofs.Design.Likeness
import DesignCoupling.Proofs.CommandLine.Report
import DesignCoupling.Proofs.Document.Coupling
import DesignCoupling.Proofs.Document.Insertion
import DesignCoupling.Proofs.Document.InnerUsage
import DesignCoupling.Proofs.Document.Relisting
import DesignCoupling.Proofs.Design.Replay
import DesignCoupling.Proofs.Design.UsageEffect
import DesignCoupling.Proofs.Coupling.Renaming
import DesignCoupling.Proofs.Document.OutsideView
import DesignCoupling.Proofs.Document.Renaming
import DesignCoupling.Proofs.CommandLine.Answering
import DesignCoupling.Proofs.CommandLine.Completion
import DesignCoupling.Proofs.Json.Grammar
import DesignCoupling.Proofs.Json.Tokens
import DesignCoupling.Proofs.Json.Skipping
import DesignCoupling.Proofs.Json.Decoding
import DesignCoupling.Proofs.Json.Records
import DesignCoupling.Proofs.Json.Members
import DesignCoupling.Proofs.Document.Decoding
import DesignCoupling.Proofs.Json.Writing
import DesignCoupling.Proofs.Document.RoundTrip
import DesignCoupling.Proofs.Document.Presentation
import DesignCoupling.Proofs.Json.Datum
import DesignCoupling.Proofs.CommandLine.Agreement
import DesignCoupling.Proofs.Search.Preorder
import DesignCoupling.Proofs.Design.Permanence
import DesignCoupling.Proofs.Design.Ancestry
import DesignCoupling.Proofs.CommandLine.Printing
import DesignCoupling.Proofs.CommandLine.Verbosity
import DesignCoupling.Proofs.CommandLine.Flags
import DesignCoupling.Proofs.CommandLine.Logging
import DesignCoupling.Proofs.Coupling.ClassSearch
import DesignCoupling.Proofs.Document.BottomUp
import DesignCoupling.Proofs.Search.Forest
import DesignCoupling.Proofs.Document.Subtrees
import DesignCoupling.Proofs.Document.Cycles
import DesignCoupling.Proofs.Document.Blame
import DesignCoupling.Proofs.Design.DisplayOrder
import DesignCoupling.Proofs.Design.Refusals
