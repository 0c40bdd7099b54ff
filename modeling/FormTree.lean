import FormTree.Cli
import FormTree.Compile
import FormTree.Config
import FormTree.Main
import FormTree.PointerMap
import FormTree.Proofs.Compile.Addressed
import FormTree.Proofs.Compile.Document
import FormTree.Proofs.Compile.Edit
import FormTree.Proofs.Compile.Mounted
import FormTree.Proofs.Compile.Presentation
import FormTree.Proofs.Compile.Rebuild
import FormTree.Proofs.Compile.Storable
import FormTree.Proofs.Compile.Titles
import FormTree.Proofs.Compile.Total
import FormTree.Proofs.PointerMap.Bijection
import FormTree.Proofs.Repeat.Exact
import FormTree.Proofs.Repeat.Reload
import FormTree.Proofs.Schema.Limit
import FormTree.Proofs.Session.Items
import FormTree.Proofs.Session.Log
import FormTree.Proofs.Session.Prefill
import FormTree.Proofs.Submission.Choice
import FormTree.Proofs.Submission.Containers
import FormTree.Proofs.Submission.Filed
import FormTree.Route
import FormTree.Session
import FormTree.Submission
import FormTree.Submission.Json
import FormTree.Toml
import FormTree.Validation
import FormTree.Widget.Json
import FormTree.Proofs.Submission.Cleaned
import FormTree.Proofs.Submission.Leaves
import FormTree.Proofs.Submission.Conforms
import FormTree.Proofs.Submission.Shape
import FormTree.Proofs.Compile.Missing
import FormTree.Proofs.Compile.WellFormed
import FormTree.Proofs.Schema.Culprit
import FormTree.Proofs.Submission.Numeric
import FormTree.Proofs.Compile.ItemTitle
import FormTree.Proofs.Config.Limits
import FormTree.Proofs.Cli.Items
import FormTree.Proofs.Compile.Numbered
import FormTree.Proofs.Label
import FormTree.Proofs.Json.Escaped
