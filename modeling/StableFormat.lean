import StableFormat.Main
import StableFormat.Proofs.Diff.Minimality
import StableFormat.Proofs.Diff.NormalForm
import StableFormat.Proofs.Diff.Patch
import StableFormat.Proofs.FileTree.WriteBack
import StableFormat.Proofs.Report.Growth
import StableFormat.Proofs.Report.Laziness
import StableFormat.Proofs.Report.Limits
import StableFormat.Proofs.Report.Rendering
import StableFormat.Proofs.Report.Tiers
import StableFormat.Proofs.Run.Agreement
import StableFormat.Proofs.Run.Announcement
import StableFormat.Proofs.Run.Decomposition
import StableFormat.Proofs.Run.Rerun
import StableFormat.Proofs.Step.Formatter
import StableFormat.Proofs.CommandLine.Refusal
import StableFormat.Proofs.Orbit.SafeOutput
import StableFormat.Proofs.Pathname.Destination
import StableFormat.Proofs.FileTree.Frame
import StableFormat.Proofs.CommandLine.CheckFrame
import StableFormat.Proofs.Config.Merging
import StableFormat.Proofs.Pathname.Descendant
import StableFormat.Proofs.FileTree.Collection
import StableFormat.Proofs.Orbit.Bound
import StableFormat.Proofs.Run.Exemptions
import StableFormat.Proofs.Run.KeptOrbits
import StableFormat.Proofs.Diff.Rendering
import StableFormat.Proofs.Diff.Remarks
import StableFormat.Proofs.Step.Indentation
import StableFormat.Proofs.Diff.Announcements
import StableFormat.Proofs.Pathname.Workspace
import StableFormat.Proofs.Pathname.Ancestors
import StableFormat.Proofs.Config.Precedence
import StableFormat.Proofs.Text.Glyphs
import StableFormat.Proofs.Diff.SearchRange
import StableFormat.Proofs.Diff.HunkLoop
import StableFormat.Proofs.Step.Trimming
