import SheetCut.Main
import SheetCut.Files.Tree
import SheetCut.Proofs.Contour.Traversal
import SheetCut.Proofs.Contour.Content
import SheetCut.Proofs.Contour.Emission
import SheetCut.Proofs.Program.Identity
import SheetCut.Proofs.Program.Inert
import SheetCut.Proofs.Program.Extent
import SheetCut.Proofs.Geometry.Turn
import SheetCut.Proofs.Playback.Enumeration
import SheetCut.Proofs.Playback.Ends
import SheetCut.Proofs.Playback.Tally
import SheetCut.Proofs.Command.Lines
import SheetCut.Proofs.Snapshot.Texts
import SheetCut.Proofs.Settings.Save
import SheetCut.Proofs.Geometry.Extremes
import SheetCut.Proofs.Binary64.Rounding
import SheetCut.Proofs.Playback.Bounded
import SheetCut.Proofs.Decimal.Shortest
import SheetCut.Proofs.Decimal.ReadBack
import SheetCut.Proofs.Command.Quoted
import SheetCut.Proofs.Command.Printed
import SheetCut.Proofs.Command.Words
import SheetCut.Proofs.Decimal.Lenient
import SheetCut.Proofs.Program.BlockReference
import SheetCut.Proofs.Geometry.FloatBox
import SheetCut.Proofs.Command.Arguments
import SheetCut.Proofs.Command.Shape
