import VueSfc.Main
import VueSfc.Proofs.Page.Assembly
import VueSfc.Proofs.Page.Leftover
import VueSfc.Proofs.Run.Settled
import VueSfc.Proofs.Script.CompleteLines
import VueSfc.Proofs.Component.Recovery
import VueSfc.Proofs.Script.Rescan
import VueSfc.Proofs.Component.Outcome
import VueSfc.Proofs.Page.Extraction
import VueSfc.Proofs.Page.LetterCase
import VueSfc.Proofs.Component.Dialects
import VueSfc.Proofs.Text.Separator
import VueSfc.Proofs.Component.ScriptEnd
import VueSfc.Proofs.Offset.Bytes
import VueSfc.Proofs.Offset.Markup
import VueSfc.Proofs.Offset.Page
import VueSfc.Proofs.Offset.Cursor
import VueSfc.Proofs.Offset.Script
import VueSfc.Proofs.Offset.Conversion
import VueSfc.Proofs.Component.TemplateLines
import VueSfc.Proofs.Page.Stretch
import VueSfc.Proofs.Run.Account
import VueSfc.Proofs.Run.Rerun
import VueSfc.Proofs.Report.Machine
import VueSfc.Proofs.Run.Delivery
import VueSfc.Proofs.Script.Lexing
import VueSfc.Proofs.Script.Grammar
import VueSfc.Run.Stage
import VueSfc.Proofs.Run.Fatal
import VueSfc.Proofs.Run.Turns
import VueSfc.Proofs.Script.Calls
import VueSfc.Proofs.Markup.Leftmost
import VueSfc.Proofs.Markup.Gaps
import VueSfc.Proofs.Component.Methods
import VueSfc.Proofs.Page.Wrapper
import VueSfc.Proofs.Markup.Verdict
import VueSfc.Proofs.Run.Claimants
import VueSfc.Proofs.Script.Tiling
import VueSfc.Proofs.Component.StyleBlocks
import VueSfc.Proofs.Component.Separators
import VueSfc.Proofs.Run.Inputs
import VueSfc.Proofs.Config.Pieces
import VueSfc.Proofs.Offset.FirstElement
