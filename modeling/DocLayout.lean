import DocLayout.Node
import DocLayout.Build.Documents
import DocLayout.Page
import DocLayout.Template.Fill
import DocLayout.Color.Highlight
import DocLayout.Proofs.Canvas
import DocLayout.Proofs.Descent
import DocLayout.Proofs.Typeset
import DocLayout.Proofs.Appending
import DocLayout.Proofs.Stages
import DocLayout.Proofs.Shift
import DocLayout.Proofs.Composition
import DocLayout.Proofs.Course
import DocLayout.Proofs.FlatWidth
import DocLayout.Proofs.Writing
import DocLayout.Proofs.Resolution
import DocLayout.Proofs.Selection
import DocLayout.Proofs.Keeping
import DocLayout.Proofs.Holdings
import DocLayout.Proofs.Construction
import DocLayout.Build.Plain
import DocLayout.Proofs.Filling
import DocLayout.Proofs.TemplateReading
import DocLayout.Proofs.Drafts
import DocLayout.Proofs.Spelling
import DocLayout.Proofs.Reporting
import DocLayout.Proofs.Calls
import DocLayout.Proofs.Ordered
import DocLayout.Proofs.PageText
import DocLayout.Proofs.Reading
import DocLayout.Proofs.Forms
import DocLayout.Proofs.Safety
import DocLayout.Proofs.Flow
import DocLayout.Proofs.PageLines
import DocLayout.Proofs.Provenance
import DocLayout.Proofs.Equivalence
import DocLayout.Proofs.Regrouping
import DocLayout.Proofs.Terminal
import DocLayout.Proofs.Highlighting
import DocLayout.Proofs.Stripping
import DocLayout.Proofs.ColoredPage
import DocLayout.Proofs.Numbering
import DocLayout.Proofs.Renumbering
import DocLayout.Proofs.Wrapping
import DocLayout.Proofs.Limits
import DocLayout.Proofs.Separated
import DocLayout.Proofs.Expressions
import DocLayout.Proofs.Overflow
import DocLayout.Proofs.Splitting
import DocLayout.Proofs.Unwrapping
import DocLayout.Proofs.Literals
import DocLayout.Proofs.Displacement
import DocLayout.Proofs.Cursor
import DocLayout.Proofs.MoveCount
