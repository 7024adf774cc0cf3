import LiveLayout.Action
import LiveLayout.Annotate
import LiveLayout.App
import LiveLayout.Command.Arguments
import LiveLayout.Command.Run
import LiveLayout.Config
import LiveLayout.Decimal.Reading
import LiveLayout.Decimal.Text
import LiveLayout.Engine.Cascade
import LiveLayout.Engine.Delivery
import LiveLayout.Expr.Basic
import LiveLayout.Expr.Eval
import LiveLayout.Expr.Scan
import LiveLayout.Form
import LiveLayout.Host
import LiveLayout.Json.Basic
import LiveLayout.Json.Pointer
import LiveLayout.Json.Printer
import LiveLayout.Json.Reader
import LiveLayout.Main
import LiveLayout.Node
import LiveLayout.Output
import LiveLayout.Proofs.Annotating.Brick
import LiveLayout.Proofs.Annotating.Passes
import LiveLayout.Proofs.Annotating.Settled
import LiveLayout.Proofs.Annotating.Texts
import LiveLayout.Proofs.Annotating.Untouched
import LiveLayout.Proofs.Annotating.Visits
import LiveLayout.Proofs.Decimal
import LiveLayout.Proofs.Dotted.Lenses
import LiveLayout.Proofs.Dotted.Lexemes
import LiveLayout.Proofs.Dotted.Reads
import LiveLayout.Proofs.Drawing.Order
import LiveLayout.Proofs.Drawing.Parts
import LiveLayout.Proofs.Drawing.Reads
import LiveLayout.Proofs.Drawing.Render
import LiveLayout.Proofs.Drawing.Scene
import LiveLayout.Proofs.Drawing.Sketch
import LiveLayout.Proofs.Drawing.Stage
import LiveLayout.Proofs.Engine.Steps
import LiveLayout.Proofs.Expr
import LiveLayout.Proofs.Fetching.Courses
import LiveLayout.Proofs.Fields
import LiveLayout.Proofs.Forking.Outputs
import LiveLayout.Proofs.Forms.Containers
import LiveLayout.Proofs.Forms.Dispatch
import LiveLayout.Proofs.Grammar.Completeness
import LiveLayout.Proofs.Grammar.Heights
import LiveLayout.Proofs.Grammar.Offsets
import LiveLayout.Proofs.Lifecycle.Courses
import LiveLayout.Proofs.Mounting.Frame
import LiveLayout.Proofs.Mounting.Hooks
import LiveLayout.Proofs.Mounting.Ledger
import LiveLayout.Proofs.Mounting.Matching
import LiveLayout.Proofs.Mounting.Rounds
import LiveLayout.Proofs.Mounting.Shown
import LiveLayout.Proofs.Mounting.Tree
import LiveLayout.Proofs.Reaching.Covered
import LiveLayout.Proofs.Reaching.Keys
import LiveLayout.Proofs.Refreshing.Mounts
import LiveLayout.Proofs.Refreshing.Recalls
import LiveLayout.Proofs.Refreshing.Refresh
import LiveLayout.Proofs.Refreshing.Rounds
import LiveLayout.Proofs.Refreshing.Subscribers
import LiveLayout.Proofs.Refreshing.Targets
import LiveLayout.Proofs.Refreshing.UpToDate
import LiveLayout.Proofs.Rows.Anchors
import LiveLayout.Proofs.Rows.Calls
import LiveLayout.Proofs.Rows.Keys
import LiveLayout.Proofs.Rows.Lasting
import LiveLayout.Proofs.Rows.Matching
import LiveLayout.Proofs.Rows.Targets
import LiveLayout.Proofs.Running.Cascade
import LiveLayout.Proofs.Running.Flush
import LiveLayout.Proofs.Running.Following
import LiveLayout.Proofs.Running.Incremental
import LiveLayout.Proofs.Running.Rerenders
import LiveLayout.Proofs.Running.Roots
import LiveLayout.Proofs.Running.Steady
import LiveLayout.Proofs.Running.Steps
import LiveLayout.Proofs.Running.Subscriptions
import LiveLayout.Proofs.Running.Transparent
import LiveLayout.Proofs.Sourcing.Asking
import LiveLayout.Proofs.Sourcing.Drawing
import LiveLayout.Proofs.Sourcing.Targets
import LiveLayout.Proofs.Sourcing.Trees
import LiveLayout.Proofs.Staying.Courses
import LiveLayout.Proofs.Staying.Fronts
import LiveLayout.Proofs.Staying.Mounts
import LiveLayout.Proofs.Staying.Rounds
import LiveLayout.Proofs.Staying.Targets
import LiveLayout.Proofs.Staying.Tenants
import LiveLayout.Proofs.Store.Histories
import LiveLayout.Proofs.Store.Layers
import LiveLayout.Proofs.Store.Scopes
import LiveLayout.Proofs.Store.Subscriptions
import LiveLayout.Proofs.Store.Writes
import LiveLayout.Proofs.Telling.Chronicle
import LiveLayout.Proofs.Telling.Last
import LiveLayout.Proofs.Telling.Listening
import LiveLayout.Proofs.Telling.Visibility
import LiveLayout.Proofs.Telling.Writes
import LiveLayout.Proofs.Text
import LiveLayout.Proofs.Unmarked.Hosts
import LiveLayout.Render.Interpreter
import LiveLayout.Session
import LiveLayout.Standard
import LiveLayout.Store.Basic
import LiveLayout.Text.Alphabetic
import LiveLayout.Text.Blank
import LiveLayout.Text.GraphemeExtend
import LiveLayout.Text.Lowercase
import LiveLayout.Text.Numeric
import LiveLayout.Text.Quoted
import LiveLayout.Text.Unprintable
import LiveLayout.Transport
