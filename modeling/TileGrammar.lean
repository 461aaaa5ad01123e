import TileGrammar.Geometry.Cell
import TileGrammar.Geometry.Box
import TileGrammar.Geometry.Layout
import TileGrammar.Text.Fields
import TileGrammar.Text.Quoted
import TileGrammar.Tile
import TileGrammar.Pattern.Basic
import TileGrammar.Pattern.Text
import TileGrammar.Symmetry
import TileGrammar.Decimal.Shortest
import TileGrammar.Decimal.Notation
import TileGrammar.Tally
import TileGrammar.Rule.Basic
import TileGrammar.Rule.Set
import TileGrammar.Geometry.Interval
import TileGrammar.Grid.Basic
import TileGrammar.Grid.Resolution
import TileGrammar.Random.Source
import TileGrammar.Random.Script
import TileGrammar.Random.Stream
import TileGrammar.Match.Search
import TileGrammar.Match.Rewrite
import TileGrammar.Match.Selection
import TileGrammar.Match.Cache
import TileGrammar.Generation.Basic
import TileGrammar.Generation.Command
import TileGrammar.Json.Library
import TileGrammar.Json.Lexeme
import TileGrammar.Json.Skip
import TileGrammar.Json.Typed
import TileGrammar.Json.Printer
import TileGrammar.Json.Standard
import TileGrammar.Settings
import TileGrammar.Dungeon
import TileGrammar.Session.Basic
import TileGrammar.Geometry.Space
import TileGrammar.Overlay.Wireframe
import TileGrammar.Overlay.Basic
import TileGrammar.Session.Launch
import TileGrammar.Viewer
import TileGrammar.Main
import TileGrammar.Proofs.Geometry.Overlap
import TileGrammar.Proofs.Rule.Variant
import TileGrammar.Proofs.Match.Occurrence
import TileGrammar.Proofs.Match.Order
import TileGrammar.Proofs.Grid.Stamp
import TileGrammar.Proofs.Tally.Count
import TileGrammar.Proofs.Match.Patch
import TileGrammar.Proofs.Match.Choice
import TileGrammar.Proofs.Generation.Move
import TileGrammar.Proofs.Match.Application
import TileGrammar.Proofs.Generation.Rescan
import TileGrammar.Proofs.Generation.SearchOrder
import TileGrammar.Proofs.Generation.Start
import TileGrammar.Proofs.Dungeon.Layout
import TileGrammar.Proofs.Dungeon.Shape
import TileGrammar.Proofs.Dungeon.Grammar
import TileGrammar.Proofs.Session.Run
import TileGrammar.Proofs.Dungeon.Connected
import TileGrammar.Proofs.Grid.Count
import TileGrammar.Proofs.Weight.Sum
import TileGrammar.Proofs.Match.Weight
import TileGrammar.Proofs.Dungeon.Reserve
import TileGrammar.Proofs.Session.Course
import TileGrammar.Proofs.Match.Exact
import TileGrammar.Proofs.Session.Termination
import TileGrammar.Proofs.Geometry.Motion
import TileGrammar.Proofs.Pattern.Motion
import TileGrammar.Proofs.Rule.Orbit
import TileGrammar.Proofs.Geometry.Hull
import TileGrammar.Proofs.Grid.Notice
import TileGrammar.Proofs.Grid.Motion
import TileGrammar.Proofs.Match.Motion
import TileGrammar.Proofs.Grid.Access
import TileGrammar.Proofs.Match.Access
import TileGrammar.Proofs.Generation.Access
import TileGrammar.Proofs.Generation.Failure
import TileGrammar.Proofs.Generation.Stride
import TileGrammar.Proofs.Generation.Admission
import TileGrammar.Proofs.Match.Footprint
import TileGrammar.Proofs.Session.Batch
import TileGrammar.Proofs.Dungeon.Balance
import TileGrammar.Proofs.Dungeon.Door
import TileGrammar.Proofs.Generation.Reply
import TileGrammar.Proofs.Generation.Asking
import TileGrammar.Proofs.Grid.Twin
import TileGrammar.Proofs.Generation.Twin
import TileGrammar.Proofs.Tally.Total
import TileGrammar.Proofs.Generation.Bookkeeping
import TileGrammar.Proofs.Session.Twin
import TileGrammar.Proofs.Viewer.Replay
import TileGrammar.Proofs.Pattern.Rows
import TileGrammar.Proofs.Pattern.Text
import TileGrammar.Proofs.Grid.Announcement
import TileGrammar.Proofs.Viewer.Overlay
import TileGrammar.Proofs.Json.Lexeme
import TileGrammar.Proofs.Json.Record
import TileGrammar.Proofs.Json.Laws
import TileGrammar.Proofs.Json.Standard
import TileGrammar.Proofs.Settings.Written
import TileGrammar.Proofs.Grid.Resolution
import TileGrammar.Proofs.Grid.Palette
import TileGrammar.Proofs.Generation.Palette
import TileGrammar.Proofs.Match.Upkeep
import TileGrammar.Proofs.Match.Layers
import TileGrammar.Proofs.Tally.Exchange
import TileGrammar.Proofs.Match.Independence
import TileGrammar.Proofs.Generation.Sweep
import TileGrammar.Proofs.Generation.Budget
import TileGrammar.Proofs.Generation.Allowance
import TileGrammar.Proofs.Pattern.Parse
import TileGrammar.Proofs.Rule.Subgroup
import TileGrammar.Proofs.Grid.Scale
import TileGrammar.Proofs.Grid.Storage
import TileGrammar.Proofs.Grid.Imprint
import TileGrammar.Proofs.Match.Draw
import TileGrammar.Proofs.Generation.Reset
import TileGrammar.Proofs.Geometry.Cells
import TileGrammar.Proofs.Pattern.Access
