import Honeycomb.Command.Options
import Honeycomb.Command.Path
import Honeycomb.Command.Run
import Honeycomb.Command.Suggestion
import Honeycomb.Command.World
import Honeycomb.Controller.Basic
import Honeycomb.Controller.Script
import Honeycomb.Controller.Session
import Honeycomb.Controller.Step
import Honeycomb.Decimal.Digits
import Honeycomb.Decimal.Literal
import Honeycomb.Decimal.Notation
import Honeycomb.Decimal.Reader
import Honeycomb.Decimal.Rounding
import Honeycomb.Decimal.Shortest
import Honeycomb.Element.Basic
import Honeycomb.Element.Click
import Honeycomb.Element.Draw
import Honeycomb.Fields
import Honeycomb.Grid.Axial
import Honeycomb.Grid.Bounds
import Honeycomb.Grid.Fit
import Honeycomb.Grid.Projection
import Honeycomb.Grid.Ring
import Honeycomb.Grid.Spiral
import Honeycomb.Hexagon
import Honeycomb.Html.Page
import Honeycomb.Html.Template
import Honeycomb.Json.Basic
import Honeycomb.Json.Inline
import Honeycomb.Json.Parser
import Honeycomb.Json.Plain
import Honeycomb.Json.Printer
import Honeycomb.Layout
import Honeycomb.Main
import Honeycomb.Module.Basic
import Honeycomb.Module.Order
import Honeycomb.Module.Payload
import Honeycomb.Module.Source
import Honeycomb.Page
import Honeycomb.Palette
import Honeycomb.Placement
import Honeycomb.Report
import Honeycomb.Scalar
import Honeycomb.Service.Admin
import Honeycomb.Service.Failure
import Honeycomb.Service.Store
import Honeycomb.Setting
import Honeycomb.Svg
import Honeycomb.Text.Basic
import Honeycomb.Text.Blank
import Honeycomb.Text.Letters
import Honeycomb.Text.Markup
import Honeycomb.Text.Order
import Honeycomb.Text.Percent
import Honeycomb.Text.Replace
import Honeycomb.Text.Utf8
import Honeycomb.View
import Honeycomb.Proofs.Click
import Honeycomb.Proofs.Command.Outcome
import Honeycomb.Proofs.Controller.Picture
import Honeycomb.Proofs.Controller.Popup
import Honeycomb.Proofs.Controller.Provenance
import Honeycomb.Proofs.Controller.Quiescence
import Honeycomb.Proofs.Controller.Run
import Honeycomb.Proofs.Controller.Step
import Honeycomb.Proofs.Controller.Tapping
import Honeycomb.Proofs.Controller.Waiting
import Honeycomb.Proofs.Decimal.Correct
import Honeycomb.Proofs.Decimal.Digits
import Honeycomb.Proofs.Decimal.Nearest
import Honeycomb.Proofs.Decimal.Notation
import Honeycomb.Proofs.Decimal.Parts
import Honeycomb.Proofs.Decimal.Range
import Honeycomb.Proofs.Decimal.Reading
import Honeycomb.Proofs.Decimal.Shortest
import Honeycomb.Proofs.Decimal.Whole
import Honeycomb.Proofs.Editing
import Honeycomb.Proofs.Element
import Honeycomb.Proofs.Export
import Honeycomb.Proofs.Fields
import Honeycomb.Proofs.Grid.Bounds
import Honeycomb.Proofs.Grid.Choice
import Honeycomb.Proofs.Grid.Fit
import Honeycomb.Proofs.Grid.Loop
import Honeycomb.Proofs.Grid.Projection
import Honeycomb.Proofs.Grid.Spiral
import Honeycomb.Proofs.Html
import Honeycomb.Proofs.Html.Script
import Honeycomb.Proofs.Html.Tokenizer
import Honeycomb.Proofs.Json.Inline
import Honeycomb.Proofs.Json.Number
import Honeycomb.Proofs.Json.Quoted
import Honeycomb.Proofs.Json.Reading
import Honeycomb.Proofs.Json.Script
import Honeycomb.Proofs.Json.WellFormed
import Honeycomb.Proofs.Layout
import Honeycomb.Proofs.Module.Acceptance
import Honeycomb.Proofs.Module.ByteOrder
import Honeycomb.Proofs.Module.Canonical
import Honeycomb.Proofs.Module.Order
import Honeycomb.Proofs.Module.Payload
import Honeycomb.Proofs.Page
import Honeycomb.Proofs.Palette
import Honeycomb.Proofs.Placement
import Honeycomb.Proofs.Routing
import Honeycomb.Proofs.Scalar
import Honeycomb.Proofs.Service.Address
import Honeycomb.Proofs.Service.Admin
import Honeycomb.Proofs.Service.Store
import Honeycomb.Proofs.Session
import Honeycomb.Proofs.Setting
import Honeycomb.Proofs.Svg
import Honeycomb.Proofs.Text.Blank
import Honeycomb.Proofs.Text.Letters
import Honeycomb.Proofs.Text.Markup
import Honeycomb.Proofs.Text.Occurrence
import Honeycomb.Proofs.Text.Percent
import Honeycomb.Proofs.Typed
