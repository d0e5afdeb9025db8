import Pedalboard.Binary.Arithmetic
import Pedalboard.Binary.Basic
import Pedalboard.Binary.Elementary
import Pedalboard.Bridge
import Pedalboard.Cli.Arguments
import Pedalboard.Cli.Command
import Pedalboard.Cli.Host
import Pedalboard.Cli.Number
import Pedalboard.Cli.Operation
import Pedalboard.Cli.Run
import Pedalboard.Control.Schema
import Pedalboard.Control.Spec
import Pedalboard.Curve
import Pedalboard.Decimal.Basic
import Pedalboard.Decimal.Layout
import Pedalboard.Decimal.Numeral
import Pedalboard.Decimal.Quick
import Pedalboard.Decimal.Shortest
import Pedalboard.Engine.Bank
import Pedalboard.Engine.Message
import Pedalboard.Engine.Runtime
import Pedalboard.Engine.Sink
import Pedalboard.Engine.Slots
import Pedalboard.Graph.Action
import Pedalboard.Graph.Cycle
import Pedalboard.Graph.Error
import Pedalboard.Graph.Kind
import Pedalboard.Graph.Node
import Pedalboard.Graph.Reducer
import Pedalboard.Graph.State
import Pedalboard.History
import Pedalboard.Json.Basic
import Pedalboard.Json.Parser
import Pedalboard.Json.Printer
import Pedalboard.Keyed
import Pedalboard.Main
import Pedalboard.Preset.Basic
import Pedalboard.Preset.Factory
import Pedalboard.Proofs.Binary.Rounding
import Pedalboard.Proofs.Bridge.Mirror
import Pedalboard.Proofs.Bridge.Runs
import Pedalboard.Proofs.Cli.Pretty
import Pedalboard.Proofs.Cli.Rejections
import Pedalboard.Proofs.Decimal.Midpoints
import Pedalboard.Proofs.Decimal.Numeral
import Pedalboard.Proofs.Decimal.Quick
import Pedalboard.Proofs.Decimal.Rewritten
import Pedalboard.Proofs.Decimal.Scaled
import Pedalboard.Proofs.Decimal.Shortest
import Pedalboard.Proofs.Decimal.Value
import Pedalboard.Proofs.Engine.Bank
import Pedalboard.Proofs.Engine.Layout
import Pedalboard.Proofs.Engine.Messages
import Pedalboard.Proofs.Engine.Paths
import Pedalboard.Proofs.Engine.Sinks
import Pedalboard.Proofs.Engine.Slots
import Pedalboard.Proofs.Graph.Acyclic
import Pedalboard.Proofs.Graph.Connect
import Pedalboard.Proofs.Graph.Edit
import Pedalboard.Proofs.Graph.Frame
import Pedalboard.Proofs.Graph.Fresh
import Pedalboard.Proofs.Graph.Invariant
import Pedalboard.Proofs.Graph.Inverse
import Pedalboard.Proofs.Graph.Parts
import Pedalboard.Proofs.Graph.Plain
import Pedalboard.Proofs.Graph.Reordering
import Pedalboard.Proofs.Graph.Sweeping
import Pedalboard.Proofs.History.Bounds
import Pedalboard.Proofs.History.Dispatch
import Pedalboard.Proofs.History.Inverse
import Pedalboard.Proofs.History.Recording
import Pedalboard.Proofs.Json.Accepted
import Pedalboard.Proofs.Json.Documents
import Pedalboard.Proofs.Json.Grammar
import Pedalboard.Proofs.Json.Indented
import Pedalboard.Proofs.Json.Numbers
import Pedalboard.Proofs.Json.Tokens
import Pedalboard.Proofs.Keyed
import Pedalboard.Proofs.Preset.Records
import Pedalboard.Proofs.Preset.Requests
import Pedalboard.Proofs.Preset.Runs
import Pedalboard.Proofs.Session.Restoring
import Pedalboard.Proofs.Settings.RoundTrip
import Pedalboard.Proofs.Store.Directory
import Pedalboard.Proofs.Store.Graph
import Pedalboard.Proofs.Store.Tree
import Pedalboard.Proofs.Toml.Fields
import Pedalboard.Proofs.Toml.Strings
import Pedalboard.Proofs.Wire.Acceptance
import Pedalboard.Proofs.Wire.Canonical
import Pedalboard.Proofs.Wire.Documents
import Pedalboard.Proofs.Wire.Loading
import Pedalboard.Proofs.Wire.Reading
import Pedalboard.Proofs.Wire.Rebuild
import Pedalboard.Proofs.Wire.Reload
import Pedalboard.Proofs.Wire.RoundTrip
import Pedalboard.Proofs.Wire.Saving
import Pedalboard.Proofs.Wire.Valid
import Pedalboard.Session
import Pedalboard.Settings.Basic
import Pedalboard.Settings.Location
import Pedalboard.Store.Basic
import Pedalboard.Store.Error
import Pedalboard.Store.Files
import Pedalboard.Store.Graph
import Pedalboard.Store.Path
import Pedalboard.Store.Tree
import Pedalboard.Text.Blank
import Pedalboard.Text.Column
import Pedalboard.Text.Invisible
import Pedalboard.Text.Quoted
import Pedalboard.Text.Split
import Pedalboard.Toml.Basic
import Pedalboard.Toml.Number
import Pedalboard.Toml.Parser
import Pedalboard.Toml.Table
import Pedalboard.Toml.Text
import Pedalboard.Wire.Codec
import Pedalboard.Wire.Error
import Pedalboard.Wire.Payload
