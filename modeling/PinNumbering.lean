import PinNumbering.Block
import PinNumbering.Builder
import PinNumbering.Capacity
import PinNumbering.Classes
import PinNumbering.EndToEnd
import PinNumbering.FlatPin
import PinNumbering.Json
import PinNumbering.KeyMap
import PinNumbering.Layout
import PinNumbering.Lookup
import PinNumbering.Machine
import PinNumbering.Machine.Builder
import PinNumbering.Machine.Consistency
import PinNumbering.Machine.FlatPin
import PinNumbering.Machine.Layout
import PinNumbering.Machine.Names
import PinNumbering.Machine.Query
import PinNumbering.Machine.RootPin
import PinNumbering.Machine.Session
import PinNumbering.Names
import PinNumbering.Options
import PinNumbering.Options.Text
import PinNumbering.PinMap
import PinNumbering.PinMap.OfList
import PinNumbering.Placement
import PinNumbering.Port
import PinNumbering.Query
import PinNumbering.RootPin
import PinNumbering.Samples
import PinNumbering.Session
import PinNumbering.Tables
import PinNumbering.Tables.Consistency
import PinNumbering.Tables.Json
import PinNumbering.Tile
import PinNumbering.Proofs.Capacity
import PinNumbering.Proofs.Chains
import PinNumbering.Proofs.EndToEnd
import PinNumbering.Proofs.OptionsText
import PinNumbering.Proofs.Tables.Consistent
import PinNumbering.Proofs.RootPins.Owner
import PinNumbering.Proofs.RootPins.Coordinates
import PinNumbering.Proofs.Layout.Partition
import PinNumbering.Proofs.RootPins.LogicalPins
import PinNumbering.Proofs.FlatPins.Internal
import PinNumbering.Proofs.FlatPins.RoundTrip
import PinNumbering.Proofs.Tables.Faults
import PinNumbering.Proofs.Classes.Sites
import PinNumbering.Proofs.Classes.Maps
import PinNumbering.Proofs.RootPins.Ways
import PinNumbering.Proofs.Sessions.NeedsLayout
import PinNumbering.Proofs.Sessions.Cells
import PinNumbering.Proofs.Json.Faithful
import PinNumbering.Proofs.Tables.RoundTrip
import PinNumbering.Proofs.Builder.Blocks
import PinNumbering.Proofs.Builder.Tiles
import PinNumbering.Proofs.Builder.Invariants
import PinNumbering.Proofs.Tables.Totality
import PinNumbering.Proofs.Builder.Classes
import PinNumbering.Proofs.FlatPins.Classification
import PinNumbering.Proofs.Names.PortPins
import PinNumbering.Proofs.Names.Positions
import PinNumbering.Proofs.Names.PinNames
import PinNumbering.Proofs.Names.NamedPorts
import PinNumbering.Proofs.Names.ClassNames
import PinNumbering.Proofs.Placement.Compatibility
import PinNumbering.Proofs.FlatPins.Bounds
import PinNumbering.Proofs.Classes.Primitives
import PinNumbering.Proofs.Builder.Primitives
import PinNumbering.Proofs.Failures.Ranges
import PinNumbering.Proofs.FlatPins.Totals
import PinNumbering.Proofs.Builder.BlockPorts
import PinNumbering.Proofs.Builder.RootClasses
import PinNumbering.Proofs.Machine.Faithful
import PinNumbering.Proofs.Machine.Limits
import PinNumbering.Proofs.Machine.RootPins
import PinNumbering.Proofs.Machine.Layout
import PinNumbering.Proofs.Machine.FlatPins
import PinNumbering.Proofs.Machine.Names
import PinNumbering.Proofs.Machine.Consistency
import PinNumbering.Proofs.Machine.Accepted
import PinNumbering.Proofs.Machine.Locations
import PinNumbering.Proofs.Machine.Builder
import PinNumbering.Proofs.Machine.Building
import PinNumbering.Proofs.Machine.Partition
import PinNumbering.Proofs.Machine.Totality
import PinNumbering.Proofs.Machine.Classification
import PinNumbering.Proofs.Machine.GraphPins
import PinNumbering.Proofs.Machine.ClassNames
import PinNumbering.Proofs.Machine.Sessions
import PinNumbering.Proofs.Machine.Arithmetic
