import FieldPatch.Registry
import FieldPatch.Settings.Reading
import FieldPatch.Toml.Flags
import FieldPatch.Value.Equality
import FieldPatch.Proofs.Slot.Reach
import FieldPatch.Proofs.Slot.Change
import FieldPatch.Proofs.Slot.Lens
import FieldPatch.Proofs.Edit.Destination
import FieldPatch.Proofs.Session.Turn
import FieldPatch.Proofs.Edit.Residue
import FieldPatch.Proofs.Text.Parts
import FieldPatch.Proofs.Text.Spaces
import FieldPatch.Proofs.Text.Trim
import FieldPatch.Proofs.Number.Written
import FieldPatch.Proofs.Context.Anchored
import FieldPatch.Proofs.Context.Layered
import FieldPatch.Proofs.Edit.Address
import FieldPatch.Proofs.Edit.Move
import FieldPatch.Proofs.Edit.Steady
import FieldPatch.Proofs.Session.Steady
import FieldPatch.Proofs.Session.Workspace
import FieldPatch.Proofs.Schema.Fits
import FieldPatch.Proofs.Edit.Typed
import FieldPatch.Proofs.Session.Trail
import FieldPatch.Proofs.Context.Spelled
import FieldPatch.Proofs.Edit.Alike
import FieldPatch.Proofs.Edit.Spelled
import FieldPatch.Proofs.Path.Grammar
import FieldPatch.Proofs.Session.Spelled
import FieldPatch.Proofs.Edit.Account
import FieldPatch.Proofs.Edit.Change
import FieldPatch.Proofs.Edit.Origin
import FieldPatch.Proofs.Edit.Layers
import FieldPatch.Proofs.Session.Calls
import FieldPatch.Proofs.Session.Depth
import FieldPatch.Proofs.Edit.Beside
import FieldPatch.Proofs.Session.Carried
import FieldPatch.Proofs.Session.Latch
import FieldPatch.Proofs.Edit.Channels
import FieldPatch.Proofs.Session.Channels
import FieldPatch.Proofs.Session.Cut
import FieldPatch.Proofs.Edit.Told
import FieldPatch.Proofs.Session.Afresh
import FieldPatch.Proofs.Session.Told
import FieldPatch.Proofs.Schema.Subtyping
import FieldPatch.Proofs.Script.Written
import FieldPatch.Proofs.Schema.Shaped
import FieldPatch.Proofs.Edit.Marked
import FieldPatch.Proofs.Session.Addressed
import FieldPatch.Proofs.Registry.Apart
import FieldPatch.Proofs.Edit.Entry
import FieldPatch.Proofs.Edit.Refused
import FieldPatch.Proofs.Session.Arrival
import FieldPatch.Proofs.Session.Refused
import FieldPatch.Proofs.Edit.Contents
import FieldPatch.Proofs.Session.Lists
import FieldPatch.Proofs.Session.Maps
import FieldPatch.Proofs.Session.Frame
import FieldPatch.Proofs.Edit.Revisit
import FieldPatch.Proofs.Edit.Effect
import FieldPatch.Proofs.Edit.Repeat
import FieldPatch.Proofs.Session.Next
import FieldPatch.Proofs.Session.Retry
import FieldPatch.Proofs.Session.Commute
import FieldPatch.Proofs.Edit.Plain
import FieldPatch.Proofs.Edit.Pointed
import FieldPatch.Proofs.Session.Pointed
import FieldPatch.Proofs.Path.Rejected
import FieldPatch.Proofs.Session.Sets
import FieldPatch.Proofs.Edit.Denoted
import FieldPatch.Proofs.Edit.Underway
import FieldPatch.Proofs.Edit.Landed
import FieldPatch.Proofs.Session.Progress
import FieldPatch.Proofs.Path.Suffix
import FieldPatch.Proofs.Number.Numeral
import FieldPatch.Proofs.Script.Accounted
import FieldPatch.Proofs.Value.Tuple
import FieldPatch.Proofs.Context.Shifted
import FieldPatch.Proofs.Collection.Keyed
import FieldPatch.Proofs.Registry.Identity
import FieldPatch.Proofs.Schema.Declared
import FieldPatch.Proofs.Schema.Instance
import FieldPatch.Proofs.Value.Parts
import FieldPatch.Proofs.Value.Equality
import FieldPatch.Proofs.Slot.Opened
