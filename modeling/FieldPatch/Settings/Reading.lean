import FieldPatch.Collection.Table
import FieldPatch.Settings

namespace FieldPatch.Settings

/-- Settings are refused when their file cannot be read as text, or when the text is no document
with flags for all switches that it names. -/
inductive ReadFault where
  | unreadable
  | malformed
deriving DecidableEq, Repr

/-- What is found where settings are looked for. -/
inductive Source where
  | missing
  | directory
  | file (content : ByteArray)

/-- The entries of a document, each a flag or something else. -/
abbrev Document : Type := Table String (Option Bool)

/-- A missing switch keeps its default, and one that is there must be a flag. -/
def switch? (key : String) (default : Bool) (document : Document) : Option Bool :=
  match Table.get? key document with
  | none => some default
  | some flag => flag

/-- The settings in a document; keys other than the switches are passed over. -/
def ofDocument? (document : Document) : Option Settings := do
  let standard : Settings := {}
  let logFaults ← switch? "log_faults" standard.logFaults document
  let logDiagnostics ← switch? "log_diagnostics" standard.logDiagnostics document
  let logContext ← switch? "log_context" standard.logContext document
  let logTagMap ← switch? "log_tag_map" standard.logTagMap document
  let latchFaults ← switch? "latch_faults" standard.latchFaults document
  return { logFaults, logDiagnostics, logContext, logTagMap, latchFaults }

section Format

variable (document? : String → Option Document)

def parse (text : String) : Except ReadFault Settings :=
  match (document? text).bind ofDocument? with
  | some settings => .ok settings
  | none => .error .malformed

/-- Settings from a file; without a file all switches keep their defaults. -/
def load : Source → Except ReadFault Settings
  | .missing => .ok {}
  | .directory => .error .unreadable
  | .file content =>
    match String.fromUTF8? content with
    | some text => parse document? text
    | none => .error .unreadable

end Format

end FieldPatch.Settings
