import FieldPatch.Settings.Reading
import FieldPatch.Toml.Document

namespace FieldPatch.Toml

def Node.flag? : Node → Option Bool
  | .value flag => flag
  | .table _ _ | .tables _ => none

/-- The document that a TOML text spells, as far as settings look into it. -/
def document? (text : String) : Option Settings.Document :=
  (parse text).map fun entries => entries.map fun (key, node) => (key, node.flag?)

end FieldPatch.Toml
