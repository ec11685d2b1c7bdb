import FieldPatch.Diagnostic

namespace FieldPatch

structure Settings where
  logFaults : Bool := true
  logDiagnostics : Bool := false
  logContext : Bool := false
  logTagMap : Bool := false
  latchFaults : Bool := true
deriving DecidableEq, Repr

namespace Settings

def verbose : Settings := ⟨true, true, true, true, true⟩

def channelEnabled (s : Settings) : Channel → Bool
  | .fault => s.logFaults
  | .info => s.logDiagnostics
  | .context => s.logContext

/-- What comes of a diagnostic: it is reported if its channel is on, and lost otherwise. -/
def report (d : Diagnostic) (s : Settings) : List Diagnostic :=
  if s.channelEnabled d.channel then [d] else []

def switchText (on : Bool) : String := if on then "on" else "off"

def summary (s : Settings) : String :=
  "fault logging: " ++ switchText s.logFaults ++
  " | diagnostic logging: " ++ switchText s.logDiagnostics ++
  " | context logging: " ++ switchText s.logContext ++
  " | tag map logging: " ++ switchText s.logTagMap ++
  " | fault latching: " ++ switchText s.latchFaults

end Settings

end FieldPatch
