import FieldPatch.Schema.TagTable
import FieldPatch.Settings

namespace FieldPatch

inductive LogLevel where
  | error
  | warn
  | info
  | debug
  | trace
deriving DecidableEq, Repr

structure LogRecord where
  level : LogLevel
  message : String
deriving DecidableEq, Repr

/-- What a session tells the world, in the order in which it happens. -/
inductive Event where
  | diagnostic (d : Diagnostic)
  | opened (settings : Settings)
  | knows (tags : TagTable)
  /-- A script goes on to its step at `position` of `count`, which stands on `line`. -/
  | applying (request : Request) (position count line : Nat)
  /-- A blank file key was found to be `key`. -/
  | resolvedKey (key type : String)

namespace Event

def channelLevel : Channel → LogLevel
  | .fault => .warn
  | .info => .info
  | .context => .trace

def diagnostic? : Event → Option Diagnostic
  | diagnostic d => some d
  | _ => none

def record : Event → LogRecord
  | diagnostic d => ⟨channelLevel d.channel, d.text⟩
  | opened settings => ⟨.debug, "config edit settings | " ++ settings.summary⟩
  | knows tags =>
    let count := tags.length
    ⟨.info, s!"type tags ({count}):\n" ++ tags.describe⟩
  | applying request position count line =>
    let index := request.modIndex
    let mod := request.modId
    let key := request.fileKey
    ⟨.debug, s!"Mod {index} ({mod}) applying edit {position} of {count} to config {key}" ++
      s!" (line {line})"⟩
  | resolvedKey key type =>
    ⟨.trace, s!"resolved blank file key to {key} for type {type}"⟩

end Event

/-- Where diagnostics go: into memory, in order, or to the log. -/
inductive Sink where
  | memory (held : List Diagnostic)
  | log

namespace Sink

def held : Sink → List Diagnostic
  | memory held => held
  | log => []

def on (sink : Sink) (channel : Channel) : List Diagnostic :=
  sink.held.filter (·.channel == channel)

/-- The sink after some events, and the records that they leave in the log. -/
def receive (events : List Event) : Sink → Sink × List LogRecord
  | memory held =>
    (memory (held ++ events.filterMap Event.diagnostic?),
      (events.filter (·.diagnostic?.isNone)).map Event.record)
  | log => (log, events.map Event.record)

def clear : Sink → Sink
  | memory _ => memory []
  | log => log

end Sink

end FieldPatch
