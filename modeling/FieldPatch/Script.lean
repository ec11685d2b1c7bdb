import FieldPatch.Session

namespace FieldPatch

structure ScriptStep where
  line : Nat
  path : String
  value : String
deriving DecidableEq, Repr

/-- A line that does not have exactly one colon. -/
structure ScriptFault where
  line : Nat
  text : String
deriving DecidableEq, Repr

def ScriptFault.message (fault : ScriptFault) : String :=
  let line := fault.line
  let text := fault.text
  s!"edit has invalid number of separators | line: {line} | {text}"

namespace ScriptStep

def separator : Char := ':'

/-- Reads the line with the number `line`. A line without a path is no step and no fault. -/
def parse (line : Nat) (text : String) : Except ScriptFault (Option ScriptStep) :=
  match Text.split separator text with
  | [path, value] =>
    .ok (if path.isEmpty then none else some ⟨line, path, Text.dropSpaces value⟩)
  | _ => .error ⟨line, text⟩

end ScriptStep

/-- Edits of one config, a line each. -/
structure Script where
  /-- The script asks for the config to be removed, which is always refused. -/
  removed : Bool := false
  steps : List ScriptStep := []
deriving DecidableEq, Repr

namespace Script

/-- The lines of a text. A line ends with a line feed, or with a carriage return and a line feed;
the last one may end with the text. -/
def lines (text : String) : List String :=
  let parts := text.toList.splitOn '\n'
  let ended := parts.dropLast.map fun cs => if cs.getLast? = some '\r' then cs.dropLast else cs
  let rest := parts.getLast?.getD []
  (if rest.isEmpty then ended else ended ++ [rest]).map String.ofList

def numbered (start : Nat) : List String → List (Nat × String)
  | [] => []
  | line :: rest => (start, line) :: numbered (start + 1) rest

def ofNumbered : List (Nat × String) → List ScriptStep × List ScriptFault
  | [] => ([], [])
  | (n, line) :: rest =>
    let (steps, faults) := ofNumbered rest
    match ScriptStep.parse n line with
    | .ok (some step) => (step :: steps, faults)
    | .ok none => (steps, faults)
    | .error fault => (steps, fault :: faults)

def ofLines (lines : List String) : Script × List ScriptFault :=
  let (steps, faults) := ofNumbered (numbered 1 lines)
  ({ steps }, faults)

/-- Reads a text, passing over its blank lines. -/
def parse (text : String) : Script × List ScriptFault :=
  let (steps, faults) :=
    ofNumbered ((numbered 1 (lines text)).filter fun (_, line) => !Text.allBlank line)
  ({ steps }, faults)

end Script

/-- How a script went: refused as a whole, or one outcome for each step. -/
structure ScriptReport where
  rejected : Option Fault := none
  outcomes : List Outcome := []

namespace ScriptReport

def faults (report : ScriptReport) : List Fault :=
  report.rejected.toList ++ report.outcomes.filterMap Outcome.fault?

def skipped (report : ScriptReport) : Nat := report.outcomes.countP Outcome.isSkipped

def mutated (report : ScriptReport) : Nat := report.outcomes.countP Outcome.mutated

end ScriptReport

/-- What a script leaves: its report, the config, the session, and what was reported. -/
structure ScriptRun where
  report : ScriptReport
  root : Value RecordType
  session : Session
  events : List Event

namespace Session

/-- Applies steps in order, the first of which is at `position` of `count`. -/
def applySteps (base : Request) (count position : Nat) (target : Object) (s : Session) :
    List ScriptStep → ScriptRun
  | [] => ⟨{}, target.value, s, []⟩
  | step :: rest =>
    let turn := s.edit { base with path := step.path, value := step.value } target
    let run := applySteps base count (position + 1) { target with value := turn.root } turn.session
      rest
    { run with
      report := { run.report with outcomes := turn.outcome :: run.report.outcomes }
      events := .applying base position count step.line :: turn.notes.map .diagnostic ++
        run.events }

/-- Applies a script to a config. `base` gives type, key and mod of every step. -/
def applyScript (script : Script) (base : Request) (target : Object) (s : Session) : ScriptRun :=
  if script.removed then
    let fault := Fault.removedConfig base.fileKey base.typeName
    let notes := s.settings.report (remark .fault base fault.message)
    ⟨{ rejected := some fault }, target.value, s, notes.map .diagnostic⟩
  else s.applySteps base script.steps.length 1 target script.steps

end Session

end FieldPatch
