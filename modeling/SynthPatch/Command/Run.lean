import SynthPatch.Command.Arguments
import SynthPatch.Patch.Basic
import SynthPatch.Config.Reader
import SynthPatch.Patch.Document
import SynthPatch.Voice.Performance
/-!
# Running a command

A command reads the configuration, the wavetables and the patch it is for, and reports on the patch,
writes its document, or tries one voice of it.  Where files come from is left open, so a command can
be run on the files of a computer as well as on any other supply of texts.

Main results:

- Function {lit}`Command.run`: what comes of a command.
- Theorem {lit}`Outcome.code_eq_zero_iff`: a command succeeds if there is nothing to complain about.
-/

namespace SynthPatch

/-! ## Files -/

/-- A supply of files. -/
structure Files (m : Type → Type) where
  /-- The text of a file, none if there is no such file. -/
  read : String → m (Option String)
  /-- Write a text to a file; false if there is no place for such a file. -/
  write : String → String → m Bool
  /-- The configuration that is used where no other is named, if there is one. -/
  usual : m (Option String)

/-! ## Outcomes -/

/-- What ends a command. -/
inductive Failure where
  /-- There is no such file. -/
  | noFile
  /-- A file of the equipment cannot be read. -/
  | cannotRead (path : String)
  | config (error : ConfigError)
  | wavetables (error : WavetableError)
  | source (file : String) (error : ParseError)
  | voice (error : VoiceError Float)

/-- The complaint about a file that is not there. -/
def noFileText : String :=
  "No such file or directory (os error 2)"

namespace Failure

/-- The failure in words. -/
def message : Failure → String
  | noFile => noFileText
  | cannotRead path => s!"cannot read {path}: {noFileText}"
  | config .malformed => "invalid config: not a configuration"
  | config (.invalid fault) => s!"invalid config: {fault.message}"
  | wavetables .malformed => "invalid wavetable file: not a document of wavetables"
  | wavetables (.invalid fault) => fault.message
  | source file (.shape line) => s!"{file}: line {line}: not a statement of a patch"
  | source file (.meaning line fault) => s!"{file}: line {line}: {fault.message}"
  | voice error => error.message

end Failure

/-- The name that a command reports under. -/
def programName : String :=
  "patchlang"

/-- The version of the program. -/
def versionText : String :=
  "0.1.0"

/-- What comes of a command. -/
structure Outcome where
  /-- The text that is printed. -/
  printed : String := ""
  /-- Why the patch cannot be played. -/
  complaints : List String := []
  failure : Option Failure := none

namespace Outcome

/-- Nothing but a text is printed. -/
def ofText (printed : String) : Outcome :=
  { printed }

/-- The version is printed. -/
def version : Outcome :=
  ofText (programName ++ " " ++ versionText ++ "\n")

/-- The text that is put out as an error. -/
def errors (o : Outcome) : String :=
  String.join (o.complaints.map (· ++ "\n")) ++
    match o.failure with
    | some failure => programName ++ ": " ++ failure.message ++ "\n"
    | none => ""

/-- The exit code of the program. -/
def code (o : Outcome) : Nat :=
  if o.complaints.isEmpty && o.failure.isNone then 0 else 1

/-- A command succeeds if there is nothing to complain about. -/
theorem code_eq_zero_iff {o : Outcome} : o.code = 0 ↔ o.complaints = [] ∧ o.failure = none := by
  simp [code]

/-- The exit code of a command line that is not understood. -/
def misuseCode : Nat :=
  2

end Outcome

/-! ## Reports -/

namespace Patch

/-- The errors of a patch, each with the file it was read from. -/
def complaints (p : Patch Float) (file : String) : List String :=
  p.errors.map fun e => s!"{file}: error: {e.message}"

/-- A patch in numbers. -/
def summary (p : Patch Float) : String :=
  s!"{p.modules.length} modules, {p.cables.length} patches, {p.envelopes.length} envelopes, " ++
    s!"{p.tweaks.length} tweaks, {p.warnings.length} warnings"

end Patch

namespace Voice

/-- A row of the table of a voice. -/
def row (cells : String × String × String × String) : String :=
  let (name, kind, start, stop) := cells
  Text.flushLeft 12 name ++ " " ++ Text.flushLeft 12 kind ++ " " ++ Text.flushRight 8 start ++
    " " ++ Text.flushRight 8 stop ++ "\n"

/-- A point of time, if there is one. -/
def timeText : Option Float → String
  | some t => writePlaces 3 t
  | none => "-"

/-- When each module of a voice starts and stops. -/
def table (v : Voice Float) : String :=
  row ("module", "type", "start", "stop") ++
    String.join (v.modules.toList.map fun (id, m) =>
      row (id, m.kind.tag, timeText m.started, timeText m.stopped))

end Voice

/-! ## Commands -/

namespace Trial

/-- The values a trial gives to parameters. -/
def overrides (t : Trial) : Named Float :=
  t.assignments.foldl (fun values (name, x) => values.insert name x)
    (((∅ : Named Float).insert "pitch" t.pitch).insert "level" t.level)

/-- How long a note is held that has no duration of its own. -/
def heldFor : Float :=
  1

/-- Try one voice of a patch: it is started, released and torn down. -/
def report (t : Trial) (rack : Rack Float) (p : Patch Float) (draws : Nat → Draws Float) :
    Except (VoiceError Float) String := do
  let voice ← Voice.build rack p t.overrides draws
  let started := voice.start 0 t.duration (t.bend.map fun goal => { goal, time := none })
  let (released, teardown) := started.release (t.duration.getD heldFor)
  return released.table ++ s!"teardown at {writePlaces 3 teardown}s\n"

end Trial

namespace Command

variable {m : Type → Type} [Monad m]

/-- The configuration of a command. -/
def loadConfig (files : Files m) (c : Command) : ExceptT Failure m (Config Float) := do
  let text ← match c.config with
    | some path =>
      match ← files.read path with
      | some text => pure (some text)
      | none => throw (.cannotRead path)
    | none => files.usual
  let config ← match text with
    | some text => liftExcept (Config.ofDocument text)
    | none => pure .standard
  return { config with wavetables := c.wavetables.or config.wavetables }
where
  /-- What was read from a text, or why it cannot be used. -/
  liftExcept (result : Except ConfigError (Config Float)) : ExceptT Failure m (Config Float) :=
    match result with
    | .ok config => pure config
    | .error e => throw (.config e)

/-- The rack of a command. -/
def loadRack (files : Files m) (c : Command) : ExceptT Failure m (Rack Float) := do
  let config ← loadConfig files c
  match config.wavetables with
  | none => return { Rack.standard with config }
  | some path =>
    match ← files.read path with
    | none => throw (.cannotRead path)
    | some text =>
      match Wavetables.ofDocument text with
      | .ok wavetables => return { Rack.standard with config, wavetables }
      | .error e => throw (.wavetables e)

/-- The patch of a command. -/
def loadPatch (files : Files m) (c : Command) (rack : Rack Float) :
    ExceptT Failure m (Patch Float) := do
  match ← files.read c.file with
  | none => throw .noFile
  | some text =>
    match Patch.compile rack text with
    | .ok p => return p
    | .error e => throw (.source c.file e)

/-- Do what a command asks for with its patch. -/
def act (files : Files m) (c : Command) (rack : Rack Float) (p : Patch Float)
    (draws : Nat → Draws Float) : ExceptT Failure m Outcome := do
  let complaints := p.complaints c.file
  match c.action with
  | .check =>
    if p.isValid then return .ofText s!"{c.file}: ok ({p.summary})\n"
    else return { complaints }
  | .document none => return { printed := p.documentText ++ "\n", complaints }
  | .document (some output) =>
    if ← files.write output p.documentText then return { complaints }
    else throw .noFile
  | .play trial =>
    if p.isValid then
      match trial.report rack p draws with
      | .ok text => return .ofText text
      | .error e => throw (.voice e)
    else return { complaints }

/-- What comes of a command. -/
def run (files : Files m) (c : Command) (draws : Nat → Draws Float) : m Outcome := do
  let result : Except Failure Outcome ← ExceptT.run do
    let rack ← loadRack files c
    let p ← loadPatch files c rack
    act files c rack p draws
  match result with
  | .ok outcome => return outcome
  | .error failure => return { failure := some failure }

end Command
end SynthPatch
