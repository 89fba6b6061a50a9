import SynthPatch.Decimal.Numeral
import SynthPatch.Text
/-!
# The command line

A command line names a command, the patch file it is for, and options before or after them.  An
option is written with two dashes and its name, or with one dash and its letter; its value is
attached or is the next word.  A value that is a word of its own does not begin with a dash, and no
option but an assignment may come twice.

Main results:

- Function {lit}`Invocation.read?`: what a command line asks for.
-/

namespace SynthPatch
namespace Command

/-! ## Options -/

/-- An option that a command knows; every option takes a value. -/
structure Switch where
  name : String
  letter : Option Char := none
deriving DecidableEq, Repr

/-- An option that was given. -/
structure Setting where
  name : String
  value : String
deriving DecidableEq, Repr

/-- What a word of a command line is. -/
inductive Word where
  /-- An option with its value attached. -/
  | setting (setting : Setting)
  /-- An option whose value is the next word. -/
  | switch (name : String)
  | operand
  /-- It looks like an option, but there is no such option. -/
  | unknown
deriving DecidableEq, Repr

/-- What a word is that begins with two dashes, given what follows them. -/
def longWord (known : List Switch) (body : List Char) : Word :=
  let name := String.ofList (body.takeWhile (· != '='))
  if known.any (·.name = name) then
    match body.dropWhile (· != '=') with
    | _ :: value => .setting ⟨name, String.ofList value⟩
    | [] => .switch name
  else .unknown

/-- What a word is that begins with one dash, given what follows it. -/
def shortWord (known : List Switch) (letter : Char) (attached : List Char) : Word :=
  match known.find? (·.letter = some letter), attached with
  | none, _ => .unknown
  | some s, [] => .switch s.name
  | some s, '=' :: value | some s, value => .setting ⟨s.name, String.ofList value⟩

/-- What a word is, to a command that knows the given options. -/
def readWord (known : List Switch) (word : String) : Word :=
  match word.toList with
  | '-' :: '-' :: c :: rest => longWord known (c :: rest)
  | ['-', '-'] | ['-'] => .operand
  | '-' :: letter :: attached => shortWord known letter attached
  | _ => .operand

/-- A word may be the value of the option before it. -/
def isValue (word : String) : Bool :=
  word == "-" || word.toList.head? != some '-'

/-- The options up to the first word that is none, and the words from there on. -/
def spanOptions (known : List Switch) : List String → Option (List Setting × List String)
  | [] => some ([], [])
  | word :: rest =>
    match readWord known word with
    | .operand => some ([], word :: rest)
    | .unknown => none
    | .setting s => (spanOptions known rest).map fun (found, rest) => (s :: found, rest)
    | .switch name =>
      match rest with
      | [] => none
      | value :: rest =>
        if isValue value then
          (spanOptions known rest).map fun (found, rest) => (⟨name, value⟩ :: found, rest)
        else none

/-- The options of a command and its one operand; behind two dashes nothing is an option. -/
def readOperand (known : List Switch) (words : List String) : Option (List Setting × String) := do
  match ← spanOptions known words with
  | (before, ["--", operand]) => return (before, operand)
  | (_, "--" :: _) => none
  | (before, operand :: rest) =>
    match ← spanOptions known rest with
    | (after, []) | (after, ["--"]) => return (before ++ after, operand)
    | _ => none
  | _ => none

/-! ## Values -/

/-- The values given for an option. -/
def valuesOf (settings : List Setting) (name : String) : List String :=
  (settings.filter (·.name = name)).map (·.value)

/-- The value of an option that may come once; {lit}`none` at the outside if it is not a value. -/
def single {β : Type} (settings : List Setting) (name : String) (read : String → Option β) :
    Option (Option β) :=
  match valuesOf settings name with
  | [] => some none
  | [value] => (read value).map some
  | _ => none

/-- The path of a file. -/
def readPath (value : String) : Option String :=
  if value.isEmpty then none else some value

/-- A number. -/
def readNumber (value : String) : Option Float :=
  readFloat value.toList

/-- An assignment to a parameter, split at its first equals sign. -/
def readAssignment (value : String) : Option (String × Float) :=
  match value.toList.span (· != '=') with
  | (name, _ :: number) => (readFloat (Text.trim number)).map fun x =>
      (String.ofList (Text.trim name), x)
  | (_, []) => none

end Command

/-! ## Commands -/

/-- How a voice is tried out. -/
structure Trial where
  pitch : Float
  level : Float
  duration : Option Float
  /-- The pitch to bend to. -/
  bend : Option Float
  assignments : List (String × Float)

/-- What is to be done with a patch. -/
inductive Action where
  | check
  /-- Write the document of the patch to a file, or print it. -/
  | document (output : Option String)
  | play (trial : Trial)

/-- A command with the files it is for. -/
structure Command where
  config : Option String
  wavetables : Option String
  file : String
  action : Action

/-- What a command line asks for. -/
inductive Invocation where
  | version
  | run (command : Command)

namespace Command

/-- The options that every command knows. -/
def sharedSwitches : List Switch :=
  [⟨"config", none⟩, ⟨"wavetables", none⟩]

/-- The options of a trial. -/
def trialSwitches : List Switch :=
  [⟨"pitch", none⟩, ⟨"level", none⟩, ⟨"duration", none⟩, ⟨"bend", none⟩, ⟨"set", none⟩]

/-- The option that names the file a document is written to. -/
def outputSwitch : Switch :=
  ⟨"output", some 'o'⟩

/-- The options that a command of a name knows, and the action they make. -/
def actionOf? : String → Option (List Switch × (List Setting → Option Action))
  | "check" => some ([], fun _ => some .check)
  | "ir" => some ([outputSwitch], fun settings =>
      (single settings outputSwitch.name readPath).map .document)
  | "play" => some (trialSwitches, fun settings => do
      let pitch ← single settings "pitch" readNumber
      let level ← single settings "level" readNumber
      let duration ← single settings "duration" readNumber
      let bend ← single settings "bend" readNumber
      let assignments ← (valuesOf settings "set").mapM readAssignment
      return .play {
        pitch := pitch.getD 440, level := level.getD 0.8, duration, bend, assignments })
  | _ => none

/-- The command of a name, with the options before the name and the words behind it. -/
def ofWords? (before : List Setting) (name : String) (words : List String) : Option Command := do
  let (switches, action) ← actionOf? name
  let (settings, file) ← readOperand (sharedSwitches ++ switches) words
  let file ← readPath file
  let config := (← single settings "config" readPath).or (← single before "config" readPath)
  let wavetables :=
    (← single settings "wavetables" readPath).or (← single before "wavetables" readPath)
  return { config, wavetables, file, action := ← action settings }

end Command

namespace Invocation

/-- A word that asks for the version. -/
def asksVersion (word : String) : Bool :=
  word == "--version" || word.startsWith "-V"

/-- What a command line asks for, if it is understood.  The version may be asked for in place of a
command. -/
def read? (words : List String) : Option Invocation :=
  let ahead := words.takeWhile (!asksVersion ·)
  match Command.spanOptions Command.sharedSwitches ahead with
  | some (before, name :: rest) =>
    (Command.ofWords? before name (rest ++ words.drop ahead.length)).map .run
  | some (before, []) =>
    if ahead.length < words.length ∧ (Command.single before "config" Command.readPath).isSome ∧
        (Command.single before "wavetables" Command.readPath).isSome then some .version
    else none
  | none => none

end Invocation
end SynthPatch
