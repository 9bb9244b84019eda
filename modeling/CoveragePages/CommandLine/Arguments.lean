/-
The command line: which commands there are, and how they are read from arguments. Options may come
before or after other arguments; the shared ones are understood at every level, where the inner
level counts.
-/
import CoveragePages.Coverage.Limits
import CoveragePages.Files.Path
import CoveragePages.Surface.Basic

namespace CoveragePages

/-! ## Commands -/

/-- What the program is asked to do. -/
inductive Command where
  | render (kind : PageKind) (data : Path) (output : Option Path)
  | plan (data : Path) (kind : PageKind)
  | build (directory : Path) (output : Option Path) (quiet : Bool)
  | validate (settings : Option Path)
  | show_ (settings : Option Path)

/-- A command and the shared options. -/
structure Invocation where
  settings : Option Path
  limits : Option Limits
  verbose : Bool
  command : Command

namespace Arguments

/-- Why arguments are not understood. -/
inductive Refusal where
  | unknownOption (argument : String)
  | repeatedOption (name : String)
  | noValue (name : String)
  | unwantedValue (name : String)
  | badValue (name value : String)
  | unexpected (argument : String)
  | missing (name : String)
  | endless
  deriving DecidableEq

def Refusal.message : Refusal → String
  | .unknownOption argument => "unknown option: " ++ argument
  | .repeatedOption name => "option given more than once: --" ++ name
  | .noValue name => "option needs a value: --" ++ name
  | .unwantedValue name => "option takes no value: --" ++ name
  | .badValue name value => "bad value for " ++ name ++ ": " ++ value
  | .unexpected argument => "unexpected argument: " ++ argument
  | .missing name => "missing argument: " ++ name
  | .endless => "arguments do not end"

/-! ## Options -/

/-- An option: its name, its letter if it has one, and whether it takes a value. -/
structure OptionSpec where
  name : String
  letter : Option Char
  takesValue : Bool

/-- The options that every command understands. -/
def sharedOptions : List OptionSpec :=
  [⟨"config", none, true⟩, ⟨"limits", none, true⟩, ⟨"verbose", some 'v', false⟩]

/-- The option for the output. -/
def outputOption : OptionSpec := ⟨"output", some 'o', true⟩

/-- The arguments of one level: the options with their values, and the others in order. -/
structure Parsed where
  options : Dict String := []
  others : List String := []

/-- Notes an option; each may come once. -/
def Parsed.note (p : Parsed) (name value : String) : Except Refusal Parsed :=
  match p.options.get? name with
  | some _ => .error (.repeatedOption name)
  | none => .ok { p with options := p.options.insert name value }

/-- Whether an argument has the form of an option. -/
def looksLikeOption (argument : String) : Bool :=
  match argument.toList with
  | '-' :: _ :: _ => true
  | _ => false

/-- Takes the value of an option from the arguments that follow. -/
def takeValue (name : String) : List String → Except Refusal (String × List String)
  | [] => .error (.noValue name)
  | argument :: rest =>
    if looksLikeOption argument then .error (.noValue name) else .ok (argument, rest)

/-- Reads an option that is given by its name. -/
def readLong (specs : List OptionSpec) (p : Parsed) (body : List Char) (rest : List String) :
    Except Refusal (Parsed × List String) := do
  let (name, attached) := match Text.breakOn? ['='] body with
    | some (name, value) => (String.ofList name, some (String.ofList value))
    | none => (String.ofList body, none)
  match specs.find? (·.name == name) with
  | none => .error (.unknownOption name)
  | some spec =>
    match spec.takesValue, attached with
    | true, some value => return (← p.note name value, rest)
    | true, none =>
      let (value, rest) ← takeValue name rest
      return (← p.note name value, rest)
    | false, none => return (← p.note name "", rest)
    | false, some _ => .error (.unwantedValue name)

/-- Reads options that are given by their letters, one of which may be followed by its value. -/
def readLetters (specs : List OptionSpec) (p : Parsed) (rest : List String) :
    List Char → Except Refusal (Parsed × List String)
  | [] => .ok (p, rest)
  | c :: cs => do
    match specs.find? (·.letter == some c) with
    | none => .error (.unknownOption (String.singleton c))
    | some spec =>
      if spec.takesValue then
        match cs with
        | [] =>
          let (value, rest) ← takeValue spec.name rest
          return (← p.note spec.name value, rest)
        | '=' :: value => return (← p.note spec.name (String.ofList value), rest)
        | value => return (← p.note spec.name (String.ofList value), rest)
      else readLetters specs (← p.note spec.name "") rest cs

/-- Reads the arguments of a level. With `leads`, the first argument that is not an option names a
command, and the level ends there. Each round takes an argument, so as much fuel as there are
arguments is enough. -/
def readLevel (specs : List OptionSpec) (leads : Bool) :
    Nat → Parsed → List String → Except Refusal (Parsed × List String)
  | _, p, [] => .ok (p, [])
  | 0, _, _ :: _ => .error .endless
  | fuel + 1, p, argument :: rest =>
    match argument.toList with
    | ['-', '-'] =>
      match leads, rest with
      | true, other :: _ => .error (.unexpected other)
      | _, rest => .ok ({ p with others := p.others ++ rest }, [])
    | '-' :: '-' :: body => do
      let (p, rest) ← readLong specs p body rest
      readLevel specs leads fuel p rest
    | '-' :: c :: cs => do
      let (p, rest) ← readLetters specs p rest (c :: cs)
      readLevel specs leads fuel p rest
    | _ =>
      if leads then .ok ({ p with others := [argument] }, rest)
      else readLevel specs leads fuel { p with others := p.others ++ [argument] } rest

/-- Reads all arguments of a level. -/
def level (leads : Bool) (own : List OptionSpec) (arguments : List String) :
    Except Refusal (Parsed × List String) :=
  readLevel (sharedOptions ++ own) leads arguments.length {} arguments

/-! ## Values -/

/-- Takes a text as a path, which must not be empty. -/
def pathValue (name text : String) : Except Refusal Path :=
  if text.isEmpty then .error (.badValue name text) else .ok (.ofText text)

/-- The path of an option, if it is given. -/
def Parsed.path? (p : Parsed) (name : String) : Except Refusal (Option Path) :=
  match p.options.get? name with
  | none => .ok none
  | some text => return some (← pathValue name text)

/-- The limits, if they are given. -/
def Parsed.limits? (p : Parsed) : Except Refusal (Option Limits) :=
  match p.options.get? "limits" with
  | none => .ok none
  | some text => match Limits.parse text with
    | .ok limits => .ok (some limits)
    | .error _ => .error (.badValue "limits" text)

/-- Whether a flag is given. -/
def Parsed.flag (p : Parsed) (name : String) : Bool := (p.options.get? name).isSome

/-- The kind of page that is given; an index page if none is. -/
def Parsed.kind (p : Parsed) : Except Refusal PageKind :=
  match p.options.get? "page" with
  | none => .ok .index
  | some text =>
    if text = PageKind.index.name then .ok .index
    else if text = PageKind.source.name then .ok .source
    else .error (.badValue "page" text)

/-- The only argument of a level. -/
def Parsed.single (p : Parsed) (name : String) : Except Refusal Path :=
  match p.others with
  | [] => .error (.missing name)
  | [text] => pathValue name text
  | _ :: other :: _ => .error (.unexpected other)

/-- Checks that a level has no arguments but options. -/
def Parsed.none (p : Parsed) : Except Refusal Unit :=
  match p.others with
  | [] => .ok ()
  | other :: _ => .error (.unexpected other)

/-- The shared options of a level. -/
structure Shared where
  settings : Option Path := none
  limits : Option Limits := none
  verbose : Bool := false

/-- The shared options after those of an inner level. -/
def Shared.inner (s : Shared) (p : Parsed) : Except Refusal Shared := do
  return {
    settings := (← p.path? "config").or s.settings
    limits := (← p.limits?).or s.limits
    verbose := p.flag "verbose" || s.verbose }

/-- A command under shared options. -/
def Shared.invoke (s : Shared) (command : Command) : Invocation :=
  ⟨s.settings, s.limits, s.verbose, command⟩

/-! ## Reading the command line -/

/-- Reads the rest of `index` or `source`. -/
def readRender (shared : Shared) (kind : PageKind) (arguments : List String) :
    Except Refusal Invocation := do
  let (p, _) ← level false [outputOption] arguments
  let shared ← shared.inner p
  return shared.invoke (.render kind (← p.single "DATA") (← p.path? "output"))

/-- Reads the rest of `plan`. -/
def readPlan (shared : Shared) (arguments : List String) : Except Refusal Invocation := do
  let (p, _) ← level false [⟨"page", none, true⟩] arguments
  let shared ← shared.inner p
  return shared.invoke (.plan (← p.single "DATA") (← p.kind))

/-- Reads the rest of `build`. -/
def readBuild (shared : Shared) (arguments : List String) : Except Refusal Invocation := do
  let (p, _) ← level false [outputOption, ⟨"quiet", none, false⟩] arguments
  let shared ← shared.inner p
  return shared.invoke (.build (← p.single "DIR") (← p.path? "output") (p.flag "quiet"))

/-- Reads the rest of `config validate` or `config show`. -/
def readSettingsCommand (shared : Shared) (command : Option Path → Command)
    (arguments : List String) : Except Refusal Invocation := do
  let (p, _) ← level false [⟨"path", none, true⟩] arguments
  let shared ← shared.inner p
  p.none
  return shared.invoke (command (← p.path? "path"))

/-- Reads the rest of `config`. -/
def readConfig (shared : Shared) (arguments : List String) : Except Refusal Invocation := do
  let (p, rest) ← level true [] arguments
  let shared ← shared.inner p
  match p.others with
  | ["validate"] => readSettingsCommand shared .validate rest
  | ["show"] => readSettingsCommand shared .show_ rest
  | [] => .error (.missing "COMMAND")
  | other :: _ => .error (.unexpected other)

/-- Reads the command line. -/
def read (arguments : List String) : Except Refusal Invocation := do
  let (p, rest) ← level true [] arguments
  let shared ← Shared.inner {} p
  match p.others with
  | ["index"] => readRender shared .index rest
  | ["source"] => readRender shared .source rest
  | ["plan"] => readPlan shared rest
  | ["build"] => readBuild shared rest
  | ["config"] => readConfig shared rest
  | [] => .error (.missing "COMMAND")
  | other :: _ => .error (.unexpected other)

end Arguments

end CoveragePages
