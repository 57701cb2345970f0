import Stratagem.Command.Basic
import Stratagem.Command.Session
import Stratagem.Compiler.Records
import Stratagem.Document.Dump
import Stratagem.Json.Reader
import Stratagem.Json.Writer
import Stratagem.Yaml.Writer

/-!
Running a command over a tree of files: what is printed, which files change, and how it ends.
-/

namespace Stratagem

open Run

/-- The day, and the time of log records. -/
structure Clock where
  today : String
  time : String

/-- How many containers may nest in a JSON document. -/
def deepestJson : Nat := 970

/-- Documents with these endings are YAML. -/
def yamlSuffixes : List String := [".yaml", ".yml"]

def isYamlPath (p : Path) : Bool :=
  yamlSuffixes.contains (String.ofList (p.suffix.toList.map Char.toLower))

/-- The value in the text of a document file. -/
def readDocument (path : Path) (text : String) : Run Value :=
  let invalid {α : Type} (reason : String) : Run α :=
    refuse ("Error: " ++ path.text ++ " is not valid: " ++ reason)
  let tooDeep {α : Type} : Run α := refuse ("Error: " ++ path.text ++ " is nested too deeply")
  if isYamlPath path then
    match Yaml.read text with
    | .ok v => pure v
    | .error .tooDeep => tooDeep
    | .error .malformed => invalid Yaml.ReadError.malformed.message
    | .error (.badScalar reason) => throw (.failure (.badScalar reason))
  else match Json.read deepestJson text with
    | .ok v => pure v
    | .error .tooDeep => tooDeep
    | .error (.overlong digits) => throw (.failure (.badScalar (unreadText digits)))
    | .error e => invalid e.message

def loadDocument (path : Path) : Run Value := do
  match (← get).files.read path with
  | .error (.file reason) => refuse ("Error: cannot read " ++ path.text ++ ": " ++ reason.message)
  | .error (.undecodable reason) => throw (.failure (.undecodable reason))
  | .ok text => readDocument path text

/-- Whether an error in the settings is reported; any other ends the run. -/
def SettingsError.isReported : SettingsError → Bool
  | .undecodable _ | .badScalar _ | .tooDeep => false
  | _ => true

/-- Load the settings, start logging, and tell what is risky. -/
def start (clock : Clock) (config logDir : Option Path) : Run Settings := do
  match Settings.load (← get).files config with
  | .error e =>
    if e.isReported then refuse ("Error: " ++ e.message) else throw (.failure (.settings e))
  | .ok settings =>
    if logDir.isSome then
      let (outcome, s) := (← get).setupLogging settings.logging logDir compilerLogger clock.today
      set s
      orFail outcome
    for w in settings.warnings do
      say ("Config warning: " ++ w.message)
    return settings

/-- The class name that was given, or one for the file. -/
def chosenName (document : Path) (name : Option String) : String :=
  (name.filter (! ·.isEmpty)).getD (classNameOf document.stem)

/-- Compile the document of a command, and log it. -/
def compileFile (clock : Clock) (settings : Settings) (document : Path) (name : String) :
    Run (Except CompileError Generated) := do
  let raw ← loadDocument document
  let result := generate settings .builtin raw (some name)
  modify fun s => (records settings .builtin raw name result).foldl (·.log clock.time) s
  return result

/-- The name of the file of a class. -/
def moduleFile (name : String) : String := Text.snakeCase name ++ ".py"

/-- Where the module goes: into a directory, or to the file itself. -/
def targetOf (files : FileTree) (output : Path) (name : String) : Path :=
  if files.isDirectory output || output.suffix.isEmpty then
    output.child (moduleFile name)
  else output

def saveModule (output : Path) (overwrite : Bool) (name code : String) : Run Unit := do
  let files := (← get).files
  let target := targetOf files output name
  if files.has target && !overwrite then
    refuse ("Error: File already exists: " ++ target.text ++ ". Use --overwrite to replace.")
  let files ← orFail ((files.makeDirectories target.parent).mapError .file)
  let files ← orFail ((files.write target code).mapError .file)
  modify fun s => { s with files }
  say ("Generated: " ++ target.text)

/-- Print a value, if every integer in it can be written. -/
def dump (yaml : Bool) (v : Value) : Run Unit :=
  if v.hasLong then throw (.failure (.badScalar unwrittenText))
  else say (if yaml then Yaml.write v else Json.write v)

/-- Report an error of a document; one without a message of its own ends the run. -/
def refuseError (e : CompileError) : Run Unit :=
  if e.isUnexpected then throw (.failure (.badScalar e.message)) else refuse ("Error: " ++ e.text)

/-- Pad a text on the right. -/
def padRight (width : Nat) (s : String) : String :=
  s ++ String.ofList (List.replicate (width - s.length) ' ')

/-- Two lines on an indicator type. -/
def describe (type : String) (spec : IndicatorSpec) : List String :=
  let params := ", ".intercalate (spec.params.map fun p => p.name ++ "=" ++ p.default.toValue.plain)
  let outputs := ", ".intercalate (spec.outputs.map fun o => if o.isEmpty then "(value)" else o)
  ["  " ++ padRight 12 type ++ " " ++ spec.description,
   "  " ++ padRight 12 "" ++ " params: " ++ (if params.isEmpty then "-" else params) ++
     "; outputs: " ++ outputs]

def Command.run (clock : Clock) : Command → Run Unit
  | .generate document name output overwrite stdout config logDir => do
    let name := chosenName document name
    let settings ← start clock config logDir
    match ← compileFile clock settings document name with
    | .error e => refuse ("Error: " ++ e.text)
    | .ok g =>
      for w in g.warnings do
        complain ("Warning: " ++ w.message)
      match stdout, output with
      | false, some output => saveModule output overwrite name g.code
      | _, _ => modify (·.put g.code)
  | .validate document name config => do
    let settings ← start clock config none
    match ← compileFile clock settings document (chosenName document name) with
    | .error e => refuse ("✗ " ++ document.name ++ ": " ++ e.text)
    | .ok g =>
      if !g.warnings.isEmpty then
        say ("⚠ " ++ document.name ++ ": Warnings")
      for w in g.warnings do
        say ("  WARNING: " ++ w.message)
      say ("✓ " ++ document.name ++ ": All checks passed")
  | .normalize document yaml config => do
    let settings ← start clock config none
    match canonical settings.limits (← loadDocument document) with
    | .error e => refuseError e
    | .ok (_, fields) => dump yaml (.object fields)
  | .mirror document yaml config => do
    let settings ← start clock config none
    match prepare settings.limits (← loadDocument document) with
    | .error e => refuseError e
    | .ok d => dump yaml d.dump
  | .indicators => do
    say "Indicator Types:"
    for type in Registry.builtin.types do
      for line in ((Registry.builtin.get? type).map (describe type)).getD [] do
        say line
  | .help => pure ()

/-- Every path that a command looks at. -/
def Command.paths (clock : Clock) : Command → List Path
  | .generate document name output _ _ config logDir =>
    [document, settingsPath config] ++
      (output.toList.flatMap fun o =>
        [o, o.child (moduleFile (chosenName document name))]) ++
      (logDir.toList.flatMap fun d => [d, logFile d clock.today])
  | .validate document _ config => [document, settingsPath config]
  | .normalize document _ config => [document, settingsPath config]
  | .mirror document _ config => [document, settingsPath config]
  | .indicators => []
  | .help => []

/-- How a run ended. -/
structure Outcome where
  exitCode : Nat
  failure : Option Failure
  session : Session

/-- The exit code for arguments that ask for nothing. -/
def usageExit : Nat := 2

/-- Run the command that some arguments ask for. -/
def runArguments (clock : Clock) (files : FileTree) (args : List String) : Outcome :=
  match Command.parse? args with
  | none => ⟨usageExit, none, { files }⟩
  | some command =>
    match (command.run clock).run { files } with
    | (.ok (), session) => ⟨0, none, session⟩
    | (.error (.exit code), session) => ⟨code, none, session⟩
    | (.error (.failure reason), session) => ⟨1, some reason, session⟩

end Stratagem
