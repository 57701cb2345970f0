import Stratagem.Files.Tree
import Stratagem.Settings.Reading
import Stratagem.Yaml.Node

/-! The settings file: what is in it is laid over the defaults, and no file means the defaults. -/

namespace Stratagem

inductive SettingsError where
  | unreadable (path : Path) (reason : FileError)
  | undecodable (reason : Text.Utf8Error)
  | malformed (path : Path)
  | badScalar (reason : String)
  | tooDeep
  | notMapping (path : Path)
  | invalid (path : Path) (faults : List Schema.Fault)

/-- How many faults were found. -/
def faultCount (faults : List Schema.Fault) : String :=
  if faults.length = 1 then "1 validation error" else s!"{faults.length} validation errors"

def SettingsError.message : SettingsError → String
  | .unreadable path reason => "Cannot read " ++ path.text ++ ": " ++ reason.message
  | .undecodable reason => reason.message
  | .malformed path => "Invalid YAML in " ++ path.text
  | .badScalar reason => reason
  | .tooDeep => "maximum recursion depth exceeded"
  | .notMapping path => path.text ++ " must contain a mapping at the top level"
  | .invalid path faults =>
    "Invalid configuration in " ++ path.text ++ ": " ++ faultCount faults ++ " for Config"

/-- Where settings are looked for. -/
def settingsFileName : String := "strategy-compiler.yaml"

def settingsPath (given : Option Path) : Path := given.getD (.ofText settingsFileName)

/-- Settings from the value of a file. -/
def Settings.ofFile (path : Path) : Value → Except SettingsError Settings
  | .null => .ok {}
  | .object fields => (Settings.readOver fields).toExcept.mapError (.invalid path)
  | _ => .error (.notMapping path)

def Settings.load (files : FileTree) (path : Option Path) : Except SettingsError Settings :=
  let path := settingsPath path
  if !files.has path then .ok {}
  else match files.read path with
    | .error (.file reason) => .error (.unreadable path reason)
    | .error (.undecodable reason) => .error (.undecodable reason)
    | .ok text =>
      match Yaml.read text with
      | .error .malformed => .error (.malformed path)
      | .error .tooDeep => .error .tooDeep
      | .error (.badScalar reason) => .error (.badScalar reason)
      | .ok v => Settings.ofFile path v

end Stratagem
