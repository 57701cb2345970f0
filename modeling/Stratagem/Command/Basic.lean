import Stratagem.Command.Options

/-! Commands and how they are asked for. -/

namespace Stratagem

inductive Command where
  | generate (document : Path) (name : Option String) (output : Option Path)
      (overwrite stdout : Bool) (config logDir : Option Path)
  | validate (document : Path) (name : Option String) (config : Option Path)
  | normalize (document : Path) (yaml : Bool) (config : Option Path)
  | mirror (document : Path) (yaml : Bool) (config : Option Path)
  | indicators
  | help

namespace Command

def helpForm : OptionForm := ⟨.help, "--help", none, false⟩

def nameForm : OptionForm := ⟨.name, "--name", some 'n', true⟩

def configForm : OptionForm := ⟨.config, "--config", some 'c', true⟩

def yamlForm : OptionForm := ⟨.yaml, "--yaml", none, false⟩

/-- The options of a command; none for an unknown command. -/
def forms? : String → Option (List OptionForm)
  | "generate" => some [helpForm, nameForm, ⟨.output, "--output", some 'o', true⟩,
      ⟨.overwrite, "--overwrite", some 'f', false⟩, ⟨.stdout, "--stdout", none, false⟩, configForm,
      ⟨.logDir, "--log-dir", none, true⟩]
  | "validate" => some [helpForm, nameForm, configForm]
  | "normalize" => some [helpForm, yamlForm, configForm]
  | "mirror" => some [helpForm, yamlForm, configForm]
  | "indicators" => some [helpForm]
  | _ => none

/-- A command with its arguments; all but one take exactly one document. -/
def build? (word : String) (a : Arguments) : Option Command :=
  if a.flag .help then some .help
  else match word, a.positional.map Path.ofText with
    | "generate", [document] => some (.generate document (a.value? .name) (a.path? .output)
        (a.flag .overwrite) (a.flag .stdout) (a.path? .config) (a.path? .logDir))
    | "validate", [document] => some (.validate document (a.value? .name) (a.path? .config))
    | "normalize", [document] => some (.normalize document (a.flag .yaml) (a.path? .config))
    | "mirror", [document] => some (.mirror document (a.flag .yaml) (a.path? .config))
    | "indicators", [] => some .indicators
    | _, _ => none

/-- The command that some arguments ask for. -/
def parse? : List String → Option Command
  | "--" :: word :: args => do build? word (← Arguments.read? (← forms? word) {} args)
  | "--help" :: _ => some .help
  | word :: args => do build? word (← Arguments.read? (← forms? word) {} args)
  | [] => none

end Command

end Stratagem
