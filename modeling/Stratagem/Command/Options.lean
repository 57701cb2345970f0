import Stratagem.Files.Path

/-!
Arguments of commands. Options may stand before and after the other arguments; a long option takes
its value after an equals sign or as the next argument, short ones may be written together, and
two dashes end the options.
-/

namespace Stratagem

inductive Setting where
  | name | output | overwrite | stdout | config | logDir | yaml | help
  deriving DecidableEq, Repr

structure OptionForm where
  setting : Setting
  long : String
  short : Option Char := none
  takesValue : Bool := false

/-- Arguments that were read. -/
structure Arguments where
  settings : List (Setting × String) := []
  positional : List String := []

namespace Arguments

/-- The last value of a setting. -/
def value? (a : Arguments) (s : Setting) : Option String := a.settings.lookup s

def flag (a : Arguments) (s : Setting) : Bool := (a.value? s).isSome

def path? (a : Arguments) (s : Setting) : Option Path := (a.value? s).map Path.ofText

/-- A later value comes before the earlier ones. -/
def set (a : Arguments) (s : Setting) (value : String) : Arguments :=
  { a with settings := (s, value) :: a.settings }

def push (a : Arguments) (arg : String) : Arguments :=
  { a with positional := a.positional ++ [arg] }

/-- What an option does: it is complete, or the next argument is its value. -/
inductive Effect where
  | done (a : Arguments)
  | awaiting (a : Arguments) (s : Setting)

/-- Short options written together; the first that takes a value takes what is left. -/
def cluster? (forms : List OptionForm) (a : Arguments) : List Char → Option Effect
  | [] => some (.done a)
  | c :: rest =>
    match forms.find? fun f => f.short = some c with
    | none => none
    | some f =>
      if !f.takesValue then cluster? forms (a.set f.setting "") rest
      else if rest.isEmpty then some (.awaiting a f.setting)
      else some (.done (a.set f.setting (String.ofList rest)))

/-- A long option with what follows its equals sign. -/
def long? (f : OptionForm) (a : Arguments) (given : Option String) : Option Effect :=
  match f.takesValue, given with
  | true, some value => some (.done (a.set f.setting value))
  | true, none => some (.awaiting a f.setting)
  | false, some _ => none
  | false, none => some (.done (a.set f.setting ""))

/-- An argument that starts with a dash. -/
def option? (forms : List OptionForm) (a : Arguments) (arg : List Char) : Option Effect :=
  let word := String.ofList (arg.takeWhile (· ≠ '='))
  let given := if arg.contains '=' then some (String.ofList ((arg.dropWhile (· ≠ '=')).drop 1))
    else none
  match forms.find? fun f => f.long = word with
  | some f => long? f a given
  | none => if "--".toList.isPrefixOf arg then none else cluster? forms a (arg.drop 1)

/-- Read arguments; none for an unknown option or a missing value. -/
def read? (forms : List OptionForm) (a : Arguments) : List String → Option Arguments
  | [] => some a
  | arg :: rest =>
    let cs := arg.toList
    if arg = "--" then some { a with positional := a.positional ++ rest }
    else if cs.head? ≠ some '-' || cs.length = 1 then read? forms (a.push arg) rest
    else match option? forms a cs with
      | none => none
      | some (.done a) => read? forms a rest
      | some (.awaiting a s) =>
        match rest with
        | [] => none
        | value :: rest => read? forms (a.set s value) rest

end Arguments

end Stratagem
