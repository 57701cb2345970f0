import Stratagem.Logging.Loggers
import Stratagem.Settings.File

/-!
The state of one run of a command: the files, the loggers, and what was printed. A step of a run
goes on or stops the run; what was done before a stop stays done.
-/

namespace Stratagem

structure Session where
  files : FileTree
  loggers : Loggers := .empty
  stdout : List String := []
  stderr : List String := []

/-- What ends a run with no message of its own. -/
inductive Failure where
  | file (reason : FileError)
  | undecodable (reason : Text.Utf8Error)
  | settings (reason : SettingsError)
  | badScalar (reason : String)
  | logging (reason : LogError)

def Failure.message : Failure → String
  | .file reason => reason.message
  | .undecodable reason => reason.message
  | .settings reason => reason.message
  | .badScalar reason => reason
  | .logging reason => reason.message

inductive Stop where
  | exit (code : Nat)
  | failure (reason : Failure)

abbrev Run := ExceptT Stop (StateM Session)

namespace Session

/-- Print a text as it is. -/
def put (s : Session) (text : String) : Session := { s with stdout := text :: s.stdout }

def putError (s : Session) (text : String) : Session := { s with stderr := text :: s.stderr }

/-- Everything printed. -/
def output (s : Session) : String := String.join s.stdout.reverse

def errorOutput (s : Session) : String := String.join s.stderr.reverse

/-- The handlers of a logger that is set up; a log file is made if there is a directory for it. The
directory stays when the file cannot be made. -/
def openHandlers (files : FileTree) (settings : LoggingSettings) (directory : Option Path)
    (today : String) : Except Failure (List Handler) × FileTree :=
  match layoutPieces? settings.format with
  | none => (.error (.logging (.badLayout settings.format)), files)
  | some layout =>
    match directory with
    | none => (.ok (freshHandlers settings.level layout none), files)
    | some d =>
      match files.makeDirectories d with
      | .error reason => (.error (.file reason), files)
      | .ok made =>
        match made.append (logFile d today) "" with
        | .error reason => (.error (.file reason), made)
        | .ok written =>
          (.ok (freshHandlers settings.level layout (some (logFile d today))), written)

/-- Set a logger up. Its level is set first and stays set when no handlers can be opened. -/
def setupLogging (s : Session) (settings : LoggingSettings) (directory : Option Path)
    (name today : String) : Except Failure Unit × Session :=
  let levelled := { s with loggers := s.loggers.setLevel name settings.level }
  if s.loggers.isBare name then
    match openHandlers s.files settings directory today with
    | (.error reason, files) => (.error reason, { levelled with files })
    | (.ok handlers, files) =>
      (.ok (), { s with files, loggers := s.loggers.attach name settings.level handlers })
  else (.ok (), levelled)

/-- Write a record where its handlers say. -/
def log (s : Session) (time : String) (r : Record) : Session :=
  (s.loggers.takers r).foldl (fun s h =>
    let line := h.line time r ++ "\n"
    match h.destination with
    | .console => s.putError line
    | .file path =>
      match s.files.append path line with
      | .ok files => { s with files }
      | .error _ => s) s

end Session

namespace Run

def say (line : String) : Run Unit := modify (·.put (line ++ "\n"))

def complain (line : String) : Run Unit := modify (·.putError (line ++ "\n"))

/-- Say what is wrong and stop. -/
def refuse {α : Type} (line : String) : Run α := do
  say line
  throw (.exit 1)

def orFail {α : Type} (x : Except Failure α) : Run α :=
  match x with
  | .ok a => pure a
  | .error reason => throw (.failure reason)

end Run

end Stratagem
