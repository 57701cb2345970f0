import Stratagem.Files.Path
import Stratagem.Logging.Format
import Stratagem.Settings.Basic

/-!
Loggers with dotted names. Setting one up sets its level every time, and attaches its handlers the
first time only. A record is enabled by the level of the nearest logger above it that has one, and
goes to the handlers of every logger above it. The root is above all of them.
-/

namespace Stratagem

open Schema (Named)

structure Record where
  logger : String
  severity : Int
  message : String
  deriving DecidableEq, Repr

/-- The word for a severity. -/
def severityName (severity : Int) : String :=
  match (Named.all : List LogLevel).find? fun l => (l.severity : Int) = severity with
  | some level => Named.name level
  | none => "Level " ++ intText severity

inductive Destination where
  | console
  | file (path : Path)
  deriving DecidableEq, Repr

structure Handler where
  destination : Destination
  threshold : LogLevel
  layout : List LogPiece
  deriving DecidableEq

structure Logger where
  level : LogLevel
  handlers : List Handler
  deriving DecidableEq

def Handler.accepts (h : Handler) (r : Record) : Bool := (h.threshold.severity : Int) ≤ r.severity

/-- A record in the layout of a handler; `time` is when it was made. -/
def Handler.line (h : Handler) (time : String) (r : Record) : String :=
  logLine h.layout fun
    | "name" => r.logger
    | "levelname" => severityName r.severity
    | "levelno" => intText r.severity
    | "message" => r.message
    | "asctime" => time
    | _ => ""

/-- The handlers of a logger that is set up: a file, if there is one, then the console. -/
def freshHandlers (level : LogLevel) (layout : List LogPiece) (file : Option Path) :
    List Handler :=
  (file.toList.map fun path => ⟨.file path, level, layout⟩) ++ [⟨.console, level, layout⟩]

structure Loggers where
  byName : List (String × Logger)

namespace Loggers

def empty : Loggers := ⟨[]⟩

/-- The name of the logger above all others. -/
def rootName : String := "root"

/-- The name that a logger goes by; no name at all is another one for the root. -/
def properName (name : String) : String := if name.isEmpty then rootName else name

def get? (ls : Loggers) (name : String) : Option Logger := ls.byName.lookup (properName name)

def set (ls : Loggers) (name : String) (l : Logger) : Loggers :=
  ⟨(properName name, l) :: ls.byName.filter fun e => e.1 ≠ properName name⟩

/-- The handlers of a logger, if it has any yet. -/
def handlers (ls : Loggers) (name : String) : List Handler :=
  ((ls.get? name).map Logger.handlers).getD []

def isBare (ls : Loggers) (name : String) : Bool := (ls.handlers name).isEmpty

/-- Set the level of a logger; its handlers stay. -/
def setLevel (ls : Loggers) (name : String) (level : LogLevel) : Loggers :=
  ls.set name ⟨level, ls.handlers name⟩

/-- Give a logger its level and its handlers. -/
def attach (ls : Loggers) (name : String) (level : LogLevel) (handlers : List Handler) : Loggers :=
  ls.set name ⟨level, handlers⟩

/-- The dotted names above a name, the nearest first. -/
def ancestors (name : String) : List String :=
  let parts := (Text.splitWhere (· = '.') name.toList).map String.ofList
  let above := ((List.range parts.length).drop 1).map fun n => ".".intercalate (parts.take n)
  above.reverse.filter fun n => !n.isEmpty && n ≠ rootName

/-- A name and all names above it, the nearest first. -/
def lineage (name : String) : List String :=
  if properName name = rootName then [rootName] else name :: ancestors name ++ [rootName]

/-- The loggers that a record on a name passes through. -/
def above (ls : Loggers) (name : String) : List Logger := (lineage name).filterMap ls.get?

/-- The level that holds where no logger has one. -/
def rootLevel : LogLevel := .warning

def effectiveLevel (ls : Loggers) (name : String) : LogLevel :=
  ((ls.above name).head?.map Logger.level).getD rootLevel

def isEnabled (ls : Loggers) (r : Record) : Bool :=
  0 < r.severity && ((ls.effectiveLevel r.logger).severity : Int) ≤ r.severity

/-- The handlers that write a record. -/
def takers (ls : Loggers) (r : Record) : List Handler :=
  if ls.isEnabled r then ((ls.above r.logger).flatMap Logger.handlers).filter (·.accepts r)
  else []

end Loggers

/-! ## Log files -/

/-- The logger above all loggers of the compiler. -/
def compilerLogger : String := "strategy_compiler"

/-- The file of a day in a directory of logs. -/
def logFile (directory : Path) (today : String) : Path :=
  directory.child ("strategy-compiler-" ++ today ++ ".log")

inductive LogError where
  | noDirectory
  | badLayout (layout : String)
  deriving DecidableEq, Repr

def LogError.message : LogError → String
  | .noDirectory => "LogManager has no log directory"
  | .badLayout layout => "Invalid format '" ++ layout ++ "' for '%' style"

/-- The file of a day, if there is a directory of logs. -/
def logFile? (directory : Option Path) (today : String) : Except LogError Path :=
  match directory with
  | some directory => .ok (logFile directory today)
  | none => .error .noDirectory

end Stratagem
