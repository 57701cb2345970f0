import Stratagem.Compiler.Generate
import Stratagem.Logging.Loggers

/-! What the compiler logs about a document, in order. -/

namespace Stratagem

open Schema (Named)

/-- Errors that a document should not be able to cause. -/
def CompileError.isUnexpected : CompileError → Bool
  | .size reason => reason.kind = .internal
  | .shape reason => reason.isUnwritten
  | .binding reason => reason.isFailure
  | .leverage reason => reason.kind = .internal
  | .roi _ => true
  | .snippet _ => true
  | _ => false

namespace Records

def generatorLogger : String := compilerLogger ++ ".codegen.generator"

def shapeLogger : String := compilerLogger ++ ".codegen.normalizer"

def mirrorLogger : String := compilerLogger ++ ".codegen.mirror"

def leverageLogger : String := compilerLogger ++ ".codegen.leverage"

def record (logger : String) (level : LogLevel) (message : String) : Record :=
  ⟨logger, level.severity, message⟩

def started (name : String) : Record :=
  record generatorLogger .info ("Generating strategy code for " ++ Text.quoted name)

/-- A document in the flat shape is migrated. -/
def migrated (limits : Limits) (raw : Value) : List Record :=
  match canonical limits raw with
  | .ok (.flat, _) => [record shapeLogger .debug "Migrating legacy document to version 2"]
  | _ => []

/-- A document with a mirror policy is mirrored. -/
def mirrored (limits : Limits) (raw : Value) : List Record :=
  match authored limits raw with
  | .ok d =>
    match d.mirror with
    | some m =>
      if m.enabled && (d.signal m.source).isSome then
        [record mirrorLogger .debug ("Mirroring " ++ Named.name m.source ++ " signals onto " ++
          Named.name m.source.opposite)]
      else []
    | none => []
  | .error _ => []

/-- The warnings of leverage rules. -/
def fallbacks (settings : Settings) (registry : Registry) (raw : Value) : List Record :=
  match prepare settings.limits raw with
  | .ok d =>
    match plan settings registry d with
    | .ok p => ((p.routine.map Routine.warnings).getD []).map fun w =>
        record leverageLogger .warning w.message
    | .error _ => []
  | .error _ => []

def ended (name : String) : Except CompileError Generated → Record
  | .ok g => record generatorLogger .info
      (s!"Generated {(Text.lines g.code).length} lines for " ++ Text.quoted name)
  | .error e =>
    if e.isUnexpected then
      record generatorLogger .error ("Unexpected error generating " ++ Text.quoted name)
    else record generatorLogger .warning
      ("Code generation failed for " ++ Text.quoted name ++ ": " ++ e.text)

/-- What is logged of the document itself; a bad class name stops before it is looked at. -/
def onDocument (settings : Settings) (registry : Registry) (raw : Value) (name : String) :
    List Record :=
  match requireName settings.limits (some name) with
  | .error _ => []
  | .ok _ =>
    migrated settings.limits raw ++ mirrored settings.limits raw ++
      fallbacks settings registry raw

end Records

/-- Everything that is logged while a document is compiled with a given result. -/
def records (settings : Settings) (registry : Registry) (raw : Value) (name : String)
    (result : Except CompileError Generated) : List Record :=
  Records.started name :: Records.onDocument settings registry raw name ++
    [Records.ended name result]

end Stratagem
