import Stratagem.Document.Reading
import Stratagem.Settings.Basic
import Stratagem.Value.Overlay

/-! Reading settings from values, section by section, and writing them as values. -/

namespace Stratagem

open Schema

def Limits.read (v : Value) : Checked Limits :=
  let d : Limits := {}
  model "LimitsConfig" v fun fields =>
    Limits.mk
      <$> optional fields ["max_nodes"] d.maxNodes (fun w _ => readNat 1 (some 1000000) w)
      <*> optional fields ["max_depth"] d.maxDepth (fun w _ => readNat 4 (some 256) w)
      <*> optional fields ["max_list_items"] d.maxListItems (fun w _ => readNat 1 (some 1000000) w)
      <*> optional fields ["max_string_chars"] d.maxStringChars (fun w _ => readNat 1 none w)
      <*> optional fields ["max_class_name_length"] d.maxClassNameLength
        (fun w _ => readNat 1 (some 255) w)

def LeverageDefaults.read (v : Value) : Checked LeverageDefaults :=
  let d : LeverageDefaults := {}
  model "LeverageConfig" v fun fields =>
    LeverageDefaults.mk
      <$> optional fields ["fallback_leverage"] d.fallback (fun w _ => readPositive w)

def OutputSettings.read (v : Value) : Checked OutputSettings :=
  let d : OutputSettings := {}
  model "OutputConfig" v fun fields =>
    OutputSettings.mk
      <$> optional fields ["default_timeframe"] d.defaultTimeframe (fun w _ => readTimeframe w)
      <*> optional fields ["validate_syntax"] d.validateSyntax (fun w _ => readBool w)

def LoggingSettings.read (v : Value) : Checked LoggingSettings :=
  let d : LoggingSettings := {}
  model "LoggingConfig" v fun fields =>
    LoggingSettings.mk
      <$> optional fields ["level"] d.level (fun w _ => readNamed LogLevel w)
      <*> optional fields ["format"] d.format (fun w _ => readText w)

/-- A class name of the greatest length has to fit the ceiling on characters. -/
def Settings.checkRoom (s : Settings) : Checked Settings :=
  if s.limits.maxStringChars < s.limits.maxClassNameLength then .fault (.refused .classNameRoom)
  else .good s

def Settings.read (v : Value) : Checked Settings :=
  let d : Settings := {}
  model "Config" v fun fields =>
    (Settings.mk
      <$> optional fields ["version"] d.version (fun w _ => readText w)
      <*> optional fields ["limits"] d.limits (fun w _ => Limits.read w)
      <*> optional fields ["leverage"] d.leverage (fun w _ => LeverageDefaults.read w)
      <*> optional fields ["output"] d.output (fun w _ => OutputSettings.read w)
      <*> optional fields ["logging"] d.logging (fun w _ => LoggingSettings.read w)).andThen
        Settings.checkRoom

/-! ## As values -/

def Limits.fields (l : Limits) : Fields :=
  [("max_nodes", .int l.maxNodes), ("max_depth", .int l.maxDepth),
   ("max_list_items", .int l.maxListItems), ("max_string_chars", .int l.maxStringChars),
   ("max_class_name_length", .int l.maxClassNameLength)]

def LeverageDefaults.fields (l : LeverageDefaults) : Fields :=
  [("fallback_leverage", .float l.fallback)]

def OutputSettings.fields (o : OutputSettings) : Fields :=
  [("default_timeframe", .text o.defaultTimeframe), ("validate_syntax", .bool o.validateSyntax)]

def LoggingSettings.fields (l : LoggingSettings) : Fields :=
  [("level", .text (Named.name l.level)), ("format", .text l.format)]

def Settings.fields (s : Settings) : Fields :=
  [("version", .text s.version), ("limits", .object s.limits.fields),
   ("leverage", .object s.leverage.fields), ("output", .object s.output.fields),
   ("logging", .object s.logging.fields)]

/-- Partial settings laid over the defaults. -/
def Settings.readOver (partialFields : Fields) : Checked Settings :=
  Settings.read (.object (overlay (Settings.fields {}) partialFields))

end Stratagem
