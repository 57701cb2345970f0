import Stratagem.Document.Reading
import Stratagem.Proofs.Schema.Inversion

/-! What a document that was read, and its parameters, say about the readings of their fields. -/

namespace Stratagem

open Schema Schema.Checked

/-- The reading of each field of parameters. -/
structure Parameters.ReadFrom (fields : Fields) (p : Parameters) : Prop where
  stoploss : (optional fields ["stoploss"] Parameters.default.stoploss fun w _ =>
    (readFloat w).andThen nonpositive) = .good p.stoploss
  minimalRoi : (optional fields ["minimal_roi"] Parameters.default.minimalRoi fun w _ =>
    readRoi w) = .good p.minimalRoi
  trailingStop : (optional fields ["trailing_stop"] Parameters.default.trailingStop fun w _ =>
    readBool w) = .good p.trailingStop
  trailingStopPositive : (nullable fields ["trailing_stop_positive"] fun w _ =>
    readPositive w) = .good p.trailingStopPositive
  trailingStopPositiveOffset : (nullable fields ["trailing_stop_positive_offset"] fun w _ =>
    (readFloat w).andThen nonnegative) = .good p.trailingStopPositiveOffset
  useExitSignal : (optional fields ["use_exit_signal"] Parameters.default.useExitSignal fun w _ =>
    readBool w) = .good p.useExitSignal
  timeframe : (nullable fields ["timeframe"] fun w _ => readTimeframe w) = .good p.timeframe
  startupCandleCount : (nullable fields ["startup_candle_count"] fun w _ =>
    readNat 0 none w) = .good p.startupCandleCount
  extra : readExtra fields = .good p.extra

theorem Parameters.read_eq_good {v : Value} {p : Parameters} (h : Parameters.read v = .good p) :
    ∃ fields, v = .object fields ∧ p.ReadFrom fields := by
  cases v with
  | object fields =>
    obtain ⟨_, _, hcount', hextra, rfl⟩ := seq_eq_good h
    obtain ⟨_, _, htimeframe', hcount, rfl⟩ := seq_eq_good hcount'
    obtain ⟨_, _, hexit', htimeframe, rfl⟩ := seq_eq_good htimeframe'
    obtain ⟨_, _, hoffset', hexit, rfl⟩ := seq_eq_good hexit'
    obtain ⟨_, _, hpositive', hoffset, rfl⟩ := seq_eq_good hoffset'
    obtain ⟨_, _, htrailing', hpositive, rfl⟩ := seq_eq_good hpositive'
    obtain ⟨_, _, hroi', htrailing, rfl⟩ := seq_eq_good htrailing'
    obtain ⟨_, _, hstoploss, hroi, rfl⟩ := map_seq_eq_good hroi'
    exact ⟨fields, rfl, hstoploss, hroi, htrailing, hpositive, hoffset, hexit, htimeframe, hcount,
      hextra⟩
  | _ => cases h

/-- The reading of each field of a document, with its leverage where that belongs. -/
structure Document.ReadFrom (fields : Fields) (d : Document) : Prop where
  version : (optional fields ["version"] 2 fun w _ => readInt w) = .good d.version
  positionMode : (optional fields ["position_mode"] .longOnly fun w _ =>
    readUpperNamed PositionMode w) = .good d.positionMode
  indicators : (optional fields ["indicators"] [] fun w _ => readIndicators w) = .good d.indicators
  long : (nullable fields ["long"] fun w _ => SignalConfig.read w) = .good d.long
  short : (nullable fields ["short"] fun w _ => SignalConfig.read w) = .good d.short
  mirror : (nullable fields ["mirror_config", "mirror", "mirrorConfig"] fun w _ =>
    MirrorConfig.read w) = .good d.mirror
  leverage : (nullable fields ["leverage"] fun w _ => LeverageSettings.read w) = .good d.leverage
  parameters : (optional fields ["parameters"] .default fun w _ =>
    Parameters.read w) = .good d.parameters
  callbacks : (optional fields ["callbacks"] [] fun w _ => readMapping w) = .good d.callbacks

theorem Document.read_eq_good {v : Value} {d : Document} (h : Document.read v = .good d) :
    ∃ fields, v = .object fields ∧ d.ReadFrom (liftLeverage fields) := by
  cases v with
  | object fields =>
    obtain ⟨_, _, hparameters', hcallbacks, rfl⟩ := seq_eq_good h
    obtain ⟨_, _, hleverage', hparameters, rfl⟩ := seq_eq_good hparameters'
    obtain ⟨_, _, hmirror', hleverage, rfl⟩ := seq_eq_good hleverage'
    obtain ⟨_, _, hshort', hmirror, rfl⟩ := seq_eq_good hmirror'
    obtain ⟨_, _, hlong', hshort, rfl⟩ := seq_eq_good hshort'
    obtain ⟨_, _, hindicators', hlong, rfl⟩ := seq_eq_good hlong'
    obtain ⟨_, _, hmode', hindicators, rfl⟩ := seq_eq_good hindicators'
    obtain ⟨_, _, hversion, hmode, rfl⟩ := map_seq_eq_good hmode'
    exact ⟨fields, rfl, hversion, hmode, hindicators, hlong, hshort, hmirror, hleverage,
      hparameters, hcallbacks⟩
  | _ => cases h

end Stratagem
