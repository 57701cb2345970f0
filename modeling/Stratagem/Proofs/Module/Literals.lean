import Stratagem.Module.Render
import Stratagem.Proofs.Failure

/-! Modules that can be written. All that is written into a module has a literal except for floats
that are not finite and integers that are too long. So writing succeeds exactly if every number of
the module has a literal, and else it fails at the first number that has none. -/

namespace Stratagem

namespace Value

def hasLiteral (v : Value) : Bool := v.literal.toOption.isSome

@[simp] theorem hasLiteral_float (x : Binary64) : (Value.float x).hasLiteral = x.isFinite := by
  cases h : x.isFinite <;> simp [hasLiteral, literal, h, Except.toOption]

@[simp] theorem hasLiteral_int (n : Int) : (Value.int n).hasLiteral = !isLong n := by
  cases h : isLong n <;> simp [hasLiteral, literal, h, Except.toOption]

end Value

/-- A result that takes all these values to have literals; the first one that has none stands for
the failure. -/
def ifWritten {α : Type} : List Value → α → Except LiteralError α
  | [], a => .ok a
  | v :: rest, a => v.literal >>= fun _ => ifWritten rest a

section

variable {α β : Type}

theorem ifWritten_eq_ok {vs : List Value} {a b : α} :
    ifWritten vs a = .ok b ↔ (∀ v ∈ vs, v.hasLiteral = true) ∧ a = b := by
  induction vs with
  | nil => simp [ifWritten]
  | cons v vs ih =>
    rw [ifWritten, List.forall_mem_cons, and_assoc, ← ih, Value.hasLiteral]
    cases v.literal with
    | ok text => simp [bind, Except.bind, Except.toOption]
    | error reason => simp [bind, Except.bind, Except.toOption]

/-- What takes some values to have literals, followed by what takes others, takes both. -/
theorem ifWritten_bind (vs ws : List Value) (a : α) (f : α → β) :
    (ifWritten vs a >>= fun a => ifWritten ws (f a)) = ifWritten (vs ++ ws) (f a) := by
  induction vs with
  | nil => rfl
  | cons v vs ih =>
    rw [List.cons_append, ifWritten, ifWritten, ← ih]
    cases v.literal <;> rfl

theorem ifWritten_map (vs : List Value) (a : α) (f : α → β) :
    (ifWritten vs a >>= fun a => pure (f a)) = ifWritten vs (f a) := by
  have h := ifWritten_bind vs [] a f
  rwa [List.append_nil] at h

end

namespace StrategyModule

theorem forall_onlyIf {P : String → Prop} {b : Bool} {lines : List String}
    (h : ∀ line ∈ lines, P line) : ∀ line ∈ onlyIf b lines, P line := by
  cases b with
  | false => simp [onlyIf]
  | true => exact h

theorem floatText_eq (x : Binary64) : floatText x = ifWritten [.float x] x.text := by
  simp only [floatText, ifWritten, Value.literal]
  split <;> rfl

theorem intLiteral_eq (n : Int) : (Value.int n).literal = ifWritten [.int n] (intText n) := by
  simp only [ifWritten, Value.literal]
  split <;> rfl

/-! ## Attributes -/

/-- A line of the returns table. -/
def roiText (entry : String × Binary64) : String :=
  "        " ++ Text.quoted entry.1 ++ ": " ++ entry.2.text ++ ","

theorem mapM_roiLine (entries : List (String × Binary64)) :
    entries.mapM roiLine = ifWritten (entries.map fun e => .float e.2) (entries.map roiText) := by
  induction entries with
  | nil => rfl
  | cons entry rest ih =>
    have hline : roiLine entry = ifWritten [.float entry.2] (roiText entry) := by
      rw [roiLine, floatText_eq]
      exact ifWritten_map _ _ _
    rw [List.mapM_cons, ih, hline]
    simp only [ifWritten_map]
    exact ifWritten_bind _ _ _ fun line => line :: rest.map roiText

def optionalText (name : String) (x : Option Binary64) : List String :=
  x.toList.map fun x => "    " ++ name ++ " = " ++ x.text

theorem optionalLine_eq (name : String) (x : Option Binary64) :
    optionalLine name x = ifWritten (x.toList.map Value.float) (optionalText name x) := by
  cases x with
  | none => rfl
  | some x =>
    rw [optionalLine, floatText_eq]
    exact ifWritten_map _ _ _

/-- The lines of the returns table. -/
def roiTable (entries : List (String × Binary64)) : List String :=
  "    minimal_roi = \x7b" :: entries.map roiText ++ ["    \x7d"]

/-- The attributes as they are written. -/
def attributeTexts (m : StrategyModule) : List String :=
  ["    timeframe = " ++ Text.quoted m.timeframe,
      "    can_short = " ++ boolText m.canShort,
      "",
      "    stoploss = " ++ m.stoploss.text] ++ roiTable m.minimalRoi ++
    (["", "    trailing_stop = " ++ boolText m.trailingStop] ++
      optionalText "trailing_stop_positive" m.trailingStopPositive ++
      optionalText "trailing_stop_positive_offset" m.trailingStopPositiveOffset ++
      onlyIf m.trailingStopPositiveOffset.isSome ["    trailing_only_offset_is_reached = True"] ++
      ["", "    use_exit_signal = " ++ boolText m.useExitSignal,
        "    startup_candle_count = " ++ intText m.startupCandleCount, ""])

/-- The numbers of the attributes. -/
def attributeNumbers (m : StrategyModule) : List Value :=
  [.float m.stoploss] ++ (m.minimalRoi.map (fun e => .float e.2) ++
    (m.trailingStopPositive.toList.map Value.float ++
      (m.trailingStopPositiveOffset.toList.map Value.float ++ [.int m.startupCandleCount])))

theorem attributes_eq (m : StrategyModule) :
    m.attributes = ifWritten m.attributeNumbers m.attributeTexts := by
  rw [attributes, floatText_eq, mapM_roiLine, optionalLine_eq, optionalLine_eq, intLiteral_eq]
  simp only [ifWritten_map, ifWritten_bind]
  refine congrArg (ifWritten _) ?_
  simp only [attributeTexts, roiTable, List.append_assoc, List.cons_append, List.nil_append]

theorem attributes_eq_ok {m : StrategyModule} {lines : List String} :
    m.attributes = .ok lines ↔
      (∀ v ∈ m.attributeNumbers, v.hasLiteral = true) ∧ m.attributeTexts = lines := by
  rw [attributes_eq, ifWritten_eq_ok]

/-! ## The leverage method -/

def capTexts (cap : Option Binary64) : List String :=
  cap.toList.map fun x => "        max_leverage = min(max_leverage, " ++ x.text ++ ")"

theorem capLines_eq (cap : Option Binary64) :
    capLines cap = ifWritten (cap.toList.map Value.float) (capTexts cap) := by
  cases cap with
  | none => rfl
  | some x =>
    rw [capLines, floatText_eq]
    exact ifWritten_map _ _ _

/-- The leverage method above its branches. -/
def leverageTop (r : Routine) : List String :=
  ["",
    "    def leverage(self, pair: str, current_time: datetime, current_rate: float,",
    "                 proposed_leverage: float, max_leverage: float, entry_tag: Optional[str],",
    "                 side: str, **kwargs) -> float:",
    "        is_short = side == 'short'"] ++ capTexts r.cap ++ candleLines r

/-- The leverage method as it is written. -/
def leverageTexts : Option Routine → List String
  | none => []
  | some r => leverageTop r ++ r.branches.flatMap branchLines ++
    ["", "        # " ++ r.tail.comment, "        return " ++ capped r.tail.value]

/-- The numbers that the leverage method is written with. -/
def leverageNumbers (routine? : Option Routine) : List Value :=
  (routine?.bind Routine.cap).toList.map Value.float

theorem leverageMethod_eq (routine? : Option Routine) :
    leverageMethod routine? = ifWritten (leverageNumbers routine?) (leverageTexts routine?) := by
  cases routine? with
  | none => rfl
  | some r =>
    rw [leverageMethod, capLines_eq]
    exact ifWritten_map _ _ _

theorem leverageMethod_eq_ok {routine? : Option Routine} {lines : List String} :
    leverageMethod routine? = .ok lines ↔
      (∀ v ∈ leverageNumbers routine?, v.hasLiteral = true) ∧ leverageTexts routine? = lines := by
  rw [leverageMethod_eq, ifWritten_eq_ok]

/-! ## The module -/

/-- The numbers that a module is written with. -/
def numbers (m : StrategyModule) : List Value := m.attributeNumbers ++ leverageNumbers m.leverage

/-- **A module can be written exactly if its numbers have literals.** -/
theorem lines_eq (m : StrategyModule) : m.lines = ifWritten m.numbers
    (m.header ++ m.attributeTexts ++ m.tableMethods ++ leverageTexts m.leverage) := by
  rw [lines, attributes_eq, leverageMethod_eq]
  simp only [ifWritten_map, ifWritten_bind]
  rfl

end StrategyModule

end Stratagem
