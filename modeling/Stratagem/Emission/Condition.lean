import Stratagem.Emission.Operand

/-! Code of conditions, given the code of their parts. -/

namespace Stratagem

namespace Emission

/-- A truth value made of parts. -/
def boolean (code : Code) (parts : List Emitted) : Emitted where
  code
  series := parts.any Emitted.series
  lookback := greatest (parts.map Emitted.lookback)
  numeric := false

/-! ## Connectives -/

/-- What no children at all amount to. -/
def constantTruth (scope : Scope) (b : Bool) : Emitted :=
  match scope with
  | .series => { code := .broadcast (.truth b), series := true, numeric := false }
  | .leverage => { code := .truth b, numeric := false }

/-- All or any of the children; a single child stands for itself. -/
def combine (scope : Scope) (empty : Bool) (series scalar : Connective) (children : List Emitted) :
    Emitted :=
  match children with
  | [] => constantTruth scope empty
  | [child] => child
  | children =>
    let connective := match scope with
      | .series => series
      | .leverage => scalar
    boolean (Code.chain (.join connective) (children.map fun e => .paren e.code)) children

def negation (scope : Scope) (child : Emitted) : Emitted :=
  if scope = .series && child.series then boolean (.invert (.paren child.code)) [child]
  else boolean (.paren (.not (.paren child.code))) [child]

def ifThenElse (scope : Scope) (condition then_ else_ : Emitted) : Emitted :=
  let parts := [condition, then_, else_]
  if scope = .series && parts.any Emitted.series then
    { code := .broadcast (.choose condition.code then_.code else_.code)
      series := true
      lookback := greatest (parts.map Emitted.lookback)
      numeric := false }
  else
    boolean (.paren (.ifElse (.paren then_.code) (.paren condition.code) (.paren else_.code))) parts

/-- The branch that is not there. -/
def absentBranch : Emitted := { code := .truth false, numeric := false }

/-! ## Comparisons -/

def relation? : Comparison → Option Relation
  | .eq => some .eq
  | .neq => some .neq
  | .gt => some .gt
  | .gte => some .gte
  | .lt => some .lt
  | .lte => some .lte
  | .in_ => none
  | .notIn => none

def isOrdering : Comparison → Bool
  | .gt | .gte | .lt | .lte => true
  | _ => false

/-- Membership of a value in a list constant. -/
def membership (scope : Scope) (operator : Comparison) (left right : Emitted) : Emitted :=
  let negated := operator = .notIn
  let code :=
    if scope = .series && left.series then
      let test := Code.isIn left.code right.code
      if negated then .invert test else test
    else .paren (.member negated left.code right.code)
  boolean code [left, right]

def compare (scope : Scope) (operator : Comparison) (left right : Emitted) :
    Except EmissionError Emitted :=
  if left.isList then .error .listOnLeft
  else match relation? operator with
    | none =>
      if right.isList then .ok (membership scope operator left right)
      else .error (.listNeeded operator right.text)
    | some r =>
      if right.isList then .error (.listCompared operator)
      else if isOrdering operator && !left.numeric then
        .error (.orderNotNumeric operator .left left.text)
      else if isOrdering operator && !right.numeric then
        .error (.orderNotNumeric operator .right right.text)
      else .ok (boolean (.paren (.compare r left.code right.code)) [left, right])

/-! ## Crossings and ranges -/

/-- The relations of a crossing: before, and now. -/
def crossingRelations (above : Bool) : Relation × Relation :=
  if above then (.lte, .gt) else (.gte, .lt)

def crossingCode (scope : Scope) (above : Bool) (first second : Emitted) : Emitted :=
  match scope with
  | .series => boolean (.crossed above first.code second.code) [first, second]
  | .leverage =>
    let (before, now) := crossingRelations above
    { code := .paren (.join .and (.paren (.compare before first.before second.before))
        (.paren (.compare now first.code second.code)))
      lookback := greatest
        [first.lookback, second.lookback, first.prevLookback, second.prevLookback]
      numeric := false }

/-- Both sides of a crossing come from market data. -/
def crossing (scope : Scope) (above : Bool) (first second : Emitted) :
    Except EmissionError Emitted :=
  let kind := if above then ConditionKind.crossover else .crossunder
  if !first.market then .error (.crossingNotMarket kind 1 first.text)
  else if !second.market then .error (.crossingNotMarket kind 2 second.text)
  else .ok (crossingCode scope above first second)

def rangeRelations (inclusive : Bool) : Relation × Relation :=
  if inclusive then (.gte, .lte) else (.gt, .lt)

def inRange (scope : Scope) (inclusive : Bool) (value low high : Emitted) :
    Except EmissionError Emitted :=
  match [value, low, high].find? fun e => e.isList || !e.numeric with
  | some e => .error (.rangeNotNumeric e.text)
  | none =>
    let (lower, upper) := rangeRelations inclusive
    let connective := match scope with
      | .series => Connective.seriesAnd
      | .leverage => .and
    .ok (boolean (.paren (.join connective (.paren (.compare lower value.code low.code))
      (.paren (.compare upper value.code high.code)))) [value, low, high])

/-- Code of a condition; the parts are those of its children. -/
def condition (context : EmissionContext) (c : Condition) (parts : List Emitted) :
    Except EmissionError Emitted :=
  let part (i : Nat) : Emitted := parts.getD i absentBranch
  match c with
  | .all _ _ => .ok (combine context.scope true .seriesAnd .and parts)
  | .any _ _ => .ok (combine context.scope false .seriesOr .or parts)
  | .not _ _ => .ok (negation context.scope (part 0))
  | .ifThen .. => .ok (ifThenElse context.scope (part 0) (part 1) absentBranch)
  | .ifThenElse .. => .ok (ifThenElse context.scope (part 0) (part 1) (part 2))
  | .compare _ _ operator _ => compare context.scope operator (part 0) (part 1)
  | .crossover .. => crossing context.scope true (part 0) (part 1)
  | .crossunder .. => crossing context.scope false (part 0) (part 1)
  | .inRange _ _ _ _ inclusive => inRange context.scope inclusive (part 0) (part 1) (part 2)

/-- Code of a node. -/
def node (context : EmissionContext) (n : Node) (parts : List Emitted) :
    Except EmissionError Emitted :=
  match n with
  | .condition c => condition context c parts
  | .operand o => operand context o parts

/-- The imports that the code of a node needs by itself. -/
def nodeImports (scope : Scope) : Node → List String
  | .condition (.crossover ..) | .condition (.crossunder ..) =>
    if scope = .series then ["qtpylib"] else []
  | .operand (.time _ (some _)) => if scope = .leverage then ["zoneinfo"] else []
  | _ => []

end Emission

/-- Take note of a node that was emitted. -/
def Tally.record (t : Tally) (scope : Scope) (n : Node) (e : Emitted) : Tally where
  imports := t.imports ++ (Emission.nodeImports scope n).filter (! t.imports.contains ·)
  lookback := max t.lookback e.lookback

end Stratagem
