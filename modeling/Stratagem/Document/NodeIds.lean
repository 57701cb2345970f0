import Stratagem.Document.Basic
import Stratagem.Expression.Traversal

/-!
Ids of condition nodes. They are unique over all authored trees: entry and exit of the long side,
then of the short side, then the conditions of the leverage rules, each tree in pre-order.
-/

namespace Stratagem

def SignalConfig.trees (s : SignalConfig) : List Condition := [s.entry, s.exit]

/-- Every authored condition tree. -/
def Document.trees (d : Document) : List Condition :=
  (d.long.map SignalConfig.trees).getD [] ++ (d.short.map SignalConfig.trees).getD [] ++
    (d.leverage.map fun l => l.rules.filterMap LeverageRule.condition).getD []

def Document.nodeIds (d : Document) : List String :=
  d.trees.flatMap fun c => (Node.condition c).visit.filterMap Node.id?

/-- The first element that repeats an earlier one; `seen` are those before. -/
def firstRepeatFrom (seen : List String) : List String → Option String
  | [] => none
  | id :: rest => if seen.contains id then some id else firstRepeatFrom (id :: seen) rest

def firstRepeat? (ids : List String) : Option String := firstRepeatFrom [] ids

end Stratagem
