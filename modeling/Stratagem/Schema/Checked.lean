import Stratagem.Schema.Fault

/-!
Results of reading a value against a schema: something good, or every fault that was found.
Applying a function to several readings collects the faults of all of them, in order.
-/

namespace Stratagem.Schema

inductive Checked (α : Type) where
  | good (a : α)
  | bad (faults : List Fault)

namespace Checked

def map {α β : Type} (f : α → β) : Checked α → Checked β
  | .good a => .good (f a)
  | .bad faults => .bad faults

def both {α β : Type} (f : Checked (α → β)) (x : Checked α) : Checked β :=
  match f, x with
  | .good f, .good a => .good (f a)
  | .good _, .bad faults => .bad faults
  | .bad faults, .good _ => .bad faults
  | .bad faults, .bad more => .bad (faults ++ more)

instance : Applicative Checked where
  map := map
  pure := .good
  seq f x := both f (x ())

/-- A further check of something good. -/
def andThen {α β : Type} (x : Checked α) (check : α → Checked β) : Checked β :=
  match x with
  | .good a => check a
  | .bad faults => .bad faults

/-- A single fault, right here. -/
def fault {α : Type} (problem : Problem) : Checked α := .bad [⟨[], problem⟩]

/-- Read at a place below: its faults lie one step further down. -/
def below {α : Type} (step : Step) : Checked α → Checked α
  | .good a => .good a
  | .bad faults => .bad (faults.map fun f => { f with place := step :: f.place })

def toExcept {α : Type} : Checked α → Except (List Fault) α
  | .good a => .ok a
  | .bad faults => .error faults

end Checked

end Stratagem.Schema
