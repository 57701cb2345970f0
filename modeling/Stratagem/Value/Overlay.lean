import Stratagem.Value.Basic

/-!
Overlay of one mapping on another: sections that are mappings on both sides merge, any other value
of the overlay replaces the one beneath. Keys of the base come first, new keys after them.
-/

namespace Stratagem

mutual

/-- What a value becomes beneath a value of the overlay. -/
def overlayValue (base : Value) : Value → Value
  | .object above => match base with
    | .object fields => .object (overlay fields above)
    | _ => .object above
  | v => v

def overlay (base : Fields) : Fields → Fields
  | [] => base
  | (key, value) :: rest =>
    let merged := match Fields.get? base key with
      | some current => overlayValue current value
      | none => value
    overlay (Fields.set base key merged) rest

end

end Stratagem
