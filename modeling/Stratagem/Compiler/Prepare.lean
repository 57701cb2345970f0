import Stratagem.Compiler.Error
import Stratagem.Document.NodeIds
import Stratagem.Document.Reading
import Stratagem.Settings.Basic

/-!
From a raw value to a document that is ready to compile: the size guard, unwrapping and migration,
reading, the check of node ids, and mirroring.
-/

namespace Stratagem

/-- The nested form of a raw document that passes the size guard, with the shape it came in. -/
def canonical (limits : Limits) (raw : Value) : Except CompileError (Shape × Fields) := do
  let _ ← (Extent.check limits raw).mapError .size
  let fields ← (unwrap raw).mapError .shape
  let shape ← (detectShape fields).mapError .shape
  let nested ← (normalize fields).mapError .shape
  return (shape, nested)

/-- The document as it was authored. -/
def authored (limits : Limits) (raw : Value) : Except CompileError Document := do
  let (_, fields) ← canonical limits raw
  let document ← (Document.read (.object fields)).toExcept.mapError .document
  match firstRepeat? document.nodeIds with
  | some id => .error (.repeatedId id)
  | none => return document

/-- The document with the mirrored side in place. -/
def prepare (limits : Limits) (raw : Value) : Except CompileError Document := do
  let document ← authored limits raw
  document.applyMirror.mapError .mirror

end Stratagem
