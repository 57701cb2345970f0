import Stratagem.Text.Blank

/-! Paths of files: the parts between slashes, without empty parts and single dots. -/

namespace Stratagem

structure Path where
  absolute : Bool
  parts : List String
  deriving DecidableEq, Repr

namespace Path

def ofText (s : String) : Path :=
  let cs := s.toList
  let parts := (Text.splitWhere (· = '/') cs).map String.ofList
  ⟨cs.head? = some '/', parts.filter fun p => p ≠ "" && p ≠ "."⟩

def text (p : Path) : String :=
  if p.parts.isEmpty then (if p.absolute then "/" else ".")
  else (if p.absolute then "/" else "") ++ "/".intercalate p.parts

/-- The last part. -/
def name (p : Path) : String := p.parts.getLast?.getD ""

/-- The last part in two: up to its last dot, and from there on. A dot at either end does not
count. -/
def splitName (p : Path) : String × String :=
  let cs := p.name.toList
  let suffix := (cs.reverse.takeWhile (· ≠ '.')).reverse
  let stem := cs.take (cs.length - suffix.length - 1)
  if suffix.isEmpty || stem.isEmpty || suffix.length = cs.length then (p.name, "")
  else (String.ofList stem, String.ofList ('.' :: suffix))

def stem (p : Path) : String := p.splitName.1

def suffix (p : Path) : String := p.splitName.2

def parent (p : Path) : Path := { p with parts := p.parts.dropLast }

def child (p : Path) (name : String) : Path := { p with parts := p.parts ++ [name] }

/-- Two dots lead back to the directory above. -/
def resolved (p : Path) : Path :=
  let step (done : List String) (part : String) : List String :=
    if part = ".." then done.drop 1 else part :: done
  { p with parts := (p.parts.foldl step []).reverse }

/-- The directories that a path leads through, the outermost first. -/
def ancestors (p : Path) : List Path :=
  ((List.range p.parts.length).drop 1).map fun n => { p with parts := p.parts.take n }

end Path

end Stratagem
