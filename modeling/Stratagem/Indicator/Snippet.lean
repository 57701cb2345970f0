import Stratagem.Expression.Basic
import Stratagem.Text.Lines
import Stratagem.Value.Literal

/-!
Snippets: the lines of code that compute an indicator, with the id and the parameters left open.
A line assigns a column or a helper, or is free text. Texts with places in double braces can be
read as free lines.
-/

namespace Stratagem

/-- Values of parameters by name. -/
abbrev Params := List (String × Scalar)

/-- The column of an output; the output without a name is the id itself. -/
def columnName (id output : String) : String :=
  if output.isEmpty then id else id ++ "_" ++ output

/-- The table of candles and indicators. -/
def tableName : String := "dataframe"

def columnAccess (column : String) : String := tableName ++ "['" ++ column ++ "']"

inductive Piece where
  | text (s : String)
  | id
  | column (output : String)
  | market (name : String)
  | helper (suffix : String)
  | param (name : String)
  | paramColumn (name : String)
  | literal (name : String)
  deriving DecidableEq

instance : Coe String Piece := ⟨Piece.text⟩

inductive Target where
  | column (output : String)
  | helper (suffix : String)
  deriving DecidableEq

inductive Line where
  | assign (target : Target) (value : List Piece)
  | free (pieces : List Piece)
  deriving DecidableEq

abbrev Snippet := List Line

inductive SnippetError where
  | unknownParam (name : String)
  | noLiteral (reason : LiteralError)
  deriving DecidableEq

def SnippetError.message : SnippetError → String
  | .unknownParam name => "'dict object' has no attribute " ++ Text.quoted name
  | .noLiteral reason => reason.message

/-! ## Rendering -/

def Params.plain (params : Params) (name : String) : Except SnippetError String :=
  match params.lookup name with
  | some s =>
    match s.toValue.plain? with
    | some text => .ok text
    | none => .error (.noLiteral .overlong)
  | none => .error (.unknownParam name)

def Params.literal (params : Params) (name : String) : Except SnippetError String :=
  match params.lookup name with
  | some s => s.toValue.literal.mapError .noLiteral
  | none => .error (.noLiteral (.unsupported "StrictUndefined"))

def helperName (id suffix : String) : String := id ++ "_" ++ suffix

def Piece.render (id : String) (params : Params) : Piece → Except SnippetError String
  | .text s => .ok s
  | .id => .ok id
  | .column output => .ok (columnAccess (columnName id output))
  | .market name => .ok (columnAccess name)
  | .helper suffix => .ok (helperName id suffix)
  | .param name => Params.plain params name
  | .paramColumn name => do return columnAccess (← Params.plain params name)
  | .literal name => Params.literal params name

def renderPieces (id : String) (params : Params) (pieces : List Piece) :
    Except SnippetError String := do
  return String.join (← pieces.mapM (Piece.render id params))

def Target.render (id : String) : Target → String
  | .column output => columnAccess (columnName id output)
  | .helper suffix => helperName id suffix

def Line.render (id : String) (params : Params) : Line → Except SnippetError String
  | .assign target value => do
    return target.render id ++ " = " ++ (← renderPieces id params value)
  | .free pieces => renderPieces id params pieces

def isBlankLine (line : String) : Bool := line.toList.all Text.isBlank

/-- The lines of code of a snippet; blank lines are dropped, and a line break inside an id or a
parameter starts a new line. -/
def Snippet.render (snippet : Snippet) (id : String) (params : Params) :
    Except SnippetError (List String) := do
  let lines ← snippet.mapM (Line.render id params)
  return (Text.lines ("\n".intercalate lines)).filter (! isBlankLine ·)

/-! ## Reading -/

/-- Cut a text at the first occurrence of two equal characters. -/
def cutAtPair (c : Char) : List Char → Option (List Char × List Char)
  | a :: b :: rest =>
    if a = c ∧ b = c then some ([], rest)
    else (cutAtPair c (b :: rest)).map fun (before, after) => (a :: before, after)
  | _ => none

theorem length_of_cutAtPair {c : Char} {cs before after : List Char}
    (h : cutAtPair c cs = some (before, after)) : after.length < cs.length := by
  fun_induction cutAtPair c cs generalizing before after with
  | case1 =>
    simp only [Option.some.injEq, Prod.mk.injEq] at h
    simp only [← h.2, List.length_cons]
    omega
  | case2 a b rest _ ih =>
    obtain ⟨⟨x, y⟩, hx, hy⟩ := Option.map_eq_some_iff.1 h
    simp only [Prod.mk.injEq] at hy
    have := ih hx
    simp only [← hy.2, List.length_cons] at this ⊢
    omega
  | case3 => simp at h

def trimmed (cs : List Char) : String := String.ofList (Text.trimWhere Text.isBlank cs)

/-- A place of a template: the id, or a parameter with or without the literal filter. -/
def placeOf (cs : List Char) : Piece :=
  match (Text.splitWhere (· = '|') cs).map trimmed with
  | ["id"] => .id
  | name :: filters =>
    let param := String.ofList (name.toList.drop "params.".length)
    if filters.isEmpty then .param param else .literal param
  | [] => .text ""

/-- The pieces of a template text. -/
def templatePieces (cs : List Char) : List Piece :=
  match _opened : cutAtPair '\x7b' cs with
  | none => [.text (String.ofList cs)]
  | some (before, inside) =>
    match _closed : cutAtPair '\x7d' inside with
    | none => [.text (String.ofList cs)]
    | some (place, after) =>
      .text (String.ofList before) :: placeOf place :: templatePieces after
termination_by cs.length
decreasing_by
  have := length_of_cutAtPair _opened
  have := length_of_cutAtPair _closed
  omega

def Snippet.ofTemplate (template : String) : Snippet := [.free (templatePieces template.toList)]

end Stratagem
