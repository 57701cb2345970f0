import Stratagem.Proofs.Emission.Reads

/-! The names in emitted code. Besides what every module has, code names the arguments of the
callback and the two libraries, and a library only where it refers to it. -/

namespace Stratagem

namespace Script

mutual

/-- The names in an expression; attributes and keywords are none. -/
def Expr.names : Expr → List String
  | .name s => [s]
  | .integer _ | .float _ | .text _ => []
  | .list items => items.names
  | .attribute e _ => e.names
  | .subscript e index => e.names ++ index.names
  | .call f arguments => f.names ++ arguments.names
  | .unary _ e => e.names
  | .binary _ left right => left.names ++ right.names
  | .choice then_ condition else_ => then_.names ++ condition.names ++ else_.names

def ArgList.names : ArgList → List String
  | .nil => []
  | .cons _ value rest => value.names ++ rest.names

end

theorem ArgList.names_append (xs ys : ArgList) : (xs.append ys).names = xs.names ++ ys.names := by
  match xs with
  | .nil => simp [ArgList.append, ArgList.names]
  | .cons _ value rest => simp [ArgList.append, ArgList.names, ArgList.names_append rest ys]

end Script

/-- The name that a reference goes by, besides the table. -/
def Reference.name? : Reference → Option String
  | .column _ => none
  | .argument name => some name
  | .crossing => some "qtpylib"
  | .zone => some "ZoneInfo"

/-- What code may name wherever it stands. -/
def commonNames : List String :=
  ["None", "True", "False", "dataframe", "last_candle", "prev_candle", "np", "pd", "min", "max"]

namespace Code

open Script

theorem names_scalar (s : Scalar) : ∀ x ∈ s.script.names, x ∈ commonNames := by
  have hsigned : ∀ (negative : Bool) (e : Expr), (signed negative e).names = e.names := by
    intro negative e
    cases negative <;> rfl
  cases s with
  | null => decide
  | bool b => cases b <;> decide
  | int k => simp [Scalar.script, hsigned, Expr.names]
  | float x => simp [Scalar.script, hsigned, Expr.names]
  | text s => simp [Scalar.script, Expr.names]

theorem names_literal (value : Constant) :
    ∀ x ∈ (literal value).script.names, x ∈ commonNames := by
  cases value with
  | scalar s => exact names_scalar s
  | list items =>
    show ∀ x ∈ (ArgList.ofList (items.map Scalar.script)).names, x ∈ commonNames
    induction items with
    | nil => nofun
    | cons s rest ih => exact List.forall_mem_append.mpr ⟨names_scalar s, ih⟩

theorem names_arguments (c : Code) : c.arguments.names = c.script.names := by
  cases c with
  | also left right => simp [arguments, argumentsOf, script, Expr.names]
  | _ => simp [arguments, argumentsOf, ArgList.names]

/-- A name that is always there, or that one of the references goes by. -/
def Explained (references : List Reference) (x : String) : Prop :=
  x ∈ commonNames ∨ ∃ r ∈ references, r.name? = some x

theorem explained_append {xs ys : List Reference} {x : String} :
    Explained (xs ++ ys) x ↔ Explained xs x ∨ Explained ys x := by
  simp only [Explained, List.mem_append, or_and_right, exists_or]
  exact or_or_distrib_left

theorem explained_pair {xs ys : List String} {rs ss : List Reference}
    (hx : ∀ x ∈ xs, Explained rs x) (hy : ∀ x ∈ ys, Explained ss x) :
    ∀ x ∈ xs ++ ys, Explained (rs ++ ss) x :=
  List.forall_mem_append.mpr ⟨fun x h => explained_append.mpr (.inl (hx x h)),
    fun x h => explained_append.mpr (.inr (hy x h))⟩

theorem explained_of_name? {r : Reference} {x : String} (h : r.name? = some x) :
    ∀ y ∈ [x], Explained [r] y :=
  List.forall_mem_singleton.mpr (.inr ⟨r, List.mem_singleton_self r, h⟩)

/-- **Code names what is always there and what it refers to.** -/
theorem names_script (c : Code) : ∀ x ∈ c.script.names, Explained c.references x := by
  induction c with
  | literal value => exact fun x hx => .inl (names_literal value x hx)
  | candle name ago =>
    have hall : ∀ x ∈ (candleScript name ago).names, x ∈ commonNames := by
      match ago with
      | 0 => simp [candleScript, Expr.names, commonNames]
      | 1 => simp [candleScript, Expr.names, commonNames]
      | ago + 2 => simp [candleScript, Expr.names, commonNames]
    exact fun x hx => .inl (hall x hx)
  | momentPart e part ih =>
    cases part <;>
      simpa [script, TimePart.momentScript, Expr.names, ArgList.names, references] using ih
  | also left right ihl ihr =>
    have happend : (also left right).script.names =
        (left.arguments.append right.arguments).names := rfl
    rw [happend, ArgList.names_append, names_arguments, names_arguments]
    exact explained_pair ihl ihr
  | extremum f e ih =>
    have hcall : (extremum f e).script.names = f.name :: e.arguments.names := by
      simp [script, Expr.names, arguments]
    rw [hcall, names_arguments]
    refine List.forall_mem_cons.mpr ⟨.inl ?_, ih⟩
    cases f <;> decide
  | arith _ left right ihl ihr | compare _ left right ihl ihr | join _ left right ihl ihr
  | member _ left right ihl ihr => exact explained_pair ihl ihr
  | isIn left right ihl ihr =>
    have hnames : (isIn left right).script.names = left.script.names ++ right.script.names := by
      simp [script, Expr.names, ArgList.ofList, ArgList.names]
    rw [hnames]
    exact explained_pair ihl ihr
  | pairwise f left right ihl ihr =>
    have hnames : (pairwise f left right).script.names =
        "np" :: (left.script.names ++ right.script.names) := by
      simp [script, Expr.names, ArgList.ofList, ArgList.names]
    rw [hnames]
    exact List.forall_mem_cons.mpr ⟨.inl (by decide), explained_pair ihl ihr⟩
  | choose first second third ih1 ih2 ih3 =>
    have hnames : (choose first second third).script.names =
        "np" :: (first.script.names ++ second.script.names ++ third.script.names) := by
      simp [script, Expr.names, ArgList.ofList, ArgList.names]
    rw [hnames]
    exact List.forall_mem_cons.mpr
      ⟨.inl (by decide), explained_pair (explained_pair ih1 ih2) ih3⟩
  | ifElse first second third ih1 ih2 ih3 => exact explained_pair (explained_pair ih1 ih2) ih3
  | broadcast e ih =>
    have hnames : (broadcast e).script.names = "pd" :: (e.script.names ++ ["dataframe"]) := by
      simp [script, Expr.names, ArgList.names]
    rw [hnames]
    refine List.forall_mem_cons.mpr ⟨.inl (by decide), List.forall_mem_append.mpr ⟨ih, ?_⟩⟩
    exact List.forall_mem_singleton.mpr (.inl (by decide))
  | crossed above left right ihl ihr =>
    have hnames : (crossed above left right).script.names =
        ["qtpylib"] ++ (left.script.names ++ right.script.names) := by
      simp [script, Expr.names, ArgList.ofList, ArgList.names]
    rw [hnames]
    exact explained_pair (explained_of_name? (r := .crossing) rfl) (explained_pair ihl ihr)
  | momentZone e zone ih =>
    have hnames : ∀ x, x ∈ (momentZone e zone).script.names ↔
        x ∈ ["ZoneInfo"] ++ e.script.names := by
      simp [script, Expr.names, ArgList.ofList, ArgList.names, or_comm]
    simp only [hnames]
    exact explained_pair (explained_of_name? (r := .zone) rfl) ih
  | _ =>
    simp_all [script, Expr.names, ArgList.ofList, ArgList.names, references, Explained, commonNames,
      Reference.name?]

end Code

end Stratagem
