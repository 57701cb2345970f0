import Stratagem.Proofs.Emission.References

/-! The columns that code reads. In an expression these are the texts between subscript brackets,
whatever stands before the brackets. Emitted code reads columns of market data and columns that
references to indicators mean, and no others. -/

namespace Stratagem

namespace Script

/-- The text that an expression is. -/
def Expr.text? : Expr → Option String
  | .text s => some s
  | _ => none

mutual

/-- The columns that an expression reads. -/
def Expr.columns : Expr → List String
  | .name _ | .integer _ | .float _ | .text _ => []
  | .list items => items.columns
  | .attribute e _ => e.columns
  | .subscript e index => e.columns ++ index.columns ++ index.text?.toList
  | .call f arguments => f.columns ++ arguments.columns
  | .unary _ e => e.columns
  | .binary _ left right => left.columns ++ right.columns
  | .choice then_ condition else_ => then_.columns ++ condition.columns ++ else_.columns

def ArgList.columns : ArgList → List String
  | .nil => []
  | .cons _ value rest => value.columns ++ rest.columns

end

theorem ArgList.columns_append (xs ys : ArgList) :
    (xs.append ys).columns = xs.columns ++ ys.columns := by
  match xs with
  | .nil => simp [ArgList.append, ArgList.columns]
  | .cons _ value rest =>
    simp [ArgList.append, ArgList.columns, ArgList.columns_append rest ys]

end Script

namespace Code

open Script

/-- The columns that code reads. -/
def columns : Code → List String
  | .literal _ | .variable _ => []
  | .column name | .candle name _ => [name]
  | .shifted e _ | .seriesZone e _ | .seriesPart e _ | .momentZone e _ | .momentPart e _ | .paren e
  | .negative e | .pointwise _ e | .extremum _ e | .invert e | .not e | .broadcast e => e.columns
  | .arith _ left right | .pairwise _ left right | .also left right | .compare _ left right
  | .join _ left right | .isIn left right | .member _ left right | .crossed _ left right =>
    left.columns ++ right.columns
  | .choose first second third | .ifElse first second third =>
    first.columns ++ second.columns ++ third.columns

theorem columns_scalar (s : Scalar) : s.script.columns = [] := by
  have hsigned : ∀ (negative : Bool) (e : Expr), (signed negative e).columns = e.columns := by
    intro negative e
    cases negative <;> rfl
  cases s with
  | null => rfl
  | bool b => cases b <;> rfl
  | int k => exact hsigned ..
  | float x => exact hsigned ..
  | text s => rfl

theorem columns_literal (value : Constant) : (literal value).script.columns = [] := by
  cases value with
  | scalar s => exact columns_scalar s
  | list items =>
    show (ArgList.ofList (items.map Scalar.script)).columns = []
    induction items with
    | nil => rfl
    | cons s rest ih =>
      rw [List.map_cons, ArgList.ofList, ArgList.columns, columns_scalar, ih]
      rfl

theorem columns_arguments (c : Code) : c.arguments.columns = c.script.columns := by
  cases c with
  | also left right => simp [arguments, argumentsOf, script, Expr.columns]
  | _ => simp [arguments, argumentsOf, ArgList.columns]

/-- **The script of code reads the columns of the code.** -/
theorem columns_script (c : Code) : c.script.columns = c.columns := by
  induction c with
  | literal value => exact columns_literal value
  | column name => rfl
  | candle name ago => match ago with
    | 0 => rfl
    | 1 => rfl
    | ago + 2 => rfl
  | momentPart e part ih =>
    cases part <;> simp [script, TimePart.momentScript, Expr.columns, ArgList.columns, columns, ih]
  | also left right ihl ihr =>
    have happend : (also left right).script.columns =
        (left.arguments.append right.arguments).columns := rfl
    rw [happend, ArgList.columns_append, columns_arguments, columns_arguments, ihl, ihr, columns]
  | extremum f e ih =>
    have hcall : (extremum f e).script.columns = e.arguments.columns := by
      simp [script, Expr.columns, arguments]
    rw [hcall, columns_arguments, ih, columns]
  | _ => simp_all [script, Expr.columns, ArgList.ofList, ArgList.columns, columns]

/-- Every column that the code reads is one of those. -/
def Reads (P : String → Prop) (c : Code) : Prop := ∀ column ∈ c.columns, P column

theorem mem_columns_iff {c : Code} {column : String} :
    column ∈ c.columns ↔ .column column ∈ c.references := by
  induction c with
  | momentZone e zone ih => simpa [columns, references] using ih
  | _ => simp_all [columns, references]

end Code

/-- The code of an emitted node, and that of one candle earlier, reads only such columns. -/
def Emitted.Reads (P : String → Prop) (e : Emitted) : Prop := e.code.Reads P ∧ e.before.Reads P

/-- **Emitted code reads columns of market data and of references to indicators.** -/
theorem Emission.build_reads {P : String → Prop} {context : EmissionContext}
    (hmarket : ∀ column ∈ marketColumns, P column)
    (hindicator : ∀ id field column, context.binding.column id field = .ok column → P column)
    {n : Node} {e : Emitted} {depth : Nat} (h : build context depth n = .ok e) : e.Reads P := by
  have hpermitted : ∀ m ∈ n.preorder, ∀ r, Permitted context m r →
      ∀ column, r = .column column → P column := by
    rintro m - r hr column rfl
    exact hr.elim (hmarket column) fun ⟨id, field, hcolumn⟩ => hindicator id field column hcolumn
  obtain ⟨hcode, hbefore⟩ := build_refers h hpermitted
  exact ⟨fun column hmem => hcode _ (Code.mem_columns_iff.mp hmem) column rfl,
    fun column hmem => hbefore _ (Code.mem_columns_iff.mp hmem) column rfl⟩

end Stratagem
