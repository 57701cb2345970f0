import Stratagem.Proofs.Script.Method

/-! What a method reads of the candles, and what goes wrong when it reads one that is missing. An
expression accesses the names that stand for candles and the rows that it picks by number; all of
them count, whether or not an evaluation would come to them. A call follows the lines of a method
and stops at the first access that fails: a name that no line has bound, or a row beyond those that
are there. -/

namespace Stratagem

namespace Script

variable {rows : Nat} {bound : List String}

/-! ## Accesses -/

/-- The names that a method binds to the table, its last row and the row before. -/
def candleNames : List String := ["dataframe", "last_candle", "prev_candle"]

/-- A name that stands for candles, or a row picked by its place from the end, if it is written
out. -/
inductive Access where
  | name (s : String)
  | row (back : Option Nat)
  deriving DecidableEq

/-- The expression picks rows of a table or a column by number. -/
def Expr.picksRows : Expr → Bool
  | .attribute _ s => s == "iat" || s == "iloc"
  | _ => false

/-- A place counted from the end. -/
def Expr.fromEnd? : Expr → Option Nat
  | .unary .negative (.integer n) => some n
  | _ => none

mutual

def Expr.accesses : Expr → List Access
  | .name s => if s ∈ candleNames then [.name s] else []
  | .integer _ | .float _ | .text _ => []
  | .list items => items.accesses
  | .attribute e _ => e.accesses
  | .subscript e index =>
    e.accesses ++ index.accesses ++ if e.picksRows then [.row index.fromEnd?] else []
  | .call f arguments => f.accesses ++ arguments.accesses
  | .unary _ e => e.accesses
  | .binary _ left right => left.accesses ++ right.accesses
  | .choice then_ condition else_ => then_.accesses ++ condition.accesses ++ else_.accesses

def ArgList.accesses : ArgList → List Access
  | .nil => []
  | .cons _ value rest => value.accesses ++ rest.accesses

end

/-! ## Calls that may fail -/

inductive Failure where
  | unbound (name : String)
  | missing (back : Option Nat)
  | unreadable

/-- What is wrong with an access, given the number of rows and the names that are bound. -/
def Access.failure? (rows : Nat) (bound : List String) : Access → Option Failure
  | .name s => if s ∈ bound then none else some (.unbound s)
  | .row back => if back.any fun k => 0 < k && k ≤ rows then none else some (.missing back)

/-- The expression that a text is, if nothing is wrong with it. -/
def examine (rows : Nat) (bound : List String) (text : String) : Except Failure Expr :=
  match read text with
  | none => .error .unreadable
  | some e => match e.accesses.findSome? (Access.failure? rows bound) with
    | none => .ok e
    | some failure => .error failure

def Token.name? : Token → Option String
  | .name s => some s
  | _ => none

/-- The names to the left of an equals sign. -/
def targets (names : String) : List String :=
  ((lex names.toList).getD []).filterMap Token.name?

namespace Call

/-- Follow the lines, with some names bound already; nothing comes out if no line returns. -/
def execute (q : Call) (limit : ℚ) (bound : List String) : List Line → Except Failure (Option ℚ)
  | [] => .ok none
  | .blank :: rest => q.execute limit bound rest
  | .assign indent names value :: rest =>
    if indent = bodyIndent then
      (examine q.candles bound value).bind fun e =>
        q.execute (if names = maxLeverage then q.amount limit e else limit)
          (targets names ++ bound) rest
    else .error .unreadable
  | .test indent condition :: .finish deeper value :: rest =>
    if indent = bodyIndent ∧ bodyIndent < deeper then
      (examine q.candles bound condition).bind fun c =>
        if q.holds limit c then
          (examine q.candles bound value).map fun e => some (q.amount limit e)
        else q.execute limit bound rest
    else .error .unreadable
  | .finish indent value :: _ =>
    if indent = bodyIndent then
      (examine q.candles bound value).map fun e => some (q.amount limit e)
    else .error .unreadable
  | .test .. :: _ => .error .unreadable

/-- Call a method, with no name bound to candles yet. -/
def attempt (q : Call) (most : ℚ) (lines : List String) : Except Failure (Option ℚ) :=
  match (body lines).mapM Line.ofText? with
  | none => .error .unreadable
  | some ls => q.execute most [] ls

end Call

theorem examine_eq_ok_iff {text : String} {e : Expr} :
    examine rows bound text = .ok e ↔
      read text = some e ∧ ∀ a ∈ e.accesses, a.failure? rows bound = none := by
  unfold examine
  split
  · next hread => simp [hread]
  · next d hread =>
    rw [hread, Option.some.injEq]
    split
    · next hfind =>
      rw [List.findSome?_eq_none_iff] at hfind
      constructor
      · intro h
        cases h
        exact ⟨rfl, hfind⟩
      · rintro ⟨rfl, -⟩
        rfl
    · next failure hfind =>
      constructor
      · nofun
      · rintro ⟨rfl, h⟩
        rw [List.findSome?_eq_none_iff.mpr h] at hfind
        cases hfind

/-! ## Lines that cannot fail -/

/-- The number that a test for fewer rows compares with. -/
def Expr.fewer? : Expr → Option Nat
  | .binary (.relation .lt) (.call (.name "len") (.cons none (.name "dataframe") .nil))
      (.integer n) => some n
  | _ => none

/-- Each line keeps to `rows` rows and to the names bound before it, and the lines behind one that
returns when there are fewer rows may count on that many. -/
def Guarded (rows : Nat) (bound : List String) : List Line → Prop
  | [] => False
  | .blank :: rest => Guarded rows bound rest
  | .assign indent names value :: rest =>
    indent = bodyIndent ∧ (∃ e, examine rows bound value = .ok e) ∧
      Guarded rows (targets names ++ bound) rest
  | .test indent condition :: .finish deeper value :: rest =>
    (indent = bodyIndent ∧ bodyIndent < deeper) ∧ (∃ e, examine rows bound value = .ok e) ∧
      ∃ c, examine rows bound condition = .ok c ∧ Guarded (max rows (c.fewer?.getD 0)) bound rest
  | .finish indent value :: _ => indent = bodyIndent ∧ ∃ e, examine rows bound value = .ok e
  | .test .. :: _ => False

variable {a : Access}

theorem Access.failure?_mono {more : Nat} (h : a.failure? rows bound = none) (hle : rows ≤ more) :
    a.failure? more bound = none := by
  cases a with
  | name s => exact h
  | row back =>
    cases back with
    | none => simp [failure?] at h
    | some k =>
      have hk : 0 < k ∧ k ≤ rows := by simpa [failure?] using h
      have hmore : k ≤ more := hk.2.trans hle
      simp [failure?, hk.1, hmore]

theorem examine_mono {more : Nat} {text : String} {e : Expr} (h : examine rows bound text = .ok e)
    (hle : rows ≤ more) : examine more bound text = .ok e := by
  obtain ⟨hread, hnone⟩ := examine_eq_ok_iff.mp h
  exact examine_eq_ok_iff.mpr ⟨hread, fun a ha => Access.failure?_mono (hnone a ha) hle⟩

/-- A test for fewer rows that fails leaves at least so many. -/
theorem Call.fewer?_le {q : Call} {limit : ℚ} {c : Expr} (h : q.holds limit c = false) :
    c.fewer?.getD 0 ≤ q.candles := by
  unfold Expr.fewer?
  split
  · simpa [Call.holds] using h
  · exact Nat.zero_le _

/-- **A call of guarded lines returns a value**, whatever its tests come to. -/
theorem Guarded.execute {q : Call} {ls : List Line} {limit : ℚ} (h : Guarded rows bound ls)
    (hrows : rows ≤ q.candles) : ∃ v, q.execute limit bound ls = .ok (some v) := by
  fun_induction Call.execute q limit bound ls generalizing rows with
  | case1 => exact h.elim
  | case2 limit bound rest ih => exact ih h hrows
  | case3 limit bound names value rest ih =>
    obtain ⟨-, ⟨e, he⟩, hrest⟩ := h
    rw [examine_mono he hrows]
    exact ih e hrest hrows
  | case4 limit bound indent names value rest hindent => exact absurd h.1 hindent
  | case5 limit bound indent condition deeper value rest hindent ih =>
    obtain ⟨-, ⟨e, he⟩, c, hc, hrest⟩ := h
    rw [examine_mono he hrows, examine_mono hc hrows, Except.bind]
    cases hholds : q.holds limit c with
    | true => exact ⟨q.amount limit e, rfl⟩
    | false => exact ih hrest (max_le hrows (Call.fewer?_le hholds))
  | case6 limit bound indent condition deeper value rest hindent => exact absurd h.1 hindent
  | case7 limit bound value rest =>
    obtain ⟨-, e, he⟩ := h
    rw [examine_mono he hrows]
    exact ⟨q.amount limit e, rfl⟩
  | case8 limit bound indent value rest hindent => exact absurd h.1 hindent
  | case9 limit bound indent condition rest hno =>
    cases rest with
    | nil => exact h.elim
    | cons line rest =>
      cases line with
      | finish deeper value => exact absurd rfl (hno deeper value rest)
      | _ => exact h.elim

/-! ## Accesses within some candles -/

/-- The access is good once there are so many rows, with the names bound that belong to them. -/
def Access.Within (n : Nat) : Access → Prop
  | .name s => (s = "dataframe" ∨ s = "last_candle") ∧ 1 ≤ n ∨ s = "prev_candle" ∧ 2 ≤ n
  | .row back => ∃ k, back = some k ∧ 1 ≤ k ∧ k ≤ n

theorem Access.Within.mono {m n : Nat} (h : a.Within m) (hmn : m ≤ n) : a.Within n := by
  cases a with
  | name s =>
    rcases h with ⟨hs, hm⟩ | ⟨hs, hm⟩
    · exact .inl ⟨hs, hm.trans hmn⟩
    · exact .inr ⟨hs, hm.trans hmn⟩
  | row back =>
    obtain ⟨k, hback, hk, hkm⟩ := h
    exact ⟨k, hback, hk, hkm.trans hmn⟩

theorem Access.not_within_zero (a : Access) : ¬ a.Within 0 := by
  intro h
  cases a with
  | name s => rcases h with ⟨-, h⟩ | ⟨-, h⟩ <;> omega
  | row back =>
    obtain ⟨k, -, hk, hk'⟩ := h
    omega

theorem Access.Within.failure?_eq_none {n : Nat} (h : a.Within n) (hn : n ≤ rows)
    (htable : 1 ≤ n → "dataframe" ∈ bound) (hlast : 1 ≤ n → "last_candle" ∈ bound)
    (hprev : 2 ≤ n → "prev_candle" ∈ bound) : a.failure? rows bound = none := by
  cases a with
  | name s =>
    have hs : s ∈ bound := by
      rcases h with ⟨rfl | rfl, hone⟩ | ⟨rfl, htwo⟩
      · exact htable hone
      · exact hlast hone
      · exact hprev htwo
    simp [failure?, hs]
  | row back =>
    obtain ⟨k, rfl, hk, hkn⟩ := h
    have hrows : k ≤ rows := hkn.trans hn
    have hpos : 0 < k := hk
    simp [failure?, hpos, hrows]

@[simp] theorem ArgList.accesses_append (xs ys : ArgList) :
    (xs.append ys).accesses = xs.accesses ++ ys.accesses := by
  match xs with
  | .nil => simp [ArgList.append, ArgList.accesses]
  | .cons _ value rest =>
    simp [ArgList.append, ArgList.accesses, ArgList.accesses_append rest ys]

end Script

/-! ## Accesses of code -/

namespace Code

open Script

variable {c : Code}

/-- All that the code accesses is good once there are so many candles. -/
def Within (n : Nat) (c : Code) : Prop := ∀ a ∈ c.script.accesses, a.Within n

theorem Within.mono {m n : Nat} (h : c.Within m) (hmn : m ≤ n) : c.Within n :=
  fun a ha => (h a ha).mono hmn

theorem accesses_arguments (c : Code) : c.arguments.accesses = c.script.accesses := by
  cases c with
  | also left right => simp [arguments, argumentsOf, script, Expr.accesses]
  | _ => simp [arguments, argumentsOf, ArgList.accesses]

variable {n : Nat} {l r : Code}

theorem within_of_accesses_nil (h : c.script.accesses = []) : c.Within n := by
  intro a ha
  rw [h] at ha
  cases ha

theorem accesses_signed (negative : Bool) (e : Expr) :
    (signed negative e).accesses = e.accesses := by
  cases negative <;> rfl

theorem accesses_scalar (s : Scalar) : s.script.accesses = [] := by
  cases s with
  | null => rfl
  | bool b => cases b <;> rfl
  | int k => exact accesses_signed ..
  | float x => exact accesses_signed ..
  | text s => rfl

theorem accesses_literal (value : Constant) : (literal value).script.accesses = [] := by
  cases value with
  | scalar s => exact accesses_scalar s
  | list items =>
    show (ArgList.ofList (items.map Scalar.script)).accesses = []
    induction items with
    | nil => rfl
    | cons s rest ih =>
      rw [List.map_cons, ArgList.ofList, ArgList.accesses, accesses_scalar, ih]
      rfl

theorem within_literal (value : Constant) : (literal value).Within n :=
  within_of_accesses_nil (accesses_literal value)

theorem accesses_variable {name : String} (h : name ∉ candleNames) :
    (Code.variable name).script.accesses = [] := if_neg h

/-- A candle is there if there are more candles than it lies back. -/
theorem within_candle {ago : Nat} (column : String) (h : ago < n) :
    (candle column ago).Within n := by
  match ago with
  | 0 =>
    intro a ha
    obtain rfl : a = .name "last_candle" := by
      simpa [script, candleScript, Expr.accesses, Expr.picksRows, candleNames] using ha
    exact .inl ⟨.inr rfl, h⟩
  | 1 =>
    intro a ha
    obtain rfl : a = .name "prev_candle" := by
      simpa [script, candleScript, Expr.accesses, Expr.picksRows, candleNames] using ha
    exact .inr ⟨rfl, h⟩
  | ago + 2 =>
    intro a ha
    obtain rfl | rfl : a = .name "dataframe" ∨ a = .row (some (ago + 3)) := by
      simpa [script, candleScript, Expr.accesses, Expr.picksRows, Expr.fromEnd?, candleNames]
        using ha
    · exact .inl ⟨.inl rfl, by omega⟩
    · exact ⟨ago + 3, rfl, by omega, h⟩

/-! ### One lemma for each form of code -/

theorem Within.of_append (h : c.script.accesses = l.script.accesses ++ r.script.accesses)
    (hl : l.Within n) (hr : r.Within n) : c.Within n := by
  intro a ha
  rw [h] at ha
  rcases List.mem_append.mp ha with ha | ha
  · exact hl a ha
  · exact hr a ha

theorem Within.of_eq (h : c.script.accesses = l.script.accesses) (hl : l.Within n) :
    c.Within n := by
  intro a ha
  rw [h] at ha
  exact hl a ha

theorem Within.paren (h : l.Within n) : (paren l).Within n := h

theorem Within.negative (h : l.Within n) : (negative l).Within n := h

theorem Within.not (h : l.Within n) : (not l).Within n := h

theorem Within.pointwise (f : Pointwise) (h : l.Within n) : (pointwise f l).Within n := by
  refine .of_eq ?_ h
  cases f <;> simp [script, Expr.accesses, ArgList.ofList, ArgList.accesses, candleNames]

theorem Within.momentZone (zone : String) (h : l.Within n) : (momentZone l zone).Within n := by
  refine .of_eq ?_ h
  simp [script, Expr.accesses, ArgList.ofList, ArgList.accesses, candleNames]

theorem Within.momentPart (part : TimePart) (h : l.Within n) : (momentPart l part).Within n := by
  refine .of_eq ?_ h
  cases part <;> simp [script, TimePart.momentScript, Expr.accesses, ArgList.accesses]

theorem Within.arith (op : Arith) (hl : l.Within n) (hr : r.Within n) : (arith op l r).Within n :=
  .of_append rfl hl hr

theorem Within.compare (op : Relation) (hl : l.Within n) (hr : r.Within n) :
    (compare op l r).Within n := .of_append rfl hl hr

theorem Within.join (op : Connective) (hl : l.Within n) (hr : r.Within n) :
    (join op l r).Within n := .of_append rfl hl hr

theorem Within.member (negated : Bool) (hl : l.Within n) (hr : r.Within n) :
    (member negated l r).Within n := .of_append rfl hl hr

theorem Within.also (hl : l.Within n) (hr : r.Within n) : (also l r).Within n := by
  refine .of_append ?_ hl hr
  rw [← accesses_arguments l, ← accesses_arguments r, ← ArgList.accesses_append]
  rfl

theorem Within.extremum (f : Extremum) (h : l.Within n) : (extremum f l).Within n := by
  refine .of_eq ?_ h
  rw [← accesses_arguments l]
  cases f <;> rfl

theorem Within.ifElse (hl : l.Within n) (hc : c.Within n) (hr : r.Within n) :
    (ifElse l c r).Within n := by
  intro a ha
  have ha : a ∈ l.script.accesses ++ c.script.accesses ++ r.script.accesses := ha
  rcases List.mem_append.mp ha with ha | ha
  · rcases List.mem_append.mp ha with ha | ha
    · exact hl a ha
    · exact hc a ha
  · exact hr a ha

theorem chain_within {combine : Code → Code → Code}
    (hcombine : ∀ {c d : Code}, c.Within n → d.Within n → (combine c d).Within n)
    {terms : List Code} (h : ∀ c ∈ terms, c.Within n) : (chain combine terms).Within n := by
  cases terms with
  | nil => exact within_literal _
  | cons e rest =>
    obtain ⟨he, hrest⟩ := List.forall_mem_cons.mp h
    rw [chain]
    clear h
    induction rest generalizing e with
    | nil => exact he
    | cons d rest ih =>
      obtain ⟨hd, hrest⟩ := List.forall_mem_cons.mp hrest
      exact ih (combine e d) (hcombine he hd) hrest

end Code

end Stratagem
