import Stratagem.Compiler.Error
import Stratagem.Proofs.Indicator.Snippets
import Stratagem.Proofs.Number.Rational

/-! Parameters of indicators. What a value is converted to and which values a parameter admits are
said in rational numbers (`ParamSpec.Converts`, `ParamSpec.Admits`). Main statement: the parameters
of a declaration of a built-in type are settled exactly if each entry names a parameter, none is
given twice and each value has its place, with the defaults for the others; and a refusal is one of
the document, unless the first thing wrong is an integer that no float is near to, or that is too
long for the message. -/

namespace Stratagem

/-! ## Numbers -/

namespace Numeric

def toRat : Numeric → ℚ
  | .int n => n
  | .float x => x.toRat

def isFinite : Numeric → Bool
  | .int _ => true
  | .float x => x.isFinite

theorem lt_iff {a b : Numeric} (ha : a.isFinite = true) (hb : b.isFinite = true) :
    a.lt b = true ↔ a.toRat < b.toRat := by
  cases a with
  | int m =>
    cases b with
    | int n => simp [lt, toRat]
    | float y => exact Binary64.gtInt_iff hb m
  | float x =>
    cases b with
    | int n => exact Binary64.ltInt_iff ha n
    | float y => exact Binary64.lt_iff ha hb

def isLong : Numeric → Bool
  | .int n => Stratagem.isLong n
  | .float _ => false

theorem text?_eq_none_iff (x : Numeric) : x.text? = none ↔ x.isLong = true := by
  cases x <;> simp [text?, isLong, toScalar, Scalar.toValue, Value.shown?, Value.hasLong]

end Numeric

private theorem mul_pow_lt_pow {m e a b k : Nat} (hm : m < 2 ^ a) (he : e ≤ b) (hk : a + b ≤ k) :
    m * 2 ^ e < 10 ^ k :=
  calc m * 2 ^ e < 2 ^ a * 2 ^ b :=
        Nat.mul_lt_mul_of_lt_of_le hm (Nat.pow_le_pow_right (by decide) he)
          (Nat.pow_pos (by decide))
    _ = 2 ^ (a + b) := (Nat.pow_add ..).symm
    _ ≤ 2 ^ k := Nat.pow_le_pow_right (by decide) hk
    _ ≤ 10 ^ k := Nat.pow_le_pow_left (by decide) _

/-- The integer part of a float is never too long. -/
theorem Binary64.isLong_truncate {x : Binary64} {n : Int} (h : x.truncate? = some n) :
    isLong n = false := by
  obtain ⟨u, hu, rfl⟩ := Option.map_eq_some_iff.mp h
  cases x with
  | finite negative m e hc =>
    have habs : u.natAbs = m * 2 ^ e := by
      obtain rfl := Option.some.inj hu
      split <;> simp [Int.natAbs_mul, Int.natAbs_pow]
    rw [← Bool.not_eq_true, isLong_iff, Nat.not_le, Int.natAbs_tdiv]
    calc u.natAbs / (unit : Int).natAbs ≤ u.natAbs := Nat.div_le_self _ _
      _ = m * 2 ^ e := habs
      _ < 10 ^ maxDigits := mul_pow_lt_pow hc.1 hc.2.1 (by decide)
  | _ => cases hu

/-! ## Values of a parameter -/

namespace ParamSpec

variable {p : ParamSpec} {x : Numeric} {v : Value} {s : Scalar} {problem : ParamProblem}

/-- A value turned into a kind. A number stays what it is, up to rounding to the nearest float. -/
inductive Converts : ParamKind → Value → Scalar → Prop
  | text (s : String) : Converts .text (.text s) (.text s)
  | int (n : Int) : Converts .int (.int n) (.int n)
  | whole {x : Binary64} {n : Int} (hx : x.isFinite = true) (h : x.toRat = n) :
    Converts .int (.float x) (.int n)
  | float {x : Binary64} (hx : x.isFinite = true) : Converts .float (.float x) (.float x)
  | nearest {n : Int} {x : Binary64} (hx : x.isFinite = true)
    (h : ∀ y : Binary64, y.isFinite = true → |x.toRat - n| ≤ |y.toRat - n|) :
    Converts .float (.int n) (.float x)

/-- Neither below the minimum nor above the maximum. -/
def Within (p : ParamSpec) (q : ℚ) : Prop :=
  (∀ b ∈ p.minimum, b.toRat ≤ q) ∧ ∀ b ∈ p.maximum, q ≤ b.toRat

/-- A value of the kind of a parameter, within its bounds or among its choices. -/
def Admits (p : ParamSpec) : Scalar → Prop
  | .int n => p.kind = .int ∧ p.Within n
  | .float x => p.kind = .float ∧ x.isFinite = true ∧ p.Within x.toRat
  | .text s => p.kind = .text ∧ (p.choices = [] ∨ s ∈ p.choices)
  | _ => False

/-- The bounds of a parameter are finite. -/
def isBounded (p : ParamSpec) : Bool :=
  p.minimum.all Numeric.isFinite && p.maximum.all Numeric.isFinite

/-- The bounds are finite and not too long, and those of a float keep it positive and among the
numbers that are close enough for every integer to be one. -/
def isTight (p : ParamSpec) : Bool :=
  p.isBounded && (p.minimum.all (!·.isLong) && p.maximum.all (!·.isLong)) && (p.kind != .float ||
    p.minimum.any (Numeric.lt (.int 0)) && p.maximum.any (·.lt (.int (2 ^ 53 - 1))))

theorem withinBounds_eq_ok_iff (hp : p.isBounded = true) (hx : x.isFinite = true) :
    p.withinBounds x = .ok x ↔ p.Within x.toRat := by
  simp only [isBounded, Bool.and_eq_true, Option.all_eq_true] at hp
  have hlow : p.minimum.filter x.lt = none ↔ ∀ b ∈ p.minimum, b.toRat ≤ x.toRat := by
    rw [Option.filter_eq_none_iff]
    refine forall₂_congr fun b hb => ?_
    rw [Numeric.lt_iff hx (hp.1 b hb), not_lt]
  have hhigh : p.maximum.filter (·.lt x) = none ↔ ∀ b ∈ p.maximum, x.toRat ≤ b.toRat := by
    rw [Option.filter_eq_none_iff]
    refine forall₂_congr fun b hb => ?_
    rw [Numeric.lt_iff (hp.2 b hb) hx, not_lt]
  rw [Within, ← hlow, ← hhigh, withinBounds]
  split <;> simp_all

/-- What a number is turned into. -/
theorem number_eq_ok {kind : ParamKind} (hkind : kind ≠ .text) (h : number kind v = .ok x) :
    Converts kind v x.toScalar ∧ x.isFinite = true ∧
      (kind = .int ∧ (∃ n, x = .int n) ∨ kind = .float ∧ ∃ y, x = .float y) := by
  obtain ⟨n, rfl, rfl, rfl⟩ | ⟨n, y, rfl, rfl, hof, rfl⟩ |
    ⟨y, n, rfl, rfl, hfinite, hintegral, htruncate, rfl⟩ | ⟨y, rfl, rfl, hfinite, rfl⟩ :=
    number_cases hkind h
  · exact ⟨.int n, rfl, .inl ⟨rfl, n, rfl⟩⟩
  · have hfinite := (Binary64.ofInt?_eq_some hof).2
    exact ⟨.nearest hfinite fun z hz => Binary64.ofInt?_nearest_rat hof hz, hfinite,
      .inr ⟨rfl, y, rfl⟩⟩
  · exact ⟨.whole hfinite (Binary64.toRat_of_isIntegral hintegral htruncate), rfl,
      .inl ⟨rfl, n, rfl⟩⟩
  · exact ⟨.float hfinite, hfinite, .inr ⟨rfl, y, rfl⟩⟩

theorem coerce_of_kind (hkind : p.kind ≠ .text) (v : Value) :
    p.coerce v = (do return (← p.withinBounds (← number p.kind v)).toScalar) := by
  cases hk : p.kind with
  | text => exact absurd hk hkind
  | int | float => simp only [coerce, hk]

theorem coerce_of_number (hkind : p.kind ≠ .text) (hx : number p.kind v = .ok x) :
    p.coerce v = (do return (← p.withinBounds x).toScalar) := by
  rw [coerce_of_kind hkind, hx]
  rfl

theorem coerce_of_text (hkind : p.kind = .text) (v : Value) :
    p.coerce v = (do return .text (← p.choice v)) := by
  simp only [coerce, hkind]

/-- What a parameter makes of a value is the value in its kind, and admitted. -/
theorem coerce_eq_ok (hp : p.isBounded = true) (h : p.coerce v = .ok s) :
    Converts p.kind v s ∧ p.Admits s := by
  by_cases hkind : p.kind = .text
  · rw [coerce_of_text hkind] at h
    obtain ⟨w, hw, hs⟩ := exists_of_bind_ok h
    cases hs
    cases v with
    | text t =>
      simp only [choice, Bool.or_eq_true, List.isEmpty_iff, List.contains_iff_mem] at hw
      split at hw
      · next hchoice =>
        cases hw
        rw [hkind]
        exact ⟨.text _, hkind, hchoice⟩
      · cases hw
    | _ => cases hw
  · rw [coerce_of_kind hkind] at h
    obtain ⟨x, hx, h⟩ := exists_of_bind_ok h
    obtain ⟨y, hy, hs⟩ := exists_of_bind_ok h
    cases hs
    obtain rfl := withinBounds_eq_ok hy
    obtain ⟨hconverts, hfinite, hform⟩ := number_eq_ok hkind hx
    have hwithin := (withinBounds_eq_ok_iff hp hfinite).mp hy
    refine ⟨hconverts, ?_⟩
    rcases hform with ⟨hint, n, rfl⟩ | ⟨hfloat, x, rfl⟩
    · exact ⟨hint, hwithin⟩
    · exact ⟨hfloat, hfinite, hwithin⟩

/-- **An admitted value stays as it is.** -/
theorem coerce_of_admits (hp : p.isBounded = true) (h : p.Admits s) :
    p.coerce s.toValue = .ok s := by
  cases s with
  | int n =>
    obtain ⟨hkind, hwithin⟩ := h
    have hbounds := (withinBounds_eq_ok_iff hp (x := .int n) rfl).mpr hwithin
    have hnumber : number p.kind (Value.int n) = .ok (.int n) := by simp [number, hkind]
    rw [Scalar.toValue, coerce_of_number (by simp [hkind]) hnumber, hbounds]
    rfl
  | float x =>
    obtain ⟨hkind, hfinite, hwithin⟩ := h
    have hbounds := (withinBounds_eq_ok_iff hp (x := .float x) hfinite).mpr hwithin
    have hnumber : number p.kind (Value.float x) = .ok (.float x) := by
      simp [number, hkind, hfinite]
    rw [Scalar.toValue, coerce_of_number (by simp [hkind]) hnumber, hbounds]
    rfl
  | text t =>
    obtain ⟨hkind, hchoice⟩ := h
    have ht : p.choice (Value.text t) = .ok t := by
      simpa [choice, or_iff_not_imp_left] using hchoice
    rw [coerce_of_text hkind]
    simp only [Scalar.toValue, ht]
    rfl
  | null => cases h
  | bool b => cases h

theorem isBounded_of_isTight (hp : p.isTight = true) : p.isBounded = true :=
  (Bool.and_eq_true_iff.mp (Bool.and_eq_true_iff.mp hp).1).1

theorem small_of_within (hp : p.isTight = true) (hkind : p.kind = .float) {q : ℚ} (h : p.Within q) :
    0 < q ∧ q < 2 ^ 53 - 1 := by
  simp only [isTight, isBounded, hkind, bne_self_eq_false, Bool.false_or, Bool.and_eq_true,
    Option.all_eq_true, Option.any_eq_true] at hp
  obtain ⟨⟨⟨hleast, hmost⟩, -⟩, ⟨a, ha, hlow⟩, b, hb, hhigh⟩ := hp
  have hlow := (Numeric.lt_iff rfl (hleast a ha)).mp hlow
  have hhigh := (Numeric.lt_iff (hmost b hb) rfl).mp hhigh
  constructor
  · calc (0 : ℚ) = Numeric.toRat (.int 0) := by simp [Numeric.toRat]
      _ < a.toRat := hlow
      _ ≤ q := h.1 a ha
  · calc q ≤ b.toRat := h.2 b hb
      _ < Numeric.toRat (.int (2 ^ 53 - 1)) := hhigh
      _ = 2 ^ 53 - 1 := by norm_num [Numeric.toRat]

/-- Only the result of a conversion matters. -/
theorem Converts.coerce_eq (hp : p.isTight = true) (h : Converts p.kind v s) (hs : p.Admits s) :
    p.coerce v = p.coerce s.toValue := by
  generalize hkind : p.kind = kind at h
  cases h with
  | text | int | float => rfl
  | @whole x n hx hvalue =>
    obtain ⟨hintegral, htruncate⟩ := Binary64.isIntegral_of_toRat hx hvalue
    have hnumber : number .int (Value.float x) = number .int (Value.int n) := by
      simp [number, hx, hintegral, htruncate]
    rw [coerce_of_kind (by simp [hkind]), coerce_of_kind (by simp [hkind]), hkind, hnumber]
    rfl
  | @nearest n x hx hnear =>
    obtain ⟨hpos, hsmall⟩ := small_of_within hp hkind hs.2.2
    have hof := Binary64.ofInt?_of_nearest hx hpos hsmall hnear
    have hnumber : number .float (Value.int n) = number .float (Value.float x) := by
      simp [number, hof, hx]
    rw [coerce_of_kind (by simp [hkind]), coerce_of_kind (by simp [hkind]), hkind, hnumber]
    rfl

/-- **What a parameter makes of a value**: that value in its kind, if it is admitted. -/
theorem coerce_eq_ok_iff (hp : p.isTight = true) :
    p.coerce v = .ok s ↔ Converts p.kind v s ∧ p.Admits s := by
  have hbounded := isBounded_of_isTight hp
  refine ⟨coerce_eq_ok hbounded, fun ⟨hconverts, hs⟩ => ?_⟩
  rw [hconverts.coerce_eq hp hs, coerce_of_admits hbounded hs]

/-- A value is refused, and the message cannot be written. -/
def Fails (p : ParamSpec) (v : Value) : Prop :=
  ∃ problem, p.coerce v = .error problem ∧ problem.text? = none

/-- An integer that no float is near to, for a float; or else a value that is refused and has an
integer with too many digits in it. -/
def Oversized (p : ParamSpec) : Value → Prop
  | .int n =>
    if p.kind = .float then (2 ^ 54 - 1) * 2 ^ 970 ≤ n.natAbs
    else isLong n = true ∧ (p.kind = .int → ¬ p.Within n)
  | v => v.hasLong = true

/-- With bounds that are not too long, only what was given can be. -/
theorem withinBounds_text? (hp : p.isTight = true) (h : p.withinBounds x = .error problem) :
    problem.text? = none ↔ x.isLong = true := by
  simp only [isTight, Bool.and_eq_true, Option.all_eq_true, Bool.not_eq_true'] at hp
  obtain ⟨⟨-, hlow, hhigh⟩, -⟩ := hp
  have hsaid (b : Numeric) (hb : b.isLong = false) : ∃ text, b.text? = some text :=
    Option.ne_none_iff_exists'.mp fun hnone => by simp_all [Numeric.text?_eq_none_iff]
  rw [← Numeric.text?_eq_none_iff]
  unfold withinBounds at h
  split at h
  · next bound hbound =>
    cases h
    obtain ⟨text, htext⟩ := hsaid bound (hlow bound (Option.filter_eq_some_iff.mp hbound).1)
    cases hx : x.text? <;> simp [ParamProblem.text?, htext, hx]
  · next bound _ hbound =>
    cases h
    obtain ⟨text, htext⟩ := hsaid bound (hhigh bound (Option.filter_eq_some_iff.mp hbound).1)
    cases hx : x.text? <;> simp [ParamProblem.text?, htext, hx]
  · cases h

theorem fails_of_error (h : p.coerce v = .error problem) : p.Fails v ↔ problem.text? = none := by
  simp [Fails, h]

/-- A message that shows a value is missing where the value has an integer that is too long. -/
theorem text?_showing (v : Value) (choices : List String) :
    ((ParamProblem.notNumber v.shown?).text? = none ↔ v.hasLong = true) ∧
      ((ParamProblem.notChoice choices v.shown?).text? = none ↔ v.hasLong = true) := by
  cases h : v.hasLong <;> simp [ParamProblem.text?, Value.shown?, h]

theorem fails_iff_of_text (hkind : p.kind = .text) (v : Value) : p.Fails v ↔ p.Oversized v := by
  have hrefused (h : p.choice v = .error (.notChoice p.choices v.shown?)) :
      p.Fails v ↔ v.hasLong = true := by
    have herror : p.coerce v = .error (.notChoice p.choices v.shown?) := by
      rw [coerce_of_text hkind, h]
      rfl
    rw [fails_of_error herror, (text?_showing v _).2]
  cases v with
  | text s =>
    by_cases hchoice : (p.choices.isEmpty || p.choices.contains s) = true
    · have hok : p.coerce (Value.text s) = .ok (.text s) := by
        rw [coerce_of_text hkind, choice, if_pos hchoice]
        rfl
      simp [Fails, Oversized, hok, Value.hasLong]
    · exact hrefused (by rw [choice, if_neg hchoice])
  | int n => simpa [Oversized, hkind, Value.hasLong] using hrefused rfl
  | _ => exact hrefused rfl

/-- A number in the kind of a parameter fails where it is too long and out of bounds. -/
theorem fails_iff_of_number (hp : p.isTight = true) (hkind : p.kind ≠ .text)
    (hx : number p.kind v = .ok x) : p.Fails v ↔ x.isLong = true ∧ ¬ p.Within x.toRat := by
  have hfinite := (number_eq_ok hkind hx).2.1
  have hcoerce := coerce_of_number hkind hx
  rw [← withinBounds_eq_ok_iff (isBounded_of_isTight hp) hfinite]
  cases hbounds : p.withinBounds x with
  | ok y =>
    obtain rfl := withinBounds_eq_ok hbounds
    rw [hbounds] at hcoerce
    simp [Fails, hcoerce]
  | error problem =>
    rw [hbounds] at hcoerce
    simp [fails_of_error hcoerce, withinBounds_text? hp hbounds]

theorem fails_iff_of_no_number (hkind : p.kind ≠ .text) (h : number p.kind v = .error problem) :
    p.Fails v ↔ problem.text? = none :=
  fails_of_error (by rw [coerce_of_kind hkind, h]; rfl)

/-- A float is always refused with a message. -/
theorem not_fails_float (hp : p.isTight = true) (hkind : p.kind ≠ .text) (x : Binary64) :
    ¬ p.Fails (.float x) := by
  cases hx : number p.kind (Value.float x) with
  | ok y =>
    have hshort : y.isLong = false := by
      obtain ⟨n, -, hn, -⟩ | ⟨n, z, -, hn, -⟩ | ⟨z, n, -, -, -, -, htruncate, rfl⟩ |
        ⟨z, -, -, -, rfl⟩ := number_cases hkind hx
      · cases hn
      · cases hn
      · exact Binary64.isLong_truncate htruncate
      · rfl
    simp [fails_iff_of_number hp hkind hx, hshort]
  | error problem =>
    rw [fails_iff_of_no_number hkind hx]
    simp only [number] at hx
    split at hx
    · cases hx
      simp [ParamProblem.text?]
    · split at hx
      · split at hx
        · cases hx
        · cases hx
          simp [ParamProblem.text?]
      · cases hx

/-- **Which values are refused without a message.** -/
theorem fails_iff (hp : p.isTight = true) (v : Value) : p.Fails v ↔ p.Oversized v := by
  by_cases hkind : p.kind = .text
  · exact fails_iff_of_text hkind v
  cases v with
  | int n =>
    by_cases hfloat : p.kind = .float
    · rw [Oversized, if_pos hfloat, ← Binary64.ofInt?_eq_none_iff]
      cases hof : Binary64.ofInt? n with
      | none =>
        have hnumber : number p.kind (Value.int n) = .error .beyondFloats := by
          simp [number, hfloat, hof]
        simp [fails_iff_of_no_number hkind hnumber, ParamProblem.text?]
      | some x =>
        have hnumber : number p.kind (Value.int n) = .ok (.float x) := by
          simp [number, hfloat, hof]
        simp [fails_iff_of_number hp hkind hnumber, Numeric.isLong]
    · have hint : p.kind = .int := by cases hk : p.kind <;> simp_all
      have hnumber : number p.kind (Value.int n) = .ok (.int n) := by simp [number, hint]
      rw [Oversized, if_neg hfloat, fails_iff_of_number hp hkind hnumber]
      simp [Numeric.isLong, Numeric.toRat, hint]
  | float x => simp [not_fails_float hp hkind x, Oversized, Value.hasLong]
  | _ => exact (fails_iff_of_no_number hkind rfl).trans (text?_showing _ []).1

/-- The entries that give a parameter. -/
def given (p : ParamSpec) (fields : Fields) : Fields :=
  fields.filter fun e => p.names.contains e.1.label

/-- The value of a parameter: its default, or what the one entry that gives it is turned into. -/
def Settled (p : ParamSpec) (fields : Fields) (s : Scalar) : Prop :=
  p.Admits s ∧ (p.given fields = [] ∧ s = p.default ∨
    ∃ key v, p.given fields = [(key, v)] ∧ Converts p.kind v s)

theorem Settled.unique (hp : p.isTight = true) {fields : Fields} {t : Scalar}
    (hs : p.Settled fields s) (ht : p.Settled fields t) : s = t := by
  obtain ⟨hsa, ⟨hnone, rfl⟩ | ⟨key, v, hone, hconverts⟩⟩ := hs
  · obtain ⟨-, ⟨-, rfl⟩ | ⟨key, v, hone, -⟩⟩ := ht
    · rfl
    · simp [hnone] at hone
  · obtain ⟨hta, ⟨hnone, -⟩ | ⟨key', v', hone', hconverts'⟩⟩ := ht
    · simp [hnone] at hone
    · obtain ⟨rfl, rfl⟩ : key = key' ∧ v = v' := by simpa [hone] using hone'
      have hsv := (coerce_eq_ok_iff hp).mpr ⟨hconverts, hsa⟩
      have htv := (coerce_eq_ok_iff hp).mpr ⟨hconverts', hta⟩
      exact Except.ok.inj (hsv.symm.trans htv)

end ParamSpec

/-! ## Entries one by one -/

namespace IndicatorSpec

variable {spec : IndicatorSpec} {seen : List String} {e : Key × Value} {p : ParamSpec}
  {id name : String} {resolved params : Params} {given : Fields} {d : IndicatorDeclaration}

/-- The entries that give the parameter of a name. -/
def entries (spec : IndicatorSpec) (name : String) (fields : Fields) : Fields :=
  fields.filter fun e => (spec.param? e.1.label).any (·.name == name)

/-- What one entry does: it is refused, or settles a parameter that was not given before. -/
theorem resolve_cons (spec : IndicatorSpec) (id : String) (resolved : Params) (seen : List String)
    (e : Key × Value) (rest : Fields) :
    spec.resolve id resolved seen (e :: rest) =
      match spec.param? e.1.label with
      | none => .error (.unknown id spec.type e.1.label (spec.params.map ParamSpec.name))
      | some p =>
        if seen.contains p.name then .error (.twice id p.name)
        else match p.coerce e.2 with
          | .error problem => .error (.invalid id p.name problem)
          | .ok s => spec.resolve id (Params.set resolved p.name s) (p.name :: seen) rest := by
  obtain ⟨key, value⟩ := e
  cases key <;> rfl

/-- An entry that is taken over. -/
structure Takes (spec : IndicatorSpec) (seen : List String) (e : Key × Value) (p : ParamSpec)
    (s : Scalar) : Prop where
  param : spec.param? e.1.label = some p
  fresh : p.name ∉ seen
  value : p.coerce e.2 = .ok s

theorem Takes.resolve {s : Scalar} (h : spec.Takes seen e p s) (id : String) (resolved : Params)
    (rest : Fields) :
    spec.resolve id resolved seen (e :: rest) =
      spec.resolve id (Params.set resolved p.name s) (p.name :: seen) rest := by
  rw [resolve_cons, h.param]
  simp [h.fresh, h.value]

theorem exists_takes {rest : Fields} (h : spec.resolve id resolved seen (e :: rest) = .ok params) :
    ∃ p s, spec.Takes seen e p s ∧
      spec.resolve id (Params.set resolved p.name s) (p.name :: seen) rest = .ok params := by
  rw [resolve_cons] at h
  split at h
  · cases h
  · next p hparam =>
    split at h
    · cases h
    · next hseen =>
      split at h
      · cases h
      · next s hvalue => exact ⟨p, s, ⟨hparam, by simpa using hseen, hvalue⟩, h⟩

theorem Takes.entries {s : Scalar} (h : spec.Takes seen e p s) (name : String) (rest : Fields) :
    spec.entries name (e :: rest) =
      if p.name = name then e :: spec.entries name rest else spec.entries name rest := by
  rw [IndicatorSpec.entries, List.filter_cons, h.param]
  simp [IndicatorSpec.entries]

theorem exists_lookup (h : name ∈ params.map Prod.fst) : ∃ s, params.lookup name = some s := by
  obtain ⟨e, he, rfl⟩ := List.mem_map.mp h
  cases hlookup : params.lookup e.1 with
  | some s => exact ⟨s, rfl⟩
  | none => simpa using List.lookup_eq_none_iff.mp hlookup e he

theorem map_fst_set (params : Params) (name : String) (s : Scalar) :
    (Params.set params name s).map Prod.fst = params.map Prod.fst := by
  rw [Params.set, List.map_map]
  refine List.map_congr_left fun e _ => ?_
  simp only [Function.comp]
  split <;> rfl

theorem lookup_set (params : Params) (name : String) (s : Scalar) (key : String) :
    (Params.set params name s).lookup key =
      if key = name then (params.lookup key).map fun _ => s else params.lookup key := by
  induction params with
  | nil => simp [Params.set]
  | cons e rest ih =>
    obtain ⟨n, v⟩ := e
    simp only [Params.set] at ih
    simp only [Params.set, List.map_cons]
    by_cases hkey : key = n
    · subst hkey
      by_cases hname : key = name <;> simp [hname]
    · have hne : (key == n) = false := by simpa using hkey
      by_cases hname : n = name
      · simp only [if_pos hname, List.lookup_cons, hne, ih]
      · simp only [if_neg hname, List.lookup_cons, hne, ih]

/-! ## All entries -/

theorem resolve_names (h : spec.resolve id resolved seen given = .ok params) :
    params.map Prod.fst = resolved.map Prod.fst := by
  induction given generalizing resolved seen with
  | nil =>
    cases h
    rfl
  | cons e rest ih =>
    obtain ⟨p, s, -, hrest⟩ := exists_takes h
    rw [ih hrest, map_fst_set]

theorem resolve_known (h : spec.resolve id resolved seen given = .ok params) :
    ∀ e ∈ given, ∃ p, spec.param? e.1.label = some p := by
  induction given generalizing resolved seen with
  | nil => simp
  | cons e rest ih =>
    obtain ⟨p, s, htakes, hrest⟩ := exists_takes h
    exact List.forall_mem_cons.mpr ⟨⟨p, htakes.param⟩, ih hrest⟩

/-- A parameter keeps what it had, or gets the value of the one entry that gives it. -/
theorem resolve_entries (h : spec.resolve id resolved seen given = .ok params)
    (hname : name ∈ resolved.map Prod.fst) :
    (spec.entries name given = [] ∧ params.lookup name = resolved.lookup name) ∨
      name ∉ seen ∧ ∃ e p s, spec.entries name given = [e] ∧ spec.param? e.1.label = some p ∧
        p.name = name ∧ p.coerce e.2 = .ok s ∧ params.lookup name = some s := by
  induction given generalizing resolved seen with
  | nil =>
    cases h
    exact .inl ⟨rfl, rfl⟩
  | cons e rest ih =>
    obtain ⟨p, s, htakes, hrest⟩ := exists_takes h
    have hrest := ih hrest (by rwa [map_fst_set])
    rw [htakes.entries, lookup_set] at *
    by_cases hp : p.name = name
    · -- The name is taken from here on, so that nothing behind can give it again.
      obtain ⟨hnone, hlookup⟩ := hrest.resolve_right fun hright => hright.1 (by simp [hp])
      refine .inr ⟨hp ▸ htakes.fresh, e, p, s, ?_, htakes.param, hp, htakes.value, ?_⟩
      · rw [if_pos hp, hnone]
      · obtain ⟨v, hv⟩ := exists_lookup hname
        rw [hlookup, if_pos hp.symm, hv]
        rfl
    · rw [if_neg hp]
      rw [if_neg (Ne.symm hp)] at hrest
      refine hrest.imp_right fun hright => ⟨fun hseen => hright.1 (by simp [hseen]), hright.2⟩

/-- Entries that each give a parameter of their own are all taken over. -/
theorem exists_resolve (id : String)
    (h : ∀ e ∈ given, ∃ p s, spec.Takes seen e p s ∧ spec.entries p.name given = [e]) :
    ∃ params, spec.resolve id resolved seen given = .ok params := by
  induction given generalizing resolved seen with
  | nil => exact ⟨resolved, rfl⟩
  | cons e rest ih =>
    obtain ⟨⟨p, s, htakes, hone⟩, hrest⟩ := List.forall_mem_cons.mp h
    rw [htakes.resolve]
    have hnone : spec.entries p.name rest = [] := by
      rw [htakes.entries, if_pos rfl] at hone
      exact (List.cons.inj hone).2
    refine ih fun f hf => ?_
    obtain ⟨q, t, hq, hf_one⟩ := hrest f hf
    have hother : p.name ≠ q.name := by
      intro hsame
      have hmem : f ∈ spec.entries p.name rest :=
        List.mem_filter.mpr ⟨hf, by simp [hq.param, hsame]⟩
      simp [hnone] at hmem
    rw [htakes.entries, if_neg hother] at hf_one
    exact ⟨q, t, ⟨hq.param, by simp [hq.fresh, hother.symm], hq.value⟩, hf_one⟩

/-- What fails is the first entry, or one behind it once it is taken over. -/
theorem failure_cons {rest : Fields} {reason : ParamsError}
    (h : spec.resolve id resolved seen (e :: rest) = .error reason)
    (hfailure : (BindError.params reason).isFailure = true) :
    (∃ p, spec.param? e.1.label = some p ∧ p.name ∉ seen ∧ p.Fails e.2) ∨
      ∃ p s, spec.Takes seen e p s ∧
        spec.resolve id (Params.set resolved p.name s) (p.name :: seen) rest = .error reason := by
  rw [resolve_cons] at h
  split at h
  · cases h
    cases hfailure
  · next p hparam =>
    split at h
    · cases h
      cases hfailure
    · next hseen =>
      have hseen : p.name ∉ seen := by simpa using hseen
      split at h
      · next problem hproblem =>
        cases h
        exact .inl ⟨p, hparam, hseen, problem, hproblem, Option.isNone_iff_eq_none.mp hfailure⟩
      · next s hvalue => exact .inr ⟨p, s, ⟨hparam, hseen, hvalue⟩, h⟩

/-- The first thing wrong is a value whose refusal has no message. -/
theorem resolve_failure_iff (spec : IndicatorSpec) (id : String) (resolved : Params)
    (seen : List String) (given : Fields) :
    (∃ reason, spec.resolve id resolved seen given = .error reason ∧
        (BindError.params reason).isFailure = true) ↔
      ∃ before key v after p, given = before ++ (key, v) :: after ∧
        (∃ params, spec.resolve id resolved seen before = .ok params) ∧
        spec.param? key.label = some p ∧ p.name ∉ seen ∧ spec.entries p.name before = [] ∧
        p.Fails v := by
  constructor
  · rintro ⟨reason, h, hfailure⟩
    induction given generalizing resolved seen with
    | nil => cases h
    | cons e rest ih =>
      rcases failure_cons h hfailure with ⟨p, hparam, hseen, hfails⟩ | ⟨p, s, htakes, hrest⟩
      · exact ⟨[], e.1, e.2, rest, p, rfl, ⟨resolved, rfl⟩, hparam, hseen, rfl, hfails⟩
      · obtain ⟨before, key, v, after, q, rfl, ⟨params, hok⟩, hq, hfresh, hnone, hfails⟩ :=
          ih _ _ hrest
        simp only [List.mem_cons, not_or] at hfresh
        refine ⟨e :: before, key, v, after, q, rfl, ⟨params, ?_⟩, hq, hfresh.2, ?_, hfails⟩
        · rw [htakes.resolve, hok]
        · rw [htakes.entries, if_neg (Ne.symm hfresh.1), hnone]
  · rintro ⟨before, key, v, after, p, rfl, ⟨params, hok⟩, hparam, hseen, hnone, hfails⟩
    induction before generalizing resolved seen with
    | nil =>
      obtain ⟨problem, hproblem, htext⟩ := hfails
      refine ⟨.invalid id p.name problem, ?_, Option.isNone_iff_eq_none.mpr htext⟩
      rw [List.nil_append, resolve_cons, hparam]
      simp [hseen, hproblem]
    | cons e before ih =>
      obtain ⟨q, s, htakes, hok⟩ := exists_takes hok
      rw [htakes.entries] at hnone
      split at hnone
      · cases hnone
      · next hother =>
        rw [List.cons_append, htakes.resolve]
        exact ih _ _ hok (by simp [hseen, Ne.symm hother]) hnone

/-! ## Types with distinct names -/

/-- A type whose names each stand for one parameter, with bounds that are tight and defaults
within them. -/
structure Orderly (spec : IndicatorSpec) : Prop where
  tight : ∀ p ∈ spec.params, p.isTight = true
  default : ∀ p ∈ spec.params, p.Admits p.default
  distinct : (spec.params.flatMap ParamSpec.names).Nodup

theorem Orderly.eq_of_mem_names (h : spec.Orderly) {q : ParamSpec} (hp : p ∈ spec.params)
    (hq : q ∈ spec.params) (hpn : name ∈ p.names) (hqn : name ∈ q.names) : p = q := by
  by_contra hne
  have hpairwise := (List.nodup_flatMap.mp h.distinct).2
  have : Std.Symm (Function.onFun List.Disjoint ParamSpec.names) :=
    ⟨fun _ _ hdisjoint => List.Disjoint.symm hdisjoint⟩
  exact hpairwise.forall hp hq hne hpn hqn

theorem Orderly.eq_of_name (h : spec.Orderly) {q : ParamSpec} (hp : p ∈ spec.params)
    (hq : q ∈ spec.params) (hname : p.name = q.name) : p = q := by
  have hpn : p.name ∈ p.names := List.mem_cons_self
  exact h.eq_of_mem_names hp hq hpn (hname ▸ List.mem_cons_self)

theorem Orderly.param?_eq_some_iff (h : spec.Orderly) :
    spec.param? name = some p ↔ p ∈ spec.params ∧ name ∈ p.names := by
  have hfound {q : ParamSpec} (hq : spec.param? name = some q) :
      q ∈ spec.params ∧ name ∈ q.names :=
    ⟨List.mem_reverse.mp (List.mem_of_find?_eq_some hq), by simpa using List.find?_some hq⟩
  refine ⟨hfound, fun ⟨hp, hname⟩ => ?_⟩
  cases hparam : spec.param? name with
  | none =>
    have hnone := List.find?_eq_none.mp hparam p (List.mem_reverse.mpr hp)
    simp [hname] at hnone
  | some q =>
    obtain ⟨hq, hqn⟩ := hfound hparam
    rw [h.eq_of_mem_names hp hq hname hqn]

theorem Orderly.entries_eq (h : spec.Orderly) (hp : p ∈ spec.params) (fields : Fields) :
    spec.entries p.name fields = p.given fields := by
  refine List.filter_congr fun e _ => ?_
  rw [Bool.eq_iff_iff, Option.any_eq_true, List.contains_iff_mem]
  constructor
  · rintro ⟨q, hparam, hname⟩
    obtain ⟨hq, hqn⟩ := h.param?_eq_some_iff.mp hparam
    rwa [h.eq_of_name hp hq (beq_iff_eq.mp hname).symm]
  · exact fun hname => ⟨p, h.param?_eq_some_iff.mpr ⟨hp, hname⟩, beq_self_eq_true _⟩

theorem Orderly.nodup_names (h : spec.Orderly) : (spec.params.map ParamSpec.name).Nodup := by
  refine List.pairwise_map.mpr ((List.nodup_flatMap.mp h.distinct).2.imp fun hdisjoint hname => ?_)
  exact hdisjoint List.mem_cons_self (hname ▸ List.mem_cons_self)

theorem name_mem_defaults (hp : p ∈ spec.params) : p.name ∈ spec.defaults.map Prod.fst :=
  List.mem_map.mpr ⟨_, List.mem_map_of_mem hp, rfl⟩

theorem Orderly.lookup_defaults (h : spec.Orderly) (hp : p ∈ spec.params) :
    spec.defaults.lookup p.name = some p.default := by
  obtain ⟨s, hs⟩ := exists_lookup (name_mem_defaults hp)
  obtain ⟨q, hq, hentry⟩ := List.mem_map.mp (mem_of_lookup hs)
  obtain ⟨hname, rfl⟩ := Prod.mk.inj hentry
  rw [hs, h.eq_of_name hp hq hname.symm]

/-- The parameters of a declaration: one for each of the type, in its order, and no entry is left
over. -/
structure Settled (spec : IndicatorSpec) (d : IndicatorDeclaration) (params : Params) : Prop where
  names : params.map Prod.fst = spec.params.map ParamSpec.name
  known : ∀ e ∈ d.params, ∃ p ∈ spec.params, e.1.label ∈ p.names
  values : ∀ p ∈ spec.params, ∃ s, params.lookup p.name = some s ∧ p.Settled d.params s

theorem Orderly.settled (h : spec.Orderly) (hd : spec.validate d = .ok params) :
    spec.Settled d params where
  names := by
    rw [resolve_names hd, defaults, List.map_map]
    rfl
  known e he := by
    obtain ⟨p, hp⟩ := resolve_known hd e he
    exact ⟨p, h.param?_eq_some_iff.mp hp⟩
  values p hp := by
    rcases resolve_entries hd (name_mem_defaults hp) with
      ⟨hnone, hlookup⟩ | ⟨-, ⟨key, v⟩, q, s, hone, hparam, hq, hvalue, hlookup⟩
    · rw [h.entries_eq hp] at hnone
      exact ⟨p.default, hlookup.trans (h.lookup_defaults hp), h.default p hp, .inl ⟨hnone, rfl⟩⟩
    · rw [h.entries_eq hp] at hone
      obtain rfl := h.eq_of_name (h.param?_eq_some_iff.mp hparam).1 hp hq
      obtain ⟨hconverts, hs⟩ := (ParamSpec.coerce_eq_ok_iff (h.tight q hp)).mp hvalue
      exact ⟨s, hlookup, hs, .inr ⟨key, v, hone, hconverts⟩⟩

/-- Entries that have their places are taken over. -/
theorem Orderly.exists_validate (h : spec.Orderly) (hd : spec.Settled d params) :
    ∃ params, spec.validate d = .ok params := by
  refine exists_resolve d.id fun e he => ?_
  obtain ⟨p, hp, hname⟩ := hd.known e he
  have hgiven : e ∈ p.given d.params := List.mem_filter.mpr ⟨he, by simpa using hname⟩
  obtain ⟨s, -, hs, ⟨hnone, -⟩ | ⟨key, v, hone, hconverts⟩⟩ := hd.values p hp
  · simp [hnone] at hgiven
  · obtain rfl : e = (key, v) := by simpa [hone] using hgiven
    refine ⟨p, s, ⟨h.param?_eq_some_iff.mpr ⟨hp, hname⟩, by simp, ?_⟩, ?_⟩
    · exact (ParamSpec.coerce_eq_ok_iff (h.tight p hp)).mpr ⟨hconverts, hs⟩
    · rw [h.entries_eq hp, hone]

theorem eq_of_lookup {xs ys : Params} (hkeys : xs.map Prod.fst = ys.map Prod.fst)
    (hnodup : (xs.map Prod.fst).Nodup)
    (h : ∀ key ∈ xs.map Prod.fst, xs.lookup key = ys.lookup key) : xs = ys := by
  induction xs generalizing ys with
  | nil => exact (List.map_eq_nil_iff.mp hkeys.symm).symm
  | cons x xs ih =>
    obtain ⟨y, ys, rfl⟩ : ∃ y zs, ys = y :: zs := by
      cases ys with
      | nil => cases hkeys
      | cons y zs => exact ⟨y, zs, rfl⟩
    obtain ⟨key, s⟩ := x
    obtain ⟨key', t⟩ := y
    obtain ⟨rfl, hrest⟩ : key = key' ∧ xs.map Prod.fst = ys.map Prod.fst := by
      simpa using hkeys
    obtain ⟨hfresh, hnodup⟩ := List.nodup_cons.mp hnodup
    have hhead : s = t := by simpa using h key List.mem_cons_self
    rw [hhead, ih hrest hnodup fun k hk => ?_]
    have hne : (k == key) = false := by
      rw [beq_eq_false_iff_ne]
      rintro rfl
      exact hfresh hk
    simpa [List.lookup_cons, hne] using h k (List.mem_cons_of_mem _ hk)

theorem Orderly.settled_unique (h : spec.Orderly) {params' : Params} (hd : spec.Settled d params)
    (hd' : spec.Settled d params') : params = params' := by
  refine eq_of_lookup (hd.names.trans hd'.names.symm) (hd.names ▸ h.nodup_names) fun key hkey => ?_
  rw [hd.names] at hkey
  obtain ⟨p, hp, rfl⟩ := List.mem_map.mp hkey
  obtain ⟨s, hs, hvalue⟩ := hd.values p hp
  obtain ⟨t, ht, hvalue'⟩ := hd'.values p hp
  rw [hs, ht, hvalue.unique (h.tight p hp) hvalue']

theorem Orderly.validate_eq_ok_iff (h : spec.Orderly) (d : IndicatorDeclaration) (params : Params) :
    spec.validate d = .ok params ↔ spec.Settled d params := by
  refine ⟨h.settled, fun hd => ?_⟩
  obtain ⟨params', hok⟩ := h.exists_validate hd
  rw [hok, h.settled_unique hd (h.settled hok)]

/-- The entries up to one are in order, and the value of that one is oversized. -/
def Oversized (spec : IndicatorSpec) (d : IndicatorDeclaration) : Prop :=
  ∃ before key v after p, d.params = before ++ (key, v) :: after ∧
    (∃ params, spec.Settled { d with params := before } params) ∧
    p ∈ spec.params ∧ key.label ∈ p.names ∧ p.given before = [] ∧ p.Oversized v

theorem Orderly.failure_iff (h : spec.Orderly) (d : IndicatorDeclaration) :
    (∃ reason, spec.validate d = .error reason ∧ (BindError.params reason).isFailure = true) ↔
      spec.Oversized d := by
  rw [validate, resolve_failure_iff]
  refine exists₅_congr fun before key v after p => and_congr_right fun _ => ?_
  refine and_congr (exists_congr (h.validate_eq_ok_iff { d with params := before })) ?_
  constructor
  · rintro ⟨hparam, -, hnone, hfails⟩
    obtain ⟨hp, hname⟩ := h.param?_eq_some_iff.mp hparam
    exact ⟨hp, hname, h.entries_eq hp before ▸ hnone,
      (ParamSpec.fails_iff (h.tight p hp) v).mp hfails⟩
  · rintro ⟨hp, hname, hnone, hoversized⟩
    exact ⟨h.param?_eq_some_iff.mpr ⟨hp, hname⟩, List.not_mem_nil,
      h.entries_eq hp before ▸ hnone, (ParamSpec.fails_iff (h.tight p hp) v).mpr hoversized⟩

end IndicatorSpec

theorem Builtin.specs_orderly : ∀ spec ∈ specs, spec.Orderly := by
  have htight : ∀ spec ∈ specs, ∀ p ∈ spec.params, p.isTight = true := by decide +kernel
  have hdefault : ∀ spec ∈ specs, ∀ p ∈ spec.params,
      (p.coerce p.default.toValue).toOption = some p.default := by decide +kernel
  have hdistinct : ∀ spec ∈ specs, (spec.params.flatMap ParamSpec.names).Nodup := by
    decide +kernel
  refine fun spec hspec => ⟨htight spec hspec, fun p hp => ?_, hdistinct spec hspec⟩
  have hcoerce := toOption_eq_some (hdefault spec hspec p hp)
  exact ((ParamSpec.coerce_eq_ok_iff (htight spec hspec p hp)).mp hcoerce).2

theorem BindError.kind_ne_schema_iff (reason : BindError) :
    reason.kind ≠ .schema ↔ reason.isFailure = true := by
  cases h : reason.isFailure <;> simp [kind, h]

/-- **The parameters of a built-in type are settled or refused.** The defaults are admitted. A
declaration is accepted exactly if its entries have their places, with the values that they say, and
those values are taken over as they are when they are given again. A refusal is one of the document,
unless the first thing wrong is an integer that no float is near to, or that is too long for the
message. -/
theorem Builtin.params_settled_or_refused {spec : IndicatorSpec} (hspec : spec ∈ specs)
    (d : IndicatorDeclaration) :
    (∀ p ∈ spec.params, p.Admits p.default) ∧
      (∀ params, spec.validate d = .ok params ↔ spec.Settled d params) ∧
      (∀ params, spec.validate d = .ok params → ∀ p ∈ spec.params, ∃ s,
        params.lookup p.name = some s ∧ p.coerce s.toValue = .ok s) ∧
      ((∃ reason, spec.validate d = .error reason ∧ (BindError.params reason).kind ≠ .schema) ↔
        spec.Oversized d) := by
  have h := specs_orderly spec hspec
  refine ⟨h.default, h.validate_eq_ok_iff d, fun params hd p hp => ?_, ?_⟩
  · obtain ⟨s, hlookup, hs, -⟩ := (h.settled hd).values p hp
    exact ⟨s, hlookup,
      ParamSpec.coerce_of_admits (ParamSpec.isBounded_of_isTight (h.tight p hp)) hs⟩
  · simp only [BindError.kind_ne_schema_iff]
    exact h.failure_iff d

/-- Bands two deviations wide over five candles, by other names and in the other kind of number. -/
def Builtin.reworded : IndicatorDeclaration where
  id := "b"
  type := "BB"
  params := [(.text "stddev", .int 2), (.text "length", .float (Binary64.ofRatio false 5 1))]
  label := none

theorem Builtin.reworded_settled :
    bollinger ∈ specs ∧ bollinger.Settled reworded
      [("period", .int 5), ("std_dev", .float (Binary64.ofRatio false 2 1))] ∧
      ¬ bollinger.Oversized reworded := by
  have hmem : bollinger ∈ specs := by simp [specs]
  obtain ⟨-, hok, -, hfailure⟩ := params_settled_or_refused hmem reworded
  have hvalidate : bollinger.validate reworded =
      .ok [("period", .int 5), ("std_dev", .float (Binary64.ofRatio false 2 1))] := by
    decide +kernel
  refine ⟨hmem, (hok _).mp hvalidate, fun hoversized => ?_⟩
  obtain ⟨reason, herror, -⟩ := hfailure.mpr hoversized
  cases hvalidate.symm.trans herror

/-- Too many deviations, and not an error of the document. -/
theorem Builtin.oversized_deviations_internal :
    bollinger.validate ⟨"b", "BB", [(.text "std_dev", .int (10 ^ 400))], none⟩ =
        .error (.invalid "b" "std_dev" .beyondFloats) ∧
      (BindError.params (.invalid "b" "std_dev" .beyondFloats)).kind = .internal := by
  decide +kernel

end Stratagem
