import Stratagem.Proofs.Emission.Grouping
import Stratagem.Proofs.Expression.RoundTrip
import Stratagem.Proofs.Value.Guard

/-! How long the text of an operand is. Every rule writes the texts of its parts once and adds a
bounded number of characters for each of them, with one exception: a relative change writes its
second operand twice. So the text is bounded by the weight of the tree, doubled for each relative
change that is nested in the second operand of another. The doubling is real: there are trees whose
text grows twice as long with each level. -/

namespace Stratagem

/-! ## Weights -/

namespace Operand

/-- Characters that a node brings along: a constant as it is written, the column of an indicator,
the name of a time zone. -/
def chars (b : Binding) : Operand → Nat
  | .constant value => value.toValue.written.length
  | .indicator id field _ => (b.column id field).toOption.elim 0 String.length
  | .time _ zone => zone.elim 0 String.length
  | _ => 0

mutual

/-- The number of nodes and of the characters that they bring along. -/
def weight (b : Binding) : Operand → Nat
  | .computed _ operands => (weights b operands).sum + 1
  | o => o.chars b + 1

def weights (b : Binding) : List Operand → List Nat
  | [] => []
  | o :: rest => o.weight b :: weights b rest

end

mutual

/-- The weight when the second operand of a relative change counts twice. -/
def expanded (b : Binding) : Operand → Nat
  | .computed .percentChange operands =>
    (expandeds b operands).sum + (expandeds b operands).getD 1 0 + 1
  | .computed _ operands => (expandeds b operands).sum + 1
  | o => o.chars b + 1

def expandeds (b : Binding) : List Operand → List Nat
  | [] => []
  | o :: rest => o.expanded b :: expandeds b rest

end

mutual

/-- The most relative changes on a path that goes on in the second operand of each of them. -/
def doublings : Operand → Nat
  | .computed .percentChange operands =>
    max ((doublingss operands).foldr max 0) ((doublingss operands).getD 1 0 + 1)
  | .computed _ operands => (doublingss operands).foldr max 0
  | _ => 0

def doublingss : List Operand → List Nat
  | [] => []
  | o :: rest => o.doublings :: doublingss rest

end

theorem expanded_computed (b : Binding) {operation : Operation} (operands : List Operand)
    (h : operation ≠ .percentChange) :
    (computed operation operands).expanded b = (expandeds b operands).sum + 1 := by
  rw [expanded]
  exact h

theorem doublings_computed {operation : Operation} (operands : List Operand)
    (h : operation ≠ .percentChange) :
    (computed operation operands).doublings = (doublingss operands).foldr max 0 := by
  rw [doublings]
  exact h

theorem le_two_pow_mul {e d k w : Nat} (h : e ≤ 2 ^ d * w) (hd : d ≤ k) : e ≤ 2 ^ k * w :=
  h.trans (Nat.mul_le_mul_right w (Nat.pow_le_pow_right (by decide) hd))

mutual

/-- What counts twice is doubled once more at each level. -/
theorem expanded_le (b : Binding) (o : Operand) : o.expanded b ≤ 2 ^ o.doublings * o.weight b := by
  match o with
  | .computed operation operands =>
    generalize hk : (Operand.computed operation operands).doublings = k
    have hpos : 1 ≤ 2 ^ k := Nat.one_le_two_pow
    by_cases hop : operation = .percentChange
    · subst hop
      match operands with
      | [] => simpa [expanded, expandeds, weight, weights] using hpos
      | [x] =>
        simp only [doublings, doublingss, List.foldr_cons, List.foldr_nil] at hk
        have hx := le_two_pow_mul (expanded_le b x) (k := k) (by omega)
        simp only [expanded, expandeds, weight, weights, List.sum_cons, List.sum_nil,
          List.getD_cons_succ, List.getD_nil, Nat.mul_add]
        omega
      | x :: y :: rest =>
        simp only [doublings, doublingss, List.foldr_cons, List.getD_cons_succ,
          List.getD_cons_zero] at hk
        have hx := le_two_pow_mul (expanded_le b x) (k := k) (by omega)
        have hy : 2 * y.expanded b ≤ 2 ^ k * y.weight b := by
          refine le_two_pow_mul (d := y.doublings + 1) ?_ (by omega)
          rw [Nat.pow_succ, Nat.mul_comm (2 ^ y.doublings), Nat.mul_assoc]
          exact Nat.mul_le_mul_left 2 (expanded_le b y)
        have hrest := le_two_pow_mul (expandeds_le b rest) (k := k) (by omega)
        simp only [expanded, expandeds, weight, weights, List.sum_cons, List.getD_cons_succ,
          List.getD_cons_zero, Nat.mul_add]
        omega
    · rw [doublings_computed operands hop] at hk
      have hall := expandeds_le b operands
      rw [hk] at hall
      rw [expanded_computed b operands hop, weight, Nat.mul_add]
      omega
  | .constant _ | .indicator .. | .price .. | .tradeContext _ | .time .. | .external _
  | .custom _ =>
    simp [expanded, weight, doublings]

theorem expandeds_le (b : Binding) (os : List Operand) :
    (expandeds b os).sum ≤ 2 ^ (doublingss os).foldr max 0 * (weights b os).sum := by
  match os with
  | [] => simp [expandeds]
  | o :: rest =>
    have ho := le_two_pow_mul (expanded_le b o)
      (Nat.le_max_left o.doublings ((doublingss rest).foldr max 0))
    have hrest := le_two_pow_mul (expandeds_le b rest)
      (Nat.le_max_right o.doublings ((doublingss rest).foldr max 0))
    simp only [expandeds, doublingss, weights, List.sum_cons, List.foldr_cons, Nat.mul_add]
    omega

end

end Operand

/-! ## Lengths of texts -/

theorem length_natText_le {n k : Nat} (hk : 0 < k) (h : n < 10 ^ k) : (natText n).length ≤ k := by
  rw [natText, String.length_ofList]
  exact (Nat.length_toDigits_le_iff (by decide) hk).mpr h

theorem length_hex (width n : Nat) : (Text.hex width n).length = width := by
  induction width generalizing n with
  | zero => rfl
  | succ width ih => rw [Text.hex, List.length_append, ih, List.length_singleton]

/-- The longest escape holds eight digits. -/
theorem length_quotedChar_le (quote c : Char) : (Text.quotedChar quote c).length ≤ 10 := by
  have hescape (n : Nat) : (Text.hexEscape n).length ≤ 10 := by
    unfold Text.hexEscape
    split
    · simp [length_hex]
    · split <;> simp [length_hex]
  unfold Text.quotedChar
  split
  · simp
  split
  · decide
  split
  · decide
  split
  · decide
  split
  · simp
  · exact hescape _

theorem length_quoted_le (s : String) : (Text.quoted s).length ≤ 10 * s.length + 2 := by
  have hchars (quote : Char) (cs : List Char) :
      (cs.flatMap (Text.quotedChar quote)).length ≤ 10 * cs.length := by
    induction cs with
    | nil => simp
    | cons c rest ih =>
      have hc := length_quotedChar_le quote c
      rw [List.flatMap_cons, List.length_append, List.length_cons]
      omega
  have hall := hchars (Text.quoteFor s.toList) s.toList
  rw [String.length_toList] at hall
  simp only [Text.quoted, Text.quotedChars, String.length_ofList, List.length_append,
    List.length_cons, List.length_nil]
  omega

namespace Code

/-- The length of the text of some code. -/
def width (c : Code) : Nat := c.render.length

theorem width_paren (c : Code) : (paren c).width = 1 + c.width + 1 := by
  change ("(" ++ c.render ++ ")").length = _
  rw [String.length_append, String.length_append]
  rfl

theorem width_infixed (l symbol r : String) :
    (infixed l symbol r).length = l.length + 1 + symbol.length + 1 + r.length := by
  rw [infixed, String.length_append, String.length_append, String.length_append,
    String.length_append]
  rfl

theorem width_arith (op : Arith) (l r : Code) : (arith op l r).width = l.width + r.width + 3 := by
  have hop : op.symbol.length = 1 := by cases op <;> rfl
  have hinfixed := width_infixed l.render op.symbol r.render
  rw [hop] at hinfixed
  change (infixed l.render op.symbol r.render).length = l.render.length + r.render.length + 3
  omega

theorem width_negative (c : Code) : (negative c).width = 1 + c.width := by
  change ("-" ++ c.render).length = _
  rw [String.length_append]
  rfl

theorem width_pointwise (f : Pointwise) (c : Code) : (pointwise f c).width ≤ 9 + c.width + 1 := by
  have hname : ("np." ++ f.name ++ "(").length ≤ 9 := by cases f <;> decide
  change ("np." ++ f.name ++ "(" ++ c.render ++ ")").length ≤ _
  rw [String.length_append, String.length_append]
  exact Nat.add_le_add_right (Nat.add_le_add_right hname _) 1

theorem width_pairwise (f : Extremum) (l r : Code) :
    (pairwise f l r).width = l.width + r.width + 14 := by
  have hname : ("np." ++ f.name ++ "imum(").length = 11 := by cases f <;> decide
  have hrender : (pairwise f l r).width = 11 + l.width + 2 + r.width + 1 := by
    change ("np." ++ f.name ++ "imum(" ++ l.render ++ ", " ++ r.render ++ ")").length = _
    rw [String.length_append, String.length_append, String.length_append, String.length_append,
      hname]
    rfl
  omega

theorem width_also (l r : Code) : (also l r).width = l.width + r.width + 2 := by
  have hrender : (also l r).width = l.width + 2 + r.width := by
    change (l.render ++ ", " ++ r.render).length = _
    rw [String.length_append, String.length_append]
    rfl
  omega

theorem width_extremum (f : Extremum) (c : Code) : (extremum f c).width = 4 + c.width + 1 := by
  have hname : (f.name ++ "(").length = 4 := by cases f <;> decide
  change (f.name ++ "(" ++ c.render ++ ")").length = _
  rw [String.length_append, String.length_append, hname]
  rfl

theorem width_number (n : Nat) : (number n).width = (natText n).length := by
  have hwritten : intText n = natText n := by simp [intText, Int.not_lt.mpr (Int.natCast_nonneg n)]
  rw [← hwritten]
  rfl

theorem width_shifted (c : Code) (candles : Nat) :
    (shifted c candles).width = c.width + 7 + (natText candles).length + 1 := by
  change (c.render ++ ".shift(" ++ natText candles ++ ")").length = _
  rw [String.length_append, String.length_append, String.length_append]
  rfl

theorem width_seriesZone (c : Code) (zone : String) :
    (seriesZone c zone).width = c.width + 15 + (Text.quoted zone).length + 1 := by
  change (c.render ++ ".dt.tz_convert(" ++ Text.quoted zone ++ ")").length = _
  rw [String.length_append, String.length_append, String.length_append]
  rfl

theorem width_momentZone (c : Code) (zone : String) :
    (momentZone c zone).width = c.width + 21 + (Text.quoted zone).length + 2 := by
  change (c.render ++ ".astimezone(ZoneInfo(" ++ Text.quoted zone ++ "))").length = _
  rw [String.length_append, String.length_append, String.length_append]
  rfl

theorem width_seriesPart (c : Code) (part : TimePart) :
    (seriesPart c part).width = c.width + part.ofSeries.length :=
  String.length_append ..

theorem width_momentPart (c : Code) (part : TimePart) :
    (momentPart c part).width = c.width + part.ofMoment.length :=
  String.length_append ..

/-- The texts of some terms together. -/
def widths (terms : List Code) : Nat := (terms.map width).sum

theorem width_foldl {combine : Code → Code → Code} {extra : Nat}
    (h : ∀ l r, (combine l r).width = l.width + r.width + extra) (terms : List Code) (c : Code) :
    (terms.foldl combine c).width = c.width + widths terms + extra * terms.length := by
  induction terms generalizing c with
  | nil => simp [widths]
  | cons d rest ih =>
    simp only [widths] at ih
    simp only [List.foldl_cons, ih, h, widths, List.map_cons, List.sum_cons, List.length_cons,
      Nat.mul_add]
    omega

/-- Each term of a chain adds what stands between two of them. -/
theorem width_chain_le {combine : Code → Code → Code} {extra : Nat}
    (h : ∀ l r, (combine l r).width = l.width + r.width + extra) (terms : List Code) :
    (chain combine terms).width ≤ widths terms + extra * terms.length + 4 := by
  cases terms with
  | nil =>
    have hnull : (literal (.scalar .null)).width = 4 := by decide
    rw [chain, hnull]
    omega
  | cons c rest =>
    rw [chain, width_foldl h]
    simp only [widths, List.map_cons, List.sum_cons, List.length_cons, Nat.mul_add]
    omega

end Code

namespace Emission

open Code

variable {ago : Nat} {e : Emitted} {b : Binding}

theorem width_mean_le (terms : List Code) :
    (mean terms).width ≤ widths terms + 4 * terms.length + 12 := by
  have hchain := width_chain_le (width_arith .add) terms
  have hcount : (natText terms.length).length ≤ terms.length + 1 := by
    refine length_natText_le (by omega) ((Nat.lt_pow_self (a := 10) (by decide)).trans_le ?_)
    exact Nat.pow_le_pow_right (by decide) (by omega)
  simp only [mean, width_paren, width_arith, width_number]
  omega

theorem width_extremum_le (scope : Scope) (f : Extremum) (terms : List Code) :
    (extremum scope f terms).width ≤ widths terms + 14 * terms.length + 9 := by
  cases scope with
  | series =>
    have hchain := width_chain_le (width_pairwise f) terms
    rw [extremum]
    omega
  | leverage =>
    have hchain := width_chain_le width_also terms
    rw [extremum, width_extremum]
    omega

theorem width_percentChange (a b : Code) :
    (percentChange a b).width = a.width + b.width + b.width + 16 := by
  have hhundred : (number 100).width = 3 := rfl
  simp only [percentChange, width_paren, width_arith, hhundred]
  omega

/-- The length of arithmetic that writes each term once. -/
theorem width_arithmetic_le (scope : Scope) {operation : Operation} (terms : List Code)
    (h : operation.arity.allows terms.length = true) (honce : operation ≠ .percentChange) :
    (arithmetic scope operation terms).width ≤ widths terms + 14 * terms.length + 20 := by
  have hjoined (op : Arith) : (joined op terms).width ≤ widths terms + 14 * terms.length + 20 := by
    have hchain := width_chain_le (width_arith op) terms
    rw [joined, width_paren]
    omega
  have hextremum (f : Extremum) := width_extremum_le scope f terms
  have hone (hsingle : operation.arity = ⟨1, some 1⟩) : ∃ c, terms = [c] := by
    simp only [hsingle, Arity.allows, Option.all_some, Bool.and_eq_true, decide_eq_true_eq] at h
    exact List.length_eq_one_iff.mp (Nat.le_antisymm h.2 h.1)
  have hpointwise (f : Pointwise) (hsingle : operation.arity = ⟨1, some 1⟩) :
      (Code.pointwise f (terms.getD 0 (.literal (.scalar .null)))).width ≤
        widths terms + 14 * terms.length + 20 := by
    obtain ⟨c, rfl⟩ := hone hsingle
    refine (width_pointwise f c).trans ?_
    simp only [widths, List.map_cons, List.map_nil, List.sum_cons, List.sum_nil]
    omega
  cases operation with
  | add | sum => exact hjoined .add
  | sub => exact hjoined .sub
  | mul => exact hjoined .mul
  | div => exact hjoined .div
  | neg =>
    obtain ⟨c, rfl⟩ := hone rfl
    simp only [arithmetic, List.getD_cons_zero, width_paren, width_negative, widths, List.map_cons,
      List.map_nil, List.sum_cons, List.sum_nil]
    omega
  | abs => exact hpointwise .abs rfl
  | round => exact hpointwise .round rfl
  | floor => exact hpointwise .floor rfl
  | ceil => exact hpointwise .ceil rfl
  | average => exact (width_mean_le terms).trans (by omega)
  | percentChange => exact absurd rfl honce
  | min => exact (hextremum .min).trans (by omega)
  | max => exact (hextremum .max).trans (by omega)

/-! ## Single operands -/

theorem length_subscript (table column : String) :
    (subscript table column).length = table.length + (Text.quoted column).length + 2 := by
  have hrender :
      (subscript table column).length = table.length + 1 + (Text.quoted column).length + 1 := by
    rw [subscript, String.length_append, String.length_append, String.length_append]
    rfl
  omega

theorem width_column (name : String) :
    (Code.column name).width = (Text.quoted name).length + 11 := by
  have hlength := length_subscript "dataframe" name
  have htable : "dataframe".length = 9 := by decide
  change (subscript "dataframe" name).length = _
  omega

theorem length_candleText_le (name : String) (h : ago ≤ maxOffset) :
    (candleText name ago).length ≤ (Text.quoted name).length + 22 := by
  have hcount : (natText (ago + 1)).length ≤ 3 :=
    length_natText_le (by decide) (by rw [maxOffset] at h; omega)
  have hlast := length_subscript "last_candle" name
  have hprev := length_subscript "prev_candle" name
  have htable := length_subscript "dataframe" name
  have hnames : "last_candle".length = 11 ∧ "prev_candle".length = 11 ∧ "dataframe".length = 9 ∧
      ".iat[-".length = 6 ∧ "]".length = 1 := by decide
  unfold candleText
  split
  · omega
  · omega
  · rw [String.length_append, String.length_append, String.length_append]
    omega

theorem width_columnAt_le (scope : Scope) (name : String) (h : ago ≤ maxOffset) :
    (columnAt scope name ago).width ≤ (Text.quoted name).length + 22 := by
  cases scope with
  | series =>
    have hcolumn := width_column name
    rw [columnAt]
    by_cases hnow : ago = 0
    · rw [if_pos hnow]
      omega
    · rw [if_neg hnow]
      have hcount : (natText ago).length ≤ 3 :=
        length_natText_le (by decide) (by rw [maxOffset] at h; omega)
      have hshifted := width_shifted (.column name) ago
      omega
  | leverage => exact length_candleText_le name h

theorem width_price_le (scope : Scope) (field : PriceField) (h : ago ≤ maxOffset) :
    (columnsAt scope (priceColumns field) ago).width ≤ 180 := by
  have hquoted : (Text.quoted "open").length = 6 ∧ (Text.quoted "high").length = 6 ∧
      (Text.quoted "low").length = 5 ∧ (Text.quoted "close").length = 7 ∧
      (Text.quoted "volume").length = 8 := by decide +kernel
  have hopen := width_columnAt_le scope "open" h
  have hhigh := width_columnAt_le scope "high" h
  have hlow := width_columnAt_le scope "low" h
  have hclose := width_columnAt_le scope "close" h
  have hvolume := width_columnAt_le scope "volume" h
  have hmean (names : List String) := width_mean_le (names.map fun c => columnAt scope c ago)
  cases field with
  | open_ => exact hopen.trans (by omega)
  | high => exact hhigh.trans (by omega)
  | low => exact hlow.trans (by omega)
  | close => exact hclose.trans (by omega)
  | volume => exact hvolume.trans (by omega)
  | hl2 =>
    refine (hmean ["high", "low"]).trans ?_
    simp only [widths, List.map_cons, List.map_nil, List.sum_cons, List.sum_nil, List.length_cons,
      List.length_nil]
    omega
  | hlc3 =>
    refine (hmean ["high", "low", "close"]).trans ?_
    simp only [widths, List.map_cons, List.map_nil, List.sum_cons, List.sum_nil, List.length_cons,
      List.length_nil]
    omega
  | ohlc4 =>
    refine (hmean ["open", "high", "low", "close"]).trans ?_
    simp only [widths, List.map_cons, List.map_nil, List.sum_cons, List.sum_nil, List.length_cons,
      List.length_nil]
    omega

theorem width_tradeContext_le {scope : Scope} {field : TradeField}
    (h : tradeContext scope field = .ok e) : e.code.width ≤ 17 := by
  obtain ⟨name, numeric, hname, rfl⟩ := tradeContext_eq_ok h
  cases field <;> cases hname <;> decide

theorem width_timePart_le {part : TimePart → Code} {k : Nat} (h : ∀ p, (part p).width ≤ k)
    (field : TimeField) : (timePart part field).width ≤ k + 7 := by
  cases field with
  | isWeekend =>
    have hday := h .dayOfWeek
    have hfive : (number 5).width = 1 := by decide
    have hinfixed := width_infixed (part .dayOfWeek).render ">=" (number 5).render
    have hsign : ">=".length = 2 := by decide
    have hcompare : (Code.compare .gte (part .dayOfWeek) (number 5)).width =
        (part .dayOfWeek).width + 1 + 2 + 1 + 1 := by
      rw [hsign] at hinfixed
      exact hinfixed
    rw [timePart, width_paren, hcompare]
    omega
  | _ => exact (h _).trans (Nat.le_add_right _ _)

theorem width_time_le (scope : Scope) (field : TimeField) (zone : Option String) :
    (time scope field zone).code.width ≤ zone.elim 0 (fun z => (Text.quoted z).length) + 80 := by
  generalize hk : zone.elim 0 (fun z => (Text.quoted z).length) = k
  cases scope with
  | series =>
    have hdate : (Code.column "date").width = 17 := by decide +kernel
    have hbase :
        (zone.elim (Code.column "date") (.seriesZone (.column "date"))).width ≤ k + 33 := by
      cases zone with
      | none => exact hdate.le.trans (by omega)
      | some z =>
        have hzone := width_seriesZone (.column "date") z
        simp only [Option.elim_some] at hk ⊢
        omega
    refine (width_timePart_le (k := k + 46) (fun p => ?_) field).trans (by omega)
    have hpart : p.ofSeries.length ≤ 13 := by cases p <;> decide
    rw [width_seriesPart]
    omega
  | leverage =>
    have hnow : (Code.variable "current_time").width = 12 := by decide
    have hbase : (zone.elim (Code.variable "current_time")
        (.momentZone (.variable "current_time"))).width ≤ k + 35 := by
      cases zone with
      | none => exact hnow.le.trans (by omega)
      | some z =>
        have hzone := width_momentZone (.variable "current_time") z
        simp only [Option.elim_some] at hk ⊢
        omega
    refine (width_timePart_le (k := k + 45) (fun p => ?_) field).trans (by omega)
    have hpart : p.ofMoment.length ≤ 10 := by cases p <;> decide
    rw [width_momentPart]
    omega

/-! ## Trees -/

/-- What the induction carries: some characters are left over for what stands beside a term. -/
def Roomy (b : Binding) (o : Operand) (e : Emitted) : Prop :=
  e.code.width + 20 ≤ 200 * o.expanded b

theorem widths_le_of_roomy {operands : List Operand} {parts : List Emitted}
    (h : List.Forall₂ (Roomy b) operands parts) :
    widths (parts.map Emitted.code) + 20 * parts.length ≤
      200 * (Operand.expandeds b operands).sum := by
  induction h with
  | nil => simp [widths]
  | cons ho _ ih =>
    simp only [Roomy, widths] at ho ih
    simp only [widths, Operand.expandeds, List.map_cons, List.sum_cons, List.length_cons]
    omega

/-- A relative change of two operands. -/
theorem percentChange_roomy {x y : Operand} {p q : Emitted} (hp : Roomy b x p) (hq : Roomy b y q) :
    (percentChange p.code q.code).width + 20 ≤
      200 * (Operand.computed .percentChange [x, y]).expanded b := by
  have hwidth := width_percentChange p.code q.code
  simp only [Roomy] at hp hq
  simp only [Operand.expanded, Operand.expandeds, List.getD_cons_zero, List.getD_cons_succ,
    List.sum_cons, List.sum_nil]
  omega

theorem computed_roomy {scope : Scope} {operation : Operation} {operands : List Operand}
    {parts : List Emitted} (harity : operation.arity.allows operands.length = true)
    (hparts : List.Forall₂ (Roomy b) operands parts) (h : computed scope operation parts = .ok e) :
    Roomy b (.computed operation operands) e := by
  obtain ⟨-, rfl⟩ := computed_eq_ok h
  have hlength := hparts.length_eq
  by_cases hop : operation = .percentChange
  · subst hop
    simp only [Operation.arity, Arity.allows, Option.all_some, Bool.and_eq_true,
      decide_eq_true_eq] at harity
    obtain ⟨x, y, rfl⟩ := List.length_eq_two.mp
      (Nat.le_antisymm harity.2 (of_decide_eq_true harity.1))
    obtain _ | ⟨hx, _ | ⟨hy, _ | _⟩⟩ := hparts
    exact percentChange_roomy hx hy
  · have hwidths := widths_le_of_roomy hparts
    have hwidth := width_arithmetic_le scope (parts.map Emitted.code)
      (by rwa [List.length_map, ← hlength]) hop
    rw [List.length_map] at hwidth
    rw [Roomy, Operand.expanded_computed b operands hop]
    simp only
    omega

/-- The text of an operand that the schema lets through. -/
theorem operand_roomy {context : EmissionContext} {o : Operand} {depth : Nat}
    (hadmissible : o.Admissible) (h : build context depth (.operand o) = .ok e) :
    Roomy context.binding o e := by
  refine build_induction (P := fun n e => ∀ o, n = .operand o → o.Admissible →
    Roomy context.binding o e) ?_ h o rfl hadmissible
  rintro _ parts e depth hparts hnode o rfl hadmissible
  obtain ⟨hself, hchildren⟩ := (Node.forall_mem_preorder _).mp hadmissible
  cases o with
  | constant value =>
    obtain ⟨-, rfl⟩ := constant_eq_ok hnode
    have hwidth : (Code.literal value).width = value.toValue.written.length := rfl
    simp only [Roomy, Operand.expanded, Operand.chars]
    omega
  | indicator id field offset =>
    obtain ⟨name, hname, rfl⟩ := indicator_eq_ok hnode
    have hwidth := width_columnAt_le context.scope name hself.2
    have hquoted := length_quoted_le name
    simp only [Roomy, Operand.expanded, Operand.chars, hname, Except.toOption, Option.elim_some,
      columns, columnsAt]
    omega
  | price field offset =>
    cases hnode
    have hwidth := width_price_le context.scope field hself
    simp only [Roomy, Operand.expanded, Operand.chars, columns]
    omega
  | tradeContext field =>
    have hwidth := width_tradeContext_le hnode
    simp only [Roomy, Operand.expanded, Operand.chars]
    omega
  | time field zone =>
    cases hnode
    have hwidth := width_time_le context.scope field zone
    simp only [Roomy, Operand.expanded, Operand.chars]
    cases zone with
    | none =>
      simp only [Option.elim_none] at hwidth ⊢
      omega
    | some z =>
      have hquoted := length_quoted_le z
      simp only [Option.elim_some] at hwidth ⊢
      omega
  | computed operation operands =>
    refine computed_roomy hself ?_ hnode
    simp only [Node.children, List.forall₂_map_left_iff] at hparts
    refine hparts.imp fun x p hx => hx.2.2 x rfl (hchildren _ hx.1)
  | external source => cases hnode
  | custom name => cases hnode

/-- **The weight bounds the text, up to doubling.** The text of an operand that the schema lets
through is at most 200 characters long for each unit of the weight of its tree, twice as much for
each relative change on a path that goes on in its second operand. -/
theorem operand_text_length_le {v : Value} {o : Operand} (hread : Operand.read v = .good o)
    {context : EmissionContext} {tally : Tally} {e : Emitted}
    (h : (emitOperand context (.operand o) tally).1 = .ok e) :
    e.text.length ≤ 200 * (2 ^ o.doublings * o.weight context.binding) := by
  rw [emitOperand_fst] at h
  obtain ⟨e', hbuild, hvalue⟩ := exists_of_bind_ok h
  obtain rfl : e' = e := by
    unfold asValue at hvalue
    split at hvalue
    · cases hvalue
    · exact Except.ok.inj hvalue
  have hroomy : e'.text.length + 20 ≤ 200 * o.expanded context.binding :=
    operand_roomy (Operand.read_admissible hread) hbuild
  have hexpanded := o.expanded_le context.binding
  omega

/-- The change of the price against the mean of two earlier ones. -/
def swing : Operand :=
  .computed .percentChange
    [.price .close 0, .computed .average [.price .ohlc4 3, .price .ohlc4 20]]

theorem swing_text_length_le : Operand.read swing.dump = .good swing ∧
    ∃ e, (emitOperand ⟨.series, Binding.empty, 64⟩ (.operand swing) Tally.empty).1 = .ok e ∧
      e.text.length ≤ 200 * (2 * 5) := by
  have hread : Operand.read swing.dump = .good swing := by
    refine (Operand.read_dump_iff _).mpr ?_
    simp [swing, Operand.Admissible, Operand.preorder, Operand.preorders, Node.Admissible,
      maxOffset]
    decide
  have hsome : ((emitOperand ⟨.series, Binding.empty, 64⟩ (.operand swing)
      Tally.empty).1).toOption.isSome = true := by decide +kernel
  obtain ⟨e, he⟩ := Option.isSome_iff_exists.mp hsome
  have he := toOption_eq_some he
  exact ⟨hread, e, he, operand_text_length_le hread he⟩

/-! ## Relative changes of relative changes -/

/-- Relative changes, each nested in the second operand of the next. -/
def changes : Nat → Operand
  | 0 => .constant (.scalar (.int 1))
  | n + 1 => .computed .percentChange [.constant (.scalar (.int 1)), changes n]

theorem changes_admissible (n : Nat) : (changes n).Admissible := by
  induction n with
  | zero => simp [changes, Operand.Admissible, Operand.preorder, Node.Admissible,
      Constant.notFinite?, Scalar.notFinite?]
  | succ n ih =>
    refine (Node.forall_mem_preorder _).mpr ⟨rfl, ?_⟩
    simp only [changes, Node.children, List.map_cons, List.map_nil, List.forall_mem_cons,
      List.not_mem_nil, false_implies, implies_true, and_true]
    refine ⟨?_, ih⟩
    simp [Operand.preorder, Node.Admissible, Constant.notFinite?, Scalar.notFinite?]

theorem weight_changes (b : Binding) (n : Nat) : (changes n).weight b = 3 * n + 2 := by
  have hone : (Value.int 1).written.length = 1 := by decide
  induction n with
  | zero => simp [changes, Operand.weight, Operand.chars, Constant.toValue, Scalar.toValue, hone]
  | succ n ih =>
    simp [changes, Operand.weight, Operand.weights, Operand.chars, Constant.toValue,
      Scalar.toValue, hone, ih]
    omega

theorem build_one (context : EmissionContext) (depth : Nat)
    (h : (depth : Int) ≤ context.maxDepth) :
    build context depth (.operand (.constant (.scalar (.int 1)))) = .ok {
      code := .number 1, prev := some (.number 1), isList := false, numeric := true } := by
  rw [build_eq_ok_iff]
  exact ⟨h, [], .nil, rfl⟩

theorem exists_computed (scope : Scope) (operation : Operation) (parts : List Emitted)
    (h : ∀ p ∈ parts, p.numeric = true) :
    ∃ e, computed scope operation parts = .ok e ∧ e.numeric = true ∧ e.isList = false ∧
      e.code = arithmetic scope operation (parts.map Emitted.code) := by
  have hnone : parts.find? (! ·.numeric) = none := by simpa using h
  rw [computed, hnone]
  exact ⟨_, rfl, rfl, rfl, rfl⟩

/-- The text doubles with each level. -/
theorem exists_build_changes (context : EmissionContext) (n depth : Nat)
    (h : ((depth + n : Nat) : Int) ≤ context.maxDepth) :
    ∃ e, build context depth (.operand (changes n)) = .ok e ∧ e.numeric = true ∧
      e.isList = false ∧ e.code.width + 17 = 18 * 2 ^ n := by
  induction n generalizing depth with
  | zero => exact ⟨_, build_one context depth h, rfl, rfl, by decide⟩
  | succ n ih =>
    push_cast at h
    obtain ⟨e, hbuild, hnumeric, -, hwidth⟩ := ih (depth + 1) (by push_cast; omega)
    have hone := build_one context (depth + 1) (by push_cast; omega)
    generalize hfirst : Emitted.mk (.number 1) false false (some (.number 1)) 0 0 false true = first
      at hone
    obtain ⟨e', hcomputed, hnumeric', hlist, hcode⟩ := exists_computed context.scope .percentChange
      [first, e] (by simp [← hfirst, hnumeric])
    refine ⟨e', (build_eq_ok_iff ..).mpr ⟨by omega, [first, e], ?_, hcomputed⟩, hnumeric', hlist,
      ?_⟩
    · exact .cons hone (.cons hbuild .nil)
    · have hdoubled := width_percentChange first.code e.code
      have hone : first.code.width = 1 := by rw [← hfirst]; decide
      have hcode : e'.code = percentChange first.code e.code := hcode
      rw [hcode, hdoubled, hone, Nat.pow_succ]
      omega

/-- Nine relative changes in one another outgrow their weight, in both scopes, although the guard
lets them through. -/
theorem changes_outgrow_weight :
    Operand.read (changes 9).dump = .good (changes 9) ∧
    (∃ extent, Extent.check {} (changes 9).dump = .ok extent) ∧
    ∀ scope, ∃ e, (emitOperand ⟨scope, Binding.empty, 64⟩ (.operand (changes 9)) Tally.empty).1 =
      .ok e ∧ 200 * (changes 9).weight Binding.empty < e.text.length := by
  refine ⟨(Operand.read_dump_iff _).mpr (changes_admissible 9), ⟨(changes 9).dump.extent, ?_⟩,
    fun scope => ?_⟩
  · rw [Extent.check_eq_checkBy, Extent.checkBy_eq_ok_iff]
    exact ⟨by decide +kernel, by constructor <;> decide +kernel, rfl⟩
  · obtain ⟨e, hbuild, -, hlist, hwidth⟩ :=
      exists_build_changes ⟨scope, Binding.empty, 64⟩ 9 1 (by simp)
    refine ⟨e, ?_, ?_⟩
    · rw [emitOperand_fst, hbuild]
      simp [Except.bind, asValue, hlist]
    · change _ < e.code.width
      rw [weight_changes]
      omega

end Emission

end Stratagem
