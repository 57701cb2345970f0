import Stratagem.Proofs.Emission.LastCandle
import Stratagem.Proofs.Script.Access

/-! In leverage scope the counters of an emitted node bound what its code accesses: the code of now
stays within `lookback` candles, and that of one candle earlier within the greater of the two. -/

namespace Stratagem.Emission

open Script Code

variable {e : Emitted} {parts : List Emitted} {b : Binding} {maxDepth : Int}

/-- The code of an emitted node keeps to the candles that its counters say. -/
def KeepsTo : Node → Emitted → Prop
  | .operand _, e => e.code.Within e.lookback ∧ e.before.Within (max e.prevLookback e.lookback)
  | .condition _, e => e.code.Within e.lookback

theorem KeepsTo.code {n : Node} (h : KeepsTo n e) : e.code.Within e.lookback := by
  cases n with
  | operand o => exact h.1
  | condition c => exact h

/-! ## Operands -/

theorem mean_within {n : Nat} {terms : List Code} (h : ∀ c ∈ terms, c.Within n) :
    (mean terms).Within n :=
  ((chain_within (.arith .add) h).paren.arith .div (within_literal _)).paren

theorem columnsAt_within (names : List String) (ago : Nat) :
    (columnsAt .leverage names ago).Within (ago + 1) := by
  have hcandle : ∀ name, (columnAt .leverage name ago).Within (ago + 1) :=
    fun name => within_candle name (Nat.lt_succ_self ago)
  unfold columnsAt
  split
  · exact hcandle _
  · refine mean_within fun c hc => ?_
    obtain ⟨name, -, rfl⟩ := List.mem_map.mp hc
    exact hcandle name

theorem columns_keepsTo (names : List String) (offset : Nat) (o : Operand) :
    KeepsTo (.operand o) (columns .leverage names offset) :=
  ⟨columnsAt_within names offset,
    (columnsAt_within names (offset + 1)).mono (Nat.le_max_left (offset + 2) (offset + 1))⟩

theorem arithmetic_within {n : Nat} (operation : Operation) {terms : List Code}
    (h : ∀ c ∈ terms, c.Within n) : (arithmetic .leverage operation terms).Within n := by
  have hterm : ∀ i, (terms.getD i (.literal (.scalar .null))).Within n := by
    intro i
    rw [List.getD]
    cases hi : terms[i]? with
    | none => exact within_literal _
    | some c => exact h c (List.mem_of_getElem? hi)
  have hjoined : ∀ op, (joined op terms).Within n := fun op => (chain_within (.arith op) h).paren
  have hextremum : ∀ f, (extremum .leverage f terms).Within n :=
    fun f => (chain_within .also h).extremum f
  cases operation with
  | add | sum => exact hjoined .add
  | sub => exact hjoined .sub
  | mul => exact hjoined .mul
  | div => exact hjoined .div
  | neg => exact (hterm 0).negative.paren
  | abs => exact (hterm 0).pointwise .abs
  | round => exact (hterm 0).pointwise .round
  | floor => exact (hterm 0).pointwise .floor
  | ceil => exact (hterm 0).pointwise .ceil
  | average => exact mean_within h
  | percentChange =>
    exact ((((hterm 0).arith .sub (hterm 1)).paren.arith .div (hterm 1)).arith .mul
      (within_literal _)).paren
  | min => exact hextremum .min
  | max => exact hextremum .max

theorem computed_keepsTo {operation : Operation} {os : List Operand}
    (hparts : ∀ p ∈ parts, p.code.Within p.lookback ∧
      p.before.Within (max p.prevLookback p.lookback))
    (h : computed .leverage operation parts = .ok e) :
    KeepsTo (.operand (.computed operation os)) e := by
  obtain ⟨-, rfl⟩ := computed_eq_ok h
  have hle : ∀ (f : Emitted → Nat), ∀ p ∈ parts, f p ≤ greatest (parts.map f) :=
    fun f p hp => greatest_le_iff.mp (Nat.le_refl _) _ (List.mem_map_of_mem hp)
  constructor
  · refine arithmetic_within operation fun c hc => ?_
    obtain ⟨p, hp, rfl⟩ := List.mem_map.mp hc
    exact (hparts p hp).1.mono (hle _ p hp)
  · refine (arithmetic_within operation fun c hc => ?_).mono (Nat.le_max_left ..)
    obtain ⟨p, hp, rfl⟩ := List.mem_map.mp hc
    exact (hparts p hp).2.mono (hle (fun p => max p.prevLookback p.lookback) p hp)

theorem time_keepsTo (field : TimeField) (zone : Option String) :
    KeepsTo (.operand (.time field zone)) (time .leverage field zone) := by
  have hnow : (Code.variable "current_time").Within 0 :=
    within_of_accesses_nil (accesses_variable (by decide))
  have hbase : (zone.elim (Code.variable "current_time")
      (.momentZone (.variable "current_time"))).Within 0 := by
    cases zone with
    | none => exact hnow
    | some z => exact hnow.momentZone z
  have hcode : (timePart (.momentPart (zone.elim (Code.variable "current_time")
      (.momentZone (.variable "current_time")))) field).Within 0 := by
    cases field with
    | isWeekend => exact ((hbase.momentPart _).compare .gte (within_literal _)).paren
    | _ => exact hbase.momentPart _
  exact ⟨hcode, hcode⟩

theorem tradeContext_keepsTo {field : TradeField} (h : tradeContext .leverage field = .ok e) :
    KeepsTo (.operand (.tradeContext field)) e := by
  obtain ⟨name, numeric, hname, rfl⟩ := tradeContext_eq_ok h
  have hvar : (Code.variable name).Within 0 := by
    refine within_of_accesses_nil (accesses_variable ?_)
    cases field <;> cases hname <;> decide
  exact ⟨hvar, hvar⟩

theorem operand_keepsTo {o : Operand}
    (hparts : List.Forall₂ KeepsTo (Node.operand o).children parts)
    (h : operand ⟨.leverage, b, maxDepth⟩ o parts = .ok e) : KeepsTo (.operand o) e := by
  cases o with
  | constant value =>
    obtain ⟨-, rfl⟩ := constant_eq_ok h
    exact ⟨within_literal value, within_literal value⟩
  | indicator id field offset =>
    obtain ⟨name, -, rfl⟩ := indicator_eq_ok h
    exact columns_keepsTo ..
  | price field offset =>
    cases h
    exact columns_keepsTo ..
  | tradeContext field => exact tradeContext_keepsTo h
  | time field zone =>
    cases h
    exact time_keepsTo field zone
  | computed operation operands =>
    refine computed_keepsTo ?_ h
    exact forall_of_forall₂ (List.forall₂_map_left_iff (f := Node.operand).mp hparts)
      fun _ _ hp => hp
  | external source => cases h
  | custom name => cases h

/-! ## Conditions -/

/-- Code made of the code of parts keeps to what the parts take together. -/
theorem boolean_within {code : Code} (h : ∀ n, (∀ p ∈ parts, p.code.Within n) → code.Within n)
    (hparts : ∀ p ∈ parts, p.code.Within p.lookback) :
    (boolean code parts).code.Within (boolean code parts).lookback := by
  refine h _ fun p hp => (hparts p hp).mono ?_
  exact greatest_le_iff.mp (Nat.le_refl _) _ (List.mem_map_of_mem hp)

theorem combine_within (empty : Bool) (c c' : Connective)
    (h : ∀ p ∈ parts, p.code.Within p.lookback) :
    (combine .leverage empty c c' parts).code.Within
      (combine .leverage empty c c' parts).lookback := by
  unfold combine
  split
  · exact within_literal _
  · exact h _ (by simp)
  · refine boolean_within (fun n hn => chain_within (.join _) fun d hd => ?_) h
    obtain ⟨p, hp, rfl⟩ := List.mem_map.mp hd
    exact (hn p hp).paren

theorem crossing_within {above : Bool} {x y : Operand} {p q : Emitted} (hp : KeepsTo (.operand x) p)
    (hq : KeepsTo (.operand y) q) (h : crossing .leverage above p q = .ok e) :
    e.code.Within e.lookback := by
  obtain ⟨-, -, rfl⟩ := crossing_eq_ok h
  generalize hn : (crossingCode .leverage above p q).lookback = n
  obtain ⟨hple, hpbefore, hqle, hqbefore⟩ : p.lookback ≤ n ∧ max p.prevLookback p.lookback ≤ n ∧
      q.lookback ≤ n ∧ max q.prevLookback q.lookback ≤ n := by
    simp only [crossingCode, greatest, List.foldl_cons, List.foldl_nil] at hn
    omega
  have hbefore := (hp.2.mono hpbefore).compare (crossingRelations above).1 (hq.2.mono hqbefore)
  have hnow := (hp.1.mono hple).compare (crossingRelations above).2 (hq.1.mono hqle)
  exact (hbefore.paren.join .and hnow.paren).paren

theorem condition_keepsTo {c : Condition}
    (hparts : List.Forall₂ KeepsTo (Node.condition c).children parts)
    (h : condition ⟨.leverage, b, maxDepth⟩ c parts = .ok e) : KeepsTo (.condition c) e := by
  have hcode : ∀ p ∈ parts, p.code.Within p.lookback :=
    forall_of_forall₂ hparts fun _ _ hp => hp.code
  have hlength := hparts.length_eq.symm
  cases c with
  | all mark children =>
    cases h
    exact combine_within true .seriesAnd .and hcode
  | any mark children =>
    cases h
    exact combine_within false .seriesOr .or hcode
  | not mark child =>
    cases h
    obtain ⟨p, rfl⟩ := List.length_eq_one_iff.mp hlength
    exact boolean_within (fun n hn => (hn p (by simp)).paren.not.paren) hcode
  | ifThen mark c d =>
    cases h
    obtain ⟨p, q, rfl⟩ := List.length_eq_two.mp hlength
    have hparts : ∀ r ∈ [p, q, absentBranch], r.code.Within r.lookback := by
      simpa [absentBranch, Code.truth, within_literal] using hcode
    exact boolean_within (fun n hn => ((hn q (by simp)).paren.ifElse (hn p (by simp)).paren
      (within_literal _).paren).paren) hparts
  | ifThenElse mark c d e =>
    cases h
    obtain ⟨p, q, r, rfl⟩ := List.length_eq_three.mp hlength
    exact boolean_within (fun n hn => ((hn q (by simp)).paren.ifElse (hn p (by simp)).paren
      (hn r (by simp)).paren).paren) hcode
  | compare mark left operator right =>
    obtain ⟨p, q, rfl⟩ := List.length_eq_two.mp hlength
    obtain ⟨-, ⟨-, -, rfl⟩ | ⟨r, -, -, -, rfl⟩⟩ := compare_eq_ok h
    · exact boolean_within
        (fun n hn => ((hn p (by simp)).member _ (hn q (by simp))).paren) hcode
    · exact boolean_within
        (fun n hn => ((hn p (by simp)).compare r (hn q (by simp))).paren) hcode
  | crossover mark x y | crossunder mark x y =>
    obtain ⟨p, q, hp, hq, rfl⟩ := forall₂_pair hparts
    exact crossing_within hp hq h
  | inRange mark x low high inclusive =>
    obtain ⟨p, q, r, rfl⟩ := List.length_eq_three.mp hlength
    have hrule : inRange .leverage inclusive p q r = .ok e := h
    obtain ⟨-, rfl⟩ := inRange_eq_ok hrule
    refine boolean_within (fun n hn => ?_) hcode
    have hp := hn p (by simp)
    exact ((hp.compare _ (hn q (by simp))).paren.join _ (hp.compare _ (hn r (by simp))).paren).paren

theorem build_keepsTo {n : Node} {depth : Nat}
    (h : build ⟨.leverage, b, maxDepth⟩ depth n = .ok e) :
    KeepsTo n e := by
  refine build_induction (fun n parts e depth hparts hnode => ?_) h
  have hkeeps := hparts.imp fun _ _ hp => hp.2.2
  cases n with
  | operand o => exact operand_keepsTo hkeeps hnode
  | condition c => exact condition_keepsTo hkeeps hnode

end Stratagem.Emission
