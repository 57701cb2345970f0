import Stratagem.Proofs.Emission.Lookback

/-! One candle earlier. In leverage scope an operand is emitted twice, as it is now and as it was
one candle before. Main statement: the second code is the code of the same operand with every offset
one greater, and its counter is one greater too, unless there is no offset at all and nothing
changes. -/

namespace Stratagem

mutual

/-- The same operand, with every price and indicator one candle further back. -/
def Operand.earlier : Operand → Operand
  | .indicator id field offset => .indicator id field (offset + 1)
  | .price field offset => .price field (offset + 1)
  | .computed operation operands => .computed operation (Operand.earliers operands)
  | o => o

def Operand.earliers : List Operand → List Operand
  | [] => []
  | o :: rest => o.earlier :: Operand.earliers rest

end

theorem Operand.earliers_eq (os : List Operand) : Operand.earliers os = os.map Operand.earlier := by
  induction os with
  | nil => rfl
  | cons o rest ih => rw [Operand.earliers, ih, List.map_cons]

theorem Operand.earlier_computed (operation : Operation) (os : List Operand) :
    (Operand.computed operation os).earlier = .computed operation (os.map Operand.earlier) := by
  rw [Operand.earlier, Operand.earliers_eq]

mutual

theorem Operand.offsets_earlier (o : Operand) : o.earlier.offsets = o.offsets.map (· + 1) := by
  cases o with
  | computed operation os =>
    rw [Operand.earlier, Operand.offsets_computed, Operand.offsets_computed]
    exact Operand.offsets_earliers os
  | _ => rfl

theorem Operand.offsets_earliers (os : List Operand) :
    (Operand.earliers os).flatMap Operand.offsets = (os.flatMap Operand.offsets).map (· + 1) := by
  cases os with
  | nil => rfl
  | cons o rest =>
    rw [Operand.earliers, List.flatMap_cons, List.flatMap_cons, List.map_append,
      Operand.offsets_earlier o, Operand.offsets_earliers rest]

end

mutual

/-- Without offsets nothing moves. -/
theorem Operand.earlier_eq_self (o : Operand) (h : o.offsets = []) : o.earlier = o := by
  cases o with
  | indicator _ _ _ | price _ _ => cases h
  | computed operation os =>
    rw [Operand.offsets_computed] at h
    rw [Operand.earlier, Operand.earliers_eq_self os h]
  | _ => rfl

theorem Operand.earliers_eq_self (os : List Operand) (h : os.flatMap Operand.offsets = []) :
    Operand.earliers os = os := by
  cases os with
  | nil => rfl
  | cons o rest =>
    rw [List.flatMap_cons, List.append_eq_nil_iff] at h
    rw [Operand.earliers, Operand.earlier_eq_self o h.1, Operand.earliers_eq_self rest h.2]

end

namespace Emission

variable {e : Emitted} {parts : List Emitted}

theorem greatest_map_succ {xs : List Nat} (h : xs ≠ []) :
    greatest (xs.map (· + 1)) = greatest xs + 1 := by
  induction xs with
  | nil => exact absurd rfl h
  | cons x rest ih =>
    rw [List.map_cons, greatest_cons, greatest_cons]
    cases rest with
    | nil => simp [greatest]
    | cons y rest =>
      rw [ih (List.cons_ne_nil y rest)]
      omega

/-- What one operand and the same operand one candle earlier are emitted as. -/
structure Precedes (e' e : Emitted) : Prop where
  code : e.prev = some e'.code
  numeric : e'.numeric = e.numeric
  isList : e'.isList = e.isList

theorem precedes_self (h : e.prev = some e.code) : Precedes e e := ⟨h, rfl, rfl⟩

variable {b : Binding} {maxDepth : Int}

theorem computed_precedes {operation : Operation} {parts' : List Emitted}
    (hparts : List.Forall₂ Precedes parts' parts) (h : computed .leverage operation parts = .ok e) :
    ∃ e', computed .leverage operation parts' = .ok e' ∧ Precedes e' e := by
  obtain ⟨hnumeric, rfl⟩ := computed_eq_ok h
  have hcode : parts.map Emitted.before = parts'.map Emitted.code := by
    refine map_eq_of_forall₂ (hparts.imp fun p' p hp => ?_)
    rw [Emitted.before, hp.code, Option.getD_some]
  have hnumeric' : parts'.find? (! ·.numeric) = none := by
    rw [List.find?_eq_none]
    intro p' hp'
    obtain ⟨p, hp, hprecedes⟩ := exists_of_forall₂ hparts hp'
    simp [hprecedes.numeric, hnumeric p hp]
  rw [computed, hnumeric']
  exact ⟨_, rfl, congrArg (some ∘ arithmetic .leverage operation) hcode, rfl, rfl⟩

/-- One rule: from parts that precede the others it makes a code that precedes the other. -/
theorem operand_precedes {o : Operand} {parts' : List Emitted}
    (hparts : List.Forall₂ Precedes parts' parts)
    (h : operand ⟨.leverage, b, maxDepth⟩ o parts = .ok e) :
    ∃ e', operand ⟨.leverage, b, maxDepth⟩ o.earlier parts' = .ok e' ∧ Precedes e' e := by
  cases o with
  | constant value =>
    obtain ⟨-, rfl⟩ := constant_eq_ok h
    exact ⟨_, h, precedes_self rfl⟩
  | indicator id field offset =>
    obtain ⟨name, hname, rfl⟩ := indicator_eq_ok h
    refine ⟨columns .leverage [name] (offset + 1), ?_, rfl, rfl, rfl⟩
    simp only [Operand.earlier, operand, indicator, hname]
  | price field offset =>
    cases h
    exact ⟨columns .leverage (priceColumns field) (offset + 1), rfl, rfl, rfl, rfl⟩
  | tradeContext field =>
    obtain ⟨name, numeric, -, rfl⟩ := tradeContext_eq_ok h
    exact ⟨_, h, precedes_self rfl⟩
  | time field zone =>
    cases h
    exact ⟨_, rfl, precedes_self rfl⟩
  | computed operation os => exact computed_precedes hparts h
  | external source => cases h
  | custom name => cases h

/-- Where an operand is emitted, the same operand one candle earlier is. -/
def HasEarlier (b : Binding) (maxDepth : Int) (o : Operand) : Prop :=
  ∀ (depth : Nat) (e : Emitted), build ⟨.leverage, b, maxDepth⟩ depth (.operand o) = .ok e →
    ∃ e', build ⟨.leverage, b, maxDepth⟩ depth (.operand o.earlier) = .ok e' ∧ Precedes e' e

theorem parts_haveEarlier {depth : Nat} {os : List Operand}
    (hos : ∀ o ∈ os, HasEarlier b maxDepth o)
    (h : List.Forall₂ (fun o p => build ⟨.leverage, b, maxDepth⟩ depth (.operand o) = .ok p)
      os parts) :
    ∃ parts', List.Forall₂
        (fun o p => build ⟨.leverage, b, maxDepth⟩ depth (.operand o) = .ok p)
        (os.map Operand.earlier) parts' ∧
      List.Forall₂ Precedes parts' parts := by
  induction h with
  | nil => exact ⟨[], .nil, .nil⟩
  | cons hbuild _ ih =>
    obtain ⟨ho, hos⟩ := List.forall_mem_cons.mp hos
    obtain ⟨p', hp', hprecedes⟩ := ho depth _ hbuild
    obtain ⟨parts', hparts', hall⟩ := ih hos
    exact ⟨p' :: parts', .cons hp' hparts', .cons hprecedes hall⟩

/-- The parts of the earlier operand are the parts one candle earlier. -/
theorem children_earlier (o : Operand) : ∃ os : List Operand,
    (Node.operand o).children = os.map .operand ∧
      (Node.operand o.earlier).children = (os.map Operand.earlier).map .operand := by
  cases o with
  | computed operation os =>
    refine ⟨os, rfl, ?_⟩
    rw [Operand.earlier_computed]
    rfl
  | _ => exact ⟨[], rfl, rfl⟩

theorem hasEarlier (o : Operand) : HasEarlier b maxDepth o := by
  suffices h : ∀ (n : Node) (o : Operand), n = .operand o → HasEarlier b maxDepth o from h _ o rfl
  intro n
  induction n using Node.induction with
  | step n ih =>
    rintro o rfl depth e h
    obtain ⟨hdepth, parts, hparts, hrule⟩ := (build_eq_ok_iff _ _ _ _).mp h
    obtain ⟨os, hchildren, hearlier⟩ := children_earlier o
    rw [hchildren] at hparts ih
    have hos : ∀ o' ∈ os, HasEarlier b maxDepth o' :=
      fun o' ho' => ih _ (List.mem_map_of_mem ho') o' rfl
    obtain ⟨parts', hparts', hprecedes⟩ :=
      parts_haveEarlier hos (List.forall₂_map_left_iff.mp hparts)
    obtain ⟨e', he', hresult⟩ := operand_precedes hprecedes hrule
    refine ⟨e', (build_eq_ok_iff _ _ _ _).mpr ⟨hdepth, parts', ?_, he'⟩, hresult⟩
    rw [hearlier]
    exact List.forall₂_map_left_iff.mpr hparts'

/-- The counters of an operand that was emitted. -/
theorem build_counts {depth : Nat} {o : Operand}
    (h : build ⟨.leverage, b, maxDepth⟩ depth (.operand o) = .ok e) : Counts (.operand o) e :=
  (raises (.operand o) b maxDepth depth Tally.empty _ e (Prod.ext h rfl)).1

/-- **The previous text is the same expression one candle earlier.** In leverage scope, whenever an
operand is emitted, so is the operand with all offsets one greater, and its text is the previous
text. With a price or an indicator in the tree the counter of the previous text is the lookback of
the other operand and one more than the lookback; without any, the previous text is the text itself
and both counters are zero. -/
theorem emitOperand_prev_is_earlier {b : Binding} {maxDepth : Int} {o : Operand} {s : Tally}
    {r : Emitted} (h : (emitOperand ⟨.leverage, b, maxDepth⟩ (.operand o) s).1 = .ok r)
    (s' : Tally) :
    ∃ r', (emitOperand ⟨.leverage, b, maxDepth⟩ (.operand o.earlier) s').1 = .ok r' ∧
      r.prev.map Code.render = some r'.text ∧
      (o.offsets ≠ [] → r'.lookback = r.prevLookback ∧ r.prevLookback = r.lookback + 1) ∧
      (o.offsets = [] →
        r.prev.map Code.render = some r.text ∧ r.lookback = 0 ∧ r.prevLookback = 0) := by
  obtain ⟨hbuild, hlist⟩ := emitOperand_eq_ok_iff.mp h
  obtain ⟨r', hbuild', hprecedes⟩ := hasEarlier o 1 r hbuild
  have hrender : r.prev.map Code.render = some r'.text := by rw [hprecedes.code]; rfl
  obtain ⟨-, hnow, hbefore⟩ := build_counts hbuild
  obtain ⟨-, hnow', -⟩ := build_counts hbuild'
  refine ⟨r', emitOperand_eq_ok_iff.mpr ⟨hbuild', hprecedes.isList ▸ hlist⟩, hrender,
    fun hmarket => ?_, fun hnone => ?_⟩
  · have hmargin : ∀ k, greatest (o.offsets.map (· + (k + 1))) =
        greatest (o.offsets.map (· + k)) + 1 := by
      intro k
      rw [← greatest_map_succ (by simpa using hmarket), List.map_map]
      rfl
    rw [hmargin 1] at hbefore
    rw [Operand.offsets_earlier, List.map_map] at hnow'
    have hnext : r'.lookback = greatest (o.offsets.map (· + 2)) := hnow'
    rw [hmargin 1] at hnext
    omega
  · rw [Operand.earlier_eq_self o hnone, hbuild] at hbuild'
    cases hbuild'
    rw [hnone] at hnow hbefore
    simp only [List.map_nil, greatest, List.foldl_nil] at hnow hbefore
    exact ⟨hrender, hnow, by omega⟩

/-- How far the middle of the last candle but one lies above the close, or above a floor. -/
def distance : Operand :=
  .computed .percentChange
    [.price .hl2 1, .computed .max [.price .close 0, .constant (.scalar (.int 5))]]

/-- The distance, given how many candles ago it is taken. -/
def distanceCode (ago : Nat) : Code :=
  percentChange (mean [.candle "high" (ago + 1), .candle "low" (ago + 1)])
    (.extremum .max (.also (.candle "close" ago) (.number 5)))

def distanceEmitted : Emitted where
  code := distanceCode 0
  market := true
  prev := some (distanceCode 1)
  lookback := 2
  prevLookback := 3

theorem distance_prev_is_earlier :
    (emitOperand ⟨.leverage, Binding.empty, 64⟩ (.operand distance) Tally.empty).1 =
        .ok distanceEmitted ∧
      distance.offsets = [1, 0] ∧
      ∃ r', (emitOperand ⟨.leverage, Binding.empty, 64⟩ (.operand distance.earlier)
          Tally.empty).1 = .ok r' ∧
        (distanceCode 1).render = r'.text ∧ r'.lookback = 3 := by
  have h : (emitOperand ⟨.leverage, Binding.empty, 64⟩ (.operand distance) Tally.empty).1 =
      .ok distanceEmitted := by decide +kernel
  have hoffsets : distance.offsets = [1, 0] := by decide +kernel
  obtain ⟨r', hr', hprev, hmarket, -⟩ := emitOperand_prev_is_earlier h Tally.empty
  exact ⟨h, hoffsets, r', hr', Option.some.inj hprev, (hmarket (by simp [hoffsets])).1⟩

end Emission

end Stratagem
