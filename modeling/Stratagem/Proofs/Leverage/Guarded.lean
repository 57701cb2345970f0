import Stratagem.Proofs.Leverage.Rendered
import Stratagem.Proofs.Script.Access

/-! The rendered routine is guarded. If the code of a routine keeps to the candles that the routine
asks for, every line of its method keeps to the rows that the lines before it have made sure of, and
to the names that they have bound. -/

namespace Stratagem

open Script

/-- All code of the routine keeps to the candles that it asks for, and the guard needs none. -/
structure Routine.Bounded (r : Routine) : Prop where
  branches : ∀ b ∈ r.branches, b.condition.Within r.minCandles ∧ b.value.Within r.minCandles
  tail : r.tail.value.Within r.minCandles
  guard : r.guardValue.script.accesses = []

namespace Script

variable {r : Routine} {c : Code}

/-! ## The lines of a routine -/

def capRead (cap : Option Binary64) : List Line :=
  cap.toList.map fun x => .assign 8 maxLeverage ("min(max_leverage, " ++ x.text ++ ")")

def candlesRead (r : Routine) : List Line :=
  if r.readsCandles then
    [.assign 8 "dataframe, _" "self.dp.get_analyzed_dataframe(pair, self.timeframe)",
      .test 8 ("len(dataframe) < " ++ natText r.minCandles),
      .finish 12 (StrategyModule.capped r.guardValue),
      .assign 8 "last_candle" "dataframe.iloc[-1]"] ++
    if r.readsPrevious then [.assign 8 "prev_candle" "dataframe.iloc[-2]"] else []
  else []

def branchRead (b : Branch) : List Line :=
  [.blank, .blank, .test 8 b.condition.render, .finish 12 (StrategyModule.capped b.value)]

def tailRead (tail : Tail) : List Line :=
  [.blank, .blank, .finish 8 (StrategyModule.capped tail.value)]

/-- The lines of a routine behind the signature. -/
def routineRead (r : Routine) : List Line :=
  .assign 8 "is_short" "side == 'short'" :: (capRead r.cap ++ (candlesRead r ++
    (r.branches.flatMap branchRead ++ tailRead r.tail)))

theorem mapM_append_some {xs ys : List String} {ls ms : List Line}
    (hx : xs.mapM Line.ofText? = some ls) (hy : ys.mapM Line.ofText? = some ms) :
    (xs ++ ys).mapM Line.ofText? = some (ls ++ ms) := by
  simp [List.mapM_append, hx, hy]

theorem capTexts_read (cap : Option Binary64) :
    (StrategyModule.capTexts cap).mapM Line.ofText? = some (capRead cap) := by
  cases cap with
  | none => rfl
  | some x =>
    have htext : StrategyModule.capTexts (some x) =
        ["        max_leverage = " ++ ("min(max_leverage, " ++ x.text ++ ")")] :=
      congrArg (fun line => [line]) (String.toList_inj.mp (by simp))
    rw [htext, List.mapM_cons, ofText?_limit]
    rfl

theorem candleLines_read (r : Routine) :
    (StrategyModule.candleLines r).mapM Line.ofText? = some (candlesRead r) := by
  have hguard : Line.ofText? ("        if len(dataframe) < " ++ natText r.minCandles ++ ":") =
      some (.test 8 ("len(dataframe) < " ++ natText r.minCandles)) := by
    have htext : "        if len(dataframe) < " ++ natText r.minCandles ++ ":" =
        "        if " ++ ("len(dataframe) < " ++ natText r.minCandles) ++ ":" :=
      String.toList_inj.mp (by simp)
    rw [htext, ofText?_test]
  have hall : ["        dataframe, _ = self.dp.get_analyzed_dataframe(pair, self.timeframe)",
      "        if len(dataframe) < " ++ natText r.minCandles ++ ":",
      "            return " ++ StrategyModule.capped r.guardValue,
      "        last_candle = dataframe.iloc[-1]"].mapM Line.ofText? = some
        [.assign 8 "dataframe, _" "self.dp.get_analyzed_dataframe(pair, self.timeframe)",
          .test 8 ("len(dataframe) < " ++ natText r.minCandles),
          .finish 12 (StrategyModule.capped r.guardValue),
          .assign 8 "last_candle" "dataframe.iloc[-1]"] := by
    simp only [List.mapM_cons, List.mapM_nil, hguard, ofText?_inner]
    rfl
  unfold StrategyModule.candleLines candlesRead StrategyModule.onlyIf
  cases r.readsCandles with
  | false => rfl
  | true =>
    cases r.readsPrevious with
    | false => exact hall
    | true => exact mapM_append_some hall rfl

theorem branchLines_read (bs : List Branch) :
    (bs.flatMap StrategyModule.branchLines).mapM Line.ofText? = some (bs.flatMap branchRead) := by
  induction bs with
  | nil => rfl
  | cons b bs ih =>
    refine mapM_append_some ?_ ih
    simp only [StrategyModule.branchLines, List.mapM_cons, List.mapM_nil, ofText?_comment,
      ofText?_test, ofText?_inner]
    rfl

theorem leverageMethod_read {lines : List String}
    (h : StrategyModule.leverageMethod (some r) = .ok lines) :
    (body lines).mapM Line.ofText? = some (routineRead r) := by
  obtain ⟨-, rfl⟩ := StrategyModule.leverageMethod_eq_ok.mp h
  simp only [StrategyModule.leverageTexts, StrategyModule.leverageTop, List.append_assoc]
  refine (body_signature _).symm ▸ ?_
  have htail : ["", "        # " ++ r.tail.comment,
      "        return " ++ StrategyModule.capped r.tail.value].mapM Line.ofText? =
        some (tailRead r.tail) := by
    simp only [List.mapM_cons, List.mapM_nil, ofText?_comment, ofText?_finish]
    rfl
  have hshort : ["        is_short = side == 'short'"].mapM Line.ofText? =
      some [.assign 8 "is_short" "side == 'short'"] := rfl
  exact mapM_append_some hshort (mapM_append_some (capTexts_read r.cap)
    (mapM_append_some (candleLines_read r) (mapM_append_some (branchLines_read _) htail)))

/-! ## What each line keeps to -/

/-- The names that belong to so many candles are bound. -/
structure Binds (n : Nat) (bound : List String) : Prop where
  table : 1 ≤ n → "dataframe" ∈ bound
  last : 1 ≤ n → "last_candle" ∈ bound
  previous : 2 ≤ n → "prev_candle" ∈ bound

theorem accesses_limited (value : Code) : (limited value).accesses = value.script.accesses := by
  simp [limited, least, Expr.accesses, ArgList.accesses, candleNames, maxLeverage]

variable {n rows : Nat} {bound : List String}

theorem examine_code (hwhole : c.Whole) (h : c.Within n) (hn : n ≤ rows) (hbound : Binds n bound) :
    examine rows bound c.render = .ok c.script :=
  examine_eq_ok_iff.mpr ⟨hwhole.read, fun a ha =>
    (h a ha).failure?_eq_none hn hbound.table hbound.last hbound.previous⟩

theorem examine_capped (hwhole : c.Whole) (h : c.Within n) (hn : n ≤ rows)
    (hbound : Binds n bound) : examine rows bound (StrategyModule.capped c) = .ok (limited c) := by
  refine examine_eq_ok_iff.mpr ⟨read_capped hwhole, ?_⟩
  rw [accesses_limited]
  exact fun a ha => (h a ha).failure?_eq_none hn hbound.table hbound.last hbound.previous

/-- Code without accesses may stand anywhere. -/
theorem examine_capped_steady (hwhole : c.Whole) (h : c.script.accesses = []) :
    examine rows bound (StrategyModule.capped c) = .ok (limited c) := by
  refine examine_eq_ok_iff.mpr ⟨read_capped hwhole, ?_⟩
  rw [accesses_limited, h]
  nofun

theorem guarded_tail {tail : Tail} (hwhole : tail.value.Whole) (h : tail.value.Within n)
    (hn : n ≤ rows) (hbound : Binds n bound) : Guarded rows bound (tailRead tail) :=
  ⟨rfl, _, examine_capped hwhole h hn hbound⟩

theorem guarded_branches {bs : List Branch} {tail : Tail}
    (hwhole : ∀ b ∈ bs, b.condition.Whole ∧ b.value.Whole) (htail : tail.value.Whole)
    (h : ∀ b ∈ bs, b.condition.Within n ∧ b.value.Within n) (ht : tail.value.Within n)
    (hn : n ≤ rows) (hbound : Binds n bound) :
    Guarded rows bound (bs.flatMap branchRead ++ tailRead tail) := by
  induction bs generalizing rows with
  | nil => exact guarded_tail htail ht hn hbound
  | cons b bs ih =>
    obtain ⟨⟨hcondition, hvalue⟩, hwhole⟩ := List.forall_mem_cons.mp hwhole
    obtain ⟨⟨hc, hv⟩, h⟩ := List.forall_mem_cons.mp h
    refine ⟨⟨rfl, by decide⟩, ⟨_, examine_capped hvalue hv hn hbound⟩, _,
      examine_code hcondition hc hn hbound, ?_⟩
    exact ih hwhole h (hn.trans (Nat.le_max_left ..))

/-- A text with known accesses, all of them good. -/
theorem examine_of_accesses {text : String} {as : List Access}
    (h : (read text).map Expr.accesses = some as)
    (has : ∀ a ∈ as, a.failure? rows bound = none) : ∃ e, examine rows bound text = .ok e := by
  obtain ⟨e, he, rfl⟩ := Option.map_eq_some_iff.mp h
  exact ⟨e, examine_eq_ok_iff.mpr ⟨he, has⟩⟩

/-- Picking a row from the end is good if there are so many rows. -/
theorem examine_row {k : Nat} {text : String} (h : read text = some (rowFromEnd k))
    (htable : "dataframe" ∈ bound) (hpos : 1 ≤ k) (hk : k ≤ rows) :
    ∃ e, examine rows bound text = .ok e := by
  refine ⟨_, examine_eq_ok_iff.mpr ⟨h, fun a ha => ?_⟩⟩
  replace ha : a ∈ [Access.name "dataframe", .row (some k)] := ha
  rcases List.mem_pair.mp ha with rfl | rfl
  · exact if_pos htable
  · exact if_pos (by simpa using ⟨hpos, hk⟩)

theorem examine_fewer (htable : "dataframe" ∈ bound) :
    examine rows bound ("len(dataframe) < " ++ natText n) = .ok (fewer n) := by
  refine examine_eq_ok_iff.mpr ⟨read_fewer n, fun a ha => ?_⟩
  obtain rfl : a = .name "dataframe" := by
    simpa [fewer, Expr.accesses, ArgList.accesses, candleNames] using ha
  exact if_pos htable

/-- The test of the side, as code. -/
def sideTest : Code := .compare .eq (.variable "side") (.literal (.scalar (.text "short")))

theorem read_side : read "side == 'short'" = some sideTest.script := by
  have htext : sideTest.render = "side == 'short'" := by decide +kernel
  have hwhole : sideTest.Whole :=
    ⟨⟨⟨by decide, by decide⟩, rfl, by decide, by decide, by decide⟩, by decide⟩
  rw [← htext, hwhole.read]

theorem targets_table : targets "dataframe, _" = ["dataframe", "_"] := by decide +kernel

theorem targets_last : targets "last_candle" = ["last_candle"] := by decide +kernel

theorem targets_previous : targets "prev_candle" = ["prev_candle"] := by decide +kernel

/-- Behind the lines that get hold of the candles there are as many as the routine asks for, and
their names are bound. -/
theorem guarded_candles {rest : List Line} (hwhole : r.guardValue.Whole)
    (hguard : r.guardValue.script.accesses = [])
    (hrest : ∀ rows bound, r.minCandles ≤ rows → Binds r.minCandles bound →
      Guarded rows bound rest) : Guarded rows bound (candlesRead r ++ rest) := by
  unfold candlesRead
  cases hreads : r.readsCandles with
  | false =>
    have hzero : r.minCandles = 0 := by simpa [Routine.readsCandles] using hreads
    refine hrest rows bound (by omega) ⟨?_, ?_, ?_⟩ <;> omega
  | true =>
    have hpos : 0 < r.minCandles := by simpa [Routine.readsCandles] using hreads
    have hrows : r.minCandles ≤ max rows r.minCandles := Nat.le_max_right ..
    refine ⟨rfl, ?_, ⟨rfl, by decide⟩, ⟨_, examine_capped_steady hwhole hguard⟩, fewer r.minCandles,
      examine_fewer (by simp [targets_table]), rfl, ?_, ?_⟩
    · exact ⟨_, examine_eq_ok_iff.mpr ⟨read_table, List.forall_mem_nil _⟩⟩
    · exact examine_row (k := 1) (read_row (by decide +kernel)) (by simp [targets_table])
        (by decide) (hpos.trans_le hrows)
    · cases hprevious : r.readsPrevious with
      | false =>
        have hone : ¬ 1 < r.minCandles := by simpa [Routine.readsPrevious] using hprevious
        refine hrest _ _ hrows ⟨?_, ?_, ?_⟩
        · simp [targets_table]
        · simp [targets_last]
        · exact fun htwo => absurd htwo hone
      | true =>
        have htwo : 1 < r.minCandles := by simpa [Routine.readsPrevious] using hprevious
        refine ⟨rfl, ?_, hrest _ _ hrows ⟨?_, ?_, ?_⟩⟩
        · exact examine_row (k := 2) (read_row (by decide +kernel)) (by simp [targets_table])
            (by decide) (htwo.trans_le hrows)
        · simp [targets_table]
        · simp [targets_last]
        · simp [targets_previous]

theorem read_cap {x : Binary64} (hx : x.isFinite = true) :
    (read ("min(max_leverage, " ++ x.text ++ ")")).map Expr.accesses = some [] := by
  have htext : "min(max_leverage, " ++ x.text ++ ")" =
      "min(" ++ (Code.variable maxLeverage).render ++ ", " ++ (Code.float x).render ++ ")" := rfl
  have hfloat : (Code.float x).script.accesses = [] := Code.accesses_literal _
  rw [htext, Code.whole_maxLeverage.read_least (Code.whole_float hx)]
  simp [least, Expr.accesses, ArgList.accesses, hfloat, Code.script, candleNames, maxLeverage]

theorem guarded_cap {cap : Option Binary64} {rest : List Line}
    (hcap : ∀ x, cap = some x → x.isFinite = true)
    (hrest : ∀ bound, Guarded rows bound rest) : Guarded rows bound (capRead cap ++ rest) := by
  cases cap with
  | none => exact hrest bound
  | some x => exact ⟨rfl, examine_of_accesses (read_cap (hcap x rfl)) nofun, hrest _⟩

/-- **The method of a bounded routine is guarded from its first line on.** -/
theorem guarded_routine (hwhole : r.Whole) (h : r.Bounded)
    (hcap : ∀ x, r.cap = some x → x.isFinite = true) : Guarded 0 [] (routineRead r) := by
  have hside : (read "side == 'short'").map Expr.accesses = some [] := by
    rw [read_side]
    rfl
  refine ⟨rfl, examine_of_accesses hside nofun, ?_⟩
  refine guarded_cap hcap fun bound => ?_
  refine guarded_candles hwhole.guard h.guard fun rows bound hrows hbound => ?_
  exact guarded_branches hwhole.branches hwhole.tail h.branches h.tail hrows hbound

end Script

end Stratagem
