import Stratagem.Proofs.Module.Literals
import Stratagem.Proofs.Script.Method
import Stratagem.Proofs.Script.Yield

/-! The rendered routine. Its lines read as statements: the cap, the guard for too few candles, one
statement for each branch and the tail. A call returns the smaller of the limit and the value that
the routine picks. -/

namespace Stratagem

open Script

namespace Script

/-- The smaller of two expressions. -/
def least (x y : Expr) : Expr := .call (.name "min") (.cons none x (.cons none y .nil))

/-- There are fewer candles than some number. -/
def fewer (n : Nat) : Expr :=
  .binary (.relation .lt) (.call (.name "len") (.cons none (.name "dataframe") .nil)) (.integer n)

/-- Lines are some statements, whatever lines come behind them. -/
def Reads (lines : List String) (ss : List Statement) : Prop :=
  ∃ ls, lines.mapM Line.ofText? = some ls ∧
    ∀ rest, statements? bodyIndent (ls ++ rest) = (statements? bodyIndent rest).map (ss ++ ·)

theorem Reads.nil : Reads [] [] := ⟨[], rfl, fun rest => by simp⟩

theorem Reads.append {xs ys : List String} {ss ts : List Statement} (hx : Reads xs ss)
    (hy : Reads ys ts) : Reads (xs ++ ys) (ss ++ ts) := by
  obtain ⟨ls, hls, hss⟩ := hx
  obtain ⟨ms, hms, hts⟩ := hy
  refine ⟨ls ++ ms, by simp [List.mapM_append, hls, hms], fun rest => ?_⟩
  rw [List.append_assoc, hss, hts, Option.map_map]
  simp [Function.comp_def]

theorem Reads.program {lines : List String} {ss : List Statement} (h : Reads (body lines) ss) :
    program? lines = some ss := by
  obtain ⟨ls, hls, hss⟩ := h
  have hall := hss []
  rw [List.append_nil] at hall
  simp [program?, hls, hall, statements?]

/-! ## Single lines -/

theorem ofText?_comment (s : String) : Line.ofText? ("        # " ++ s) = some .blank := by
  rw [Line.ofText?, String.toList_append]
  rfl

theorem ofText?_test (s : String) :
    Line.ofText? ("        if " ++ s ++ ":") = some (.test 8 s) := by
  rw [Line.ofText?, String.toList_append, String.toList_append, List.append_assoc]
  change (if (s.toList ++ [':']).getLast? = some ':' then
    some (Line.test 8 (String.ofList (s.toList ++ [':']).dropLast)) else none) = _
  simp

theorem ofText?_finish (s : String) :
    Line.ofText? ("        return " ++ s) = some (.finish 8 s) := by
  rw [Line.ofText?, String.toList_append]
  change some (Line.finish 8 (String.ofList s.toList)) = _
  simp

theorem ofText?_inner (s : String) :
    Line.ofText? ("            return " ++ s) = some (.finish 12 s) := by
  rw [Line.ofText?, String.toList_append]
  change some (Line.finish 12 (String.ofList s.toList)) = _
  simp

theorem ofText?_limit (s : String) :
    Line.ofText? ("        max_leverage = " ++ s) = some (.assign 8 maxLeverage s) := by
  rw [Line.ofText?, String.toList_append]
  change some (Line.assign 8 (String.ofList maxLeverage.toList) (String.ofList s.toList)) = _
  simp

/-- A line that binds other names. -/
theorem Reads.assign {line names : String} (value : String)
    (h : Line.ofText? line = some (.assign 8 names value)) (hnames : names ≠ maxLeverage) :
    Reads [line] [.assign names] := by
  refine ⟨[.assign 8 names value], by simp [h], fun rest => ?_⟩
  simp only [List.cons_append, List.nil_append, statements?, assignment?, if_neg hnames, bodyIndent]
  cases statements? 8 rest <;> rfl

theorem Reads.limit {value : String} {e : Expr} (h : read value = some e) :
    Reads ["        max_leverage = " ++ value] [.limit e] := by
  refine ⟨[.assign 8 maxLeverage value], by simp [ofText?_limit], fun rest => ?_⟩
  simp only [List.cons_append, List.nil_append, statements?, assignment?, bodyIndent, h]
  cases statements? 8 rest <;> rfl

theorem Reads.branch {condition value : String} {c v : Expr} (hc : read condition = some c)
    (hv : read value = some v) :
    Reads ["        if " ++ condition ++ ":", "            return " ++ value] [.branch c v] := by
  refine ⟨[.test 8 condition, .finish 12 value], ?_, fun rest => ?_⟩
  · simp only [List.mapM_cons, List.mapM_nil, ofText?_test, ofText?_inner]
    rfl
  · simp only [List.cons_append, List.nil_append, statements?, bodyIndent, hc, hv]
    cases statements? 8 rest <;> rfl

theorem Reads.finish {value : String} {v : Expr} (hv : read value = some v) :
    Reads ["        return " ++ value] [.finish v] := by
  refine ⟨[.finish 8 value], ?_, fun rest => ?_⟩
  · simp only [List.mapM_cons, List.mapM_nil, ofText?_finish]
    rfl
  · simp only [List.cons_append, List.nil_append, statements?, bodyIndent, hv]
    cases statements? 8 rest <;> rfl

theorem Reads.comment (s : String) : Reads ["", "        # " ++ s] [] := by
  refine ⟨[.blank, .blank], ?_, fun rest => ?_⟩
  · simp only [List.mapM_cons, List.mapM_nil, ofText?_comment]
    rfl
  · simp only [List.cons_append, List.nil_append, statements?]
    cases statements? bodyIndent rest <;> rfl

/-! ## Expressions of the routine -/

theorem lex_fewer (n : Nat) :
    lex ("len(dataframe) < " ++ natText n).toList = some [.name "len", .symbol "(",
      .name "dataframe", .symbol ")", .symbol "<", .integer n] := by
  have hlen : Spells true ("len(" ++ "dataframe" ++ ")") _ :=
    .call (piece_function (f := "len") (by decide)) (Spells.word (by decide)).plain
  have hlt : Spells false "<" [.symbol "<"] := fun rest hr =>
    lex_mark '<' (by decide) rest fun _ hne => by
      rcases ends_cases hr with rfl | ⟨c, more, rfl, hc | ⟨hdot, -⟩⟩
      · simp at hne
      · obtain rfl : c = '=' := by simpa using hne
        exact absurd hc (by decide)
      · cases hdot
  have h := hlen.plain.infixed hlt (Spells.nat n) [] rfl
  simpa [lex_nil, Code.infixed] using h

theorem read_fewer (n : Nat) : read ("len(dataframe) < " ++ natText n) = some (fewer n) := by
  have htable : parse 1 [.name "dataframe", .symbol ")", .symbol "<", .integer n] =
      some (.name "dataframe", [.symbol ")", .symbol "<", .integer n]) := by
    rw [parse_name (by decide), climb_stop (by decide) _ (by rfl)]
  have harguments : arguments ")" [.name "dataframe", .symbol ")", .symbol "<", .integer n] =
      some (.cons none (.name "dataframe") .nil, [.symbol "<", .integer n]) := by
    rw [arguments_value ")" htable (by simp) (by simp), trailing_close (by decide)]
    rfl
  have hop : operator? [.symbol "<", .integer n] = some (.relation .lt, [.integer n]) := rfl
  have hnumber : parse 6 [.integer n] = some (.integer n, []) := by
    rw [parse.eq_def]
    exact climb_stop (by decide) _ rfl
  have hparse : parse 1 [.name "len", .symbol "(", .name "dataframe", .symbol ")", .symbol "<",
      .integer n] = some (fewer n, []) := by
    rw [parse_name (by decide), climb_call 1 _ harguments (by simp),
      climb_binary _ hop (by decide) hnumber (by simp) rfl,
      climb_stop (by decide) _ rfl]
    rfl
  rw [read, lex_fewer, Option.bind_some, hparse]
  rfl

/-- A row of the table, counted from the end. -/
def rowFromEnd (k : Nat) : Expr :=
  .subscript (.attribute (.name "dataframe") "iloc") (.unary .negative (.integer k))

theorem read_row {text : String} {k : Nat} (h : lex text.toList = some [.name "dataframe",
      .symbol ".", .name "iloc", .symbol "[", .symbol "-", .integer k, .symbol "]"]) :
    read text = some (rowFromEnd k) := by
  rw [read, h]
  simp [parse, climb, within, upTo, operator?, keywords, rowFromEnd]

/-- The call that the table comes from. -/
def tableCall : Expr :=
  .call (.attribute (.attribute (.name "self") "dp") "get_analyzed_dataframe")
    (.cons none (.name "pair") (.cons none (.attribute (.name "self") "timeframe") .nil))

theorem read_table :
    read "self.dp.get_analyzed_dataframe(pair, self.timeframe)" = some tableCall := by
  have hlex : lex "self.dp.get_analyzed_dataframe(pair, self.timeframe)".toList =
      some [.name "self", .symbol ".", .name "dp", .symbol ".", .name "get_analyzed_dataframe",
        .symbol "(", .name "pair", .symbol ",", .name "self", .symbol ".", .name "timeframe",
        .symbol ")"] := by decide +kernel
  rw [read, hlex]
  simp [parse, climb, arguments, trailing, within, operator?, keywords, tableCall]

end Script

/-- Code that reads on its own. -/
def Code.Whole (c : Code) : Prop := c.Grouped ∧ 1 ≤ c.rank

theorem Code.Whole.read {c : Code} (h : c.Whole) : Script.read c.render = some c.script :=
  c.read_render h.1 h.2

theorem Code.whole_float {x : Binary64} (hx : x.isFinite = true) : (Code.float x).Whole :=
  ⟨hx, by simp [Code.float, Code.rank]⟩

theorem Code.whole_maxLeverage : (Code.variable maxLeverage).Whole :=
  ⟨⟨by decide, by decide⟩, by simp [Code.rank]⟩

/-- The smaller of two values is code as well. -/
theorem Code.Whole.read_least {x y : Code} (hx : x.Whole) (hy : y.Whole) :
    Script.read ("min(" ++ x.render ++ ", " ++ y.render ++ ")") =
      some (least x.script y.script) := by
  have hscript : (Code.extremum .min (.also x y)).script = least x.script y.script := by
    show Expr.call (.name "min") (x.arguments.append y.arguments) = _
    rw [arguments_of_rank hx.2, arguments_of_rank hy.2]
    rfl
  have h := (Code.extremum .min (.also x y)).read_render ⟨hx.1, hy.1⟩ (by simp [Code.rank])
  rw [hscript] at h
  rw [← h]
  have htext : "min(" ++ x.render ++ ", " ++ y.render ++ ")" =
      "min" ++ "(" ++ (x.render ++ ", " ++ y.render) ++ ")" := by
    simp [String.append_assoc]
  exact congrArg Script.read htext

/-! ## The routine -/

namespace Routine

/-- All code of the routine reads on its own. -/
structure Whole (r : Routine) : Prop where
  branches : ∀ b ∈ r.branches, b.condition.Whole ∧ b.value.Whole
  tail : r.tail.value.Whole
  guard : r.guardValue.Whole

end Routine

namespace Script

/-- A value, but no more than the limit. -/
def limited (value : Code) : Expr := least value.script (.name maxLeverage)

def Branch.statement (b : Branch) : Statement := .branch b.condition.script (limited b.value)

def capStatements (cap : Option Binary64) : List Statement :=
  cap.toList.map fun x => .limit (least (.name maxLeverage) (Code.float x).script)

def candleStatements (r : Routine) : List Statement :=
  if r.readsCandles then
    [.assign "dataframe, _", .branch (fewer r.minCandles) (limited r.guardValue),
      .assign "last_candle"] ++ if r.readsPrevious then [.assign "prev_candle"] else []
  else []

theorem read_capped {value : Code} (h : value.Whole) :
    read (StrategyModule.capped value) = some (limited value) := by
  have htext : StrategyModule.capped value =
      "min(" ++ value.render ++ ", " ++ maxLeverage ++ ")" := by
    simp [StrategyModule.capped, String.append_assoc, maxLeverage]
  have hname : (Code.variable maxLeverage).render = maxLeverage := rfl
  have hread := h.read_least Code.whole_maxLeverage
  rw [hname] at hread
  rw [htext, hread]
  rfl

theorem reads_branch {b : Branch} (hcondition : b.condition.Whole) (hvalue : b.value.Whole) :
    Reads (StrategyModule.branchLines b) [Branch.statement b] :=
  (Reads.comment b.comment).append (.branch hcondition.read (read_capped hvalue))

theorem reads_branches {bs : List Branch}
    (h : ∀ b ∈ bs, b.condition.Whole ∧ b.value.Whole) :
    Reads (bs.flatMap StrategyModule.branchLines) (bs.map Branch.statement) := by
  induction bs with
  | nil => exact .nil
  | cons b bs ih =>
    have hb := h b (by simp)
    exact (reads_branch hb.1 hb.2).append (ih fun c hc => h c (by simp [hc]))

theorem reads_tail {tail : Tail} (h : tail.value.Whole) :
    Reads ["", "        # " ++ tail.comment, "        return " ++ StrategyModule.capped tail.value]
      [.finish (limited tail.value)] :=
  (Reads.comment tail.comment).append (.finish (read_capped h))

theorem reads_cap {cap : Option Binary64} (h : ∀ x ∈ cap, x.isFinite = true) :
    Reads (StrategyModule.capTexts cap) (capStatements cap) := by
  cases cap with
  | none => exact .nil
  | some x =>
    have hname : (Code.variable maxLeverage).render = maxLeverage := rfl
    have hnumber : (Code.float x).render = x.text := rfl
    have hread := Code.whole_maxLeverage.read_least (Code.whole_float (h x rfl))
    rw [hname, hnumber] at hread
    have htext : StrategyModule.capTexts (some x) =
        ["        max_leverage = " ++ ("min(" ++ maxLeverage ++ ", " ++ x.text ++ ")")] :=
      congrArg (fun line => [line]) (String.toList_inj.mp (by simp [maxLeverage]))
    rw [htext]
    exact .limit hread

theorem reads_candles {r : Routine} (h : r.guardValue.Whole) :
    Reads (StrategyModule.candleLines r) (candleStatements r) := by
  have htable : Reads
      ["        dataframe, _ = self.dp.get_analyzed_dataframe(pair, self.timeframe)"]
      [.assign "dataframe, _"] :=
    .assign "self.dp.get_analyzed_dataframe(pair, self.timeframe)" rfl (by decide)
  have hlast : Reads ["        last_candle = dataframe.iloc[-1]"] [.assign "last_candle"] :=
    .assign "dataframe.iloc[-1]" rfl (by decide)
  have hprevious : Reads ["        prev_candle = dataframe.iloc[-2]"] [.assign "prev_candle"] :=
    .assign "dataframe.iloc[-2]" rfl (by decide)
  have hguard : Reads ["        if len(dataframe) < " ++ natText r.minCandles ++ ":",
      "            return " ++ StrategyModule.capped r.guardValue]
      [.branch (fewer r.minCandles) (limited r.guardValue)] := by
    have htext : "        if len(dataframe) < " ++ natText r.minCandles ++ ":" =
        "        if " ++ ("len(dataframe) < " ++ natText r.minCandles) ++ ":" := by
      exact String.toList_inj.mp (by simp)
    rw [htext]
    exact .branch (read_fewer r.minCandles) (read_capped h)
  have hall := htable.append (hguard.append hlast)
  unfold StrategyModule.candleLines candleStatements StrategyModule.onlyIf
  cases r.readsCandles with
  | false => exact .nil
  | true =>
    cases r.readsPrevious with
    | false => exact hall
    | true => exact hall.append hprevious

/-- The statements of a rendered routine. -/
def routineStatements (r : Routine) : List Statement :=
  .assign "is_short" :: (capStatements r.cap ++ (candleStatements r ++
    (r.branches.map Branch.statement ++ [.finish (limited r.tail.value)])))

theorem body_signature (rest : List String) :
    body (["", "    def leverage(self, pair: str, current_time: datetime, current_rate: float,",
      "                 proposed_leverage: float, max_leverage: float, entry_tag: Optional[str],",
      "                 side: str, **kwargs) -> float:"] ++ rest) = rest := by
  simp [body]

/-- A routine is written down unless its cap is no number. -/
theorem exists_leverageMethod_iff (r : Routine) :
    (∃ lines, StrategyModule.leverageMethod (some r) = .ok lines) ↔
      ∀ x, r.cap = some x → x.isFinite = true := by
  simp [StrategyModule.leverageMethod_eq_ok, StrategyModule.leverageNumbers]

theorem program?_leverageMethod {r : Routine} (h : r.Whole) {lines : List String}
    (hlines : StrategyModule.leverageMethod (some r) = .ok lines) :
    program? lines = some (routineStatements r) := by
  have hcap := (exists_leverageMethod_iff r).mp ⟨lines, hlines⟩
  obtain ⟨-, rfl⟩ := StrategyModule.leverageMethod_eq_ok.mp hlines
  have hshort : Reads ["        is_short = side == 'short'"] [.assign "is_short"] :=
    .assign "side == 'short'" rfl (by decide)
  refine Reads.program ?_
  simp only [StrategyModule.leverageTexts, StrategyModule.leverageTop, List.append_assoc]
  refine (body_signature _).symm ▸ ?_
  exact hshort.append ((reads_cap hcap).append ((reads_candles h.guard).append
    ((reads_branches h.branches).append (reads_tail h.tail))))

/-! ## Running it -/

/-- The most leverage that may be taken, under a cap if there is one. -/
def limitOf (most : ℚ) : Option Binary64 → ℚ
  | none => most
  | some x => min most x.toRat

namespace Call

variable (q : Call) (limit : ℚ)

theorem operand_float (x : Binary64) : q.operand limit (Code.float x).script = x.toRat := by
  have hscript : (Code.float x).script = signed x.isNegative (.float x.magnitude) := rfl
  rw [hscript, x.toRat_eq]
  cases x.isNegative <;> rfl

theorem amount_limited (value : Code) :
    q.amount limit (limited value) = min (q.operand limit value.script) limit := by
  simp [limited, least, amount, operand]

/-- The code of the value that the routine picks. -/
def picked (r : Routine) : Code :=
  if q.candles < r.minCandles then r.guardValue
  else ((r.branches.find? fun b => q.holds limit b.condition.script).map Branch.value).getD
    r.tail.value

theorem run_cap (most : ℚ) (cap : Option Binary64) (rest : List Statement) :
    q.run most (capStatements cap ++ rest) = q.run (limitOf most cap) rest := by
  cases cap with
  | none => rfl
  | some x =>
    show q.run (q.amount most (least (.name maxLeverage) (Code.float x).script)) rest = _
    have hleast : q.amount most (least (.name maxLeverage) (Code.float x).script) =
        min most (q.operand most (Code.float x).script) := by
      simp [least, amount, operand]
    rw [hleast, operand_float, limitOf]

theorem run_candles (r : Routine) (rest : List Statement) :
    q.run limit (candleStatements r ++ rest) =
      if q.candles < r.minCandles then some (min (q.operand limit r.guardValue.script) limit)
      else q.run limit rest := by
  unfold candleStatements
  cases hreads : r.readsCandles with
  | false =>
    have hzero : ¬ q.candles < r.minCandles := by
      simp only [Routine.readsCandles, decide_eq_false_iff_not] at hreads
      omega
    simp [hzero]
  | true =>
    have hholds : q.holds limit (fewer r.minCandles) = decide (q.candles < r.minCandles) := rfl
    cases r.readsPrevious <;> simp [run, hholds, amount_limited]

theorem run_branches (tail : Code) (bs : List Branch) :
    q.run limit (bs.map Branch.statement ++ ([.finish (limited tail)] : List Statement)) =
      some (min (q.operand limit ((bs.find? fun b => q.holds limit b.condition.script).map
        Branch.value |>.getD tail).script) limit) := by
  induction bs with
  | nil => simp [run, amount_limited]
  | cons b bs ih =>
    simp only [List.map_cons, List.cons_append, Branch.statement, run, List.find?_cons]
    cases hb : q.holds limit b.condition.script with
    | true => simp [amount_limited]
    | false => simpa using ih

/-- **A call returns the smaller of the limit and the value that the routine picks.** -/
theorem returns_leverageMethod {r : Routine} (h : r.Whole) {lines : List String}
    (hlines : StrategyModule.leverageMethod (some r) = .ok lines) (most : ℚ) :
    q.returns most lines = some (min
      (q.operand (limitOf most r.cap) (q.picked (limitOf most r.cap) r).script)
      (limitOf most r.cap)) := by
  rw [returns, program?_leverageMethod h hlines, Option.bind_some, routineStatements, run, run_cap,
    run_candles, run_branches, picked]
  split <;> rfl

end Call

end Script

end Stratagem
