import Stratagem.Proofs.Leverage.Rendered
import Stratagem.Proofs.Module.Scanning

/-! The lines of a module. Each of them is tidy: fixed text, with names, literals and code at places
where they cannot run into it. -/

namespace Stratagem

open Scan

theorem Code.Whole.lexes {c : Code} (h : c.Whole) : ∃ ts, Script.lex c.render.toList = some ts :=
  ⟨c.tokens, (c.spells_of_grouped h.1).alone⟩

theorem lexes_quoted (s : String) : ∃ ts, Script.lex (Text.quoted s).toList = some ts :=
  ⟨[.text s], (Script.Spells.text s).alone⟩

theorem lexes_scalar {s : Scalar} (h : s.isFinite = true) :
    ∃ ts, Script.lex s.toValue.written.toList = some ts :=
  ⟨s.tokens, (spells_scalar s h).alone⟩

namespace Scan

/-- The line holds no escapes and no comment. -/
def isCalm (line : String) : Bool := bland line.toList && !line.toList.contains '\r'

theorem tidy_calm {line : String} (h : isCalm line = true) : Tidy line := by
  simp only [isCalm, Bool.and_eq_true, Bool.not_eq_true', List.contains_eq_mem,
    decide_eq_false_iff_not] at h
  exact tidy_bland h.1 h.2

/-- A literal is given by its characters, and need not be decoded for the check. -/
theorem tidy_literal {cs : List Char} (h : (bland cs && !cs.contains '\r') = true) :
    Tidy (String.ofList cs) :=
  tidy_calm (by rwa [isCalm, String.toList_ofList])

theorem tidy_quiet {line : String} (h : ∀ c ∈ line.toList, isQuiet c = true ∧ c ≠ '\r') :
    Tidy line :=
  tidy_bland (bland_of_quiet fun c hc => (h c hc).1) fun hreturn => (h _ hreturn).2 rfl

theorem tidy_all {lines : List String} (h : lines.all isCalm = true) :
    ∀ line ∈ lines, Tidy line :=
  fun line hline => tidy_calm (List.all_eq_true.mp h line hline)

/-- Code between fixed texts. -/
theorem tidy_code {before code after : String}
    (hcode : ∃ ts, Script.lex code.toList = some ts)
    (hbefore : (before.toList.all fun c => isPlain c && c != '\r') = true)
    (hafter : Tidy after) (hquote : after.toList.head?.any isQuote = false) :
    Tidy (before ++ code ++ after) := by
  obtain ⟨ts, hts⟩ := hcode
  refine .around (fun c hc => ?_) hts hafter hquote
  simpa using List.all_eq_true.mp hbefore c hc

theorem tidy_code_end {before code : String} (hcode : ∃ ts, Script.lex code.toList = some ts)
    (hbefore : (before.toList.all fun c => isPlain c && c != '\r') = true) :
    Tidy (before ++ code) := by
  have hempty : Tidy "" := tidy_calm rfl
  simpa using tidy_code hcode hbefore hempty rfl

end Scan

namespace StrategyModule

variable {m : StrategyModule} {lines : List String}

/-- What is put into the fixed text of a module fits there. -/
structure Sound (m : StrategyModule) : Prop where
  className : ∀ c ∈ m.className.toList, isQuiet c = true ∧ c ≠ '\r'
  indicators : ∀ line ∈ m.indicatorLines, bland line.toList = true ∧ '\r' ∉ line.toList
  masks : ∀ s ∈ m.entrySignals ++ m.exitSignals, s.mask.Whole
  routine : ∀ r ∈ m.leverage, r.Whole
  comments : ∀ r ∈ m.leverage, ∀ text ∈ r.tail.comment :: r.branches.map Branch.comment,
    ∀ c ∈ text.toList, Script.isInline c = true

theorem header_tidy (hm : m.Sound) : ∀ line ∈ m.header, Tidy line := by
  have hclass : Tidy ("class " ++ m.className ++ "(IStrategy):") := by
    refine tidy_quiet ?_
    simp only [String.toList_append, List.forall_mem_append]
    exact ⟨⟨by decide, hm.className⟩, by decide⟩
  have hcomment {line : String} {text : List Char} (hline : line.toList = [] ++ '#' :: text)
      (htext : text.all Script.isInline = true) : Tidy line :=
    tidy_comment hline (by simp) (List.all_eq_true.mp htext)
  have hoptional {cs : List Char} (h : (bland cs && !cs.contains '\r') = true) (b : Bool) :
      ∀ line ∈ onlyIf b [String.ofList cs], Tidy line :=
    forall_onlyIf (List.forall_mem_singleton.mpr (tidy_literal h))
  unfold header
  simp only [List.forall_mem_append]
  refine ⟨⟨⟨⟨⟨⟨?_, hoptional (by decide) _⟩, ?_⟩, hoptional (by decide) _⟩,
    List.forall_mem_singleton.mpr (tidy_literal (by decide))⟩, hoptional (by decide) _⟩, ?_⟩
  · simp only [List.forall_mem_cons]
    exact ⟨hcomment rfl (by decide), hcomment rfl (by decide), tidy_literal (by decide),
      tidy_literal (by decide), nofun⟩
  · simp only [List.forall_mem_cons]
    exact ⟨tidy_calm rfl, tidy_literal (by decide), tidy_literal (by decide), nofun⟩
  · simp only [List.forall_mem_cons]
    exact ⟨tidy_calm rfl, tidy_literal (by decide), tidy_calm rfl, tidy_calm rfl, hclass,
      tidy_literal (by decide), tidy_calm rfl, by simp⟩

theorem lexes_float {x : Binary64} (h : x.isFinite = true) :
    ∃ ts, Script.lex x.text.toList = some ts := lexes_scalar (s := .float x) h

theorem optionalText_tidy {name : String} {x : Option Binary64}
    (hname : (name.toList.all fun c => isPlain c && c != '\r') = true)
    (h : ∀ y ∈ x.toList, y.isFinite = true) : ∀ line ∈ optionalText name x, Tidy line := by
  refine List.forall_mem_map.mpr fun y hy => tidy_code_end (lexes_float (h y hy)) ?_
  simp only [String.toList_append, List.all_append, hname]
  decide

theorem roiText_tidy {entry : String × Binary64} (h : entry.2.isFinite = true) :
    Tidy (roiText entry) := by
  have hvalue : Tidy (": " ++ entry.2.text ++ ",") :=
    tidy_code (lexes_float h) (by decide) (tidy_literal (by decide)) (by decide)
  have hline : Tidy ("        " ++ Text.quoted entry.1 ++ (": " ++ entry.2.text ++ ",")) :=
    tidy_code (lexes_quoted entry.1) (by decide) hvalue (by simp [isQuote])
  simpa only [roiText, String.append_assoc] using hline

theorem attributes_tidy (h : m.attributes = .ok lines) : ∀ line ∈ lines, Tidy line := by
  obtain ⟨hfinite, rfl⟩ := attributes_eq_ok.mp h
  simp only [attributeNumbers, List.forall_mem_append, List.forall_mem_singleton,
    List.forall_mem_map, Value.hasLiteral_float] at hfinite
  obtain ⟨hstoploss, hroi, hpositive, hoffset, -⟩ := hfinite
  have hbool {name : String} (b : Bool)
      (hname : (name.toList.all fun c => isPlain c && c != '\r') = true) :
      Tidy (name ++ boolText b) := tidy_code_end (lexes_scalar (s := .bool b) rfl) hname
  simp only [attributeTexts, roiTable, List.cons_append, List.forall_mem_cons,
    List.forall_mem_append, List.nil_append, List.append_assoc]
  exact ⟨tidy_code_end (lexes_quoted _) (by decide), hbool _ (by decide), tidy_calm rfl,
    tidy_code_end (lexes_float hstoploss) (by decide), tidy_literal (by decide),
    List.forall_mem_map.mpr fun entry hentry => roiText_tidy (hroi entry hentry),
    tidy_literal (by decide), tidy_calm rfl, hbool _ (by decide),
    optionalText_tidy (by decide) hpositive, optionalText_tidy (by decide) hoffset,
    forall_onlyIf (tidy_all (by decide)), tidy_calm rfl, hbool _ (by decide),
    tidy_code_end (lexes_scalar (s := .int m.startupCandleCount) rfl) (by decide),
    tidy_calm rfl, List.forall_mem_nil _⟩

theorem signalLine_tidy {s : SignalLine} (h : s.mask.Whole) : Tidy (signalLine s) := by
  have hset : Tidy "] = 1" := tidy_literal (by decide)
  have hcolumn : Tidy (", " ++ Text.quoted s.column ++ "] = 1") :=
    tidy_code (lexes_quoted s.column) (by decide) hset (by decide)
  have hline : Tidy ("        dataframe.loc[" ++ s.mask.render ++
      (", " ++ Text.quoted s.column ++ "] = 1")) :=
    tidy_code h.lexes (by decide) hcolumn (by simp [isQuote])
  unfold signalLine
  simpa only [String.append_assoc] using hline

theorem indicatorLine_tidy {line : String} (h : bland line.toList = true ∧ '\r' ∉ line.toList) :
    Tidy (indicatorLine line) := by
  rw [indicatorLine]
  refine tidy_bland ?_ ?_
  · rw [String.toList_append]
    exact bland_append (by decide) h.1 (.inl (by decide))
  · rw [String.toList_append, List.mem_append, not_or]
    exact ⟨by decide, h.2⟩

theorem tableMethod_tidy {name : String} {body : List String}
    (hname : ∀ c ∈ name.toList, isQuiet c = true ∧ c ≠ '\r')
    (hbody : ∀ line ∈ body, Tidy line) : ∀ line ∈ tableMethod name body, Tidy line := by
  simp only [tableMethod, List.forall_mem_append, List.forall_mem_singleton]
  refine ⟨⟨tidy_quiet ?_, hbody⟩, tidy_literal (by decide)⟩
  simp only [String.toList_append, List.forall_mem_append]
  exact ⟨⟨by decide, hname⟩, by decide⟩

theorem tableMethods_tidy (hm : m.Sound) : ∀ line ∈ m.tableMethods, Tidy line := by
  obtain ⟨hentries, hexits⟩ := List.forall_mem_append.mp hm.masks
  have hblank : ∀ line ∈ [""], Tidy line := tidy_all (by decide)
  simp only [tableMethods, List.forall_mem_append]
  refine ⟨⟨⟨⟨tableMethod_tidy (by decide) ?_, hblank⟩,
    tableMethod_tidy (by decide) ?_⟩, hblank⟩,
    tableMethod_tidy (by decide) ?_⟩
  · exact List.forall_mem_map.mpr fun line hline => indicatorLine_tidy (hm.indicators line hline)
  · exact List.forall_mem_map.mpr fun s hs => signalLine_tidy (hentries s hs)
  · exact List.forall_mem_map.mpr fun s hs => signalLine_tidy (hexits s hs)

/-! ## The leverage method -/

theorem tidy_capped {before : String} {value : Code} (h : value.Whole)
    (hbefore : (before.toList.all fun c => isPlain c && c != '\r') = true) :
    Tidy (before ++ capped value) := by
  have hline : Tidy (before ++ "min(" ++ value.render ++ ", max_leverage)") := by
    refine tidy_code h.lexes ?_ (tidy_literal (by decide)) (by decide)
    rw [String.toList_append, List.all_append, hbefore]
    decide
  simpa only [capped, String.append_assoc] using hline

theorem comment_tidy {text : String} (h : ∀ c ∈ text.toList, Script.isInline c = true) :
    Tidy ("        # " ++ text) := by
  have hsplit : ("        # " ++ text).toList =
      "        ".toList ++ '#' :: (' ' :: text.toList) := by
    simp
  exact tidy_comment hsplit (by decide) (List.forall_mem_cons.mpr ⟨rfl, h⟩)

theorem branchLines_tidy {b : Branch} (hb : b.condition.Whole ∧ b.value.Whole)
    (hcomment : ∀ c ∈ b.comment.toList, Script.isInline c = true) :
    ∀ line ∈ branchLines b, Tidy line := by
  simp only [branchLines, List.forall_mem_cons]
  exact ⟨tidy_calm rfl, comment_tidy hcomment,
    tidy_code hb.1.lexes (by decide) (tidy_literal (by decide)) (by decide),
    tidy_capped hb.2 (by decide), by simp⟩

theorem candleLines_tidy {r : Routine} (hr : r.Whole) : ∀ line ∈ candleLines r, Tidy line := by
  refine forall_onlyIf (List.forall_mem_append.mpr ⟨?_, forall_onlyIf (tidy_all (by decide))⟩)
  simp only [List.forall_mem_cons]
  exact ⟨tidy_literal (by decide),
    tidy_code (lexes_scalar (s := .int r.minCandles) rfl) (by decide) (tidy_literal (by decide))
      (by decide),
    tidy_capped hr.guard (by decide), tidy_literal (by decide), by simp⟩

theorem leverageMethod_tidy (hm : m.Sound) (h : leverageMethod m.leverage = .ok lines) :
    ∀ line ∈ lines, Tidy line := by
  obtain ⟨hfinite, rfl⟩ := leverageMethod_eq_ok.mp h
  cases hroutine : m.leverage with
  | none => simp [leverageTexts]
  | some r =>
    have hr := hm.routine r hroutine
    obtain ⟨htail, hbranches⟩ := List.forall_mem_cons.mp (hm.comments r hroutine)
    simp only [hroutine, leverageNumbers, Option.bind_some, List.forall_mem_map,
      Value.hasLiteral_float] at hfinite
    have hcap : ∀ line ∈ capTexts r.cap, Tidy line :=
      List.forall_mem_map.mpr fun x hx =>
        tidy_code (lexes_float (hfinite x hx)) (by decide) (tidy_literal (by decide)) (by decide)
    simp only [leverageTexts, leverageTop, List.forall_mem_append]
    refine ⟨⟨⟨⟨?_, hcap⟩, candleLines_tidy hr⟩, ?_⟩, ?_⟩
    · simp only [List.forall_mem_cons]
      exact ⟨tidy_calm rfl, tidy_literal (by decide), tidy_literal (by decide),
        tidy_literal (by decide), tidy_literal (by decide), List.forall_mem_nil _⟩
    · intro line hline
      obtain ⟨b, hb, hline⟩ := List.mem_flatMap.mp hline
      exact branchLines_tidy (hr.branches b hb) (hbranches _ (List.mem_map_of_mem hb)) line hline
    · simp only [List.forall_mem_cons]
      exact ⟨tidy_calm rfl, comment_tidy htail, tidy_capped hr.tail (by decide), by simp⟩

/-- The parts of a module that could be written. -/
theorem lines_eq_ok_iff :
    m.lines = .ok lines ↔ ∃ attributes method, m.attributes = .ok attributes ∧
      leverageMethod m.leverage = .ok method ∧
      lines = m.header ++ attributes ++ m.tableMethods ++ method := by
  unfold StrategyModule.lines
  simp only [bind_eq_ok_iff, pure, Except.pure, Except.ok.injEq, exists_and_left,
    eq_comm (b := lines)]

/-- **Every line of a sound module is tidy.** -/
theorem lines_tidy (hm : m.Sound) (h : m.lines = .ok lines) : ∀ line ∈ lines, Tidy line := by
  obtain ⟨attributes, method, hattributes, hmethod, rfl⟩ := lines_eq_ok_iff.mp h
  simp only [List.forall_mem_append]
  exact ⟨⟨⟨header_tidy hm, attributes_tidy hattributes⟩, tableMethods_tidy hm⟩,
    leverageMethod_tidy hm hmethod⟩

end StrategyModule

end Stratagem
