import Stratagem.Proofs.Module.Brackets
import Stratagem.Proofs.Module.Lines

/-! Open brackets line by line. A module opens few brackets at once, but for its masks and the code
of its leverage method: the table of returns and the head of the leverage method go over several
lines, and every other line closes what it opens. -/

namespace Stratagem.StrategyModule

open Scan

variable {lines : List String} {m : StrategyModule} {s : SignalLine} {name : String}

-- A fixed line is a list of up to ninety letters, which is checked letter by letter.
set_option maxRecDepth 1500

/-- The code of a routine opens few enough brackets; each value stands in a call. -/
structure Fits (r : Routine) : Prop where
  branches : ∀ b ∈ r.branches, b.condition.brackets ≤ maxBrackets ∧ b.value.brackets < maxBrackets
  tail : r.tail.value.brackets < maxBrackets
  guard : r.guardValue.brackets < maxBrackets

theorem level_onlyIf (h : Level lines) (b : Bool) : Level (onlyIf b lines) := by
  cases b with
  | false => exact rows_nil 0
  | true => exact h

theorem header_level (hm : m.Sound) (hname : ∀ c ∈ m.className.toList, Script.isInert c = true) :
    Level m.header := by
  have hcomment {line : String} {text : List Char} (hline : line.toList = [] ++ '#' :: text)
      (htext : text.all Script.isInline = true) : Level [line] :=
    level_comment hline (by simp) (List.all_eq_true.mp htext)
  have hoptional {cs : List Char} (h : bland cs = true ∧ Leads 0 cs 0) (b : Bool) :
      Level (onlyIf b [String.ofList cs]) := level_onlyIf (level_literal h) b
  have hclass : Level ["class " ++ m.className ++ "(IStrategy):"] :=
    level_named (by decide) (fun c hc => ⟨(hm.className c hc).1, hname c hc⟩)
      (by decide)
  have hopening : Level ["# Generated by strategy-compiler from a strategy builder document.",
      "# Changes made here are lost when the strategy is regenerated.",
      "from datetime import datetime", "from typing import Optional"] :=
    (hcomment rfl (by decide)).cons ((hcomment rfl (by decide)).cons
      ((level_literal (by decide)).cons (level_literal (by decide))))
  have hmiddle : Level ["", "import numpy as np", "import pandas as pd"] :=
    level_blank.cons
      ((level_literal (by decide)).cons (level_literal (by decide)))
  have hending : Level ["", "from freqtrade.strategy import IStrategy", "", "",
      "class " ++ m.className ++ "(IStrategy):", "    INTERFACE_VERSION = 3", ""] :=
    level_blank.cons ((level_literal (by decide)).cons (level_blank.cons
      (level_blank.cons (hclass.cons ((level_literal (by decide)).cons level_blank)))))
  exact (((((hopening.append (hoptional (by decide) _)).append hmiddle).append
    (hoptional (by decide) _)).append (level_literal (by decide))).append
      (hoptional (by decide) _)).append hending

theorem spans_float {x : Binary64} (h : x.isFinite = true) : Spans x.text 0 :=
  spans_scalar (s := .float x) h

/-- An attribute and its value. -/
theorem level_value {before : List Char} {code : String}
    (hbefore : PlainLeads 0 before 0) (hcode : Spans code 0) :
    Level [String.ofList before ++ code] := rows_code_end hbefore hcode (by decide)

theorem optionalText_level {name : List Char} {x : Option Binary64}
    (hname : PlainLeads 0 ("    ".toList ++ name ++ " = ".toList) 0)
    (h : ∀ y ∈ x.toList, y.isFinite = true) : Level (optionalText (String.ofList name) x) := by
  refine rows_forall (List.forall_mem_map.mpr fun y hy => ?_)
  have hline := level_value hname (spans_float (h y hy))
  rwa [String.ofList_append, String.ofList_append, String.ofList_toList,
    String.ofList_toList] at hline

/-- An entry of the table of returns, within its braces. -/
theorem roiText_rows {entry : String × Binary64} (h : entry.2.isFinite = true) :
    Rows 1 [roiText entry] (· = 1) := by
  have hvalue : Rows 1 [": " ++ entry.2.text ++ ","] (· = 1) :=
    rows_code (e := 1) (by decide) (spans_float h) (by decide) (rows_literal (by decide))
      (by decide)
  have hline : Rows 1 ["        " ++ Text.quoted entry.1 ++ (": " ++ entry.2.text ++ ",")]
      (· = 1) :=
    rows_code (by decide) (spans_quoted entry.1) (by decide) hvalue (by simp [isQuote])
  simpa only [roiText, String.append_assoc] using hline

theorem attributes_level (h : m.attributes = .ok lines) : Level lines := by
  obtain ⟨hfinite, rfl⟩ := attributes_eq_ok.mp h
  simp only [attributeNumbers, List.forall_mem_append, List.forall_mem_singleton,
    List.forall_mem_map, Value.hasLiteral_float] at hfinite
  obtain ⟨hstoploss, hroi, hpositive, hoffset, -⟩ := hfinite
  have hbool {before : List Char} (b : Bool)
      (hbefore : PlainLeads 0 before 0) : Level [String.ofList before ++ boolText b] :=
    level_value hbefore (spans_scalar (s := .bool b) rfl)
  have hopening : Level ["    timeframe = " ++ Text.quoted m.timeframe,
      "    can_short = " ++ boolText m.canShort, "", "    stoploss = " ++ m.stoploss.text] :=
    (level_value (by decide) (spans_quoted _)).cons ((hbool _ (by decide)).cons
      (level_blank.cons (level_value (by decide) (spans_float hstoploss))))
  have hentries : Rows 1 (m.minimalRoi.map roiText) (· = 1) :=
    rows_forall (List.forall_mem_map.mpr fun entry hentry => roiText_rows (hroi entry hentry))
  have htable : Level (roiTable m.minimalRoi) :=
    Rows.cons (e := 1) (rows_literal (by decide)) (hentries.append (rows_literal (by decide)))
  have htrailing : Level ["", "    trailing_stop = " ++ boolText m.trailingStop] :=
    level_blank.cons (hbool _ (by decide))
  have hending : Level ["", "    use_exit_signal = " ++ boolText m.useExitSignal,
      "    startup_candle_count = " ++ intText m.startupCandleCount, ""] :=
    level_blank.cons ((hbool _ (by decide)).cons ((level_value (by decide)
      (spans_scalar (s := .int m.startupCandleCount) rfl)).cons level_blank))
  exact (hopening.append htable).append ((((htrailing.append
    (optionalText_level (by decide) hpositive)).append
      (optionalText_level (by decide) hoffset)).append
        (level_onlyIf (level_literal (by decide)) _)).append hending)

/-! ## The methods -/

/-- A mask stands in one pair of brackets. -/
theorem signalLine_opens (h : s.mask.Whole) :
    Script.Opens 0 (signalLine s).toList 0 (s.mask.brackets + 1) := by
  have hbefore : Script.Opens 0 "        dataframe.loc[".toList 1 1 :=
    ⟨by decide, by decide⟩
  have hcomma : Script.Opens 1 ", ".toList 1 1 := ⟨by decide, by decide⟩
  have hset : Script.Opens 1 "] = 1".toList 0 1 := ⟨by decide, by decide⟩
  have hline := (((hbefore.append (h.1.opens 1)).append hcomma).append
    ((spans_quoted s.column).opens 1)).append hset
  have htop : max (max (max (max 1 (1 + s.mask.brackets)) 1) (1 + 0)) 1 = s.mask.brackets + 1 := by
    omega
  rw [htop, ← String.toList_append, ← String.toList_append, ← String.toList_append,
    ← String.toList_append] at hline
  exact hline

theorem mostOpen_signalLine (h : s.mask.Whole) :
    Script.mostOpen (signalLine s) = s.mask.brackets + 1 := (signalLine_opens h).most

theorem signalLine_follows (h : s.mask.Whole) : Follows anything (signalLine s).toList := by
  obtain ⟨ts, hmask, -⟩ := spans_code h.1
  obtain ⟨us, hcolumn, -⟩ := spans_quoted s.column
  have hbefore : Follows anything "        dataframe.loc[".toList := follows_plain (by decide)
  have hcomma : Follows anything ", ".toList := follows_plain (by decide)
  have hset : Follows anything "] = 1".toList := follows_plain (by decide)
  have hfirst := (hbefore.append (follows_of_lex hmask) fun _ _ => trivial).append hcomma
    fun _ _ => rfl
  have hline := (hfirst.append (follows_of_lex hcolumn) fun _ _ => trivial).append hset
    fun _ _ => rfl
  rw [← String.toList_append, ← String.toList_append, ← String.toList_append,
    ← String.toList_append] at hline
  exact hline

theorem signalLines_level {signals : List SignalLine} (h : ∀ s ∈ signals, s.mask.Whole)
    (hs : ∀ s ∈ signals, s.mask.brackets < maxBrackets) : Level (signals.map signalLine) := by
  refine rows_forall (List.forall_mem_map.mpr fun s hmem => ?_)
  exact rows_of_follows (signalLine_follows (h s hmem))
    (leads_of_opens (signalLine_opens (h s hmem)) (hs s hmem))

/-- One mask with too many brackets is enough. -/
theorem signalLines_halt {signals : List SignalLine} (h : ∀ s ∈ signals, s.mask.Whole)
    (hs : ∃ s ∈ signals, maxBrackets ≤ s.mask.brackets) : Halts (signals.map signalLine) := by
  induction signals with
  | nil =>
    obtain ⟨s, hmem, -⟩ := hs
    cases hmem
  | cons s rest ih =>
    obtain ⟨hwhole, hrest⟩ := List.forall_mem_cons.mp h
    rw [List.map_cons, ← List.singleton_append]
    by_cases hfits : s.mask.brackets < maxBrackets
    · have hline : Level ([s].map signalLine) :=
        signalLines_level (List.forall_mem_singleton.mpr hwhole)
          (List.forall_mem_singleton.mpr hfits)
      obtain ⟨t, hmem, ht⟩ := hs
      rcases List.mem_cons.mp hmem with rfl | hmem
      · omega
      · exact hline.halts_append (ih hrest ⟨t, hmem, ht⟩)
    · have hmost : maxBrackets < Script.mostOpen (signalLine s) := by
        rw [mostOpen_signalLine hwhole]
        omega
      exact (halts_of_follows (signalLine_follows hwhole) hmost).append _

/-- The head of a method on the table, up to its body. -/
theorem tableHead_level (h : ∀ c ∈ name.toList, Script.wordChar c = true) :
    Level ["    def " ++ name ++
      "(self, dataframe: DataFrame, metadata: dict) -> DataFrame:"] := by
  refine level_named (by decide) (fun c hc => ?_) (by decide)
  exact ⟨(Bool.and_eq_true_iff.mp (isPlain_of_wordChar (h c hc))).2,
    Script.isInert_of_wordChar (h c hc)⟩

theorem tableMethod_level (h : ∀ c ∈ name.toList, Script.wordChar c = true) {body : List String}
    (hbody : Level body) : Level (tableMethod name body) :=
  ((tableHead_level h).append hbody).append (level_literal (by decide))

theorem tableMethod_halts (h : ∀ c ∈ name.toList, Script.wordChar c = true) {body : List String}
    (hbody : Halts body) : Halts (tableMethod name body) :=
  ((tableHead_level h).halts_append hbody).append _

section Tables

variable {m : StrategyModule} (hm : m.Sound)
  (hindicators : Level (m.indicatorLines.map indicatorLine))

include hm hindicators

theorem tableMethods_level
    (hmasks : ∀ s ∈ m.entrySignals ++ m.exitSignals, s.mask.brackets < maxBrackets) :
    Level m.tableMethods := by
  obtain ⟨hentries, hexits⟩ := List.forall_mem_append.mp hmasks
  obtain ⟨hentry, hexit⟩ := List.forall_mem_append.mp hm.masks
  exact ((((tableMethod_level (by decide) hindicators).append level_blank).append
    (tableMethod_level (by decide) (signalLines_level hentry hentries))).append
      level_blank).append (tableMethod_level (by decide) (signalLines_level hexit hexits))

theorem tableMethods_halt
    (hmask : ∃ s ∈ m.entrySignals ++ m.exitSignals, maxBrackets ≤ s.mask.brackets) :
    Halts m.tableMethods := by
  obtain ⟨hentry, hexit⟩ := List.forall_mem_append.mp hm.masks
  have hfirst : Level (tableMethod "populate_indicators" (m.indicatorLines.map indicatorLine) ++
      [""]) := (tableMethod_level (by decide) hindicators).append level_blank
  -- the entries come first, so an exit is only reached if they are passed
  by_cases hentries : ∀ s ∈ m.entrySignals, s.mask.brackets < maxBrackets
  · obtain ⟨s, hs, hmany⟩ := hmask
    have hexits : s ∈ m.exitSignals := by
      rcases List.mem_append.mp hs with hs | hs
      · exact absurd (hentries s hs) (Nat.not_lt.mpr hmany)
      · exact hs
    exact ((hfirst.append (tableMethod_level (by decide)
      (signalLines_level hentry hentries))).append level_blank).halts_append
        (tableMethod_halts (by decide) (signalLines_halt hexit ⟨s, hexits, hmany⟩))
  · push Not at hentries
    exact ((hfirst.halts_append (tableMethod_halts (by decide)
      (signalLines_halt hentry hentries))).append _).append _

end Tables

theorem level_capped {before : List Char} {value : Code} (h : value.Whole)
    (hvalue : value.brackets < maxBrackets)
    (hbefore : PlainLeads 0 (before ++ "min(".toList) 1) :
    Level [String.ofList before ++ capped value] := by
  have hline : Level [String.ofList (before ++ "min(".toList) ++ value.render ++
      ", max_leverage)"] :=
    rows_code hbefore (spans_code h.1) (by omega) (rows_literal (by decide)) (by decide)
  rw [String.ofList_append, String.ofList_toList] at hline
  simpa only [capped, String.append_assoc] using hline

theorem comment_level {text : String} (h : ∀ c ∈ text.toList, Script.isInline c = true) :
    Level ["        # " ++ text] := by
  have hsplit : ("        # " ++ text).toList =
      "        ".toList ++ '#' :: (' ' :: text.toList) := by
    simp
  exact level_comment hsplit (by decide) (List.forall_mem_cons.mpr ⟨rfl, h⟩)

theorem capTexts_level {cap : Option Binary64} (h : ∀ x ∈ cap.toList, x.isFinite = true) :
    Level (capTexts cap) :=
  rows_forall (List.forall_mem_map.mpr fun x hx => rows_code (e := 1) (by decide)
    (spans_float (h x hx)) (by decide) (rows_literal (by decide)) (by decide))

theorem branchLines_level {b : Branch} (hb : b.condition.Whole ∧ b.value.Whole)
    (hcondition : b.condition.brackets ≤ maxBrackets) (hvalue : b.value.brackets < maxBrackets)
    (hcomment : ∀ c ∈ b.comment.toList, Script.isInline c = true) : Level (branchLines b) := by
  have htest : Level ["        if " ++ b.condition.render ++ ":"] :=
    rows_code (e := 0) (by decide) (spans_code hb.1.1) (by omega)
      (rows_literal (by decide)) (by decide)
  exact level_blank.cons ((comment_level hcomment).cons
    (htest.cons (level_capped hb.2 hvalue (by decide))))

theorem candleLines_level {r : Routine} (hr : r.Whole) (hfits : Fits r) :
    Level (candleLines r) := by
  have hcount : Level ["        if len(dataframe) < " ++ natText r.minCandles ++ ":"] :=
    rows_code (e := 0) (by decide) (spans_scalar (s := .int r.minCandles) rfl) (by decide)
      (rows_literal (by decide)) (by decide)
  have hlast : Level ["        dataframe, _ = self.dp.get_analyzed_dataframe(pair, self.timeframe)",
      "        if len(dataframe) < " ++ natText r.minCandles ++ ":",
      "            return " ++ capped r.guardValue,
      "        last_candle = dataframe.iloc[-1]"] :=
    (level_literal (by decide)).cons (hcount.cons
      ((level_capped hr.guard hfits.guard (by decide)).cons
        (level_literal (by decide))))
  exact level_onlyIf (hlast.append (level_onlyIf (level_literal (by decide)) _)) _

theorem leverageMethod_level (hm : m.Sound) (hfits : ∀ r ∈ m.leverage, Fits r)
    (h : leverageMethod m.leverage = .ok lines) : Level lines := by
  obtain ⟨hfinite, rfl⟩ := leverageMethod_eq_ok.mp h
  cases hroutine : m.leverage with
  | none => exact rows_nil 0
  | some r =>
    have hwhole := hm.routine r hroutine
    have hr := hfits r hroutine
    obtain ⟨htail, hcomments⟩ := List.forall_mem_cons.mp (hm.comments r hroutine)
    simp only [hroutine, leverageNumbers, Option.bind_some, List.forall_mem_map,
      Value.hasLiteral_float] at hfinite
    have hbranches : Level (r.branches.flatMap branchLines) :=
      rows_flatMap fun b hb => branchLines_level (hwhole.branches b hb) (hr.branches b hb).1
        (hr.branches b hb).2 (hcomments _ (List.mem_map_of_mem hb))
    have htop : Level (leverageTop r) := by
      refine Rows.append (Rows.append ?_ (capTexts_level hfinite)) (candleLines_level hwhole hr)
      exact Rows.cons level_blank (Rows.cons (e := 1) (rows_literal (by decide))
        (Rows.cons (e := 1) (rows_literal (by decide)) (Rows.cons (e := 0)
          (rows_literal (by decide)) (rows_literal (by decide)))))
    have hending : Level ["", "        # " ++ r.tail.comment,
        "        return " ++ capped r.tail.value] :=
      level_blank.cons ((comment_level htail).cons
        (level_capped hwhole.tail hr.tail (by decide)))
    exact (htop.append hbranches).append hending

section Module

variable {m : StrategyModule} (hm : m.Sound)
  (hname : ∀ c ∈ m.className.toList, Script.isInert c = true)
  (hindicators : Level (m.indicatorLines.map indicatorLine))

include hm hname hindicators

/-- **The lines of a module open few brackets**, if its masks and the code of its leverage do. -/
theorem lines_level
    (hmasks : ∀ s ∈ m.entrySignals ++ m.exitSignals, s.mask.brackets < maxBrackets)
    (hfits : ∀ r ∈ m.leverage, Fits r) {lines : List String} (h : m.lines = .ok lines) :
    Level lines := by
  obtain ⟨attributes, method, hattributes, hmethod, rfl⟩ := lines_eq_ok_iff.mp h
  exact (((header_level hm hname).append (attributes_level hattributes)).append
    (tableMethods_level hm hindicators hmasks)).append (leverageMethod_level hm hfits hmethod)

/-- **The scanner does not get past a mask with too many brackets.** -/
theorem lines_halt
    (hmask : ∃ s ∈ m.entrySignals ++ m.exitSignals, maxBrackets ≤ s.mask.brackets)
    {lines : List String} (h : m.lines = .ok lines) : Halts lines := by
  obtain ⟨attributes, method, hattributes, hmethod, rfl⟩ := lines_eq_ok_iff.mp h
  have habove := (header_level hm hname).append (attributes_level hattributes)
  exact (habove.halts_append (tableMethods_halt hm hindicators hmask)).append _

end Module

end Stratagem.StrategyModule
