import Stratagem.Proofs.Indicator.Lines
import Stratagem.Proofs.Module.Literals

/-! The header of a module, and what is below it. Imports start at the margin; every line below the
class is empty or behind a space, and so is none of them an import. -/

namespace Stratagem

open Text

/-! ## Indented lines -/

/-- The line starts with a space. -/
def Inset (line : String) : Prop := line.toList.head? = some ' '

theorem inset_literal (cs : List Char) : Inset (String.ofList (' ' :: cs)) := by
  rw [Inset, String.toList_ofList]
  rfl

theorem Inset.append {before rest : String} (h : Inset before) : Inset (before ++ rest) := by
  rw [Inset, String.toList_append, List.head?_append, h]
  rfl

/-- A line that starts with a fixed text. -/
theorem Inset.behind {cs : List Char} {rest : String} : Inset (String.ofList (' ' :: cs) ++ rest) :=
  (inset_literal cs).append

/-- The line is empty or starts with a space. -/
def Indented (line : String) : Prop := line = "" ∨ Inset line

theorem indented_literal (cs : List Char) : Indented (String.ofList (' ' :: cs)) :=
  .inr (inset_literal cs)

namespace StrategyModule

/-! ## The header -/

/-- The lines above the class. -/
def importBlock (zoneinfo talib qtpylib : Bool) : List String :=
  ["# Generated by strategy-compiler from a strategy builder document.",
   "# Changes made here are lost when the strategy is regenerated.",
   "from datetime import datetime",
   "from typing import Optional"] ++
  onlyIf zoneinfo ["from zoneinfo import ZoneInfo"] ++
  ["", "import numpy as np", "import pandas as pd"] ++
  onlyIf talib ["import talib.abstract as ta"] ++
  ["from pandas import DataFrame"] ++
  onlyIf qtpylib ["from technical import qtpylib"] ++
  ["", "from freqtrade.strategy import IStrategy", "", ""]

theorem header_eq (m : StrategyModule) :
    m.header = importBlock m.usesZoneinfo m.usesTalib m.usesQtpylib ++
      (["class " ++ m.className ++ "(IStrategy):"] ++ ["    INTERFACE_VERSION = 3", ""]) := by
  simp only [header, importBlock, List.append_assoc, List.cons_append, List.nil_append]

theorem mem_importBlock (zoneinfo talib qtpylib : Bool) :
    ("from zoneinfo import ZoneInfo" ∈ importBlock zoneinfo talib qtpylib ↔ zoneinfo = true) ∧
    ("import talib.abstract as ta" ∈ importBlock zoneinfo talib qtpylib ↔ talib = true) ∧
    ("from technical import qtpylib" ∈ importBlock zoneinfo talib qtpylib ↔ qtpylib = true) ∧
    "import numpy as np" ∈ importBlock zoneinfo talib qtpylib ∧
    "import pandas as pd" ∈ importBlock zoneinfo talib qtpylib := by
  revert zoneinfo talib qtpylib
  decide

theorem importBlock_printable (zoneinfo talib qtpylib : Bool) :
    ∀ line ∈ importBlock zoneinfo talib qtpylib, Printable line := by
  have hoptional {cs : List Char} (h : (cs.all fun c => 32 ≤ c.toNat && c.toNat < 127) = true)
      (b : Bool) : ∀ line ∈ onlyIf b [String.ofList cs], Printable line :=
    forall_onlyIf (List.forall_mem_singleton.mpr (printable_literal h))
  simp only [importBlock, List.cons_append, List.nil_append, List.append_assoc,
    List.forall_mem_cons, List.forall_mem_append]
  exact ⟨printable_literal (by decide), printable_literal (by decide),
    printable_literal (by decide), printable_literal (by decide), hoptional (by decide) _,
    printable_literal (by decide), printable_literal (by decide), printable_literal (by decide),
    hoptional (by decide) _, printable_literal (by decide), hoptional (by decide) _,
    printable_literal (by decide), printable_literal (by decide), printable_literal (by decide),
    printable_literal (by decide), nofun⟩

theorem lines_classLine_word {name : String} (h : ∀ c ∈ name.toList, Script.nameChar c = true) :
    Text.lines ("class " ++ name ++ "(IStrategy):" ++ "\n") =
      ["class " ++ name ++ "(IStrategy):"] := by
  have hname : ∀ c ∈ name.toList, Script.isInline c = true :=
    fun c hc => Script.isInline_of_wordChar (Script.wordChar_of_nameChar (h c hc))
  refine lines_inline_feed ?_
  simp only [String.toList_append, List.forall_mem_append]
  exact ⟨⟨by decide, hname⟩, by decide⟩

/-- A line feed at the end of the name ends the line there. -/
theorem lines_classLine_feed {word : String} (h : ∀ c ∈ word.toList, Script.nameChar c = true) :
    Text.lines ("class " ++ (word ++ "\n") ++ "(IStrategy):" ++ "\n") =
      ["class " ++ word, "(IStrategy):"] := by
  have hword : ∀ c ∈ word.toList, Script.isInline c = true :=
    fun c hc => Script.isInline_of_wordChar (Script.wordChar_of_nameChar (h c hc))
  have hsplit : "class " ++ (word ++ "\n") ++ "(IStrategy):" ++ "\n" =
      "class " ++ word ++ "\n" ++ ("(IStrategy):" ++ "\n") := by
    simp only [String.append_assoc]
  rw [hsplit, lines_feed, lines_inline_feed, lines_inline_feed (by decide)]
  · rfl
  · rw [String.toList_append, List.forall_mem_append]
    exact ⟨by decide, hword⟩

/-- The head of the class, which goes on in a second line if the name ends in a line feed. -/
theorem lines_classLine {className : String}
    (h : ∀ c ∈ chomp className.toList, Script.nameChar c = true) :
    ∀ line ∈ Text.lines ("class " ++ className ++ "(IStrategy):" ++ "\n"),
      line.toList.head? = some 'c' ∨ line.toList.head? = some '(' := by
  have hstart (rest : String) : ("class " ++ rest).toList.head? = some 'c' := by
    rw [String.toList_append, List.head?_append]
    rfl
  rcases chomp_cases className.toList with hclass | hclass
  · rw [← hclass] at h
    rw [lines_classLine_word h, List.forall_mem_singleton, String.append_assoc]
    exact .inl (hstart _)
  · obtain ⟨word, hword⟩ : ∃ word : String, word.toList = chomp className.toList :=
      ⟨String.ofList _, String.toList_ofList⟩
    rw [← hword] at h hclass
    obtain rfl : className = word ++ "\n" := String.toList_inj.mp (by simpa using hclass)
    rw [lines_classLine_feed h, List.forall_mem_cons, List.forall_mem_singleton]
    exact ⟨.inl (hstart _), .inr (by decide)⟩

/-! ## Below the header -/

theorem attributeTexts_printable (m : StrategyModule) :
    ∀ line ∈ m.attributeTexts, Printable line := by
  have hbool (b : Bool) : Printable (boolText b) := by
    cases b <;> exact printable_literal (by decide)
  have hoptional {name : String} (hname : Printable name) (x : Option Binary64) :
      ∀ line ∈ optionalText name x, Printable line :=
    List.forall_mem_map.mpr fun x _ =>
      .append (.append (hname.behind (by decide)) (printable_literal (by decide)))
        (printable_float x)
  have hentries : ∀ line ∈ m.minimalRoi.map roiText, Printable line :=
    List.forall_mem_map.mpr fun entry _ =>
      .enclosed (.append ((printable_quoted entry.1).behind (by decide))
        (printable_literal (by decide))) (printable_float entry.2) (printable_literal (by decide))
  simp only [attributeTexts, roiTable, List.cons_append, List.forall_mem_cons,
    List.forall_mem_append, List.nil_append, List.append_assoc]
  exact ⟨(printable_quoted _).behind (by decide), (hbool _).behind (by decide),
    printable_literal (by decide), (printable_float _).behind (by decide),
    printable_literal (by decide), hentries, printable_literal (by decide),
    printable_literal (by decide), (hbool _).behind (by decide),
    hoptional (printable_literal (by decide)) _, hoptional (printable_literal (by decide)) _,
    forall_onlyIf (List.forall_mem_singleton.mpr (printable_literal (by decide))),
    printable_literal (by decide), (hbool _).behind (by decide),
    (printable_intText _).behind (by decide), printable_literal (by decide),
    List.forall_mem_nil _⟩

theorem attributeTexts_indented (m : StrategyModule) :
    ∀ line ∈ m.attributeTexts, Indented line := by
  have hentries : ∀ line ∈ m.minimalRoi.map roiText, Indented line :=
    List.forall_mem_map.mpr fun _ _ => .inr (.append (.append (.append .behind)))
  have hoptional (name : String) (x : Option Binary64) :
      ∀ line ∈ optionalText name x, Indented line :=
    List.forall_mem_map.mpr fun _ _ => .inr (.append (.append .behind))
  simp only [attributeTexts, roiTable, List.cons_append, List.forall_mem_cons,
    List.forall_mem_append, List.nil_append, List.append_assoc]
  exact ⟨.inr .behind, .inr .behind, .inl rfl, .inr .behind, indented_literal _,
    hentries, indented_literal _, .inl rfl, .inr .behind, hoptional _ _, hoptional _ _,
    forall_onlyIf (List.forall_mem_singleton.mpr (indented_literal _)), .inl rfl, .inr .behind,
    .inr .behind, .inl rfl, List.forall_mem_nil _⟩

theorem tableMethod_indented {name : String} {body : List String}
    (hbody : ∀ line ∈ body, Indented line) : ∀ line ∈ tableMethod name body, Indented line := by
  simp only [tableMethod, List.forall_mem_append, List.forall_mem_singleton]
  exact ⟨⟨.inr (.append .behind), hbody⟩, indented_literal _⟩

theorem signalLine_indented (s : SignalLine) : Indented (signalLine s) :=
  .inr (.append (.append (.append .behind)))

theorem candleLines_indented (r : Routine) : ∀ line ∈ candleLines r, Indented line := by
  refine forall_onlyIf (List.forall_mem_append.mpr ⟨?_, forall_onlyIf ?_⟩)
  · simp only [List.forall_mem_cons]
    exact ⟨indented_literal _, .inr (.append .behind), .inr .behind, indented_literal _, nofun⟩
  · exact List.forall_mem_singleton.mpr (indented_literal _)

theorem branchLines_indented (b : Branch) : ∀ line ∈ branchLines b, Indented line := by
  simp only [branchLines, List.forall_mem_cons]
  exact ⟨.inl rfl, .inr .behind, .inr (.append .behind), .inr .behind, List.forall_mem_nil _⟩

theorem leverageMethod_indented {routine? : Option Routine} {lines : List String}
    (h : leverageMethod routine? = .ok lines) : ∀ line ∈ lines, Indented line := by
  obtain ⟨-, rfl⟩ := leverageMethod_eq_ok.mp h
  cases routine? with
  | none => nofun
  | some r =>
    have hcapped : ∀ line ∈ capTexts r.cap, Indented line :=
      List.forall_mem_map.mpr fun _ _ => .inr (.append .behind)
    have hbranches : ∀ line ∈ r.branches.flatMap branchLines, Indented line := by
      intro line hline
      obtain ⟨b, -, hline⟩ := List.mem_flatMap.mp hline
      exact branchLines_indented b line hline
    simp only [leverageTexts, leverageTop, List.forall_mem_append, List.forall_mem_cons]
    exact ⟨⟨⟨⟨⟨.inl rfl, indented_literal _, indented_literal _, indented_literal _,
      indented_literal _, nofun⟩, hcapped⟩, candleLines_indented r⟩, hbranches⟩, .inl rfl,
      .inr .behind, .inr .behind, nofun⟩

end StrategyModule

end Stratagem
