import Stratagem.Module.Render
import Stratagem.Proofs.Indicator.Lines
import Stratagem.Proofs.Module.Brackets

/-! Open brackets in the code of indicators. A type is level if the fixed texts of its lines close
the brackets that they open; this is checked for each type by running the check. Then the code of
an indicator leaves no bracket open, whatever its id and parameters, and never opens too many. -/

namespace Stratagem

open Scan StrategyModule
open Script (Position Opens)

/-! ## Texts that are cut into lines -/

namespace Scan

theorem Leads.of_append {d k e : Nat} {xs ys : List Char} (h : Leads d (xs ++ ys) e)
    (hxs : (Position.code d).after xs = .code k) : Leads k ys e := by
  obtain ⟨hafter, hmost⟩ := h
  rw [Position.after_append, hxs] at hafter
  rw [Position.most_append, hxs] at hmost
  exact ⟨hafter, (Nat.le_max_right _ _).trans hmost⟩

theorem Leads.of_inert {d e : Nat} {xs ys : List Char} (h : Leads d (xs ++ ys) e)
    (hxs : ∀ c ∈ xs, Script.isInert c = true) : Leads d ys e :=
  h.of_append (Script.opens_inert hxs d).after

/-- The lines of a text as they stand in a method: blank ones are left out, and the others are
indented. -/
def indented (lines : List String) : List String :=
  (lines.filter (! isBlankLine ·)).map indicatorLine

/-- A line that ends here, before the rest of its text. -/
theorem rows_indented_cons {line : String} {rest : List Char} {lines : List String} {d e : Nat}
    (hbland : bland line.toList = true) (h : Leads d (line.toList ++ rest) e)
    (hlines : ∀ k, Leads k rest e → Rows k (indented lines) (· = e)) :
    Rows d (indented (line :: lines)) (· = e) := by
  by_cases hblank : isBlankLine line = true
  · have hinert : ∀ c ∈ line.toList, Script.isInert c = true := fun c hc =>
      Script.isInert_of_kind (List.all_eq_true.mp hblank c hc) (by decide)
    have hskip : indented (line :: lines) = indented lines := by simp [indented, hblank]
    rw [hskip]
    exact hlines d (h.of_inert hinert)
  · have hkeep : indented (line :: lines) = [indicatorLine line] ++ indented lines := by
      simp [indented, hblank]
    have hindent : Opens d "        ".toList d d := Script.opens_inert (by decide) d
    have hafter : (Position.code d).after (indicatorLine line).toList =
        (Position.code d).after line.toList := by
      rw [indicatorLine, String.toList_append, Position.after_append, hindent.after]
    have hown : (Position.code d).most line.toList ≤ maxBrackets := by
      have hall := h.2
      rw [Position.most_append] at hall
      exact (Nat.le_max_left _ _).trans hall
    have hmost : (Position.code d).most (indicatorLine line).toList ≤ maxBrackets := by
      rw [indicatorLine, String.toList_append, Position.most_append, hindent.after, hindent.most]
      exact Nat.max_le.mpr ⟨(Position.depth_le_most (.code d) _).trans hown, hown⟩
    have hline : bland (indicatorLine line).toList = true := by
      rw [indicatorLine, String.toList_append]
      exact bland_append (by decide) hbland (.inl (by decide))
    rw [hkeep]
    refine (rows_bland hline hmost).bind fun k hk => hlines k (h.of_append ?_)
    rwa [hafter] at hk

/-- Lines that are cut from a text lead where the text does, wherever the cuts are. -/
theorem rows_linesFrom (line : List Char) (done : List String) (cs : List Char)
    (hbland : bland (line.reverse ++ cs) = true) :
    ∃ lines, Text.linesFrom line done cs = done.reverse ++ lines ∧
      ∀ d e, Leads d (line.reverse ++ cs) e → Rows d (indented lines) (· = e) := by
  have hnil (d e : Nat) (h : Leads d [] e) : Rows d (indented []) (· = e) := by
    obtain rfl : d = e := congrArg Position.depth h.1
    exact rows_nil d
  have hcut {line : List Char} (tail : List Char) {rest : List Char} {done : List String}
      (hbland : bland (line.reverse ++ (tail ++ rest)) = true)
      (htail : ∀ c ∈ tail, Script.isInert c = true)
      (ih : bland rest = true →
        ∃ lines, Text.linesFrom [] (String.ofList line.reverse :: done) rest =
            (String.ofList line.reverse :: done).reverse ++ lines ∧
          ∀ d e, Leads d rest e → Rows d (indented lines) (· = e)) :
      ∃ lines, Text.linesFrom [] (String.ofList line.reverse :: done) rest =
          done.reverse ++ lines ∧
        ∀ d e, Leads d (line.reverse ++ (tail ++ rest)) e → Rows d (indented lines) (· = e) := by
    obtain ⟨hline, hmore⟩ := bland_of_append hbland
    obtain ⟨lines, hlines, hrows⟩ := ih (bland_of_append hmore).2
    refine ⟨String.ofList line.reverse :: lines, by simpa using hlines, fun d e h => ?_⟩
    rw [← String.toList_ofList (l := line.reverse)] at hline h
    exact rows_indented_cons hline h fun k hk => hrows k e (hk.of_inert htail)
  fun_induction Text.linesFrom line done cs with
  | case1 line done =>
    rw [List.append_nil] at hbland
    cases line with
    | nil => exact ⟨[], by simp, hnil⟩
    | cons c line =>
      refine ⟨[String.ofList (c :: line).reverse], by simp, fun d e h => ?_⟩
      rw [← String.toList_ofList (l := (c :: line).reverse)] at hbland h
      exact rows_indented_cons hbland h fun k hk => hnil k e hk
  | case2 line done rest ih => exact hcut ['\r', '\n'] hbland (by decide) ih
  | case3 line done c rest _ hc ih =>
    refine hcut [c] hbland (List.forall_mem_singleton.mpr ?_) ih
    exact Script.isInert_of_kind hc (by decide)
  | case4 line done c rest _ _ ih =>
    simpa using ih (by simpa using hbland)

theorem level_lines {text : String} (hbland : bland text.toList = true)
    (h : Leads 0 text.toList 0) : Level (indented (Text.lines text)) := by
  obtain ⟨lines, hlines, hrows⟩ := rows_linesFrom [] [] text.toList hbland
  rw [Text.lines, hlines]
  exact hrows 0 0 h

end Scan

/-! ## Level types -/

/-- The open brackets behind a piece, if it opens and closes them within the limit. -/
def Piece.level (d : Nat) : Piece → Option Nat
  | .text s =>
    let e := ((Position.code d).after s.toList).depth
    if Leads d s.toList e then some e else none
  | _ => if d < maxBrackets then some d else none

/-- The value of the line closes what it opens. -/
def Line.isLevel : Line → Bool
  | .assign _ value => value.foldlM Piece.level 0 == some 0
  | .free _ => false

def IndicatorSpec.isLevel (spec : IndicatorSpec) : Bool := spec.snippet.all Line.isLevel

theorem Builtin.specs_isLevel : ∀ spec ∈ specs, spec.isLevel = true := by decide +kernel

/-! ## Pieces -/

/-- A quiet text between quotes, line feeds included. -/
theorem opens_quiet {cs : List Char} (h : ∀ c ∈ cs, isQuiet c = true) (d : Nat) :
    Opens d ('\x27' :: (cs ++ ['\x27'])) d d := by
  have hinside : ({ quote := some '\x27', depth := d } : Position).after cs =
        { quote := some '\x27', depth := d } ∧
      ({ quote := some '\x27', depth := d } : Position).most cs = d := by
    induction cs with
    | nil => exact ⟨rfl, rfl⟩
    | cons c rest ih =>
      obtain ⟨hc, hrest⟩ := List.forall_mem_cons.mp h
      obtain ⟨hafter, hmost⟩ := ih hrest
      have hnext : ({ quote := some '\x27', depth := d } : Position).next c =
          { quote := some '\x27', depth := d } := by
        simp only [isQuiet, isQuote, Bool.and_eq_true, bne_iff_ne, ne_eq, Bool.not_eq_true',
          Bool.or_eq_false_iff, decide_eq_false_iff_not] at hc
        simp [Position.next, hc]
      simp [Position.most, hnext, hafter, hmost]
  exact Script.opens_quoted (by decide) hinside.1 hinside.2

theorem leads_columnAccess {column : String} (h : ∀ c ∈ column.toList, isQuiet c = true) {d : Nat}
    (hd : d < maxBrackets) : Leads d (columnAccess column).toList d := by
  have hopening : Opens d "dataframe[".toList (d + 1) (d + 1) := by
    have hname : Opens d "dataframe".toList d d := Script.opens_inert (by decide) d
    have hbracket : Opens d ['['] (d + 1) (d + 1) := ⟨rfl, Nat.max_eq_right (Nat.le_succ d)⟩
    have hboth := hname.append hbracket
    rwa [Nat.max_eq_right (Nat.le_succ d)] at hboth
  have hclosing : Opens (d + 1) [']'] d (d + 1) := ⟨rfl, Nat.max_eq_left (Nat.le_succ d)⟩
  have hall := (hopening.append (opens_quiet h (d + 1))).append hclosing
  rw [Nat.max_self, Nat.max_self] at hall
  have hsplit : (columnAccess column).toList =
      "dataframe[".toList ++ ('\x27' :: (column.toList ++ ['\x27'])) ++ [']'] := by
    simp [columnAccess, tableName]
  rw [hsplit]
  exact leads_of_opens hall hd

theorem inert_helperName {id suffix : String} (hid : isIndicatorId id = true)
    (hsuffix : suffix ∈ helperSuffixes) :
    ∀ c ∈ (helperName id suffix).toList, Script.isInert c = true := by
  have hall : ∀ s ∈ helperSuffixes, ∀ c ∈ s.toList, Script.isInert c = true := by decide
  rw [helperName, String.toList_append, String.toList_append]
  simp only [List.forall_mem_append]
  refine ⟨⟨fun c hc => ?_, by decide⟩, hall suffix hsuffix⟩
  rcases (mem_indicatorId hid).2 c hc with hname | rfl
  · exact Script.isInert_of_wordChar (Script.wordChar_of_nameChar hname)
  · decide

/-- A number opens nothing. -/
theorem leads_of_spells {s : Scalar} (h : Script.Spells false s.toValue.plain s.tokens) {d : Nat}
    (hd : d ≤ maxBrackets) : Leads d s.toValue.plain.toList d :=
  leads_of_opens (s.tokens_balanced.opens h.alone d) hd

variable {i : BoundIndicator}

theorem Piece.render_leads (hi : i.Sound) {piece : Piece} (hpiece : piece.isSound i.spec = true)
    {d e : Nat} (hlevel : piece.level d = some e) {text : String}
    (h : piece.render i.id i.params = .ok text) : Leads d text.toList e := by
  -- what is no fixed text closes its own brackets
  have hplace (hne : ∀ s, piece ≠ .text s) (hstays : d < maxBrackets → Leads d text.toList d) :
      Leads d text.toList e := by
    rw [Piece.level] at hlevel
    · simp only [Option.ite_none_right_eq_some, Option.some.injEq] at hlevel
      obtain ⟨hd, rfl⟩ := hlevel
      exact hstays hd
    · exact hne
  cases Piece.renders_of_render hi hpiece h with
  | text s =>
    simp only [Piece.level, Option.ite_none_right_eq_some, Option.some.injEq] at hlevel
    obtain ⟨hleads, rfl⟩ := hlevel
    exact hleads
  | output houtput =>
    exact hplace nofun (leads_columnAccess (quiet_columnName hi.id (hi.outputs houtput)).2)
  | market hname | source _ hname => exact hplace nofun (leads_columnAccess (quiet_market hname).2)
  | helper hsuffix =>
    exact hplace nofun fun hd => leads_inert (inert_helperName hi.id hsuffix) hd.le
  | number hkind _ hfits htext =>
    have hspells := (ParamSpec.number_of_fits hfits htext).2.1
    refine hplace ?_ fun hd => leads_of_spells hspells hd.le
    rcases hkind with rfl | rfl <;> nofun

theorem leads_pieces (hi : i.Sound) {value : List Piece} {parts : List String}
    (hvalue : ∀ p ∈ value, p.isSound i.spec = true) {d e : Nat} (hd : d ≤ maxBrackets)
    (hlevel : value.foldlM Piece.level d = some e)
    (h : List.Forall₂ (fun p part => Piece.render i.id i.params p = .ok part) value parts) :
    Leads d (String.join parts).toList e := by
  induction h generalizing d with
  | nil =>
    cases hlevel
    exact ⟨rfl, hd⟩
  | @cons p part value parts hpart _ ih =>
    obtain ⟨hp, hrest⟩ := List.forall_mem_cons.mp hvalue
    rw [List.foldlM_cons] at hlevel
    obtain ⟨k, hk, hmore⟩ := Option.bind_eq_some_iff.mp hlevel
    rw [String.join_cons, String.toList_append]
    have hfirst := Piece.render_leads hi hp hk hpart
    exact hfirst.append (ih hrest hfirst.end_le hmore)

theorem Line.render_leads (hi : i.Sound) {line : Line} (hline : line.isSound i.spec = true)
    (hlevel : line.isLevel = true) {text : String} (h : line.render i.id i.params = .ok text) :
    Leads 0 text.toList 0 := by
  obtain ⟨target, value, parts, rfl, htarget, hvalue, hparts, rfl⟩ := Line.render_eq_ok hline h
  have htarget : Leads 0 (target.render i.id).toList 0 := by
    cases target with
    | column output =>
      have houtput : output ∈ i.spec.outputs := by simpa [Target.isSound] using htarget
      exact leads_columnAccess (quiet_columnName hi.id (hi.outputs houtput)).2 (by decide)
    | helper suffix =>
      have hsuffix : suffix ∈ helperSuffixes := by simpa [Target.isSound] using htarget
      exact leads_inert (inert_helperName hi.id hsuffix) (by decide)
  have hequals : Leads 0 " = ".toList 0 := leads_inert (by decide) (by decide)
  rw [String.toList_append, String.toList_append]
  exact (htarget.append hequals).append
    (leads_pieces hi hvalue (Nat.zero_le _) (by simpa [isLevel] using hlevel) hparts)

theorem leads_intercalate {texts : List String} (h : ∀ text ∈ texts, Leads 0 text.toList 0) :
    Leads 0 ("\n".intercalate texts).toList 0 :=
  of_intercalate (P := fun cs => Leads 0 cs 0) ⟨rfl, by decide⟩
    (leads_inert (by decide) (by decide)) (fun _ _ => Leads.append) h

/-- **The code of a level indicator leaves no bracket open**, or it leaves a text open. -/
theorem BoundIndicator.Sound.code_level (hi : i.Sound) (hspec : i.spec.isLevel = true)
    {lines : List String} (h : i.code = .ok lines) : Level (lines.map indicatorLine) := by
  obtain ⟨texts, htexts, rfl⟩ := i.code_eq_ok h
  have hsound := hi.spec
  simp only [IndicatorSpec.isSound, Bool.and_eq_true, List.all_eq_true] at hsound
  have hall : ∀ text ∈ texts, Framed text.toList ∧ Leads 0 text.toList 0 := by
    intro text htext
    obtain ⟨line, hline, hrender⟩ := exists_of_forall₂ htexts.flip htext
    exact ⟨Line.render_framed hi (hsound.2 line hline) hrender,
      Line.render_leads hi (hsound.2 line hline) (List.all_eq_true.mp hspec line hline) hrender⟩
  have hbland := (framed_intercalate fun text htext => (hall text htext).1).bland
  exact level_lines hbland (leads_intercalate fun text htext => (hall text htext).2)

end Stratagem
