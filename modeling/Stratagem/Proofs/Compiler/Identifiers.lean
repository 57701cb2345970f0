import Stratagem.Proofs.Compiler.Imports
import Stratagem.Proofs.Compiler.References
import Stratagem.Proofs.Indicator.Collisions

/-! Names from outside in the lines of a module. Class names and ids are words, and a line feed may
end them. Without it the class name is an identifier of the head of the class, and an id stands in
identifiers and texts of the lines of its indicator and nowhere else. With it the head or a line of
the indicator is torn in two, and the check of the text, if it is made, finds that. -/

namespace Stratagem

open Script StrategyModule

/-! ## Class names -/

/-- The pattern of class names: a capital, letters and digits, and then the end, or a line feed that
is the end. -/
def ClassPattern (name : String) : Prop :=
  ∃ (c : Char) (word tail : List Char), name.toList = c :: word ++ tail ∧ ('A' ≤ c ∧ c ≤ 'Z') ∧
    (∀ d ∈ word, 'A' ≤ d ∧ d ≤ 'Z' ∨ 'a' ≤ d ∧ d ≤ 'z' ∨ '0' ≤ d ∧ d ≤ '9') ∧
    (tail = [] ∨ tail = ['\n'])

theorem isClassWord_iff (cs : List Char) : isClassWord cs = true ↔
    ∃ c word, cs = c :: word ∧ ('A' ≤ c ∧ c ≤ 'Z') ∧
      ∀ d ∈ word, 'A' ≤ d ∧ d ≤ 'Z' ∨ 'a' ≤ d ∧ d ≤ 'z' ∨ '0' ≤ d ∧ d ≤ '9' := by
  cases cs with
  | nil => simp [isClassWord]
  | cons c word =>
    simp only [isClassWord, Bool.and_eq_true, List.all_eq_true, Text.isAlphanum_iff,
      Text.isAlpha_iff, Text.isUpper_iff, Text.isLower_iff, Text.isDigit_iff, or_assoc]
    constructor
    · exact fun h => ⟨c, word, rfl, h⟩
    · rintro ⟨_, _, ⟨rfl, rfl⟩, h⟩
      exact h

theorem classPattern_iff (name : String) :
    isClassWord (Text.chomp name.toList) = true ↔ ClassPattern name := by
  have hfeed : ∀ word, isClassWord word = true → '\n' ∉ word := fun word hword hmem =>
    absurd (nameChar_of_isClassWord hword _ hmem) (by decide)
  rw [chomp_iff (P := fun word => isClassWord word = true) hfeed]
  simp only [isClassWord_iff]
  constructor
  · rintro ⟨_, tail, hname, ⟨c, word, rfl, hc, hall⟩, htail⟩
    exact ⟨c, word, tail, hname, hc, hall, htail⟩
  · rintro ⟨c, word, tail, hname, hc, hall, htail⟩
    exact ⟨_, tail, hname, ⟨c, word, rfl, hc, hall⟩, htail⟩

/-- The words of the language that are no names. -/
def languageWords : List String := keywords ++ ["False", "None", "True"]

/-- The name that a line of the header brings in: the last word of an import. -/
def importedName? (line : String) : Option String :=
  match (Text.splitWhere (· = ' ') line.toList).map String.ofList with
  | "import" :: rest | "from" :: rest => rest.getLast?
  | _ => none

/-- All names that a module may import. -/
def importedNames : List String := (importBlock true true true).filterMap importedName?

theorem importedNames_eq : importedNames = ["datetime", "Optional", "ZoneInfo", "np", "pd", "ta",
    "DataFrame", "qtpylib", "IStrategy"] := by
  decide +kernel

/-- What is reserved is what could be a class name and is taken. -/
theorem mem_reservedNames_iff {name : String} (h : ClassPattern name) :
    name ∈ reservedNames ↔ name ∈ languageWords ∨ name ∈ importedNames := by
  have htaken : ∀ w ∈ reservedNames, w ∈ languageWords ∨ w ∈ importedNames := by
    rw [importedNames_eq]
    decide
  have hreserved : ∀ w ∈ languageWords ++ importedNames,
      w.toList.head?.any Char.isUpper = true → w ∈ reservedNames := by
    rw [importedNames_eq]
    decide
  refine ⟨htaken name, fun hname => hreserved name (List.mem_append.mpr hname) ?_⟩
  obtain ⟨c, word, tail, hlist, hc, -⟩ := h
  rw [hlist]
  simpa [Text.isUpper_iff] using hc

/-- **Which class names are accepted.** -/
theorem checkClassName_eq_ok_iff (limit : Int) (name : String) :
    checkClassName limit name = .ok () ↔ 1 ≤ name.length ∧ name.length ≤ limit ∧
      ClassPattern name ∧ name ∉ languageWords ∧ name ∉ importedNames := by
  unfold checkClassName
  by_cases hempty : name.isEmpty = true
  · have hzero : name.length = 0 := by simpa using hempty
    simp [hempty, hzero]
  · have hpos : 1 ≤ name.length := by
      rw [Nat.one_le_iff_ne_zero]
      simpa using hempty
    rw [if_neg hempty]
    by_cases hlong : limit < name.length
    · simp [hlong]
    · rw [if_neg hlong]
      by_cases hword : isClassWord (Text.chomp name.toList) = true
      · have hpattern := (classPattern_iff name).mp hword
        have hfree := not_congr (mem_reservedNames_iff hpattern)
        rw [not_or] at hfree
        simp [hword, hpos, hpattern, ← hfree, not_lt.mp hlong]
      · have hpattern := mt (classPattern_iff name).mpr hword
        simp [hword, hpattern]

/-! ## Tokens of a line -/

namespace Script

/-- A place among the tokens of a line: a fixed token, or one that an id is put into. -/
inductive Slot where
  | fixed (t : Token)
  | id
  | helper (suffix : String)
  | column (output : String)

/-- The token that stands there under an id: an identifier, or a text. -/
def Slot.token (id : String) : Slot → Token
  | .fixed t => t
  | .id => .name id
  | .helper suffix => .name (helperName id suffix)
  | .column output => .text (columnName id output)

/-- A column of the table. -/
def accessSlots (column : Slot) : List Slot :=
  [.fixed (.name tableName), .fixed (.symbol "["), column, .fixed (.symbol "]")]

theorem map_accessSlots (id : String) (column : Slot) {c : String}
    (h : column.token id = .text c) :
    (accessSlots column).map (Slot.token id) = Code.subscriptTokens tableName c := by
  simp only [accessSlots, List.map_cons, List.map_nil, h]
  rfl

/-- The tokens that a place is written in. -/
def Place.tokens : Place → List Token
  | .column c => Code.subscriptTokens tableName c
  | .name s => [.name s]

theorem lex_of_assigns {line : String} {place : Place} {value : List Token}
    (h : assigns line = some (place, value)) :
    lex line.toList = some (place.tokens ++ .symbol "=" :: value) := by
  obtain ⟨ts, hts, hassigns⟩ := Option.bind_eq_some_iff.mp h
  rw [hts]
  unfold assignmentOf at hassigns
  split at hassigns
  · cases hassigns
    rfl
  · cases hassigns
    rfl
  · cases hassigns

end Script

/-- The places of a piece, whatever the id is. -/
def Piece.slots (params : Params) : Piece → List Slot
  | .text s => ((lex s.toList).getD []).map .fixed
  | .id => [.id]
  | .column output => accessSlots (.column output)
  | .market name => accessSlots (.fixed (.text name))
  | .helper suffix => [.helper suffix]
  | .param name | .literal name => (((params.lookup name).map Scalar.tokens).getD []).map .fixed
  | .paramColumn name => match params.lookup name with
    | some (.text w) => accessSlots (.fixed (.text w))
    | _ => []

theorem Piece.map_slots (i : BoundIndicator) (p : Piece) :
    (p.slots i.params).map (Slot.token i.id) = p.tokens i := by
  have hfixed (ts : List Token) : (ts.map Slot.fixed).map (Slot.token i.id) = ts := by
    simp [Function.comp_def, Slot.token]
  cases p with
  | text s => exact hfixed _
  | id => rfl
  | column output => exact map_accessSlots _ _ rfl
  | market name => exact map_accessSlots _ _ rfl
  | helper suffix => rfl
  | param name => exact hfixed _
  | literal name => exact hfixed _
  | paramColumn name =>
    cases hs : i.params.lookup name with
    | none => simp [slots, tokens, hs]
    | some s =>
      cases s with
      | text w =>
        simp only [slots, tokens, hs]
        exact map_accessSlots _ _ rfl
      | _ => simp [slots, tokens, hs]

def Target.slots : Target → List Slot
  | .column output => accessSlots (.column output)
  | .helper suffix => [.helper suffix]

/-- The places of a line, whatever the id is. -/
def Line.slots (params : Params) : Line → List Slot
  | .assign target value =>
    target.slots ++ .fixed (.symbol "=") :: (Piece.merged value).flatMap (Piece.slots params)
  | .free pieces => (Piece.merged pieces).flatMap (Piece.slots params)

/-- **A line that is written has its id in its places and nowhere else.** -/
theorem BoundIndicator.Writes.lex_eq {i : BoundIndicator} {line : Line} {text : String}
    (h : i.Writes line text) :
    lex text.toList = some ((line.slots i.params).map (Slot.token i.id)) := by
  obtain ⟨target, value, rfl, -, hassigns⟩ := h
  have htarget : target.slots.map (Slot.token i.id) = (target.place i.id).tokens := by
    cases target with
    | column output => exact map_accessSlots _ _ rfl
    | helper suffix => rfl
  rw [lex_of_assigns hassigns, Line.slots, List.map_append, List.map_cons, List.map_flatMap,
    htarget, List.flatMap_congr fun p _ => Piece.map_slots i p]
  rfl

/-! ## Lines of the module -/

/-- The head of a class up to the colon. -/
def classHead (name : String) : String := "class " ++ name ++ "(IStrategy)"

/-- A name in the head of a class. -/
structure Heads (name : String) (lines : List String) : Prop where
  line : classHead name ++ ":" ∈ lines
  tokens : lex (classHead name).toList =
    some [.name "class", .name name, .symbol "(", .name "IStrategy", .symbol ")"]

/-- The code of an indicator among some lines, with the id in its places. -/
def BoundIndicator.StandsIn (i : BoundIndicator) (lines : List String) : Prop :=
  ∃ block, i.code = .ok block ∧ block.map indicatorLine <:+: lines ∧
    List.Forall₂ (fun line text =>
      lex text.toList = some ((line.slots i.params).map (Slot.token i.id))) i.spec.snippet block

/-- How names stand in the lines of a text. -/
structure Holds (name : String) (indicators : List BoundIndicator) (lines : List String) :
    Prop where
  head : '\n' ∉ name.toList → Heads name lines
  tornHead : ∀ word, name = word ++ "\n" → ["class " ++ word, "(IStrategy):"] <:+: lines
  ids : ∀ i ∈ indicators, '\n' ∉ i.id.toList → i.StandsIn lines
  tornIds : ∀ i ∈ indicators, ∀ word, i.id = word ++ "\n" →
    indicatorLine (openAccess word) ∈ lines ∧ lex (indicatorLine (openAccess word)).toList = none

theorem isName_of_isClassWord {cs : List Char} (h : isClassWord cs = true) : isName cs = true := by
  have hchars := nameChar_of_isClassWord h
  cases cs with
  | nil => cases h
  | cons c word =>
    have hc : c.isUpper = true := (Bool.and_eq_true_iff.mp h).1
    simp only [isName, List.head?_cons, Option.any_some, nameStart, Text.isAlpha_of_isUpper hc,
      Bool.true_or, Bool.true_and, List.all_eq_true]
    exact hchars

theorem lex_classHead {name : String} (h : isName name.toList = true) :
    lex (classHead name).toList =
      some [.name "class", .name name, .symbol "(", .name "IStrategy", .symbol ")"] := by
  have hsplit : (classHead name).toList =
      "class".toList ++ ' ' :: (name.toList ++ '(' :: ("IStrategy".toList ++ [')'])) := by
    simp [classHead]
  rw [hsplit, lex_word (by decide) (by rfl), lex_blank, lex_word_mark h (by decide),
    lex_word (by decide) (by rfl), lex_solo ')' (by decide), lex_nil]
  rfl

/-- A text that is not closed has no tokens. -/
theorem lex_openAccess {word : String} (h : ∀ c ∈ word.toList, nameChar c = true) :
    lex (indicatorLine (openAccess word)).toList = none := by
  have hsplit : (indicatorLine (openAccess word)).toList =
      ' ' :: ' ' :: ' ' :: ' ' :: ' ' :: ' ' :: ' ' :: ' ' ::
        (tableName.toList ++ '[' :: Text.singleQuote :: word.toList) := by
    simp [indicatorLine, openAccess]
    rfl
  have hopen : textToken Text.singleQuote word.toList = none := by
    rw [Option.eq_none_iff_forall_ne_some]
    rintro ⟨t, rest⟩ htoken
    obtain ⟨inside, _, -, hword, -⟩ := textToken_takes (by decide) htoken
    exact absurd (h Text.singleQuote (by simp [hword])) (by decide)
  have htext : lex (Text.singleQuote :: word.toList) = none := by
    have htoken : token (Text.singleQuote :: word.toList) = none := by
      rw [token, if_neg (by decide), if_neg (by decide), if_pos (by decide), hopen]
    rw [lex.eq_def]
    split
    · next hnil => cases hnil
    · next hblank => exact absurd (List.cons.inj hblank).1 (by decide)
    · rw [htoken]
  rw [hsplit]
  simp only [lex_blank]
  rw [lex_word_mark (by decide) (by decide), htext]
  rfl

namespace OutputCheck

theorem name_of_classHead? {text : List Char} {head : ClassHead} (h : classHead? text = some head) :
    ∀ c ∈ head.name.toList, isNameChar c = true := by
  have hname : head.name = String.ofList (text.takeWhile isNameChar) := by
    simp only [classHead?] at h
    split at h
    · rw [← Option.some.inj h]
    · cases h
  rw [hname, String.toList_ofList]
  exact fun c hc => List.mem_takeWhile_imp hc

theorem names_of_classes {lines : List Scan.LogicalLine} {blocks : List ClassBlock}
    (h : classes lines = .ok blocks) :
    ∀ b ∈ blocks, ∀ c ∈ b.head.name.toList, isNameChar c = true := by
  induction lines generalizing blocks with
  | nil =>
    cases h
    nofun
  | cons line rest ih =>
    simp only [classes] at h
    split at h
    · exact ih h
    · split at h
      · cases h
      · next head hhead =>
        obtain ⟨others, hothers, hblocks⟩ := exists_of_bind_ok h
        cases hblocks
        exact List.forall_mem_cons.mpr ⟨name_of_classHead? hhead, ih hothers⟩

/-- The check knows a class by a name of name characters. -/
theorem nameChar_of_problems {code name : String} (h : problems code (some name) = []) :
    ∀ c ∈ name.toList, isNameChar c = true := by
  unfold problems at h
  split at h
  · cases h
  · split at h
    · cases h
    · next blocks hblocks =>
      split at h
      · next b hone =>
        have hmem : b ∈ blocks := (List.mem_filter.mp (hone ▸ List.mem_singleton_self b)).1
        have hname : b.head.name = name := by
          by_contra hother
          simp [blockProblems, hother] at h
        rw [← hname]
        exact names_of_classes hblocks b hmem
      · cases h

end OutputCheck

theorem indicatorLines_within (m : StrategyModule) :
    m.indicatorLines.map indicatorLine <:+: m.tableMethods :=
  ⟨_, _, by simp only [tableMethods, tableMethod, List.append_assoc]; rfl⟩

theorem isName_of_no_feed {id : String} (hid : isIndicatorId id = true) (h : '\n' ∉ id.toList) :
    isName id.toList = true := by
  rw [isIndicatorId, chomp_of_no_feed h] at hid
  exact isName_of_isIdWord hid

/-- The lines of an indicator stand together among those of a binding. -/
theorem Binding.exists_block {b : Binding} {lines : List String} (h : b.code = .ok lines)
    {i : BoundIndicator} (hi : i ∈ b.indicators) :
    ∃ block, i.code = .ok block ∧ block <:+: lines := by
  obtain ⟨blocks, hfst, hblocks, hflat⟩ := Binding.code_eq_ok h
  rw [← hfst] at hi
  obtain ⟨e, he, rfl⟩ := List.mem_map.mp hi
  refine ⟨e.2, hblocks e he, ?_⟩
  rw [hflat, List.flatMap_def]
  exact List.infix_of_mem_flatten (List.mem_map_of_mem he)

/-- A class name without a line feed stands in the head of the class. -/
theorem heads_of_classLine {name : String} {lines : List String}
    (hname : isClassWord (Text.chomp name.toList) = true) (hfeed : '\n' ∉ name.toList)
    (h : Text.lines ("class " ++ name ++ "(IStrategy):" ++ "\n") <:+: lines) :
    Heads name lines := by
  rw [chomp_of_no_feed hfeed] at hname
  rw [lines_classLine_word (nameChar_of_isClassWord hname)] at h
  have hline : classHead name ++ ":" = "class " ++ name ++ "(IStrategy):" := by
    simp only [classHead, String.append_assoc]
    rfl
  exact ⟨h.subset (by simp [hline]), lex_classHead (isName_of_isClassWord hname)⟩

/-- **Names stand in the lines of a module as they are, or tear a line.** -/
theorem compileDocument_holds {settings : Settings} {className : String} {d : Document}
    {g : Generated} (hname : isClassWord (Text.chomp className.toList) = true)
    (h : compileDocument settings .builtin className d = .ok g) :
    ∃ p, plan settings .builtin d = .ok p ∧
      Holds className p.binding.indicators (Text.lines g.code) ∧
      (settings.output.validateSyntax = true →
        '\n' ∉ className.toList ∧ ∀ i ∈ p.binding.indicators, '\n' ∉ i.id.toList) := by
  obtain ⟨p, m, method, hplan, hassemble, hmethod, hlines, hcode, hcheck⟩ := compileDocument_text h
  obtain ⟨hbind, -⟩ := plan_eq_ok hplan
  obtain ⟨hindicators, hclass, -⟩ := assemble_eq_ok hassemble
  have hbody := compiled_body hplan hassemble hmethod
  have htext := hcode ▸ lines_header fun line hline => (hbody line hline).1
  rw [hclass] at htext
  have hhead : Text.lines ("class " ++ className ++ "(IStrategy):" ++ "\n") <:+:
      Text.lines g.code := by
    rw [htext]
    exact ⟨_, _, List.append_assoc _ _ _⟩
  have htable : m.indicatorLines.map indicatorLine <:+: Text.lines g.code := by
    have hmethods : m.tableMethods <:+: m.attributeTexts ++ m.tableMethods ++ method := ⟨_, _, rfl⟩
    refine (indicatorLines_within m).trans (hmethods.trans ?_)
    rw [htext, ← List.append_assoc, ← List.append_assoc]
    exact (List.suffix_append _ _).isInfix
  have hsound := Registry.bind_sound hbind
  have hscoped := Registry.bind_isScoped hbind
  refine ⟨p, hplan, ⟨fun hfeed => heads_of_classLine hname hfeed hhead, ?_,
    fun i hi hfeed => ?_, ?_⟩, fun hvalidate => ⟨?_, ?_⟩⟩
  · rintro word rfl
    rw [String.toList_append, show "\n".toList = ['\n'] from rfl, chomp_append_newline] at hname
    rwa [lines_classLine_feed (nameChar_of_isClassWord hname)] at hhead
  · obtain ⟨block, hblockcode, hwithin⟩ := Binding.exists_block hindicators hi
    have hi' : i.Scoped := ⟨hsound i hi, hscoped i hi, isName_of_no_feed (hsound i hi).id hfeed⟩
    exact ⟨block, hblockcode, (hwithin.map _).trans htable,
      (hi'.writes hblockcode).imp fun _ _ hwrites => hwrites.lex_eq⟩
  · intro i hi word hid
    obtain ⟨block, hblockcode, hwithin⟩ := Binding.exists_block hindicators hi
    obtain ⟨hchars, hopen⟩ := (hsound i hi).open_of_feed (hscoped i hi) hid hblockcode
    exact ⟨htable.subset (List.mem_map_of_mem (hwithin.subset hopen)), lex_openAccess hchars⟩
  · intro hfeed
    rw [← hclass] at hfeed
    exact absurd (OutputCheck.nameChar_of_problems (hcheck hvalidate) _ hfeed) (by decide)
  · intro i hi hfeed
    obtain ⟨block, hblockcode, hwithin⟩ := Binding.exists_block hindicators hi
    have hm := assemble_sound hname hplan hassemble
    rcases (hsound i hi).name_or_open (hscoped i hi) hblockcode with hid | ⟨word, hchars, hopen⟩
    · exact absurd ((nameChar_of_isName hid).2 _ hfeed) (by decide)
    · exact hm.no_openAccess hlines (hcode ▸ hcheck hvalidate) hchars (hwithin.subset hopen)

theorem requireName_some_eq_ok {limits : Limits} {name className : String}
    (h : requireName limits (some name) = .ok className) : name = className := by
  obtain ⟨_, -, hclass⟩ := exists_of_bind_ok h
  cases hclass
  rfl

/-- **Accepted names are words that stand in their lines as they are, up to a line feed.** A class
name is accepted exactly if its length is within the limit, it has the pattern and it is not taken;
an id that is bound has its pattern. In a module the class name is an identifier of the head of the
class, and an id is in identifiers and texts only; a line feed at the end of either tears a line,
and with the check there is none. -/
theorem accepted_names_whole_or_torn (limit : Int) (name : String) :
    (checkClassName limit name = .ok () ↔ 1 ≤ name.length ∧ name.length ≤ limit ∧
      ClassPattern name ∧ name ∉ languageWords ∧ name ∉ importedNames) ∧
    (∀ (r : Registry) (declarations : List IndicatorDeclaration) (b : Binding),
      r.bind declarations = .ok b → ∀ d ∈ declarations, IdPattern d.id) ∧
    (∀ (settings : Settings) (raw : Value) (g : Generated),
      generate settings .builtin raw (some name) = .ok g → ∃ d p,
        prepare settings.limits raw = .ok d ∧ plan settings .builtin d = .ok p ∧
        Holds name p.binding.indicators (Text.lines g.code) ∧
        (settings.output.validateSyntax = true →
          '\n' ∉ name.toList ∧ ∀ i ∈ p.binding.indicators, '\n' ∉ i.id.toList)) := by
  refine ⟨checkClassName_eq_ok_iff limit name, fun r declarations b hbind d hd => ?_,
    fun settings raw g h => ?_⟩
  · obtain ⟨hall, hproper, -⟩ := Registry.bind_eq_ok_iff.mp hbind
    obtain ⟨i, hi, hsettles⟩ := exists_of_forall₂ hall hd
    rw [← isIndicatorId_iff, ← hsettles.id]
    exact (hproper i hi).id
  · obtain ⟨className, d, hname, hprepare, hcompile⟩ := generate_eq_ok_iff.mp h
    obtain rfl : name = className := requireName_some_eq_ok hname
    obtain ⟨p, hplan, hholds⟩ := compileDocument_holds (requireName_eq_ok hname) hcompile
    exact ⟨d, p, hprepare, hplan, hholds⟩

theorem sample_names_whole :
    checkClassName 100 "Sample" = .ok () ∧
    ∃ g, generate {} .builtin sampleRaw (some "Sample") = .ok g ∧
      Heads "Sample" (Text.lines g.code) ∧
      ∃ d p, prepare {} sampleRaw = .ok d ∧ plan {} .builtin d = .ok p ∧
        (∀ e ∈ d.indicators, IdPattern e.id) ∧
        ∀ i ∈ p.binding.indicators, i.StandsIn (Text.lines g.code) := by
  obtain ⟨-, hids, hnames⟩ := accepted_names_whole_or_torn 100 "Sample"
  obtain ⟨d, g, -, hd, hcompile, -⟩ := sample_compiles
  have hgenerate : generate {} .builtin sampleRaw (some "Sample") = .ok g :=
    generate_eq_ok_iff.mpr ⟨"Sample", d, rfl, hd, hcompile⟩
  obtain ⟨d', p, hd', hplan, hholds, hcheck⟩ := hnames _ _ _ hgenerate
  obtain ⟨hclass, hfeeds⟩ := hcheck rfl
  exact ⟨rfl, g, hgenerate, hholds.head hclass, d', p, hd', hplan,
    hids _ _ _ (plan_eq_ok hplan).1, fun i hi => hholds.ids i hi (hfeeds i hi)⟩

/-- A document with one indicator, whose id ends in a line feed. -/
def fedRaw : Value :=
  .object [("version", .int 2), ("long", .object []), ("indicators", .list [
    .object [("id", .text "r\n"), ("type", .text "RSI"), ("params", .object [])]])]

/-- Names that end in a line feed are accepted, and without the check they come out. -/
theorem names_with_feed_torn :
    checkClassName 100 "Rsi\n" = .ok () ∧
    ∃ g, generate { output := { validateSyntax := false } } .builtin fedRaw (some "Rsi\n") = .ok g ∧
      ["class Rsi", "(IStrategy):"] <:+: Text.lines g.code ∧
      "        dataframe['r" ∈ Text.lines g.code := by
  refine ⟨by decide, ?_⟩
  have hsome : (generate { output := { validateSyntax := false } } .builtin fedRaw
      (some "Rsi\n")).toOption.isSome = true := by decide +kernel
  have hids : ((prepare {} fedRaw).toOption.any fun d => d.indicators.map (·.id) == ["r\n"]) =
      true := by decide +kernel
  obtain ⟨g, hg⟩ := Option.isSome_iff_exists.mp hsome
  have hgenerate := toOption_eq_some hg
  obtain ⟨className, d, hname, hprepare, hcompile⟩ := generate_eq_ok_iff.mp hgenerate
  obtain ⟨p, hplan, hholds, -⟩ := compileDocument_holds (requireName_eq_ok hname) hcompile
  obtain rfl : "Rsi\n" = className := requireName_some_eq_ok hname
  obtain ⟨i, hi, hid⟩ : ∃ i ∈ p.binding.indicators, i.id = "r\n" := by
    obtain ⟨d', hd', hids⟩ := (Option.any_eq_true _ _).mp hids
    obtain rfl : d' = d := Except.ok.inj ((toOption_eq_some hd').symm.trans hprepare)
    have hbound := Registry.ids_eq (Registry.bind_eq_ok_iff.mp (plan_eq_ok hplan).1).1
    rw [beq_iff_eq.mp hids] at hbound
    exact List.mem_map.mp (hbound ▸ List.mem_singleton_self _)
  exact ⟨g, hgenerate, hholds.tornHead "Rsi" (by decide), (hholds.tornIds i hi "r" hid).1⟩

end Stratagem
