import Stratagem.Proofs.Indicator.Snippets
import Stratagem.Proofs.Script.Printable

/-! What the lines of an indicator assign, and which variables they read. Both are taken from the
tokens of a line as it is written: the place before the equals sign, and behind it the names that
are neither attributes nor keywords of arguments. A line of a built-in type is spelled by the tokens
of its pieces, whatever id and parameters are put in. -/

namespace Stratagem

namespace Script

/-- What a line of code assigns: a column of the table, or a name. -/
inductive Place where
  | column (column : String)
  | name (name : String)
  deriving DecidableEq

/-- The place before an equals sign, and the tokens behind it. -/
def assignmentOf : List Token → Option (Place × List Token)
  | .name "dataframe" :: .symbol "[" :: .text c :: .symbol "]" :: .symbol "=" :: value =>
    some (.column c, value)
  | .name s :: .symbol "=" :: value => some (.name s, value)
  | _ => none

/-- The assignment that a line of code is. -/
def assigns (line : String) : Option (Place × List Token) :=
  (lex line.toList).bind assignmentOf

def assigned? (line : String) : Option Place := (assigns line).map Prod.fst

theorem lexes_of_assigns {line : String} {a : Place × List Token} (h : assigns line = some a) :
    ∃ ts, lex line.toList = some ts := by
  obtain ⟨ts, hts, -⟩ := Option.bind_eq_some_iff.mp h
  exact ⟨ts, hts⟩

/-- The variables among tokens: names without a point before them and an equals sign behind. -/
def namesFrom (before : Option Token) : List Token → List String
  | [] => []
  | .name s :: rest =>
    (if before = some (.symbol ".") ∨ rest.head? = some (.symbol "=") then [] else [s]) ++
      namesFrom (some (.name s)) rest
  | t :: rest => namesFrom (some t) rest

def namesRead (ts : List Token) : List String := namesFrom none ts

theorem namesFrom_subset (before : Option Token) (ts : List Token) :
    namesFrom before ts ⊆ namesRead ts := by
  unfold namesRead
  cases ts with
  | nil => simp [namesFrom]
  | cons t rest =>
    cases t with
    | name s =>
      simp only [namesFrom]
      intro v hv
      rcases List.mem_append.mp hv with hv | hv
      · split at hv
        · cases hv
        · next hread =>
          refine List.mem_append_left _ ?_
          rw [if_neg (by simpa using fun h => hread (.inr h))]
          exact hv
      · exact List.mem_append_right _ hv
    | _ => exact List.Subset.refl _

theorem namesFrom_append (before : Option Token) (xs ys : List Token) :
    namesFrom before (xs ++ ys) ⊆ namesFrom before xs ++ namesRead ys := by
  induction xs generalizing before with
  | nil => simpa [namesFrom] using namesFrom_subset before ys
  | cons t rest ih =>
    cases t with
    | name s =>
      simp only [List.cons_append, namesFrom, List.append_assoc]
      refine List.append_subset.mpr
        ⟨fun v hv => ?_, fun v hv => List.mem_append_right _ (ih _ hv)⟩
      split at hv
      · cases hv
      · next hread =>
        have hkept : ¬ (before = some (.symbol ".") ∨ rest.head? = some (.symbol "=")) := by
          refine fun h => hread (h.imp_right fun hrest => ?_)
          obtain ⟨more, rfl⟩ := List.head?_eq_some_iff.mp hrest
          rfl
        rw [if_neg hkept]
        exact List.mem_append_left _ hv
    | _ => exact ih _

theorem namesRead_flatMap {α : Type} {f : α → List Token} {xs : List α} {v : String}
    (h : v ∈ namesRead (xs.flatMap f)) : ∃ x ∈ xs, v ∈ namesRead (f x) := by
  induction xs with
  | nil => cases h
  | cons x xs ih =>
    rw [List.flatMap_cons] at h
    rcases List.mem_append.mp (namesFrom_append none _ _ h) with h | h
    · exact ⟨x, by simp, h⟩
    · obtain ⟨y, hy, hv⟩ := ih h
      exact ⟨y, List.mem_cons_of_mem x hy, hv⟩

theorem namesRead_of_no_name {ts : List Token} (h : ∀ s, .name s ∉ ts) : namesRead ts = [] := by
  unfold namesRead
  generalize (none : Option Token) = before
  induction ts generalizing before with
  | nil => rfl
  | cons t rest ih =>
    have hrest : ∀ s, .name s ∉ rest := fun s hs => h s (List.mem_cons_of_mem t hs)
    cases t with
    | name s => exact absurd List.mem_cons_self (h s)
    | _ => exact ih hrest _

theorem namesRead_column (c : String) :
    namesRead (Code.subscriptTokens tableName c) = [tableName] := by
  simp [namesRead, Code.subscriptTokens, namesFrom, tableName]

/-! ## Columns -/

/-- A name needs no escapes between quotes. -/
theorem quoted_of_nameChar {s : String} (h : ∀ c ∈ s.toList, nameChar c = true) :
    Text.quoted s = "'" ++ s ++ "'" := by
  have hne : ∀ e, nameChar e = false → ∀ c ∈ s.toList, c ≠ e := by
    rintro e he c hc rfl
    rw [h c hc] at he
    cases he
  have hquote : Text.quoteFor s.toList = Text.singleQuote := by
    have hnone : Text.singleQuote ∉ s.toList := fun hmem => hne _ (by decide) _ hmem rfl
    simp [Text.quoteFor, hnone]
  have hchars : s.toList.flatMap (Text.quotedChar Text.singleQuote) = s.toList := by
    have hsame : ∀ c ∈ s.toList, Text.quotedChar Text.singleQuote c = [c] := by
      intro c hc
      have h1 := hne Text.singleQuote (by decide) c hc
      have h2 := hne '\\' (by decide) c hc
      have h3 := hne '\n' (by decide) c hc
      have h4 := hne '\r' (by decide) c hc
      have h5 := hne '\t' (by decide) c hc
      simp [Text.quotedChar, h1, h2, h3, h4, h5, isPrintable_of_nameChar (h c hc)]
    rw [List.flatMap_congr hsame]
    simp
  refine String.toList_inj.mp ?_
  simp only [Text.quoted, Text.quotedChars, hquote, hchars, String.toList_ofList,
    String.toList_append]
  rfl

/-- A column between its quotes is the same tokens wherever it stands. -/
theorem lex_columnAccess {column : String} (h : ∀ c ∈ column.toList, nameChar c = true)
    (rest : List Char) : lex ((columnAccess column).toList ++ rest) =
      (lex rest).map (Code.subscriptTokens tableName column ++ ·) := by
  have hsplit : (columnAccess column).toList ++ rest =
      tableName.toList ++ '[' :: ((Text.quoted column).toList ++ ']' :: rest) := by
    simp [columnAccess, quoted_of_nameChar h]
  rw [hsplit, lex_word_mark (by decide) (by decide), lex_text column (by simp [isQuote]; decide),
    lex_solo ']' (by decide)]
  simp [Option.map_map, Function.comp_def, Code.subscriptTokens]

end Script

/-! ## Pieces of a line -/

namespace Piece

open Script

def isText : Piece → Bool
  | .text _ => true
  | _ => false

/-- The tokens of a piece, for an indicator. -/
def tokens (i : BoundIndicator) : Piece → List Token
  | .text s => (lex s.toList).getD []
  | .id => [.name i.id]
  | .column output => Code.subscriptTokens tableName (columnName i.id output)
  | .market name => Code.subscriptTokens tableName name
  | .helper suffix => [.name (helperName i.id suffix)]
  | .param name | .literal name => ((i.params.lookup name).map Scalar.tokens).getD []
  | .paramColumn name => match i.params.lookup name with
    | some (.text w) => Code.subscriptTokens tableName w
    | _ => []

/-- What comes behind a piece does not belong to it. -/
def admits (rest : List Char) : Piece → Bool
  | .id | .helper _ => endsName rest
  | .param _ | .literal _ => ends false rest
  | _ => true

theorem admits_append {p : Piece} {xs : List Char} (hne : xs ≠ []) (ys : List Char) :
    p.admits (xs ++ ys) = p.admits xs := by
  cases p <;> simp [admits, endsName, ends, List.head?_append_of_ne_nil _ hne]

/-- Texts side by side as one text. -/
def merged : List Piece → List Piece
  | [] => []
  | .text s :: rest => match merged rest with
    | .text t :: more => .text (s ++ t) :: more
    | more => .text s :: more
  | p :: rest => p :: merged rest

/-- The text that follows a piece does not belong to it. -/
def meets (p : Piece) : List Piece → Bool
  | [] => true
  | .text s :: _ => !s.toList.isEmpty && p.admits s.toList
  | _ => false

/-- Every text is spelled by tokens, and no piece runs into the next one. -/
def linked : List Piece → Bool
  | [] => true
  | .text s :: rest =>
    (lex s.toList).isSome && linked rest && (rest.isEmpty ||
      s.toList.getLast?.any (closers.contains ·) && rest.head?.all (! ·.isText))
  | p :: rest => linked rest && p.meets rest

end Piece

theorem nameChar_columnName {id output : String} (hid : ∀ c ∈ id.toList, Script.nameChar c = true)
    (houtput : ∀ c ∈ output.toList, Script.nameChar c = true) :
    ∀ c ∈ (columnName id output).toList, Script.nameChar c = true := by
  unfold columnName
  split
  · exact hid
  · simp only [String.toList_append, List.forall_mem_append]
    exact ⟨⟨hid, by decide⟩, houtput⟩

theorem isName_helperName {id suffix : String} (hid : Script.isName id.toList = true)
    (hsuffix : suffix ∈ helperSuffixes) : Script.isName (helperName id suffix).toList = true := by
  have hall : ∀ s ∈ helperSuffixes, ∀ c ∈ s.toList, Script.nameChar c = true := by decide
  obtain ⟨hne, hchars⟩ := nameChar_of_isName hid
  simp only [Script.isName, Bool.and_eq_true, List.all_eq_true, helperName,
    String.toList_append] at hid ⊢
  refine ⟨?_, ?_⟩
  · rw [List.append_assoc, List.head?_append_of_ne_nil _ hne]
    exact hid.1
  · simp only [List.forall_mem_append]
    exact ⟨⟨hchars, by decide⟩, hall suffix hsuffix⟩

theorem nameChar_market {name : String} (h : name ∈ marketColumns) :
    ∀ c ∈ name.toList, Script.nameChar c = true := by
  have hall : ∀ w ∈ marketColumns, ∀ c ∈ w.toList, Script.nameChar c = true := by decide
  exact hall name h

section

open Script

variable {i : BoundIndicator} {p : Piece} {text : String} {texts : List String}
  {pieces : List Piece}

/-- A text is spelled by the tokens of a piece, wherever the piece may stand, and starts with
something else than an equals sign. -/
structure Piece.Written (i : BoundIndicator) (p : Piece) (text : String) : Prop where
  first : ∃ c, text.toList.head? = some c ∧ c ≠ '='
  lexes : ∀ rest, p.admits rest = true →
    lex (text.toList ++ rest) = (lex rest).map (p.tokens i ++ ·)

theorem Piece.written_access {column : String}
    (hp : p.tokens i = Code.subscriptTokens tableName column)
    (hcolumn : ∀ c ∈ column.toList, nameChar c = true) : p.Written i (columnAccess column) := by
  refine ⟨⟨'d', by simp [columnAccess, tableName], by decide⟩, fun rest _ => ?_⟩
  rw [lex_columnAccess hcolumn, hp]

theorem Piece.written_name {name : String} (hp : p.tokens i = [.name name])
    (hrest : ∀ rest, p.admits rest = true → endsName rest = true)
    (hname : isName name.toList = true) : p.Written i name := by
  refine ⟨?_, fun rest h => ?_⟩
  · obtain ⟨hne, -⟩ := nameChar_of_isName hname
    obtain ⟨c, cs, hcs⟩ := List.exists_cons_of_ne_nil hne
    refine ⟨c, by rw [hcs, List.head?_cons], ?_⟩
    rintro rfl
    simp [isName, hcs, nameStart] at hname
  · rw [lex_word hname (hrest rest h), hp]
    rfl

theorem Scalar.tokens_ne_nil (s : Scalar) : s.tokens ≠ [] := by
  cases s <;> simp [Scalar.tokens]

theorem Scalar.no_equals (s : Scalar) : ∀ t ∈ s.tokens, t ≠ .symbol "=" ∧ t ≠ .symbol "==" := by
  have hsign : ∀ negative, ∀ t ∈ signTokens negative, t ≠ .symbol "=" ∧ t ≠ .symbol "==" := by
    decide
  cases s with
  | int n | float x =>
    rw [Scalar.tokens, List.forall_mem_append]
    exact ⟨hsign _, by simp⟩
  | _ => simp [Scalar.tokens]

theorem Piece.written_number {s : Scalar} (hp : p.tokens i = s.tokens)
    (hrest : ∀ rest, p.admits rest = true → ends false rest = true)
    (hspells : Spells false text s.tokens) : p.Written i text := by
  refine ⟨?_, fun rest h => ?_⟩
  · have hlex : lex text.toList = some s.tokens := hspells.alone
    cases htext : text.toList with
    | nil =>
      rw [htext, lex_nil] at hlex
      exact absurd (Option.some.inj hlex).symm s.tokens_ne_nil
    | cons c cs =>
      refine ⟨c, rfl, ?_⟩
      rintro rfl
      rw [htext] at hlex
      rcases head?_of_lex_equals hlex with htoken | htoken
      · exact (s.no_equals _ (List.mem_of_head? htoken)).1 rfl
      · exact (s.no_equals _ (List.mem_of_head? htoken)).2 rfl
  · rw [hspells rest (hrest rest h), hp]

/-- **A piece of a sound type is spelled by its tokens.** -/
theorem Piece.render_written (hi : i.Sound) (hid : isName i.id.toList = true)
    (hp : p.isSound i.spec = true) (hkind : p.isText = false)
    (h : p.render i.id i.params = .ok text) : p.Written i text := by
  have hchars := (nameChar_of_isName hid).2
  cases Piece.renders_of_render hi hp h with
  | text s => cases hkind
  | output houtput => exact written_access rfl (nameChar_columnName hchars (hi.outputs houtput))
  | market hname => exact written_access rfl (nameChar_market hname)
  | @source name w hs hw =>
    have htokens : (paramColumn name).tokens i = Code.subscriptTokens tableName w := by
      simp [tokens, hs]
    exact written_access htokens (nameChar_market hw)
  | helper hsuffix => exact written_name rfl (fun _ h => h) (isName_helperName hid hsuffix)
  | number hpiece hs hfits hnumber =>
    have hspells := (ParamSpec.number_of_fits hfits hnumber).2.1
    rcases hpiece with rfl | rfl <;>
      exact written_number (by simp [tokens, hs]) (fun _ h => h) hspells

/-- A piece that is no text admits the text of the pieces behind it. -/
theorem Piece.linked_cons (hkind : p.isText = false) {rest : List Piece}
    (hlinked : linked (p :: rest) = true)
    (h : List.Forall₂ (fun p text => p.render i.id i.params = .ok text) rest texts) :
    linked rest = true ∧ p.admits (String.join texts).toList = true := by
  have hsplit : linked (p :: rest) = (linked rest && p.meets rest) := by
    cases p with
    | text s => cases hkind
    | _ => rfl
  rw [hsplit, Bool.and_eq_true] at hlinked
  obtain ⟨hrest, hnext⟩ := hlinked
  refine ⟨hrest, ?_⟩
  cases h with
  | nil => cases p <;> rfl
  | @cons q next rest texts hq _ =>
    cases q with
    | text s =>
      cases hq
      simp only [meets, Bool.and_eq_true, Bool.not_eq_true', List.isEmpty_eq_false_iff] at hnext
      rw [String.join_cons, String.toList_append, admits_append hnext.1]
      exact hnext.2
    | _ => cases hnext

/-- The text of pieces that are linked is spelled by their tokens. -/
theorem Piece.lex_join (hi : i.Sound) (hid : isName i.id.toList = true)
    (hlinked : linked pieces = true)
    (hsound : ∀ p ∈ pieces, p.isText = true ∨ p.isSound i.spec = true)
    (h : List.Forall₂ (fun p text => p.render i.id i.params = .ok text) pieces texts) :
    lex (String.join texts).toList = some (pieces.flatMap (Piece.tokens i)) := by
  induction h with
  | nil => simp [lex_nil]
  | @cons p text rest texts hp hrest ih =>
    obtain ⟨hpsound, hrestsound⟩ := List.forall_mem_cons.mp hsound
    rw [String.join_cons, String.toList_append, List.flatMap_cons]
    cases hkind : p.isText with
    | true =>
      cases p with
      | text s =>
        cases hp
        simp only [linked, Bool.and_eq_true] at hlinked
        obtain ⟨⟨hlex, hlinked⟩, hnext⟩ := hlinked
        obtain ⟨ts, hts⟩ := Option.isSome_iff_exists.mp hlex
        have hrestlex := ih hlinked hrestsound
        cases hrest with
        | nil => simp [hts, tokens]
        | @cons q next rest texts hq _ =>
          simp only [List.isEmpty_cons, Bool.false_or, Bool.and_eq_true, List.head?_cons,
            Option.all_some, Bool.not_eq_true'] at hnext
          have hqsound := (hrestsound q (by simp)).resolve_left (by simp [hnext.2])
          have hwritten := render_written hi hid hqsound hnext.2 hq
          have hfirst : (String.join (next :: texts)).toList.head? ≠ some '=' := by
            obtain ⟨c, hc, hne⟩ := hwritten.first
            rw [String.join_cons, String.toList_append, List.head?_append, hc]
            simpa using hne
          rw [lex_append hts hnext.1 hfirst, hrestlex]
          simp [tokens, hts]
      | _ => cases hkind
    | false =>
      have hwritten := render_written hi hid (hpsound.resolve_left (by simp [hkind])) hkind hp
      obtain ⟨hlinked, hadmits⟩ := linked_cons hkind hlinked hrest
      rw [hwritten.lexes _ hadmits, ih hlinked hrestsound]
      rfl

theorem Piece.mem_merged (h : p ∈ merged pieces) : p.isText = true ∨ p ∈ pieces := by
  induction pieces with
  | nil => cases h
  | cons q rest ih =>
    cases q with
    | text s =>
      rw [merged] at h
      split at h
      · next hmerged =>
        rcases List.mem_cons.mp h with rfl | h
        · exact .inl rfl
        · exact (ih (by simp [hmerged, h])).imp_right (List.mem_cons_of_mem _)
      · rcases List.mem_cons.mp h with rfl | h
        · exact .inl rfl
        · exact (ih h).imp_right (List.mem_cons_of_mem _)
    | _ =>
      rcases List.mem_cons.mp h with rfl | h
      · exact .inr List.mem_cons_self
      · exact (ih h).imp_right (List.mem_cons_of_mem _)

/-- Merged pieces have the same text. -/
theorem Piece.render_merged
    (h : List.Forall₂ (fun p text => p.render i.id i.params = .ok text) pieces texts) :
    ∃ others, List.Forall₂ (fun p text => p.render i.id i.params = .ok text) (merged pieces)
      others ∧ String.join others = String.join texts := by
  induction h with
  | nil => exact ⟨[], .nil, rfl⟩
  | @cons p text rest texts hp _ ih =>
    obtain ⟨others, hothers, hjoin⟩ := ih
    cases p with
    | text s =>
      cases hp
      rw [merged]
      split
      · next t more hmerged =>
        rw [hmerged] at hothers
        cases hothers with
        | cons ht hmore =>
          cases ht
          refine ⟨_, .cons rfl hmore, ?_⟩
          rw [String.join_cons, String.join_cons, ← hjoin, String.join_cons, String.append_assoc]
      · refine ⟨_, .cons rfl hothers, ?_⟩
        rw [String.join_cons, String.join_cons, hjoin]
    | _ =>
      refine ⟨_, .cons hp hothers, ?_⟩
      rw [String.join_cons, String.join_cons, hjoin]

/-! ## Lines -/

/-- The place that a target is. -/
def Target.place (id : String) : Target → Place
  | .column output => .column (columnName id output)
  | .helper suffix => .name (helperName id suffix)

/-- The tokens of a value, with texts side by side read as one. -/
def Piece.valueTokens (i : BoundIndicator) (value : List Piece) : List Token :=
  (merged value).flatMap (Piece.tokens i)

/-- **A line assigns its target**, and its value is spelled by the tokens of the pieces. -/
theorem Line.assigns_eq (hi : i.Sound) (hid : isName i.id.toList = true) {target : Target}
    {value : List Piece} (hsound : (Line.assign target value).isSound i.spec = true)
    (hlinked : Piece.linked (Piece.merged value) = true)
    (h : (Line.assign target value).render i.id i.params = .ok text) :
    assigns text = some (target.place i.id, Piece.valueTokens i value) := by
  obtain ⟨t, v, parts, hline, htarget, hvalue, hparts, rfl⟩ := Line.render_eq_ok hsound h
  cases hline
  obtain ⟨others, hothers, hjoin⟩ := Piece.render_merged hparts
  have hlex : lex (String.join parts).toList =
      some (Piece.valueTokens i value) := by
    rw [← hjoin]
    exact Piece.lex_join hi hid hlinked
      (fun p hp => (Piece.mem_merged hp).imp_right (hvalue p)) hothers
  have hequals : lex (" = ".toList ++ (String.join parts).toList) = some (.symbol "=" ::
      Piece.valueTokens i value) := by
    change lex (' ' :: '=' :: ' ' :: (String.join parts).toList) = _
    rw [lex_blank, lex_mark '=' (by decide) _ (by simp), lex_blank, hlex]
    rfl
  have hchars := (nameChar_of_isName hid).2
  unfold assigns
  rw [String.toList_append, String.toList_append, List.append_assoc]
  cases target with
  | column output =>
    have houtput : output ∈ i.spec.outputs := by simpa [Target.isSound] using htarget
    rw [Target.render, lex_columnAccess (nameChar_columnName hchars (hi.outputs houtput)), hequals]
    rfl
  | helper suffix =>
    have hname := isName_helperName hid (by simpa [Target.isSound] using htarget)
    rw [Target.render, lex_word hname (by rfl), hequals]
    simp [assignmentOf, Target.place]

end

end Stratagem
