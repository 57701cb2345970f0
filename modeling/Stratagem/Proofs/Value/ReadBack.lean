import Stratagem.Proofs.Failure
import Stratagem.Proofs.Script.Lexing
import Stratagem.Value.Literal

/-! Literals read back. A literal is read with the lexer and the parser of generated expressions and
then taken for the value that it is a literal of (`Value.ofLiteral?`), a word, a number, a text or a
list. Main statement: the literal of a value, if it has one, reads back as that value with its
tuples as lists, and it has none exactly if something inside it has none. -/

namespace Stratagem

open Script

/-! ## Reading literals -/

def Binary64.opposite : Binary64 → Binary64
  | .finite negative m e h => .finite (!negative) m e h
  | .infinite negative => .infinite (!negative)
  | .nan => .nan

namespace Script

mutual

/-- The value that an expression is a literal of. -/
def Expr.literal? : Expr → Option Stratagem.Value
  | .name "None" => some .null
  | .name "True" => some (.bool true)
  | .name "False" => some (.bool false)
  | .integer n => some (.int n)
  | .float x => some (.float x)
  | .unary .negative (.integer n) => some (.int (-n))
  | .unary .negative (.float x) => some (.float x.opposite)
  | .text s => some (.text s)
  | .list items => items.literals?.map .list
  | _ => none

def ArgList.literals? : ArgList → Option (List Stratagem.Value)
  | .nil => some []
  | .cons none e rest => do return (← e.literal?) :: (← rest.literals?)
  | .cons (some _) .. => none

end

end Script

namespace Value

/-- The value that the whole of a text is a literal of. -/
def ofLiteral? (text : String) : Option Value := (Script.read text).bind Expr.literal?

mutual

/-- The value with a list for each tuple, at every depth. -/
def listed : Value → Value
  | .list items => .list (listedItems items)
  | .tuple items => .list (listedItems items)
  | v => v

def listedItems : List Value → List Value
  | [] => []
  | item :: rest => listed item :: listedItems rest

end

/-! ## What values are made of -/

/-- Scalars with numbers that are finite and not too long, and lists and tuples of such values. -/
inductive Plain : Value → Prop
  | null : Plain .null
  | bool (b : Bool) : Plain (.bool b)
  | int {n : Int} (h : isLong n = false) : Plain (.int n)
  | float {x : Binary64} (h : x.isFinite = true) : Plain (.float x)
  | text (s : String) : Plain (.text s)
  | list {items : List Value} (h : ∀ v ∈ items, Plain v) : Plain (.list items)
  | tuple {items : List Value} (h : ∀ v ∈ items, Plain v) : Plain (.tuple items)

/-- A value is another one, or inside one of its items. -/
inductive Inside (w : Value) : Value → Prop
  | self : Inside w w
  | item {v u : Value} {items : List Value} (hitems : v.items? = some items) (hu : u ∈ items)
    (h : Inside w u) : Inside w v

/-- Why a value has no literal, whatever it holds: it is a number that is not finite or too long, or
neither a scalar nor a sequence. -/
def obstacle? : Value → Option LiteralError
  | .float x => if x.isFinite then none else some (.notFinite x)
  | .int n => if isLong n then some .overlong else none
  | .null | .bool _ | .text _ | .list _ | .tuple _ => none
  | v => some (.unsupported v.kind)

/-- Induction from the items of lists and tuples to the sequence. -/
theorem induction {P : Value → Prop}
    (step : ∀ v : Value, (∀ items, v.items? = some items → ∀ u ∈ items, P u) → P v)
    (v : Value) : P v := by
  refine step v fun items hitems u hu => ?_
  have hlt : sizeOf u < sizeOf v := by
    have hu := List.sizeOf_lt_of_mem hu
    cases v <;> cases hitems <;> simp <;> omega
  exact induction step u
termination_by sizeOf v

theorem listedItems_eq_map (items : List Value) : listedItems items = items.map listed := by
  induction items with
  | nil => rfl
  | cons item rest ih => rw [listedItems, ih, List.map_cons]

theorem listed_of_items {v : Value} {items : List Value} (h : v.items? = some items) :
    v.listed = .list (items.map listed) := by
  cases v with
  | list | tuple =>
    cases h
    rw [listed, listedItems_eq_map]
  | _ => cases h

theorem literals_eq_mapM (items : List Value) : literals items = items.mapM literal := by
  induction items with
  | nil => rfl
  | cons item rest ih => rw [literals, List.mapM_cons, ih]

theorem literal_of_items {v : Value} {items : List Value} (h : v.items? = some items) :
    v.literal = (items.mapM literal).map fun texts => "[" ++ ", ".intercalate texts ++ "]" := by
  cases v with
  | list | tuple =>
    cases h
    rw [literal, literals_eq_mapM]
    cases items.mapM literal <;> rfl
  | _ => cases h

/-- A value that is no sequence is an obstacle or a scalar. -/
theorem literal_of_leaf {v : Value} (h : v.items? = none) :
    (∃ reason, v.obstacle? = some reason ∧ v.literal = .error reason) ∨
      v.obstacle? = none ∧
        ∃ s : Scalar, s.isFinite = true ∧ v = s.toValue ∧ v.literal = .ok v.written := by
  cases v with
  | null => exact .inr ⟨rfl, .null, rfl, rfl, rfl⟩
  | bool b => exact .inr ⟨rfl, .bool b, rfl, rfl, rfl⟩
  | int n =>
    cases hn : isLong n with
    | true => exact .inl ⟨.overlong, by simp [obstacle?, hn], by simp [literal, hn]⟩
    | false =>
      exact .inr ⟨by simp [obstacle?, hn], .int n, rfl, rfl, by simp [literal, written, hn]⟩
  | text s => exact .inr ⟨rfl, .text s, rfl, rfl, rfl⟩
  | float x =>
    by_cases hx : x.isFinite = true
    · exact .inr ⟨by simp [obstacle?, hx], .float x, hx, rfl, by simp [literal, written, hx]⟩
    · exact .inl ⟨.notFinite x, by simp [obstacle?, hx], by simp [literal, hx]⟩
  | list items => cases h
  | tuple items => cases h
  | object | set | bytes | date | moment => exact .inl ⟨_, rfl, rfl⟩

end Value

/-! ## Texts of values -/

namespace Script

/-- A text is a literal of a value, on its own as well as before a comma or a closing bracket. -/
def LiteralOf (text : String) (v : Stratagem.Value) : Prop :=
  ∃ ts e, Spells false text ts ∧ ts ≠ [] ∧ e.literal? = some v ∧
    ∀ rest, continues 1 rest = false → parse 1 (ts ++ rest) = some (e, rest)

theorem LiteralOf.ofLiteral? {text : String} {v : Stratagem.Value} (h : LiteralOf text v) :
    Stratagem.Value.ofLiteral? text = some v := by
  obtain ⟨ts, e, hspells, -, hvalue, hparse⟩ := h
  have hparse : parse 1 ts = some (e, []) := by simpa using hparse [] rfl
  simp [Stratagem.Value.ofLiteral?, Script.read, hspells.alone, hparse, hvalue]

theorem literal?_signed {negative : Bool} {e : Expr} {v w : Stratagem.Value}
    (hplain : e.literal? = some v) (hnegative : (Expr.unary .negative e).literal? = some w) :
    (signed negative e).literal? = some (if negative then w else v) := by
  cases negative with
  | false => exact hplain
  | true => exact hnegative

theorem literal?_script (s : Scalar) : s.script.literal? = some s.toValue := by
  cases s with
  | null => rfl
  | bool b => cases b <;> rfl
  | int n =>
    rw [Scalar.script, literal?_signed rfl rfl]
    have habs : (n.natAbs : Int) = if n < 0 then -n else n := by omega
    by_cases hn : n < 0 <;> simp [hn, habs, Scalar.toValue]
  | float x =>
    rw [Scalar.script, literal?_signed rfl rfl]
    cases x with
    | finite negative m e h =>
      cases negative <;> rfl
    | infinite negative => rfl
    | nan => rfl
  | text s => rfl

theorem literalOf_scalar {s : Scalar} (hs : s.isFinite = true) :
    LiteralOf s.toValue.written s.toValue := by
  have hcode := (Code.literal (.scalar s)).parses_of_grouped hs
  have hrank : 1 ≤ (Code.literal (.scalar s)).rank := by cases s <;> simp [Code.rank]
  exact ⟨s.tokens, s.script, (spells_scalar s hs).plain, (Code.literal (.scalar s)).tokens_ne_nil,
    literal?_script s, fun rest hrest => hcode.1.stop (by decide) hrank (by decide) hrest⟩

/-- Literals with commas between them, up to the closing bracket. -/
theorem literalOf_items {texts : List String} {vs : List Stratagem.Value}
    (h : List.Forall₂ LiteralOf texts vs) (hne : texts ≠ []) :
    ∃ ts items, Spells false (", ".intercalate texts) ts ∧ items.positional = true ∧
      items.literals? = some vs ∧ ts ≠ [] ∧
      ∀ rest, arguments "]" (ts ++ .symbol "]" :: rest) = some (items, rest) := by
  induction h with
  | nil => exact absurd rfl hne
  | @cons text v texts vs hfirst hrest ih =>
    obtain ⟨ts, e, hspells, hts, hvalue, hparse⟩ := hfirst
    have hlt (more : List Token) : more.length < (ts ++ more).length := by
      have := List.length_pos_iff.mpr hts
      rw [List.length_append]
      omega
    cases hrest with
    | nil =>
      refine ⟨ts, .cons none e .nil, by simpa using hspells, rfl, ?_, hts, fun rest => ?_⟩
      · simp [ArgList.literals?, hvalue]
      · rw [arguments_value "]" (hparse _ rfl) (hlt _) (by simp), trailing_close (by decide)]
        rfl
    | cons hnext hmore =>
      obtain ⟨us, items, hus, hpositional, hvalues, -, harguments⟩ := ih (by simp)
      refine ⟨ts ++ .symbol "," :: us, .cons none e items, ?_, hpositional, ?_, by simp,
        fun rest => ?_⟩
      · rw [String.intercalate_cons_cons]
        exact hspells.comma hus
      · simp [ArgList.literals?, hvalue, hvalues]
      · rw [List.append_assoc, List.cons_append,
          arguments_value "]" (hparse _ rfl) (hlt _) (by simp), trailing_comma, harguments]
        rfl

theorem literalOf_list {texts : List String} {vs : List Stratagem.Value}
    (h : List.Forall₂ LiteralOf texts vs) :
    LiteralOf ("[" ++ ", ".intercalate texts ++ "]") (.list vs) := by
  have hopen : Piece "[" [.symbol "["] := fun rest => lex_solo '[' (by decide) rest
  by_cases hne : texts = []
  · subst hne
    cases h
    refine ⟨[.symbol "[", .symbol "]"], .list .nil, fun rest _ => ?_, by simp, rfl,
      fun rest hrest => ?_⟩
    · change lex ('[' :: ']' :: rest) = _
      rw [lex_solo '[' (by decide), lex_solo ']' (by decide), Option.map_map]
      rfl
    · exact (parse_list_none 1 rest).trans (climb_stop (by decide) _ hrest)
  · obtain ⟨ts, items, hspells, hpositional, hvalues, hts, harguments⟩ := literalOf_items h hne
    refine ⟨_, .list items, (Spells.enclosed hopen hspells (.inr rfl)).plain, by simp, ?_,
      fun rest hrest => ?_⟩
    · simp [Expr.literal?, hvalues]
    · have hlt : rest.length < (ts ++ .symbol "]" :: rest).length := by
        simp
        omega
      simpa using (parse_list 1 hpositional (harguments rest) hlt).trans
        (climb_stop (by decide) _ hrest)

end Script

namespace Value

theorem literalOf_literal (v : Value) : ∀ text, v.literal = .ok text → LiteralOf text v.listed := by
  induction v using Value.induction with
  | step v ih =>
    intro text htext
    cases hitems : v.items? with
    | none =>
      rcases literal_of_leaf hitems with ⟨reason, -, herror⟩ | ⟨-, s, hs, rfl, hok⟩
      · rw [herror] at htext
        cases htext
      · rw [hok] at htext
        cases htext
        have hlisted : s.toValue.listed = s.toValue := by cases s <;> rfl
        rw [hlisted]
        exact literalOf_scalar hs
    | some items =>
      rw [literal_of_items hitems] at htext
      cases hparts : items.mapM literal with
      | error reason =>
        rw [hparts] at htext
        cases htext
      | ok texts =>
        rw [hparts] at htext
        cases htext
        rw [listed_of_items hitems]
        have hparts := (mapM_eq_ok_iff _ _ _).mp hparts
        have hall := (List.forall₂_and_left items texts).mpr ⟨ih items hitems, hparts⟩
        refine literalOf_list (List.forall₂_map_right_iff.mpr (hall.imp ?_).flip)
        exact fun u part hu => hu.1 part hu.2

/-- A value without a literal has an obstacle inside, and the reason is that obstacle. -/
theorem inside_of_literal_error (v : Value) :
    ∀ reason, v.literal = .error reason → ∃ w : Value, w.Inside v ∧ w.obstacle? = some reason := by
  induction v using Value.induction with
  | step v ih =>
    intro reason hreason
    cases hitems : v.items? with
    | none =>
      rcases literal_of_leaf hitems with ⟨reason', hobstacle, herror⟩ | ⟨-, s, hs, rfl, hok⟩
      · rw [herror] at hreason
        cases hreason
        exact ⟨v, .self, hobstacle⟩
      · rw [hok] at hreason
        cases hreason
    | some items =>
      rw [literal_of_items hitems] at hreason
      cases hparts : items.mapM literal with
      | ok texts =>
        rw [hparts] at hreason
        cases hreason
      | error reason' =>
        rw [hparts] at hreason
        cases hreason
        obtain ⟨u, hu, herror⟩ := mapM_eq_error hparts
        obtain ⟨w, hw, hobstacle⟩ := ih items hitems u hu _ herror
        exact ⟨w, .item hitems hu hw, hobstacle⟩

theorem literal_error_of_inside {w v : Value} (h : w.Inside v) (hw : w.obstacle? ≠ none) :
    ∃ reason, v.literal = .error reason := by
  induction h with
  | self =>
    cases hitems : w.items? with
    | none =>
      rcases literal_of_leaf hitems with ⟨reason, -, herror⟩ | ⟨hnone, -⟩
      · exact ⟨reason, herror⟩
      · exact absurd hnone hw
    | some items => cases w <;> simp_all [items?, obstacle?]
  | @item v u items hitems hu _ ih =>
    obtain ⟨reason, herror⟩ := ih
    rw [literal_of_items hitems]
    cases hparts : items.mapM literal with
    | error reason' => exact ⟨reason', rfl⟩
    | ok texts =>
      obtain ⟨text, -, hok⟩ := exists_of_forall₂ ((mapM_eq_ok_iff _ _ _).mp hparts) hu
      rw [herror] at hok
      cases hok

theorem Plain.obstacle?_of_inside {w v : Value} (hv : v.Plain) (h : w.Inside v) :
    w.obstacle? = none := by
  induction h with
  | self => cases hv <;> simp_all [obstacle?]
  | item hitems hu _ ih =>
    refine ih ?_
    cases hv with
    | list hall | tuple hall =>
      cases hitems
      exact hall _ hu
    | _ => cases hitems

/-- **Literals read back.** A plain value has a literal, which read to its end is the value again,
with lists for tuples. A value has none exactly if there is an obstacle somewhere inside, and the
reason given is such an obstacle. -/
theorem literal_reads_back (v : Value) :
    (v.Plain → ∃ text, v.literal = .ok text ∧ ofLiteral? text = some v.listed) ∧
      (∀ reason, v.literal = .error reason → ∃ w : Value, w.Inside v ∧ w.obstacle? = some reason) ∧
      ((∃ w : Value, w.Inside v ∧ w.obstacle? ≠ none) → ∃ reason, v.literal = .error reason) := by
  refine ⟨fun hv => ?_, v.inside_of_literal_error,
    fun ⟨w, hw, hne⟩ => literal_error_of_inside hw hne⟩
  cases htext : v.literal with
  | ok text => exact ⟨text, rfl, (v.literalOf_literal text htext).ofLiteral?⟩
  | error reason =>
    obtain ⟨w, hw, hobstacle⟩ := v.inside_of_literal_error reason htext
    rw [hv.obstacle?_of_inside hw] at hobstacle
    cases hobstacle

/-- Both quotes, a backslash, an escape before a digit, the negative zero and a tuple in a list. -/
def assorted : Value :=
  .list [.text "it's \"\\\x0cf\n", .tuple [.int (-3), .float (.ofParts true 0 0), .null],
    .list []]

theorem assorted_reads_back :
    assorted.Plain ∧
      (∃ text, assorted.literal = .ok text ∧ ofLiteral? text = some assorted.listed) ∧
      ∃ reason, (Value.tuple [assorted, .set [.null]]).literal = .error reason := by
  have hplain : assorted.Plain := by
    refine .list fun v hv => ?_
    simp only [List.mem_cons, List.not_mem_nil, or_false] at hv
    rcases hv with rfl | rfl | rfl
    · exact .text _
    · refine .tuple fun v hv => ?_
      simp only [List.mem_cons, List.not_mem_nil, or_false] at hv
      rcases hv with rfl | rfl | rfl
      · exact .int (by decide)
      · exact .float rfl
      · exact .null
    · exact .list (by simp)
  refine ⟨hplain, (literal_reads_back assorted).1 hplain, (literal_reads_back _).2.2 ?_⟩
  exact ⟨.set [.null], .item rfl (by simp) .self, by simp [obstacle?]⟩

/-- An integer has no literal. -/
theorem overlong_without_literal :
    ∃ n : Int, n = 10 ^ 4300 ∧ (Value.int n).literal = .error .overlong :=
  ⟨overlong, rfl, by rw [literal, if_pos isLong_overlong]⟩

end Value

end Stratagem
