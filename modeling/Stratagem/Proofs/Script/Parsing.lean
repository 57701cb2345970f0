import Stratagem.Proofs.Script.Spelling

/-! Grouped code parses as its script. The statement is about code with anything behind it that does
not bind to it more tightly than the code holds together, so that it can be proved by induction on
the code: first for one expression, then for arguments with commas. -/

namespace Stratagem.Code

open Script

variable {c left right : Code} {level : Nat} {rest : List Token}

/-- An expression is taken off the front as a whole. -/
def Parses (c : Code) : Prop :=
  ∀ (level : Nat) (rest : List Token), 1 ≤ level → level ≤ c.rank →
    continues (tail c.rank) rest = false →
    parse level (c.tokens ++ rest) = climb level c.script rest

/-- Arguments are taken off the front as a whole, before a comma or the closing bracket. -/
def Lists (c : Code) : Prop :=
  ∀ (close : String) (rest : List Token), close = ")" ∨ close = "]" →
    rest.head? = some (.symbol ",") ∨ rest.head? = some (.symbol close) →
    Script.arguments close (c.tokens ++ rest) =
      (trailing close rest).map fun (items, after) => (c.arguments.append items, after)

theorem tokens_ne_nil (c : Code) : c.tokens ≠ [] := by
  cases c with
  | literal value =>
    cases value with
    | scalar s => cases s <;> simp [tokens, Constant.tokens, Scalar.tokens]
    | list items => simp [tokens, Constant.tokens]
  | candle column ago =>
    rw [tokens, candleTokens.eq_def]
    split <;> simp [subscriptTokens]
  | member negated e items => cases negated <;> simp [tokens, memberTokens]
  | momentPart e part => cases part <;> simp [tokens, TimePart.momentTokens]
  | _ => simp [tokens, subscriptTokens]

theorem length_lt (c : Code) (rest : List Token) : rest.length < (c.tokens ++ rest).length := by
  have := List.length_pos_iff.mpr c.tokens_ne_nil
  rw [List.length_append]
  omega

theorem arguments_of_rank (hc : 1 ≤ c.rank) : c.arguments = .cons none c.script .nil := by
  cases c with
  | also left right => simp [rank] at hc
  | _ => rfl

theorem Parses.stop (h : c.Parses) (hpos : 1 ≤ level) (hc : level ≤ c.rank) (hl : level ≤ 10)
    (hr : continues level rest = false) :
    parse level (c.tokens ++ rest) = some (c.script, rest) := by
  rw [h level rest hpos hc (continues_anti (hc.trans (rank_le_tail _)) hr), climb_stop hl _ hr]

/-- Nothing goes on behind a comma or a closing bracket. -/
private theorem continues_closing {close : String} (hclose : close = ")" ∨ close = "]")
    {rest : List Token}
    (hr : rest.head? = some (.symbol ",") ∨ rest.head? = some (.symbol close)) (level : Nat) :
    continues level rest = false := by
  cases rest with
  | nil => simp at hr
  | cons t rest =>
    have ht : t = .symbol "," ∨ t = .symbol close := by simpa using hr
    rcases ht with rfl | rfl
    · rfl
    · rcases hclose with rfl | rfl <;> rfl

theorem Parses.lists (h : c.Parses) (hc : 1 ≤ c.rank) : c.Lists := by
  intro close rest hclose hr
  have hstop := continues_closing hclose hr 1
  rw [arguments_value close (h.stop (by decide) hc (by decide) hstop) (c.length_lt rest),
    arguments_of_rank hc]
  · rfl
  · rcases hr with hr | hr <;> rcases hclose with rfl | rfl <;> simp [hr]

theorem Lists.also (hl : left.Lists) (hr : right.Lists) : (Code.also left right).Lists := by
  intro close rest hclose hrest
  have harguments : (Code.also left right).arguments = left.arguments.append right.arguments := rfl
  rw [tokens, List.append_assoc, List.cons_append, hl close _ hclose (.inl rfl), trailing_comma,
    hr close rest hclose hrest, Option.map_map, harguments]
  congr 1
  funext p
  simp [ArgList.append_assoc]

/-- Arguments up to the closing bracket. -/
theorem Lists.closed {c : Code} (h : c.Lists) {close : String} (hclose : close = ")" ∨ close = "]")
    (rest : List Token) :
    Script.arguments close (c.tokens ++ .symbol close :: rest) = some (c.arguments, rest) := by
  rw [h close _ hclose (.inr rfl), trailing_close (by rcases hclose with rfl | rfl <;> decide)]
  simp [ArgList.append_nil]

theorem Lists.call (h : c.Lists) (level : Nat) (left : Expr) (rest : List Token) :
    climb level left (.symbol "(" :: (c.tokens ++ .symbol ")" :: rest)) =
      climb level (.call left c.arguments) rest :=
  climb_call level left (h.closed (.inl rfl) rest) (by
    have := c.length_lt (.symbol ")" :: rest)
    simp only [List.length_cons] at this ⊢
    omega)

/-! ## Operators -/

private theorem Binary.level_le (op : Binary) : op.level ≤ 9 := by
  cases op with
  | arith op => cases op <;> decide
  | _ => simp [Binary.level]

/-- What does not go on behind an operation goes on behind its right side neither. -/
private theorem continues_right {op : Binary} (h : continues (tail op.level) rest = false) :
    continues (op.level + 1) rest = false ∧ chains op rest = false := by
  constructor
  · refine continues_anti ?_ h
    unfold tail
    split <;> omega
  · by_cases hop : op.level = 5
    · have h5 : continues 5 rest = false := by simpa [hop, tail] using h
      cases hnext : operator? rest with
      | none => simp [chains, hnext]
      | some p =>
        simp only [continues, follower?_operator hnext, Option.any_some] at h5
        simp_all [chains]
        omega
    · simp [chains, hop]

private theorem parses_binary {op : Binary} {ops : List Token}
    (hop : ∀ ts, operator? (ops ++ ts) = some (op, ts)) (hl : left.Parses) (hr : right.Parses)
    (hs : Sides op left right) (hpos : 1 ≤ level) (hlevel : level ≤ op.level)
    (hrest : continues (tail op.level) rest = false) :
    parse level (left.tokens ++ (ops ++ right.tokens) ++ rest) =
      climb level (.binary op left.script right.script) rest := by
  obtain ⟨hleft, htail, hright⟩ := hs
  obtain ⟨hstop, hchain⟩ := continues_right hrest
  have hfollow : continues (tail left.rank) (ops ++ (right.tokens ++ rest)) = false := by
    simp [continues, follower?_operator (hop _), htail]
  rw [List.append_assoc, List.append_assoc, hl level _ hpos (hlevel.trans hleft) hfollow]
  refine climb_binary _ (hop _) hlevel ?_ (right.length_lt rest) hchain
  exact hr.stop (by omega) hright (Nat.succ_le_succ (Binary.level_le op)) hstop

/-! ## Literals -/

private theorem parse_signed {t : Token} {e : Expr}
    (ht : ∀ level rest, parse level (t :: rest) = climb level e rest) (negative : Bool)
    (hr : continues 10 rest = false) :
    parse level (signTokens negative ++ [t] ++ rest) = climb level (signed negative e) rest := by
  cases negative with
  | false => exact ht level rest
  | true =>
    have hone : parse 10 (t :: rest) = some (e, rest) := by rw [ht, climb_stop (by decide) _ hr]
    exact parse_negative level hone (by simp)

private theorem parses_scalar (s : Scalar) : (Code.literal (.scalar s)).Parses := by
  intro level rest hpos hlevel hr
  cases s with
  | null => exact parse_name (by decide) level rest
  | bool b => exact parse_name (by cases b <;> decide) level rest
  | int n | float x => exact parse_signed (fun _ _ => by rw [parse]) _ hr
  | text s =>
    show parse level (.text s :: rest) = climb level (.text s) rest
    rw [parse]

private theorem arguments_commas (s : Scalar) (items : List Scalar) (rest : List Token) :
    Script.arguments "]" (commas ((s :: items).map Scalar.tokens) ++ .symbol "]" :: rest) =
      some (.ofList ((s :: items).map Scalar.script), rest) := by
  have hlists (s : Scalar) : (Code.literal (.scalar s)).Lists :=
    (parses_scalar s).lists (by cases s <;> simp [rank])
  have hone (s : Scalar) : (Code.literal (.scalar s)).arguments = .cons none s.script .nil :=
    arguments_of_rank (by cases s <;> simp [rank])
  induction items generalizing s with
  | nil =>
    simpa [hone, commas, tokens, Constant.tokens, ArgList.ofList] using
      (hlists s).closed (.inr rfl) rest
  | cons s' items ih =>
    have hrest := hlists s "]"
      (.symbol "," :: (commas ((s' :: items).map Scalar.tokens) ++ .symbol "]" :: rest))
      (.inr rfl) (.inl rfl)
    rw [trailing_comma, ih s', hone] at hrest
    simpa [commas, tokens, Constant.tokens, ArgList.ofList, ArgList.append] using hrest

private theorem positional_ofList (es : List Expr) : (ArgList.ofList es).positional = true := by
  induction es with
  | nil => rfl
  | cons e es ih => simpa [ArgList.ofList, ArgList.positional] using ih

private theorem parses_literal (value : Constant) : (Code.literal value).Parses := by
  cases value with
  | scalar s => exact parses_scalar s
  | list items =>
    intro level rest hpos hlevel hr
    cases items with
    | nil => exact parse_list_none level rest
    | cons s items =>
      have h := arguments_commas s items rest
      have hlt : rest.length <
          (commas ((s :: items).map Scalar.tokens) ++ .symbol "]" :: rest).length := by
        simp
        omega
      simpa [tokens, Constant.tokens, script, Constant.script] using
        parse_list level (positional_ofList _) h hlt

/-! ## What stands behind a value -/

/-- Nothing becomes part of a value that holds together by itself. -/
private theorem continues_twelve (ts : List Token) : continues 12 ts = false := by
  have hlevel (op : Binary) := Binary.level_le op
  unfold continues follower?
  split <;> try rfl
  cases operator? _ with
  | none => rfl
  | some p => simpa using Nat.lt_of_le_of_lt (hlevel p.1) (by decide)

private theorem parses_behind {e : Code} (he : e.Parses) (hrank : e.rank = 11) (hpos : 1 ≤ level)
    (hlevel : level ≤ 11) (ts : List Token) :
    parse level (e.tokens ++ ts) = climb level e.script ts :=
  he level ts hpos (hrank ▸ hlevel) (by rw [hrank]; exact continues_twelve ts)

private theorem parse_token {t : Token} {e : Expr}
    (ht : ∀ level rest, parse level (t :: rest) = climb level e rest) {close : String}
    (hclose : close = ")" ∨ close = "]") (rest : List Token) :
    parse 1 (t :: .symbol close :: rest) = some (e, .symbol close :: rest) := by
  rw [ht, climb_stop (by decide)]
  exact continues_closing hclose (.inr rfl) 1

private theorem climb_call_token {t : Token} {e : Expr}
    (ht : ∀ level rest, parse level (t :: rest) = climb level e rest) (level : Nat) (left : Expr)
    (rest : List Token) : climb level left (.symbol "(" :: t :: .symbol ")" :: rest) =
      climb level (.call left (.ofList [e])) rest := by
  refine climb_call level left ?_ (by simp)
  rw [arguments_value ")" (parse_token ht (.inl rfl) rest) (by simp) (by simp),
    trailing_close (by decide)]
  rfl

private theorem parse_text (s : String) (level : Nat) (rest : List Token) :
    parse level (.text s :: rest) = climb level (.text s) rest := by rw [parse]

private theorem parse_integer (n level : Nat) (rest : List Token) :
    parse level (.integer n :: rest) = climb level (.integer n) rest := by rw [parse]

private theorem parse_subscript {table : String} (ht : table ∉ keywords) (column : String)
    (level : Nat) (rest : List Token) :
    parse level (subscriptTokens table column ++ rest) =
      climb level (.subscript (.name table) (.text column)) rest := by
  simp only [subscriptTokens, List.cons_append, List.nil_append]
  rw [parse_name ht]
  exact climb_subscript level _ (parse_token (parse_text column) (.inr rfl) rest) (by simp)

private theorem parses_candle (column : String) (ago : Nat) : (Code.candle column ago).Parses := by
  intro level rest hpos hlevel hr
  rw [tokens, script, candleTokens.eq_def, candleScript.eq_def]
  split
  · exact parse_subscript (by decide) column level rest
  · exact parse_subscript (by decide) column level rest
  · rw [List.append_assoc, parse_subscript (by decide)]
    simp only [List.cons_append, List.nil_append]
    rw [climb_attribute (by decide)]
    refine climb_subscript level _ ?_ (by simp; omega)
    have h : parse 10 (.integer (ago + 1) :: .symbol "]" :: rest) =
        some (.integer (ago + 1), .symbol "]" :: rest) := by
      rw [parse_integer, climb_stop (by decide) _ rfl]
    rw [parse_negative 1 h (by simp), climb_stop (by decide) _ rfl]

private theorem climb_momentPart (part : TimePart) (level : Nat) (left : Expr)
    (rest : List Token) :
    climb level left (part.momentTokens ++ rest) = climb level (part.momentScript left) rest := by
  cases part with
  | dayOfWeek =>
    show climb level left (.symbol "." :: .name "weekday" :: .symbol "(" :: .symbol ")" :: rest) = _
    rw [climb_attribute (by decide), climb_call_none]
    rfl
  | _ => exact climb_attribute (by decide) level left rest

private theorem parse_library {library f : String} (hlibrary : library ∉ keywords)
    (hf : f ∉ keywords) (hc : c.Lists) (level : Nat) (rest : List Token) :
    parse level (([.name library, .symbol ".", .name f, .symbol "("] : List Token) ++
        (c.tokens ++ ([.symbol ")"] : List Token)) ++ rest) =
      climb level (.call (.attribute (.name library) f) c.arguments) rest := by
  simp only [List.cons_append, List.nil_append, List.append_assoc]
  rw [parse_name hlibrary, climb_attribute hf, hc.call]

private theorem arguments_also (hl : 1 ≤ left.rank) (hr : 1 ≤ right.rank) :
    (Code.also left right).arguments = .ofList [left.script, right.script] := by
  show left.arguments.append right.arguments = _
  rw [arguments_of_rank hl, arguments_of_rank hr]
  rfl

private theorem climb_broadcast {e : Code} (he : e.Lists) (hrank : 1 ≤ e.rank) (level : Nat)
    (left : Expr) (rest : List Token) :
    climb level left (.symbol "(" :: (e.tokens ++ ([.symbol ",", .name "index", .symbol "=",
        .name "dataframe", .symbol ".", .name "index", .symbol ")"] : List Token) ++ rest)) =
      climb level (.call left (.cons none e.script
        (.cons (some "index") (.attribute (.name "dataframe") "index") .nil))) rest := by
  have hindex : parse 1 (.name "dataframe" :: .symbol "." :: .name "index" :: .symbol ")" :: rest) =
      some (.attribute (.name "dataframe") "index", .symbol ")" :: rest) := by
    rw [parse_name (by decide), climb_attribute (by decide), climb_stop (by decide) _ rfl]
  refine climb_call level left ?_ (by simp; omega)
  simp only [List.append_assoc, List.cons_append, List.nil_append]
  rw [he ")" _ (.inl rfl) (.inl rfl), trailing_comma,
    arguments_keyword ")" "index" hindex (by simp), trailing_close (by decide),
    arguments_of_rank hrank]
  rfl

/-! ## All code -/

/-- Code that is no list of arguments is an argument if it is an expression. -/
private theorem parses_and_lists (hrank : 1 ≤ c.rank) (h : c.Parses) :
    c.Parses ∧ c.Lists := ⟨h, h.lists hrank⟩

private theorem operator?_arith (op : Arith) (ts : List Token) :
    operator? ([.symbol op.symbol] ++ ts) = some (.arith op, ts) := by cases op <;> rfl

private theorem operator?_relation (r : Relation) (ts : List Token) :
    operator? ([.symbol r.symbol] ++ ts) = some (.relation r, ts) := by cases r <;> rfl

private theorem operator?_join (c : Connective) (ts : List Token) :
    operator? ([joinTokens c] ++ ts) = some (c.binary, ts) := by cases c <;> rfl

private theorem operator?_member (negated : Bool) (ts : List Token) :
    operator? (memberTokens negated ++ ts) = some (.member negated, ts) := by
  cases negated <;> rfl

theorem parses_of_grouped (c : Code) (h : c.Grouped) : c.Parses ∧ c.Lists := by
  induction c with
  | literal value =>
    refine parses_and_lists ?_ (parses_literal value)
    cases value with
    | scalar s => cases s <;> simp [rank]
    | list items => simp [rank]
  | «variable» name =>
    exact parses_and_lists (by simp [rank]) fun level rest _ _ _ => parse_name h.2 level rest
  | column name =>
    exact parses_and_lists (by simp [rank]) fun level rest _ _ _ =>
      parse_subscript (by decide) name level rest
  | candle name ago => exact parses_and_lists (by simp [rank]) (parses_candle name ago)
  | shifted e candles ih =>
    refine parses_and_lists (by simp [rank]) fun level rest hpos hlevel _ => ?_
    rw [tokens, List.append_assoc, parses_behind (ih h.1).1 h.2 hpos hlevel]
    simp only [List.cons_append, List.nil_append]
    rw [climb_attribute (by decide), climb_call_token (parse_integer candles)]
    rfl
  | seriesZone e zone ih =>
    refine parses_and_lists (by simp [rank]) fun level rest hpos hlevel _ => ?_
    rw [tokens, List.append_assoc, parses_behind (ih h.1).1 h.2 hpos hlevel]
    simp only [List.cons_append, List.nil_append]
    rw [climb_attribute (by decide), climb_attribute (by decide),
      climb_call_token (parse_text zone)]
    rfl
  | seriesPart e part ih =>
    refine parses_and_lists (by simp [rank]) fun level rest hpos hlevel _ => ?_
    rw [tokens, List.append_assoc, parses_behind (ih h.1).1 h.2 hpos hlevel]
    simp only [List.cons_append, List.nil_append]
    rw [climb_attribute (by decide), climb_attribute (by cases part <;> decide)]
    rfl
  | momentZone e zone ih =>
    refine parses_and_lists (by simp [rank]) fun level rest hpos hlevel _ => ?_
    have hzone : parse 1 (.name "ZoneInfo" :: .symbol "(" :: .text zone :: .symbol ")" ::
        .symbol ")" :: rest) =
          some (.call (.name "ZoneInfo") (.ofList [.text zone]), .symbol ")" :: rest) := by
      rw [parse_name (by decide), climb_call_token (parse_text zone), climb_stop (by decide) _ rfl]
    rw [tokens, List.append_assoc, parses_behind (ih h.1).1 h.2 hpos hlevel]
    simp only [List.cons_append, List.nil_append]
    rw [climb_attribute (by decide)]
    refine climb_call level _ ?_ (by simp; omega)
    rw [arguments_value ")" hzone (by simp) (by simp), trailing_close (by decide)]
    rfl
  | momentPart e part ih =>
    refine parses_and_lists (by simp [rank]) fun level rest hpos hlevel _ => ?_
    rw [tokens, List.append_assoc, parses_behind (ih h.1).1 h.2 hpos hlevel, climb_momentPart]
    rfl
  | paren e ih =>
    refine parses_and_lists (by simp [rank]) fun level rest hpos hlevel _ => ?_
    have he : parse 1 (e.tokens ++ .symbol ")" :: rest) = some (e.script, .symbol ")" :: rest) :=
      (ih h.1).1.stop (by decide) h.2 (by decide) rfl
    simpa [tokens, script] using parse_paren level he (by simp; omega)
  | arith op left right ihl ihr =>
    have hlevel : 1 ≤ (Binary.arith op).level := by cases op <;> decide
    refine parses_and_lists hlevel fun level rest hpos hle hr => ?_
    exact parses_binary (operator?_arith op) (ihl h.1).1 (ihr h.2.1).1 h.2.2 hpos hle hr
  | compare r left right ihl ihr =>
    refine parses_and_lists (by simp [rank]) fun level rest hpos hle hr => ?_
    exact parses_binary (operator?_relation r) (ihl h.1).1 (ihr h.2.1).1 h.2.2 hpos hle hr
  | join c left right ihl ihr =>
    have hlevel : 1 ≤ c.binary.level := by cases c <;> decide
    refine parses_and_lists hlevel fun level rest hpos hle hr => ?_
    exact parses_binary (operator?_join c) (ihl h.1).1 (ihr h.2.1).1 h.2.2 hpos hle hr
  | member negated e items ihl ihr =>
    refine parses_and_lists (by simp [rank]) fun level rest hpos hle hr => ?_
    exact parses_binary (operator?_member negated) (ihl h.1).1 (ihr h.2.1).1 h.2.2 hpos hle hr
  | negative e ih =>
    refine parses_and_lists (by simp [rank]) fun level rest hpos hlevel hr => ?_
    exact parse_negative level ((ih h.1).1.stop (by decide) h.2 (by decide) hr) (e.length_lt rest)
  | invert e ih =>
    refine parses_and_lists (by simp [rank]) fun level rest hpos hlevel hr => ?_
    exact parse_invert level ((ih h.1).1.stop (by decide) h.2 (by decide) hr) (e.length_lt rest)
  | not e ih =>
    refine parses_and_lists (by simp [rank]) fun level rest hpos hlevel hr => ?_
    exact parse_not hlevel ((ih h.1).1.stop (by decide) h.2 (by decide) hr) (e.length_lt rest)
  | pointwise f e ih =>
    refine parses_and_lists (by simp [rank]) fun level rest hpos hlevel hr => ?_
    rw [tokens, parse_library (by decide) (by cases f <;> decide) (ih h.1).2,
      arguments_of_rank h.2]
    rfl
  | pairwise f left right ihl ihr =>
    obtain ⟨hl, hr, hrankl, hrankr⟩ := h
    refine parses_and_lists (by simp [rank]) fun level rest hpos hlevel _ => ?_
    have hcall := parse_library (by decide : "np" ∉ keywords)
      (by cases f <;> decide : f.name ++ "imum" ∉ keywords)
      ((ihl hl).2.also (ihr hr).2) level rest
    rw [arguments_also hrankl hrankr] at hcall
    exact hcall
  | also left right ihl ihr =>
    refine ⟨fun level rest hpos hlevel => ?_, (ihl h.1).2.also (ihr h.2).2⟩
    simp only [rank] at hlevel
    omega
  | extremum f a ih =>
    refine parses_and_lists (by simp [rank]) fun level rest hpos hlevel _ => ?_
    rw [tokens]
    simp only [List.cons_append, List.nil_append, List.append_assoc]
    rw [parse_name (by cases f <;> decide), (ih h).2.call]
    rfl
  | isIn e items ihe ihi =>
    obtain ⟨he, hi, hranke, hranki⟩ := h
    refine parses_and_lists (by simp [rank]) fun level rest hpos hlevel _ => ?_
    rw [tokens, List.append_assoc, parses_behind (ihe he).1 hranke hpos hlevel]
    simp only [List.cons_append, List.nil_append, List.append_assoc]
    rw [climb_attribute (by decide), (ihi hi).2.call, arguments_of_rank hranki]
    rfl
  | choose condition then_ else_ ihc iht ihe =>
    obtain ⟨hc, ht, he, hrankc, hrankt, hranke⟩ := h
    refine parses_and_lists (by simp [rank]) fun level rest hpos hlevel _ => ?_
    have hcall := parse_library (by decide : "np" ∉ keywords) (by decide : "where" ∉ keywords)
      (((ihc hc).2.also (iht ht).2).also (ihe he).2) level rest
    have hlist : (Code.also (.also condition then_) else_).arguments =
        .ofList [condition.script, then_.script, else_.script] := by
      show (Code.also condition then_).arguments.append else_.arguments = _
      rw [arguments_also hrankc hrankt, arguments_of_rank hranke]
      rfl
    rw [hlist] at hcall
    exact hcall
  | broadcast e ih =>
    refine parses_and_lists (by simp [rank]) fun level rest hpos hlevel _ => ?_
    rw [tokens]
    simp only [List.cons_append, List.nil_append]
    rw [parse_name (by decide), climb_attribute (by decide), climb_broadcast (ih h.1).2 h.2]
    rfl
  | crossed above left right ihl ihr =>
    obtain ⟨hl, hr, hrankl, hrankr⟩ := h
    refine parses_and_lists (by simp [rank]) fun level rest hpos hlevel _ => ?_
    have hcall := parse_library (by decide : "qtpylib" ∉ keywords)
      (by cases above <;> decide : crossingWord above ∉ keywords)
      ((ihl hl).2.also (ihr hr).2) level rest
    rw [arguments_also hrankl hrankr] at hcall
    exact hcall
  | ifElse then_ condition else_ iht ihc ihe =>
    obtain ⟨ht, hc, he, hrankt, hrankc, hranke⟩ := h
    refine parses_and_lists (by simp [rank]) fun level rest hpos hlevel hr => ?_
    have hr : continues 1 rest = false := hr
    have htail : ¬ tail then_.rank ≤ 1 := by
      have := rank_le_tail then_.rank
      omega
    have hc : parse 2 (condition.tokens ++ .name "else" :: (else_.tokens ++ rest)) =
        some (condition.script, .name "else" :: (else_.tokens ++ rest)) :=
      (ihc hc).1.stop (by decide) hrankc (by decide) rfl
    have he : parse 1 (else_.tokens ++ rest) = some (else_.script, rest) :=
      (ihe he).1.stop (by decide) hranke (by decide) hr
    obtain rfl : level = 1 := Nat.le_antisymm hlevel hpos
    rw [tokens, script, climb_stop (by decide) _ hr]
    simp only [List.append_assoc, List.cons_append]
    rw [(iht ht).1 1 _ (by decide) (by omega) (by simp [continues, follower?, htail])]
    exact climb_choice (by decide) _ hc (by simp; omega) he

end Stratagem.Code
