import Stratagem.Code
import Stratagem.Proofs.Script.Token

/-! The grammar of generated expressions. A choice binds weakest; then come `or`, `and`, `not`,
comparisons and membership (which are not chained here), `|`, `&`, sums, products, signs, and
tightest what stands behind a value: attributes, subscripts and calls. `parse` takes an expression
that binds at least as tightly as a level off the front, and `climb` goes on behind one that is
already read. -/

namespace Stratagem.Script

inductive Unary where
  | negative | invert | not
  deriving DecidableEq

inductive Binary where
  | or | and
  | relation (r : Relation)
  | member (negated : Bool)
  | bitOr | bitAnd
  | arith (op : Arith)
  deriving DecidableEq

mutual

inductive Expr where
  | name (s : String)
  | integer (n : Nat)
  | float (x : Binary64)
  | text (s : String)
  | list (items : ArgList)
  | attribute (e : Expr) (name : String)
  | subscript (e index : Expr)
  | call (f : Expr) (arguments : ArgList)
  | unary (op : Unary) (e : Expr)
  | binary (op : Binary) (left right : Expr)
  | choice (then_ condition else_ : Expr)

inductive ArgList where
  | nil
  | cons (keyword : Option String) (value : Expr) (rest : ArgList)

end

def ArgList.append : ArgList → ArgList → ArgList
  | .nil, others => others
  | .cons keyword value rest, others => .cons keyword value (rest.append others)

theorem ArgList.append_nil : ∀ xs : ArgList, xs.append .nil = xs
  | .nil => rfl
  | .cons _ _ rest => by rw [append, rest.append_nil]

theorem ArgList.append_assoc :
    ∀ xs ys zs : ArgList, (xs.append ys).append zs = xs.append (ys.append zs)
  | .nil, _, _ => rfl
  | .cons _ _ rest, ys, zs => by rw [append, append, append, rest.append_assoc]

/-- No argument has a keyword. -/
def ArgList.positional : ArgList → Bool
  | .nil => true
  | .cons keyword _ rest => keyword.isNone && rest.positional

/-! ## Precedence -/

/-- How tightly an operator binds. Choices have level 1, `not` has level 4, signs have level 10. -/
def Binary.level : Binary → Nat
  | .or => 2
  | .and => 3
  | .relation _ | .member _ => 5
  | .bitOr => 6
  | .bitAnd => 7
  | .arith .add | .arith .sub => 8
  | .arith .mul | .arith .div => 9

/-- Words that are no names. -/
def keywords : List String :=
  ["and", "as", "assert", "async", "await", "break", "class", "continue", "def", "del", "elif",
   "else", "except", "finally", "for", "from", "global", "if", "import", "in", "is", "lambda",
   "nonlocal", "not", "or", "pass", "raise", "return", "try", "while", "with", "yield"]

/-- An operator between two expressions. -/
def operator? : List Token → Option (Binary × List Token)
  | .name "or" :: rest => some (.or, rest)
  | .name "and" :: rest => some (.and, rest)
  | .name "in" :: rest => some (.member false, rest)
  | .name "not" :: .name "in" :: rest => some (.member true, rest)
  | .symbol "==" :: rest => some (.relation .eq, rest)
  | .symbol "!=" :: rest => some (.relation .neq, rest)
  | .symbol ">" :: rest => some (.relation .gt, rest)
  | .symbol ">=" :: rest => some (.relation .gte, rest)
  | .symbol "<" :: rest => some (.relation .lt, rest)
  | .symbol "<=" :: rest => some (.relation .lte, rest)
  | .symbol "|" :: rest => some (.bitOr, rest)
  | .symbol "&" :: rest => some (.bitAnd, rest)
  | .symbol "+" :: rest => some (.arith .add, rest)
  | .symbol "-" :: rest => some (.arith .sub, rest)
  | .symbol "*" :: rest => some (.arith .mul, rest)
  | .symbol "/" :: rest => some (.arith .div, rest)
  | _ => none

/-- A second comparison right behind one. -/
def chains (op : Binary) (rest : List Token) : Bool :=
  op.level == 5 && (operator? rest).any fun (next, _) => next.level == 5

/-! ## Reading -/

/-- What was read, if it took something off the front. -/
def within {α : Type} (ts : List Token) (read : Option (α × List Token)) :
    Option (α × {rest : List Token // rest.length < ts.length}) :=
  read.bind fun (a, rest) => if h : rest.length < ts.length then some (a, ⟨rest, h⟩) else none

/-- What was read, if a token follows; the token is taken too. -/
def upTo {α : Type} (t : Token) (read : Option (α × List Token)) : Option (α × List Token) :=
  read.bind fun (a, rest) => if rest.head? = some t then some (a, rest.tail) else none

mutual

def parse (level : Nat) (ts : List Token) : Option (Expr × List Token) :=
  match ts with
  | .integer n :: rest => climb level (.integer n) rest
  | .float x :: rest => climb level (.float x) rest
  | .text s :: rest => climb level (.text s) rest
  | .symbol "-" :: rest =>
    (within rest (parse 10 rest)).bind fun (e, after) => climb level (.unary .negative e) after
  | .symbol "~" :: rest =>
    (within rest (parse 10 rest)).bind fun (e, after) => climb level (.unary .invert e) after
  | .symbol "(" :: rest =>
    (within rest (upTo (.symbol ")") (parse 1 rest))).bind fun (e, after) => climb level e after
  | .symbol "[" :: .symbol "]" :: rest => climb level (.list .nil) rest
  | .symbol "[" :: rest =>
    (within rest (arguments "]" rest)).bind fun (items, after) =>
      if items.positional then climb level (.list items) after else none
  | .name "not" :: rest =>
    if level ≤ 4 then
      (within rest (parse 4 rest)).bind fun (e, after) => climb level (.unary .not e) after
    else none
  | .name s :: rest => if s ∈ keywords then none else climb level (.name s) rest
  | _ => none
termination_by (ts.length, 0)

def climb (level : Nat) (left : Expr) (ts : List Token) : Option (Expr × List Token) :=
  match ts with
  | .symbol "." :: .name s :: rest =>
    if s ∈ keywords then none else climb level (.attribute left s) rest
  | .symbol "[" :: rest =>
    (within rest (upTo (.symbol "]") (parse 1 rest))).bind fun (index, after) =>
      climb level (.subscript left index) after
  | .symbol "(" :: .symbol ")" :: rest => climb level (.call left .nil) rest
  | .symbol "(" :: rest =>
    (within rest (arguments ")" rest)).bind fun (items, after) =>
      climb level (.call left items) after
  | .name "if" :: rest =>
    if level ≤ 1 then
      (within rest (upTo (.name "else") (parse 2 rest))).bind fun (condition, after) =>
        (parse 1 after).map fun (e, rest) => (.choice left condition e, rest)
    else some (left, ts)
  | ts =>
    match within ts (operator? ts) with
    | none => some (left, ts)
    | some (op, rest) =>
      if level ≤ op.level then
        (within rest (parse (op.level + 1) rest)).bind fun (right, after) =>
          if chains op after then none else climb level (.binary op left right) after
      else some (left, ts)
termination_by (ts.length, 0)

/-- The arguments up to a closing bracket: at least one, with commas between them. -/
def arguments (close : String) (ts : List Token) : Option (ArgList × List Token) :=
  match ts with
  | .name keyword :: .symbol "=" :: rest =>
    (within rest (parse 1 rest)).bind fun (value, after) =>
      (trailing close after).map fun (items, rest) => (.cons (some keyword) value items, rest)
  | ts =>
    (within ts (parse 1 ts)).bind fun (value, after) =>
      (trailing close after).map fun (items, rest) => (.cons none value items, rest)
termination_by (ts.length, 2)

/-- What comes behind an argument: the closing bracket, or a comma and more arguments. -/
def trailing (close : String) (ts : List Token) : Option (ArgList × List Token) :=
  match ts with
  | .symbol "," :: rest => arguments close rest
  | .symbol s :: rest => if s = close then some (.nil, rest) else none
  | _ => none
termination_by (ts.length, 1)

end

/-- The expression that a line of code is. -/
def read (s : String) : Option Expr :=
  (lex s.toList).bind fun ts => (parse 1 ts).bind fun (e, rest) =>
    if rest = [] then some e else none

/-! ## One step at a time -/

/-- The level at which the front of some tokens goes on behind an expression. -/
def follower? : List Token → Option Nat
  | .symbol "." :: _ | .symbol "[" :: _ | .symbol "(" :: _ => some 11
  | .name "if" :: _ => some 1
  | ts => (operator? ts).map fun (op, _) => op.level

def continues (level : Nat) (ts : List Token) : Bool := (follower? ts).any (level ≤ ·)

theorem continues_anti {low high : Nat} (hl : low ≤ high) {ts : List Token}
    (h : continues low ts = false) : continues high ts = false := by
  unfold continues at h ⊢
  cases hf : follower? ts with
  | none => rfl
  | some k => simp_all; omega

theorem follower?_operator {ts rest : List Token} {op : Binary}
    (h : operator? ts = some (op, rest)) : follower? ts = some op.level := by
  rw [follower?.eq_def]
  split
  · simp [operator?] at h
  · simp [operator?] at h
  · simp [operator?] at h
  · simp [operator?] at h
  · simp [h]

theorem operator?_length {ts rest : List Token} {op : Binary} (h : operator? ts = some (op, rest)) :
    rest.length < ts.length := by
  unfold operator? at h
  split at h <;> first
    | (obtain ⟨rfl, rfl⟩ := by simpa using h
       simp)
    | simp at h

theorem within_some {α : Type} {ts rest : List Token} (a : α) (h : rest.length < ts.length) :
    within ts (some (a, rest)) = some (a, ⟨rest, h⟩) := by
  simp [within, h]

theorem climb_stop {level : Nat} (hl : level ≤ 10) (left : Expr) {ts : List Token}
    (h : continues level ts = false) : climb level left ts = some (left, ts) := by
  rw [climb.eq_def]
  split
  · simp [continues, follower?] at h; omega
  · simp [continues, follower?] at h; omega
  · simp [continues, follower?] at h; omega
  · simp [continues, follower?] at h; omega
  · rw [if_neg]
    simpa [continues, follower?] using h
  · cases hop : operator? ts with
    | none => rfl
    | some p =>
      obtain ⟨op, rest⟩ := p
      rw [within_some op (operator?_length hop)]
      simp only [continues, follower?_operator hop, Option.any_some, decide_eq_false_iff_not] at h
      simp [h]

theorem climb_binary {level : Nat} (left : Expr) {right : Expr} {op : Binary}
    {ts rest after : List Token} (hop : operator? ts = some (op, rest)) (hl : level ≤ op.level)
    (hr : parse (op.level + 1) rest = some (right, after)) (hlt : after.length < rest.length)
    (hc : chains op after = false) :
    climb level left ts = climb level (.binary op left right) after := by
  rw [climb.eq_def]
  split
  · simp [operator?] at hop
  · simp [operator?] at hop
  · simp [operator?] at hop
  · simp [operator?] at hop
  · simp [operator?] at hop
  · rw [hop, within_some op (operator?_length hop)]
    simp [hl, hr, within_some right hlt, hc]

theorem climb_attribute {s : String} (hs : s ∉ keywords) (level : Nat) (left : Expr)
    (rest : List Token) : climb level left (.symbol "." :: .name s :: rest) =
      climb level (.attribute left s) rest := by
  rw [climb.eq_def]
  simp [hs]

theorem climb_subscript (level : Nat) (left : Expr) {index : Expr} {ts rest : List Token}
    (h : parse 1 ts = some (index, .symbol "]" :: rest)) (hr : rest.length < ts.length) :
    climb level left (.symbol "[" :: ts) = climb level (.subscript left index) rest := by
  rw [climb.eq_def]
  simp [h, upTo, within_some, hr]

theorem climb_call_none (level : Nat) (left : Expr) (rest : List Token) :
    climb level left (.symbol "(" :: .symbol ")" :: rest) = climb level (.call left .nil) rest := by
  rw [climb.eq_def]
  simp

private theorem parse_closing {s : String} (hs : s = ")" ∨ s = "]") (ts : List Token) :
    parse 1 (.symbol s :: ts) = none := by
  rw [parse.eq_def]
  rcases hs with rfl | rfl <;> simp

/-- A bracket that closes is no argument. -/
private theorem head?_of_arguments {s close : String} (hs : s = ")" ∨ s = "]") {items : ArgList}
    {ts rest : List Token} (h : arguments close ts = some (items, rest)) :
    ts.head? ≠ some (.symbol s) := by
  intro hts
  rw [arguments.eq_def] at h
  split at h
  · simp at hts
  · obtain ⟨t, ts', rfl⟩ := List.exists_cons_of_ne_nil (by rintro rfl; simp at hts : ts ≠ [])
    obtain rfl : t = .symbol s := by simpa using hts
    simp [parse_closing hs, within] at h

theorem climb_call (level : Nat) (left : Expr) {items : ArgList} {ts rest : List Token}
    (h : arguments ")" ts = some (items, rest)) (hr : rest.length < ts.length) :
    climb level left (.symbol "(" :: ts) = climb level (.call left items) rest := by
  have hne := head?_of_arguments (.inl rfl) h
  rw [climb.eq_def]
  split <;> simp_all [within_some]

theorem climb_choice {level : Nat} (hl : level ≤ 1) (left : Expr) {condition e : Expr}
    {ts rest after : List Token} (h : parse 2 ts = some (condition, .name "else" :: rest))
    (hr : rest.length < ts.length) (he : parse 1 rest = some (e, after)) :
    climb level left (.name "if" :: ts) = some (.choice left condition e, after) := by
  rw [climb.eq_def]
  simp [hl, h, upTo, within_some, hr, he]

theorem parse_name {s : String} (hs : s ∉ keywords) (level : Nat) (rest : List Token) :
    parse level (.name s :: rest) = climb level (.name s) rest := by
  have hnot : s ≠ "not" := by rintro rfl; exact hs (by decide)
  rw [parse.eq_def]
  split <;> simp_all

theorem parse_paren (level : Nat) {e : Expr} {ts rest : List Token}
    (h : parse 1 ts = some (e, .symbol ")" :: rest)) (hr : rest.length < ts.length) :
    parse level (.symbol "(" :: ts) = climb level e rest := by
  rw [parse.eq_def]
  simp [h, upTo, within_some, hr]

theorem parse_negative (level : Nat) {e : Expr} {ts rest : List Token}
    (h : parse 10 ts = some (e, rest)) (hr : rest.length < ts.length) :
    parse level (.symbol "-" :: ts) = climb level (.unary .negative e) rest := by
  rw [parse.eq_def]
  simp [h, within_some, hr]

theorem parse_invert (level : Nat) {e : Expr} {ts rest : List Token}
    (h : parse 10 ts = some (e, rest)) (hr : rest.length < ts.length) :
    parse level (.symbol "~" :: ts) = climb level (.unary .invert e) rest := by
  rw [parse.eq_def]
  simp [h, within_some, hr]

theorem parse_not {level : Nat} (hl : level ≤ 4) {e : Expr} {ts rest : List Token}
    (h : parse 4 ts = some (e, rest)) (hr : rest.length < ts.length) :
    parse level (.name "not" :: ts) = climb level (.unary .not e) rest := by
  rw [parse.eq_def]
  simp [hl, h, within_some, hr]

theorem parse_list_none (level : Nat) (rest : List Token) :
    parse level (.symbol "[" :: .symbol "]" :: rest) = climb level (.list .nil) rest := by
  rw [parse.eq_def]
  simp

theorem parse_list (level : Nat) {items : ArgList} (hp : items.positional = true)
    {ts rest : List Token} (h : arguments "]" ts = some (items, rest))
    (hr : rest.length < ts.length) :
    parse level (.symbol "[" :: ts) = climb level (.list items) rest := by
  have hne := head?_of_arguments (.inr rfl) h
  rw [parse.eq_def]
  split <;> simp_all [within_some]

theorem arguments_keyword (close keyword : String) {value : Expr} {ts after : List Token}
    (h : parse 1 ts = some (value, after)) (hr : after.length < ts.length) :
    arguments close (.name keyword :: .symbol "=" :: ts) =
      (trailing close after).map fun (items, rest) => (.cons (some keyword) value items, rest) := by
  rw [arguments]
  simp [h, within_some, hr]

/-- A name before `=` is no expression with something else behind it. -/
private theorem parse_before_equals {s : String} {value : Expr} {ts after : List Token}
    (h : parse 1 (.name s :: .symbol "=" :: ts) = some (value, after)) :
    after.head? = some (.symbol "=") := by
  by_cases hs : s ∈ keywords
  · have hequals : parse 4 (.symbol "=" :: ts) = none := by rw [parse.eq_def]; simp
    rw [parse.eq_def] at h
    split at h <;> simp_all [within]
  · rw [parse_name hs, climb_stop (by decide) _ rfl] at h
    obtain ⟨-, rfl⟩ := by simpa using h
    rfl

theorem arguments_value (close : String) {value : Expr} {ts after : List Token}
    (h : parse 1 ts = some (value, after)) (hr : after.length < ts.length)
    (ha : after.head? ≠ some (.symbol "=")) :
    arguments close ts =
      (trailing close after).map fun (items, rest) => (.cons none value items, rest) := by
  rw [arguments.eq_def]
  split
  · exact absurd (parse_before_equals h) ha
  · simp [h, within_some, hr]

theorem trailing_comma (close : String) (rest : List Token) :
    trailing close (.symbol "," :: rest) = arguments close rest := by
  rw [trailing]

theorem trailing_close {close : String} (hc : close ≠ ",") (rest : List Token) :
    trailing close (.symbol close :: rest) = some (.nil, rest) := by
  rw [trailing.eq_def]
  split <;> simp_all

end Stratagem.Script
