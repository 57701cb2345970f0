import Stratagem.Proofs.Emission.Grouping
import Stratagem.Proofs.Script.Brackets

/-! How many brackets emitted code opens at once. Every rule adds at most two brackets around its
parts, with one exception: in series scope a minimum or maximum is folded from the left, one call
around the other, and so opens a bracket for each operand but one. The levels of a tree are bounded
by the depth limit; `Node.folds` counts what the exception adds. -/

namespace Stratagem

/-! ## Folds -/

/-- The operations that take their operands two at a time. -/
def Operation.isExtremum : Operation → Bool
  | .min | .max => true
  | _ => false

mutual

/-- How often operands are folded two by two on the way down one path: a minimum or maximum of `n`
operands folds `n - 1` times. The path is the one with the most folds. -/
def Operand.folds : Operand → Nat
  | .computed operation operands =>
    (if operation.isExtremum then operands.length - 1 else 0) + Operand.foldss operands
  | _ => 0

def Operand.foldss : List Operand → Nat
  | [] => 0
  | o :: rest => max o.folds (Operand.foldss rest)

end

mutual

def Condition.folds : Condition → Nat
  | .all _ children | .any _ children => Condition.foldss children
  | .not _ child => child.folds
  | .ifThen _ c t => max c.folds t.folds
  | .ifThenElse _ c t e => max c.folds (max t.folds e.folds)
  | .compare _ left _ right => max left.folds right.folds
  | .crossover _ a b | .crossunder _ a b => max a.folds b.folds
  | .inRange _ v low high _ => max v.folds (max low.folds high.folds)

def Condition.foldss : List Condition → Nat
  | [] => 0
  | c :: rest => max c.folds (Condition.foldss rest)

end

def Node.folds : Node → Nat
  | .condition c => c.folds
  | .operand o => o.folds

/-- The folds of a node itself. -/
def Node.ownFolds : Node → Nat
  | .operand (.computed operation operands) =>
    if operation.isExtremum then operands.length - 1 else 0
  | _ => 0

theorem Operand.folds_le_foldss {o : Operand} {os : List Operand} (h : o ∈ os) :
    o.folds ≤ Operand.foldss os := by
  induction os with
  | nil => cases h
  | cons p rest ih =>
    rw [Operand.foldss]
    rcases List.mem_cons.mp h with rfl | h
    · exact Nat.le_max_left _ _
    · exact (ih h).trans (Nat.le_max_right _ _)

theorem Condition.folds_le_foldss {c : Condition} {cs : List Condition} (h : c ∈ cs) :
    c.folds ≤ Condition.foldss cs := by
  induction cs with
  | nil => cases h
  | cons d rest ih =>
    rw [Condition.foldss]
    rcases List.mem_cons.mp h with rfl | h
    · exact Nat.le_max_left _ _
    · exact (ih h).trans (Nat.le_max_right _ _)

/-- The folds of a node come on top of those of its parts. -/
theorem Node.ownFolds_add_le {n m : Node} (h : m ∈ n.children) :
    n.ownFolds + m.folds ≤ n.folds := by
  cases n with
  | operand o =>
    cases o with
    | computed operation operands =>
      obtain ⟨o, ho, rfl⟩ := List.mem_map.mp h
      exact Nat.add_le_add_left (Operand.folds_le_foldss ho)
        (if operation.isExtremum then operands.length - 1 else 0)
    | _ => cases h
  | condition c =>
    rw [Node.ownFolds, Nat.zero_add]
    · cases c with
      | all _ children | any _ children =>
        obtain ⟨c, hc, rfl⟩ := List.mem_map.mp h
        exact Condition.folds_le_foldss hc
      | not _ child =>
        obtain rfl := List.mem_singleton.mp h
        exact Nat.le_refl _
      | ifThen _ c t | compare _ left _ right | crossover _ a b | crossunder _ a b =>
        simp only [Node.children, List.mem_cons, List.not_mem_nil, or_false] at h
        rcases h with rfl | rfl <;> simp [Node.folds, Condition.folds]
      | ifThenElse _ c t e | inRange _ v low high _ =>
        simp only [Node.children, List.mem_cons, List.not_mem_nil, or_false] at h
        rcases h with rfl | rfl | rfl <;> simp [Node.folds, Condition.folds]
    · simp

/-! ## Rules -/

namespace Code

variable {terms : List Code} {k : Nat}

theorem brackets_foldl_le (combine : Code → Code → Code) (extra : Nat)
    (h : ∀ l r, (combine l r).brackets = max l.brackets r.brackets + extra)
    (hterms : ∀ c ∈ terms, c.brackets ≤ k) {e : Code} (he : e.brackets ≤ k) :
    (terms.foldl combine e).brackets ≤ k + extra * terms.length := by
  induction terms generalizing e k with
  | nil => exact he
  | cons c rest ih =>
    obtain ⟨hc, hrest⟩ := List.forall_mem_cons.mp hterms
    have hfirst : (combine e c).brackets ≤ k + extra := by
      rw [h]
      omega
    have hall := ih (fun d hd => (hrest d hd).trans (Nat.le_add_right k extra)) hfirst
    simp only [List.foldl_cons, List.length_cons, Nat.mul_add]
    omega

/-- Each term of a chain but the first adds what its combination adds. -/
theorem brackets_chain_le (combine : Code → Code → Code) (extra : Nat)
    (h : ∀ l r, (combine l r).brackets = max l.brackets r.brackets + extra)
    (hterms : ∀ c ∈ terms, c.brackets ≤ k) :
    (chain combine terms).brackets ≤ k + extra * (terms.length - 1) := by
  cases terms with
  | nil => exact Nat.zero_le _
  | cons c rest =>
    obtain ⟨hc, hrest⟩ := List.forall_mem_cons.mp hterms
    exact brackets_foldl_le combine extra h hrest hc

/-- A chain that is joined without brackets opens no more of them than its terms. -/
theorem brackets_joined_le (combine : Code → Code → Code)
    (h : ∀ l r, (combine l r).brackets = max l.brackets r.brackets)
    (hterms : ∀ c ∈ terms, c.brackets ≤ k) : (chain combine terms).brackets ≤ k := by
  simpa using brackets_chain_le combine 0 h hterms

end Code

namespace Emission

open Code

variable {k : Nat} {e : Emitted} {context : EmissionContext} {parts : List Emitted} {n : Node}

/-- What an extremum in this scope adds to its terms. -/
def chained (scope : Scope) (folds : Nat) : Nat :=
  match scope with
  | .series => folds
  | .leverage => 0

section Arithmetic

variable {terms : List Code} {k : Nat}

theorem brackets_mean_le (h : ∀ c ∈ terms, c.brackets ≤ k) : (mean terms).brackets ≤ k + 2 := by
  have hsum := brackets_joined_le (.arith .add) (fun _ _ => rfl) h
  have hcount : (number terms.length).brackets = 0 := rfl
  simp only [mean, brackets, hcount]
  omega

theorem brackets_extremum_le (scope : Scope) (f : Extremum) (h : ∀ c ∈ terms, c.brackets ≤ k) :
    (extremum scope f terms).brackets ≤ k + 1 + chained scope (terms.length - 1) := by
  cases scope with
  | series =>
    have hchain := brackets_chain_le (.pairwise f) 1 (fun _ _ => rfl) h
    simp only [extremum, chained]
    omega
  | leverage =>
    have hchain := brackets_joined_le .also (fun _ _ => rfl) h
    simp only [extremum, chained, brackets]
    omega

/-- Arithmetic adds at most two brackets to its terms, and the folds of an extremum. -/
theorem brackets_arithmetic_le (scope : Scope) (operation : Operation)
    (h : ∀ c ∈ terms, c.brackets ≤ k) :
    (arithmetic scope operation terms).brackets ≤
      k + 2 + chained scope (if operation.isExtremum then terms.length - 1 else 0) := by
  have hterm (i : Nat) : (terms.getD i (.literal (.scalar .null))).brackets ≤ k := by
    rw [List.getD]
    cases hi : terms[i]? with
    | none => exact Nat.zero_le _
    | some c => exact h c (List.mem_of_getElem? hi)
  have hjoined (op : Arith) : (joined op terms).brackets ≤ k + 2 := by
    have hchain := brackets_joined_le (.arith op) (fun _ _ => rfl) h
    simp only [joined, brackets]
    omega
  have hone : (terms.getD 0 (.literal (.scalar .null))).brackets + 1 ≤ k + 2 :=
    Nat.le_succ_of_le (Nat.succ_le_succ (hterm 0))
  have hchange : (percentChange (terms.getD 0 (.literal (.scalar .null)))
      (terms.getD 1 (.literal (.scalar .null)))).brackets ≤ k + 2 := by
    have hhundred : (number 100).brackets = 0 := rfl
    have hfirst := hterm 0
    have hsecond := hterm 1
    simp only [percentChange, brackets, hhundred]
    omega
  cases operation with
  | min => exact (brackets_extremum_le scope .min h).trans (Nat.add_le_add_right (by omega) _)
  | max => exact (brackets_extremum_le scope .max h).trans (Nat.add_le_add_right (by omega) _)
  | add | sum => exact (hjoined .add).trans (Nat.le_add_right _ _)
  | sub => exact (hjoined .sub).trans (Nat.le_add_right _ _)
  | mul => exact (hjoined .mul).trans (Nat.le_add_right _ _)
  | div => exact (hjoined .div).trans (Nat.le_add_right _ _)
  | neg | abs | round | floor | ceil => exact hone.trans (Nat.le_add_right _ _)
  | average => exact (brackets_mean_le h).trans (Nat.le_add_right _ _)
  | percentChange => exact hchange.trans (Nat.le_add_right _ _)

end Arithmetic

/-- The code of a node opens so many brackets at the most, now and one candle earlier. -/
def Within (k : Nat) (e : Emitted) : Prop := e.code.brackets ≤ k ∧ e.before.brackets ≤ k

theorem Within.mono {l : Nat} (h : Within k e) (hle : k ≤ l) : Within l e :=
  ⟨h.1.trans hle, h.2.trans hle⟩

/-- A truth value has no other code for the candle before. -/
theorem within_of_code (h : e.code.brackets ≤ k) (hprev : e.prev = none) :
    Within k e := ⟨h, by rwa [Emitted.before, hprev]⟩

theorem brackets_columnsAt_le (scope : Scope) (names : List String) (ago : Nat) :
    (columnsAt scope names ago).brackets ≤ 3 := by
  have hcolumn (name : String) : (columnAt scope name ago).brackets ≤ 1 := by
    cases scope with
    | series =>
      rw [columnAt]
      split <;> exact Nat.le_refl _
    | leverage => exact Nat.le_refl _
  unfold columnsAt
  split
  · exact (hcolumn _).trans (by decide)
  · refine brackets_mean_le fun c hc => ?_
    obtain ⟨name, -, rfl⟩ := List.mem_map.mp hc
    exact hcolumn name

theorem within_columns (scope : Scope) (names : List String) (offset : Nat) :
    Within 3 (columns scope names offset) :=
  ⟨brackets_columnsAt_le scope names offset, brackets_columnsAt_le scope names (offset + 1)⟩

theorem within_tradeContext {scope : Scope} {field : TradeField}
    (h : tradeContext scope field = .ok e) : Within 3 e := by
  obtain ⟨name, numeric, -, rfl⟩ := tradeContext_eq_ok h
  exact ⟨Nat.zero_le _, Nat.zero_le _⟩

theorem within_time (scope : Scope) (field : TimeField) (zone : Option String) :
    Within 3 (time scope field zone) := by
  have hpart (part : TimePart → Code) (h : ∀ p, (part p).brackets ≤ 2) :
      (timePart part field).brackets ≤ 3 := by
    cases field with
    | isWeekend =>
      have hfive : (number 5).brackets = 0 := rfl
      have hday := h .dayOfWeek
      simp only [timePart, brackets, hfive]
      omega
    | _ => exact (h _).trans (by decide)
  cases scope with
  | series =>
    have hcode := hpart (.seriesPart (zone.elim (Code.column "date")
      (.seriesZone (.column "date")))) fun p => by cases zone <;> exact Nat.le_succ 1
    exact ⟨hcode, Nat.max_le.mpr ⟨hcode, by decide⟩⟩
  | leverage =>
    have hbase : (zone.elim (Code.variable "current_time")
        (.momentZone (.variable "current_time"))).brackets ≤ 2 := by
      cases zone with
      | none => exact Nat.zero_le _
      | some z => exact Nat.le_refl _
    have hcode := hpart (.momentPart (zone.elim (Code.variable "current_time")
      (.momentZone (.variable "current_time")))) fun p => by
        rw [brackets]
        split <;> omega
    exact ⟨hcode, hcode⟩

/-- An operand without parts opens at most three brackets, and one with parts two more than they
do, and its own folds. -/
theorem within_operand {o : Operand} (h : operand context o parts = .ok e)
    (hlength : parts.length = (Node.operand o).children.length) (hk : 1 ≤ k)
    (hparts : ∀ p ∈ parts, Within k p) :
    Within (k + 2 + chained context.scope (Node.operand o).ownFolds) e := by
  have hleaf (he : Within 3 e) :
      Within (k + 2 + chained context.scope (Node.operand o).ownFolds) e :=
    he.mono (by omega)
  cases o with
  | constant value =>
    obtain ⟨-, rfl⟩ := constant_eq_ok h
    have hlist : (Code.literal value).brackets ≤ 3 := by
      rw [brackets]
      split <;> decide
    exact hleaf ⟨hlist, hlist⟩
  | indicator id field offset =>
    obtain ⟨name, -, rfl⟩ := indicator_eq_ok h
    exact hleaf (within_columns context.scope [name] offset)
  | price field offset =>
    cases h
    exact hleaf (within_columns context.scope (priceColumns field) offset)
  | tradeContext field => exact hleaf (within_tradeContext h)
  | time field zone =>
    cases h
    exact hleaf (within_time context.scope field zone)
  | computed operation operands =>
    obtain ⟨-, rfl⟩ := computed_eq_ok h
    have hcount : parts.length = operands.length := by simpa [Node.children] using hlength
    have hcodes : ∀ c ∈ parts.map Emitted.code, c.brackets ≤ k :=
      List.forall_mem_map.mpr fun p hp => (hparts p hp).1
    have hbefores : ∀ c ∈ parts.map Emitted.before, c.brackets ≤ k :=
      List.forall_mem_map.mpr fun p hp => (hparts p hp).2
    have hcode := brackets_arithmetic_le context.scope operation hcodes
    have hbefore := brackets_arithmetic_le context.scope operation hbefores
    rw [List.length_map, hcount] at hcode hbefore
    exact ⟨hcode, hbefore⟩
  | external source => cases h
  | custom name => cases h

/-! ## Conditions -/

theorem brackets_combine_le (scope : Scope) (empty : Bool) (series scalar : Connective)
    {children : List Emitted} (h : ∀ p ∈ children, Within k p) :
    Within (k + 2) (combine scope empty series scalar children) := by
  unfold combine
  split
  · cases scope with
    | series => exact within_of_code (Nat.le_add_left 1 (k + 1)) rfl
    | leverage => exact within_of_code (Nat.zero_le _) rfl
  · exact (h _ (by simp)).mono (Nat.le_add_right k 2)
  · refine within_of_code ?_ rfl
    refine (brackets_joined_le _ (k := k + 1) (fun _ _ => rfl) fun c hc => ?_).trans (by omega)
    obtain ⟨p, hp, rfl⟩ := List.mem_map.mp hc
    exact Nat.succ_le_succ (h p hp).1

theorem brackets_negation_le (scope : Scope) {child : Emitted} (h : Within k child) :
    Within (k + 2) (negation scope child) := by
  have hchild := h.1
  unfold negation
  split
  · refine within_of_code ?_ rfl
    simp only [boolean, brackets]
    omega
  · refine within_of_code ?_ rfl
    simp only [boolean, brackets]
    omega

theorem brackets_ifThenElse_le (scope : Scope) {c t : Emitted} (hc : Within k c) (ht : Within k t)
    (he : Within k e) : Within (k + 2) (ifThenElse scope c t e) := by
  have hcode := hc.1
  have hthen := ht.1
  have helse := he.1
  unfold ifThenElse
  dsimp only
  split
  · refine within_of_code ?_ rfl
    simp only [brackets]
    omega
  · refine within_of_code ?_ rfl
    simp only [boolean, brackets]
    omega

theorem brackets_membership_le (scope : Scope) (operator : Comparison) {left right : Emitted}
    (hl : Within k left) (hr : Within k right) :
    Within (k + 2) (membership scope operator left right) := by
  have hleft := hl.1
  have hright := hr.1
  refine within_of_code ?_ rfl
  unfold membership
  dsimp only [boolean]
  split
  · split
    · simp only [brackets]
      omega
    · simp only [brackets]
      omega
  · simp only [brackets]
    omega

theorem brackets_crossingCode_le (scope : Scope) (above : Bool) {first second : Emitted}
    (h : Within k first) (h' : Within k second) :
    Within (k + 2) (crossingCode scope above first second) := by
  have hfirst := h.1
  have hsecond := h'.1
  have hbefore := h.2
  have hbefore' := h'.2
  cases scope with
  | series =>
    refine within_of_code ?_ rfl
    simp only [crossingCode, boolean, brackets]
    omega
  | leverage =>
    refine within_of_code ?_ rfl
    simp only [crossingCode, brackets]
    omega

/-- A condition opens at most two brackets more than its parts. -/
theorem within_condition {c : Condition} (h : condition context c parts = .ok e)
    (hparts : ∀ p ∈ parts, Within k p) : Within (k + 2) e := by
  have hpart (i : Nat) : Within k (parts.getD i absentBranch) := by
    rw [List.getD]
    cases hi : parts[i]? with
    | none => exact within_of_code (Nat.zero_le _) rfl
    | some p => exact hparts p (List.mem_of_getElem? hi)
  cases c with
  | all mark children =>
    cases h
    exact brackets_combine_le context.scope true .seriesAnd .and hparts
  | any mark children =>
    cases h
    exact brackets_combine_le context.scope false .seriesOr .or hparts
  | not mark child =>
    cases h
    exact brackets_negation_le context.scope (hpart 0)
  | ifThen mark c t =>
    cases h
    exact brackets_ifThenElse_le context.scope (hpart 0) (hpart 1)
      (within_of_code (Nat.zero_le _) rfl)
  | ifThenElse mark c t e =>
    cases h
    exact brackets_ifThenElse_le context.scope (hpart 0) (hpart 1) (hpart 2)
  | compare mark left operator right =>
    obtain ⟨-, ⟨-, -, rfl⟩ | ⟨r, -, -, -, rfl⟩⟩ := compare_eq_ok h
    · exact brackets_membership_le context.scope operator (hpart 0) (hpart 1)
    · have hleft := (hpart 0).1
      have hright := (hpart 1).1
      refine within_of_code ?_ rfl
      simp only [boolean, brackets]
      omega
  | crossover mark a b =>
    obtain ⟨-, -, rfl⟩ := crossing_eq_ok h
    exact brackets_crossingCode_le context.scope true (hpart 0) (hpart 1)
  | crossunder mark a b =>
    obtain ⟨-, -, rfl⟩ := crossing_eq_ok h
    exact brackets_crossingCode_le context.scope false (hpart 0) (hpart 1)
  | inRange mark value low high inclusive =>
    obtain ⟨-, rfl⟩ := inRange_eq_ok h
    have hvalue := (hpart 0).1
    have hlow := (hpart 1).1
    have hhigh := (hpart 2).1
    refine within_of_code ?_ rfl
    simp only [boolean, rangeCode, brackets]
    omega

/-- One rule: two brackets more than the parts, and the folds of the node. -/
theorem within_node (h : node context n parts = .ok e) (hlength : parts.length = n.children.length)
    (hk : 1 ≤ k) (hparts : ∀ p ∈ parts, Within k p) :
    Within (k + 2 + chained context.scope n.ownFolds) e := by
  cases n with
  | operand o => exact within_operand h hlength hk hparts
  | condition c => exact (within_condition h hparts).mono (Nat.le_add_right _ _)

theorem chained_add (scope : Scope) (a b : Nat) :
    chained scope a + chained scope b = chained scope (a + b) := by
  cases scope <;> rfl

theorem chained_mono (scope : Scope) {a b : Nat} (h : a ≤ b) :
    chained scope a ≤ chained scope b := by
  cases scope with
  | series => exact h
  | leverage => exact Nat.le_refl 0

/-- **Emitted code opens two brackets for each level of the tree, one more, and the folds.** The
depth limit leaves room for so many levels from this node down. -/
theorem build_within {depth room : Nat} (hroom : context.maxDepth < depth + room)
    (h : build context depth n = .ok e) :
    Within (2 * room + 1 + chained context.scope n.folds) e := by
  induction n using Node.induction generalizing e depth room with
  | step n ih =>
    obtain ⟨hdepth, parts, hparts, hnode⟩ := (build_eq_ok_iff context depth n e).mp h
    obtain ⟨levels, rfl⟩ : ∃ levels, room = levels + 1 := ⟨room - 1, by omega⟩
    -- what the folds of the parts may add is what the node itself leaves of its own
    have hall : ∀ p ∈ parts,
        Within (2 * levels + 1 + chained context.scope (n.folds - n.ownFolds)) p := by
      intro p hp
      obtain ⟨m, hm, hbuild⟩ := exists_of_forall₂ hparts.flip hp
      have hfolds := Node.ownFolds_add_le hm
      have hlevels : context.maxDepth < ((depth + 1 : Nat) : Int) + (levels : Int) := by
        push_cast at hroom ⊢
        omega
      exact (ih m hm hlevels hbuild).mono
        (Nat.add_le_add_left (chained_mono context.scope (by omega)) (2 * levels + 1))
    have hown : n.ownFolds ≤ n.folds := by
      cases n with
      | operand o =>
        cases o with
        | computed operation operands => exact Nat.le_add_right _ _
        | _ => exact Nat.zero_le _
      | condition c => exact Nat.zero_le _
    have hwithin := within_node hnode hparts.length_eq.symm (by omega) hall
    have hsum := chained_add context.scope (n.folds - n.ownFolds) n.ownFolds
    rw [Nat.sub_add_cancel hown] at hsum
    exact hwithin.mono (by omega)

/-- The bound for a whole tree. -/
theorem build_root_within (h : build context 1 n = .ok e) :
    Within (2 * context.maxDepth.toNat + 1 + chained context.scope n.folds) e :=
  build_within (by omega) h

end Emission

end Stratagem
