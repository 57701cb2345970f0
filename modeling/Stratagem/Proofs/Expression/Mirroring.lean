import Mathlib.Data.List.Forall2
import Stratagem.Proofs.Expression.Subtrees

/-! What mirroring does to a tree. A tree is known from the heads of its conditions in pre-order,
where a head tells all about a condition but the conditions it is made of. The mirrored tree is
the only one whose heads stand in the relation `Head.Mirrors` to the heads of the tree, one by
one. The relation is symmetric, so mirroring twice gives the tree back. -/

namespace Stratagem

/-! ## Mirroring by recursion -/

namespace Mirror

/-- The walk puts the mirror of one condition on the stack and goes on with what was pending. -/
def Settles (p : MirrorPolicy) (c : Condition) : Prop :=
  ∀ (rest : List Frame) (results : List Condition),
    walk p (⟨c, false⟩ :: rest) results = walk p rest (c.mirror p :: results)

theorem walk_fresh {p : MirrorPolicy} {cs : List Condition} (h : ∀ c ∈ cs, Settles p c)
    (rest : List Frame) (results : List Condition) :
    walk p (cs.map (⟨·, false⟩) ++ rest) results =
      walk p rest ((cs.map (·.mirror p)).reverse ++ results) := by
  induction cs generalizing results with
  | nil => rfl
  | cons c cs ih =>
    obtain ⟨hc, hcs⟩ := List.forall_mem_cons.mp h
    rw [List.map_cons, List.cons_append, hc, ih hcs]
    simp

/-- With its parts settled, a condition comes up again on top of exactly their mirrors. -/
theorem walk_parts {p : MirrorPolicy} {c : Condition} (h : ∀ d ∈ c.parts, Settles p d)
    (rest : List Frame) (results : List Condition) :
    walk p (⟨c, false⟩ :: rest) results =
      walk p rest (c.rebuild p (c.parts.map (·.mirror p)) :: results) := by
  have hlen : ((c.parts.map (·.mirror p)).reverse).length = c.parts.length := by simp
  rw [walk, walk_fresh h, walk]
  simp only [← hlen, List.take_left, List.drop_left, List.reverse_reverse]

theorem settles (p : MirrorPolicy) (c : Condition) : Settles p c := by
  induction c using Condition.partsInduction with
  | step c ih =>
    have hmirror : c.mirror p = c.rebuild p (c.parts.map (·.mirror p)) := by
      rw [Condition.mirror, walk_parts ih, walk, List.headD_cons]
    intro rest results
    rw [walk_parts ih, hmirror]

end Mirror

/-- Mirroring a condition is mirroring its parts and rebuilding it from them. -/
theorem Condition.mirror_eq (p : MirrorPolicy) (c : Condition) :
    c.mirror p = c.rebuild p (c.parts.map (·.mirror p)) := by
  rw [Condition.mirror, Mirror.walk_parts fun d _ => Mirror.settles p d, Mirror.walk,
    List.headD_cons]

/-! ## Heads -/

/-- All about a condition but the conditions it is made of; of those, `parts` is the number, so a
conditional with an else has three. -/
structure Head where
  kind : ConditionKind
  mark : Mark
  parts : Nat
  operator : Option Comparison
  operands : List Operand
  inclusive : Option Bool

def Condition.operator? : Condition → Option Comparison
  | .compare _ _ op _ => some op
  | _ => none

def Condition.inclusive? : Condition → Option Bool
  | .inRange _ _ _ _ inclusive => some inclusive
  | _ => none

def Condition.head (c : Condition) : Head :=
  ⟨c.kind, c.mark, c.parts.length, c.operator?, c.operands, c.inclusive?⟩

/-- The heads of the conditions of a tree, in pre-order. -/
def Condition.heads (c : Condition) : List Head := c.conditions.map Condition.head

/-- The head of a condition, then the heads of its parts from left to right. -/
theorem Condition.heads_eq (c : Condition) :
    c.heads = c.head :: c.parts.flatMap Condition.heads := by
  rw [Condition.heads, Condition.conditions_eq, List.map_cons, List.map_flatMap]
  rfl

theorem Condition.ext_head {c d : Condition} (hhead : c.head = d.head)
    (hparts : c.parts = d.parts) : c = d := by
  cases c <;> cases d <;>
    simp_all [Condition.head, Condition.kind, Condition.mark, Condition.parts,
      Condition.operator?, Condition.operands, Condition.inclusive?]

/-- As many conditions with the same heads in front are the same. -/
theorem Condition.flatMap_heads_inj {cs ds : List Condition} {xs ys : List Head}
    (inj : ∀ c ∈ cs, ∀ d xs ys, c.heads ++ xs = d.heads ++ ys → c = d ∧ xs = ys)
    (hlen : cs.length = ds.length)
    (h : cs.flatMap Condition.heads ++ xs = ds.flatMap Condition.heads ++ ys) :
    cs = ds ∧ xs = ys := by
  induction cs generalizing ds with
  | nil =>
    obtain rfl : ds = [] := List.eq_nil_of_length_eq_zero hlen.symm
    exact ⟨rfl, by simpa using h⟩
  | cons c cs ih =>
    obtain ⟨hc, hcs⟩ := List.forall_mem_cons.mp inj
    match ds with
    | [] => simp at hlen
    | d :: ds =>
      simp only [List.flatMap_cons, List.append_assoc] at h
      obtain ⟨rfl, hrest⟩ := hc d _ _ h
      obtain ⟨rfl, htail⟩ := ih hcs (by simpa using hlen) hrest
      exact ⟨rfl, htail⟩

/-- No tree's heads go on as another's: a head says how many parts follow. -/
theorem Condition.heads_append_inj (c : Condition) :
    ∀ (d : Condition) (xs ys : List Head), c.heads ++ xs = d.heads ++ ys → c = d ∧ xs = ys := by
  induction c using Condition.partsInduction with
  | step c ih =>
    intro d xs ys h
    rw [Condition.heads_eq c, Condition.heads_eq d, List.cons_append, List.cons_append] at h
    obtain ⟨hhead, h⟩ := List.cons.inj h
    have hlen : c.parts.length = d.parts.length := congrArg Head.parts hhead
    obtain ⟨hparts, h⟩ := Condition.flatMap_heads_inj ih hlen h
    exact ⟨Condition.ext_head hhead hparts, h⟩

theorem Condition.heads_inj {c d : Condition} (h : c.heads = d.heads) : c = d :=
  (c.heads_append_inj d [] [] (by rw [h])).1

/-! ## The relation between the heads -/

/-- Orderings come in opposite pairs; any other comparison is its own opposite. -/
inductive Comparison.Opposite : Comparison → Comparison → Prop
  | gt_lt : Opposite .gt .lt
  | lt_gt : Opposite .lt .gt
  | gte_lte : Opposite .gte .lte
  | lte_gte : Opposite .lte .gte
  | same {op : Comparison} (h : op ∉ [.gt, .lt, .gte, .lte]) : Opposite op op

/-- The two crossings trade places; any other kind stays. -/
inductive ConditionKind.Swapped : ConditionKind → ConditionKind → Prop
  | up_down : Swapped .crossover .crossunder
  | down_up : Swapped .crossunder .crossover
  | same {kind : ConditionKind} (h : kind ∉ [.crossover, .crossunder]) : Swapped kind kind

def MirrorPolicy.Operators (p : MirrorPolicy) : Comparison → Comparison → Prop :=
  if p.invertComparisons then Comparison.Opposite else Eq

def MirrorPolicy.Kinds (p : MirrorPolicy) : ConditionKind → ConditionKind → Prop :=
  if p.invertCrossovers then ConditionKind.Swapped else Eq

/-- One head mirrors another: they differ in the operator and the kind at most. -/
structure Head.Mirrors (p : MirrorPolicy) (a b : Head) : Prop where
  mark : a.mark = b.mark
  parts : a.parts = b.parts
  operands : a.operands = b.operands
  inclusive : a.inclusive = b.inclusive
  operator : Option.Rel p.Operators a.operator b.operator
  kind : p.Kinds a.kind b.kind

theorem Comparison.opposite_iff {a b : Comparison} : Comparison.Opposite a b ↔ b = a.inverse := by
  constructor
  · rintro (_ | _ | _ | _ | h)
    · rfl
    · rfl
    · rfl
    · rfl
    · revert h
      cases a <;> decide
  · rintro rfl
    cases a with
    | gt => exact .gt_lt
    | lt => exact .lt_gt
    | gte => exact .gte_lte
    | lte => exact .lte_gte
    | _ => exact .same (by decide)

/-- The kind in whose place a kind is put. -/
def ConditionKind.swap : ConditionKind → ConditionKind
  | .crossover => .crossunder
  | .crossunder => .crossover
  | kind => kind

theorem ConditionKind.swapped_iff {a b : ConditionKind} :
    ConditionKind.Swapped a b ↔ b = a.swap := by
  constructor
  · rintro (_ | _ | h)
    · rfl
    · rfl
    · revert h
      cases a <;> decide
  · rintro rfl
    cases a with
    | crossover => exact .up_down
    | crossunder => exact .down_up
    | _ => exact .same (by decide)

theorem MirrorPolicy.operators_iff {p : MirrorPolicy} {a b : Comparison} :
    p.Operators a b ↔ b = if p.invertComparisons then a.inverse else a := by
  unfold MirrorPolicy.Operators
  split
  · exact Comparison.opposite_iff
  · exact eq_comm

theorem MirrorPolicy.kinds_iff {p : MirrorPolicy} {a b : ConditionKind} :
    p.Kinds a b ↔ b = if p.invertCrossovers then a.swap else a := by
  unfold MirrorPolicy.Kinds
  split
  · exact ConditionKind.swapped_iff
  · exact eq_comm

@[simp] theorem Comparison.inverse_inverse (op : Comparison) : op.inverse.inverse = op := by
  cases op <;> rfl

@[simp] theorem ConditionKind.swap_swap (kind : ConditionKind) : kind.swap.swap = kind := by
  cases kind <;> rfl

namespace Head

/-- The one head that mirrors a head. -/
def mirror (p : MirrorPolicy) (a : Head) : Head :=
  { a with
    operator := a.operator.map fun op => if p.invertComparisons then op.inverse else op
    kind := if p.invertCrossovers then a.kind.swap else a.kind }

theorem mirror_mirror (p : MirrorPolicy) (a : Head) : (a.mirror p).mirror p = a := by
  obtain ⟨kind, mark, parts, operator, operands, inclusive⟩ := a
  simp only [mirror, Option.map_map]
  split <;> split <;> simp [Function.comp_def]

theorem rel_operators_iff {p : MirrorPolicy} {a b : Option Comparison} :
    Option.Rel p.Operators a b ↔
      b = a.map fun op => if p.invertComparisons then op.inverse else op := by
  constructor
  · rintro (h | _)
    · rw [MirrorPolicy.operators_iff.mp h, Option.map_some]
    · rfl
  · rintro rfl
    cases a with
    | none => exact .none
    | some op => exact .some (MirrorPolicy.operators_iff.mpr rfl)

theorem mirrors_iff {p : MirrorPolicy} {a b : Head} : Mirrors p a b ↔ b = a.mirror p := by
  obtain ⟨kind, mark, parts, operator, operands, inclusive⟩ := a
  obtain ⟨kind', mark', parts', operator', operands', inclusive'⟩ := b
  simp only [mirror, Head.mk.injEq, ← MirrorPolicy.kinds_iff, ← rel_operators_iff]
  constructor
  · intro h
    exact ⟨h.kind, h.mark.symm, h.parts.symm, h.operator, h.operands.symm, h.inclusive.symm⟩
  · rintro ⟨hkind, rfl, rfl, hoperator, rfl, rfl⟩
    exact ⟨rfl, rfl, rfl, rfl, hoperator, hkind⟩

theorem forall₂_mirrors_iff {p : MirrorPolicy} {as bs : List Head} :
    List.Forall₂ (Mirrors p) as bs ↔ bs = as.map (mirror p) := by
  have hrel : Mirrors p = fun a b => mirror p a = b := by
    funext a b
    exact propext (mirrors_iff.trans eq_comm)
  rw [hrel, ← List.forall₂_map_left_iff, List.forall₂_eq_eq_eq]
  exact eq_comm

end Head

/-! ## The mirrored tree -/

/-- A list as long as the parts of a condition rebuilds it with that list for its parts. -/
theorem Condition.rebuild_spec (p : MirrorPolicy) {c : Condition} {ps : List Condition}
    (h : ps.length = c.parts.length) :
    (c.rebuild p ps).parts = ps ∧ (c.rebuild p ps).head = c.head.mirror p := by
  -- The length settles the form of the list, and so which way of rebuilding applies.
  obtain ⟨comparisons, crossovers⟩ := p
  cases c with
  | all mark children | any mark children =>
    have hparts : ps.length = children.length := h
    cases crossovers <;>
      simp [head, Head.mirror, rebuild, parts, kind, Condition.mark, operator?, operands,
        inclusive?, ConditionKind.swap, hparts]
  | not mark child =>
    obtain ⟨d, rfl⟩ := List.length_eq_one_iff.mp h
    cases crossovers <;> exact ⟨rfl, rfl⟩
  | ifThen mark c t =>
    obtain ⟨c', t', rfl⟩ := List.length_eq_two.mp h
    cases crossovers <;> exact ⟨rfl, rfl⟩
  | ifThenElse mark c t e =>
    obtain ⟨c', t', e', rfl⟩ := List.length_eq_three.mp h
    cases crossovers <;> exact ⟨rfl, rfl⟩
  | compare mark left op right | crossover mark a b | crossunder mark a b
  | inRange mark v low high inclusive =>
    obtain rfl := List.length_eq_zero_iff.mp h
    cases crossovers <;> exact ⟨rfl, rfl⟩

theorem Condition.heads_mirror (p : MirrorPolicy) (c : Condition) :
    (c.mirror p).heads = c.heads.map (Head.mirror p) := by
  induction c using Condition.partsInduction with
  | step c ih =>
    have hlen : (c.parts.map (·.mirror p)).length = c.parts.length := List.length_map _
    have hparts : (c.parts.map (·.mirror p)).flatMap Condition.heads =
        (c.parts.flatMap Condition.heads).map (Head.mirror p) := by
      rw [List.flatMap_map, List.map_flatMap]
      exact List.flatMap_congr ih
    obtain ⟨hp, hh⟩ := Condition.rebuild_spec p hlen
    rw [Condition.mirror_eq, Condition.heads_eq, hh, hp, hparts, Condition.heads_eq c,
      List.map_cons]

/-- Mirroring is an involution, and the mirrored tree is the one whose conditions, in pre-order,
keep their marks, numbers of parts, operands and flags, with the orderings turned round and the
crossings swapped as the policy says. -/
theorem Condition.mirror_involution_and_shape (p : MirrorPolicy) (c : Condition) :
    (c.mirror p).mirror p = c ∧
      ∀ d : Condition, d = c.mirror p ↔ List.Forall₂ (Head.Mirrors p) c.heads d.heads := by
  constructor
  · apply Condition.heads_inj
    rw [Condition.heads_mirror, Condition.heads_mirror, List.map_map]
    calc c.heads.map (Head.mirror p ∘ Head.mirror p)
        = c.heads.map id := List.map_congr_left fun a _ => a.mirror_mirror p
      _ = c.heads := List.map_id _
  · intro d
    rw [Head.forall₂_mirrors_iff, ← Condition.heads_mirror]
    exact ⟨congrArg Condition.heads, Condition.heads_inj⟩

end Stratagem
