import Mathlib.Logic.Basic
import Stratagem.Expression.Reading
import Stratagem.Proofs.Expression.Subtrees
import Stratagem.Proofs.Schema.Inversion

/-! Trees that the schema lets through. A node is read from a mapping, it is admissible (counts of
operands fit their operation, references name something, offsets are bounded, numbers are finite and
zones are known), and its parts are read from values that stand in that mapping. -/

namespace Stratagem

open Schema Schema.Checked

variable {v : Value} {fields : Fields} {o : Operand} {c : Condition}

/-! ## Nodes of a tree -/

@[simp] theorem Node.preorder_condition (c : Condition) :
    (Node.condition c).preorder = c.preorder := rfl

@[simp] theorem Node.preorder_operand (o : Operand) : (Node.operand o).preorder = o.preorder := rfl

/-- The nodes of a tree are its root and the nodes of the parts. -/
theorem Node.mem_preorder {m : Node} (n : Node) :
    m ∈ n.preorder ↔ m = n ∨ ∃ k ∈ n.children, m ∈ k.preorder := by
  rw [Node.preorder_eq, List.mem_cons, List.mem_flatMap]

theorem Node.forall_mem_preorder {P : Node → Prop} (n : Node) :
    (∀ m ∈ n.preorder, P m) ↔ P n ∧ ∀ k ∈ n.children, ∀ m ∈ k.preorder, P m := by
  simp only [Node.mem_preorder n]
  constructor
  · intro h
    exact ⟨h n (.inl rfl), fun k hk m hm => h m (.inr ⟨k, hk, hm⟩)⟩
  · rintro ⟨hn, hkids⟩ m (rfl | ⟨k, hk, hm⟩)
    · exact hn
    · exact hkids k hk m hm

/-! ## Admissible nodes -/

/-- What the schema promises of a single node. -/
def Node.Admissible : Node → Prop
  | .operand (.constant value) => value.notFinite? = none
  | .operand (.indicator id _ offset) => id ≠ "" ∧ offset ≤ maxOffset
  | .operand (.price _ offset) => offset ≤ maxOffset
  | .operand (.time _ zone) => ∀ z ∈ zone, isZone z = true ∧ z ≠ "" ∧ z ≠ "UTC"
  | .operand (.computed operation operands) => operation.arity.allows operands.length = true
  | _ => True

def Operand.Admissible (o : Operand) : Prop := ∀ m ∈ (Node.operand o).preorder, m.Admissible

def Condition.Admissible (c : Condition) : Prop := ∀ m ∈ (Node.condition c).preorder, m.Admissible

theorem readConstant_admissible {c : Constant} (h : readConstant v = .good c) :
    c.notFinite? = none := by
  obtain ⟨d, _, hd⟩ := andThen_eq_good h
  split at hd
  · cases hd
  · next hfinite =>
    obtain rfl : d = c := Checked.good.inj hd
    exact hfinite

theorem intWithin_le {low top n m : Int} (h : intWithin low (some top) n = .good m) :
    low ≤ m ∧ m ≤ top := by
  simp only [intWithin] at h
  split at h
  · cases h
  · split at h
    · cases h
    · obtain rfl : n = m := Checked.good.inj h
      omega

theorem readNat_le {low top n : Nat} (h : readNat low (some top) v = .good n) : n ≤ top := by
  obtain ⟨m, hm, rfl⟩ := map_eq_good h
  obtain ⟨k, _, hk⟩ := andThen_eq_good hm
  have := (intWithin_le hk).2
  simp only [Int.ofNat_eq_natCast] at this
  omega

theorem readNonempty_ne {s : String} (h : readNonempty v = .good s) : s ≠ "" := by
  obtain ⟨t, _, ht⟩ := andThen_eq_good h
  split at ht
  · cases ht
  · next hfull =>
    obtain rfl : t = s := Checked.good.inj ht
    simpa [String.isEmpty_iff] using hfull

theorem readOffset_le {n : Nat} (h : readOffset fields = .good n) : n ≤ maxOffset := by
  rcases optional_eq_good h with rfl | ⟨_, _, v, _, _, hv⟩
  · exact Nat.zero_le _
  · exact readNat_le hv

theorem readZone_known {z : String} (h : readZone v = .good (some z)) :
    isZone z = true ∧ z ≠ "" ∧ z ≠ "UTC" := by
  obtain ⟨s, _, hs⟩ := andThen_eq_good h
  split at hs
  · cases hs
  · next hplain =>
    split at hs
    · next hzone =>
      obtain rfl : s = z := Option.some.inj (Checked.good.inj hs)
      simp only [Bool.or_eq_true, beq_iff_eq, String.isEmpty_iff, not_or] at hplain
      exact ⟨hzone, hplain⟩
    · cases hs

private theorem joined_zone {zone : Option String}
    (h : (nullable fields ["timezone"] fun w _ => readZone w).map Option.join = .good zone) :
    ∀ z ∈ zone, isZone z = true ∧ z ≠ "" ∧ z ≠ "UTC" := by
  rintro z rfl
  obtain ⟨outer, houter, hjoin⟩ := map_eq_good h
  cases outer with
  | none => cases hjoin
  | some inner =>
    obtain ⟨_, _, v, _, _, hv⟩ := nullable_eq_good houter
    obtain rfl : inner = some z := hjoin
    exact readZone_known hv

/-! ## Reading a node -/

/-- A node is what is read from a value. -/
def Node.ReadFrom (v : Value) : Node → Prop
  | .condition c => Condition.read v = .good c
  | .operand o => Operand.read v = .good o

/-- What reading a mapping says of the node it gives. -/
structure Node.ReadIn (fields : Fields) (n : Node) : Prop where
  admissible : n.Admissible
  parts : ∀ m ∈ n.children, ∃ w, Holds fields w ∧ m.ReadFrom w

private theorem readIn_leaf (hleaf : (Node.operand o).children = [])
    (h : (Node.operand o).Admissible) : (Node.operand o).ReadIn fields :=
  ⟨h, by simp [hleaf]⟩

theorem Operand.read_inv (h : Operand.read v = .good o) :
    ∃ fields, v = .object fields ∧ (Node.operand o).ReadIn fields := by
  rw [Operand.read.eq_def] at h
  split at h
  · next fields =>
    refine ⟨fields, rfl, ?_⟩
    obtain ⟨kind, hkind⟩ := variant_eq_good h
    cases kind with
    | constant =>
      obtain ⟨c, hc, rfl⟩ := map_eq_good hkind
      refine readIn_leaf rfl ?_
      rcases optional_eq_good hc with rfl | ⟨_, _, w, _, _, hw⟩
      · rfl
      · exact readConstant_admissible hw
    | indicator =>
      obtain ⟨f, offset, hf, hoffset, rfl⟩ := seq_eq_good hkind
      obtain ⟨id, field, hid, _, rfl⟩ := map_seq_eq_good hf
      obtain ⟨_, _, w, _, _, hw⟩ := required_eq_good hid
      exact readIn_leaf rfl ⟨readNonempty_ne hw, readOffset_le hoffset⟩
    | price =>
      obtain ⟨field, offset, _, hoffset, rfl⟩ := map_seq_eq_good hkind
      exact readIn_leaf rfl (readOffset_le hoffset)
    | tradeContext =>
      obtain ⟨field, _, rfl⟩ := map_eq_good hkind
      exact readIn_leaf rfl trivial
    | time =>
      obtain ⟨field, zone, _, hzone, rfl⟩ := map_seq_eq_good hkind
      exact readIn_leaf rfl (joined_zone hzone)
    | computed =>
      obtain ⟨⟨operation, operands⟩, hpair, hcheck⟩ := andThen_eq_good hkind
      obtain ⟨_, _, _, hoperands, hmk⟩ := map_seq_eq_good hpair
      cases hmk
      simp only [checkArity] at hcheck
      split at hcheck
      · next harity =>
        cases hcheck
        refine ⟨harity, fun m hm => ?_⟩
        obtain ⟨p, hp, rfl⟩ := List.mem_map.mp hm
        exact tuple_source hoperands p hp
      · cases hcheck
    | external =>
      obtain ⟨source, _, rfl⟩ := map_eq_good hkind
      exact readIn_leaf rfl trivial
    | custom =>
      obtain ⟨name, _, rfl⟩ := map_eq_good hkind
      exact readIn_leaf rfl trivial
  · cases h

/-- A condition promises nothing by itself. -/
private theorem readIn_condition
    (h : ∀ m ∈ (Node.condition c).children, ∃ w, Holds fields w ∧ m.ReadFrom w) :
    (Node.condition c).ReadIn fields :=
  ⟨by cases c <;> trivial, h⟩

theorem Condition.read_inv (h : Condition.read v = .good c) :
    ∃ fields, v = .object fields ∧ (Node.condition c).ReadIn fields := by
  rw [Condition.read.eq_def] at h
  split at h
  · next fields =>
    refine ⟨fields, rfl, readIn_condition ?_⟩
    obtain ⟨kind, hkind⟩ := variant_eq_good h
    cases kind with
    | all | any =>
      obtain ⟨mark, children, _, hchildren, rfl⟩ := map_seq_eq_good hkind
      simpa [Node.children, Node.ReadFrom] using tuple_source hchildren
    | not =>
      obtain ⟨mark, child, _, hchild, rfl⟩ := map_seq_eq_good hkind
      simpa [Node.children, Node.ReadFrom] using required_source hchild
    | ifThenElse =>
      obtain ⟨f, else?, hf, helse, rfl⟩ := seq_eq_good hkind
      obtain ⟨g, then_, hg, hthen, rfl⟩ := seq_eq_good hf
      obtain ⟨mark, condition, _, hcondition, rfl⟩ := map_seq_eq_good hg
      have hboth := And.intro (required_source hcondition) (required_source hthen)
      cases else? with
      | none => simpa [ifThenElseOf, Node.children, Node.ReadFrom] using hboth
      | some else_ =>
        simpa [ifThenElseOf, Node.children, Node.ReadFrom] using
          ⟨hboth.1, hboth.2, nullable_source helse⟩
    | compare =>
      obtain ⟨f, right, hf, hright, rfl⟩ := seq_eq_good hkind
      obtain ⟨g, operator, hg, _, rfl⟩ := seq_eq_good hf
      obtain ⟨mark, left, _, hleft, rfl⟩ := map_seq_eq_good hg
      simpa [Node.children, Node.ReadFrom] using ⟨required_source hleft, required_source hright⟩
    | crossover | crossunder =>
      obtain ⟨f, b, hf, hb, rfl⟩ := seq_eq_good hkind
      obtain ⟨mark, a, _, ha, rfl⟩ := map_seq_eq_good hf
      simpa [Node.children, Node.ReadFrom] using ⟨required_source ha, required_source hb⟩
    | inRange =>
      obtain ⟨f, inclusive, hf, _, rfl⟩ := seq_eq_good hkind
      obtain ⟨g, high, hg, hhigh, rfl⟩ := seq_eq_good hf
      obtain ⟨k, low, hk, hlow, rfl⟩ := seq_eq_good hg
      obtain ⟨mark, value, _, hvalue, rfl⟩ := map_seq_eq_good hk
      simpa [Node.children, Node.ReadFrom] using
        ⟨required_source hvalue, required_source hlow, required_source hhigh⟩
  · cases h

theorem Node.ReadFrom.inv {n : Node} (h : n.ReadFrom v) :
    ∃ fields, v = .object fields ∧ n.ReadIn fields := by
  cases n with
  | condition c => exact Condition.read_inv h
  | operand o => exact Operand.read_inv h

/-! ## Reading a tree -/

theorem Node.ReadFrom.admissible {n : Node} (h : n.ReadFrom v) :
    ∀ m ∈ n.preorder, m.Admissible := by
  induction n using Node.induction generalizing v with
  | step n ih =>
    obtain ⟨fields, _, hn⟩ := h.inv
    refine (Node.forall_mem_preorder n).mpr ⟨hn.admissible, fun m hm => ?_⟩
    obtain ⟨w, _, hw⟩ := hn.parts m hm
    exact ih m hm hw

theorem Operand.read_admissible (h : Operand.read v = .good o) : o.Admissible :=
  Node.ReadFrom.admissible (n := .operand o) h

theorem Condition.read_admissible (h : Condition.read v = .good c) : c.Admissible :=
  Node.ReadFrom.admissible (n := .condition c) h

end Stratagem
