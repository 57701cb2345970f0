import Stratagem.Mirror

/-! The parts of a tree. In pre-order a node comes before its parts, from left to right. Below a
condition stand the conditions it is made of and its own operands, and below operands there are no
conditions. -/

namespace Stratagem

/-- The sizes of the parts of a node stay below its own. -/
theorem Node.size_lt_of_mem_children {m n : Node} (h : m ∈ n.children) : m.size < n.size := by
  have hle : ∀ ns : List Node, m ∈ ns → m.size ≤ Node.sizes ns := by
    intro ns
    induction ns with
    | nil => intro hm; simp at hm
    | cons k rest ih =>
      intro hm
      simp only [Node.sizes]
      rcases List.mem_cons.mp hm with rfl | hm
      · omega
      · have := ih hm
        omega
  have := hle n.children h
  rw [Node.size_eq n]
  omega

/-- Induction on trees: a fact about a node may use it for the parts. -/
theorem Node.induction {P : Node → Prop} (step : ∀ n : Node, (∀ m ∈ n.children, P m) → P n)
    (n : Node) : P n := by
  induction h : n.size using Nat.strongRecOn generalizing n with
  | ind k ih =>
    subst h
    exact step n fun m hm => ih m.size (Node.size_lt_of_mem_children hm) m rfl

theorem Condition.size_lt_of_mem_parts {c d : Condition} (h : d ∈ c.parts) : d.size < c.size := by
  have hle : ∀ cs : List Condition, d ∈ cs → d.size ≤ Condition.sizes cs := by
    intro cs
    induction cs with
    | nil => intro hd; simp at hd
    | cons e rest ih =>
      intro hd
      simp only [Condition.sizes]
      rcases List.mem_cons.mp hd with rfl | hd
      · omega
      · have := ih hd
        omega
  have := hle c.parts h
  have := c.sizes_parts_lt
  omega

/-- Induction on conditions: a fact about a condition may use it for the parts. -/
theorem Condition.partsInduction {P : Condition → Prop}
    (step : ∀ c : Condition, (∀ d ∈ c.parts, P d) → P c) (c : Condition) : P c := by
  induction h : c.size using Nat.strongRecOn generalizing c with
  | ind k ih =>
    subst h
    exact step c fun d hd => ih d.size (Condition.size_lt_of_mem_parts hd) d rfl

/-! ## Pre-order -/

theorem Operand.preorders_eq (os : List Operand) :
    Operand.preorders os = os.flatMap Operand.preorder := by
  induction os with
  | nil => rfl
  | cons o rest ih => rw [Operand.preorders, ih, List.flatMap_cons]

theorem Condition.preorders_eq (cs : List Condition) :
    Condition.preorders cs = cs.flatMap Condition.preorder := by
  induction cs with
  | nil => rfl
  | cons c rest ih => rw [Condition.preorders, ih, List.flatMap_cons]

/-- A node, then the nodes of its parts from left to right. -/
theorem Node.preorder_eq (n : Node) : n.preorder = n :: n.children.flatMap Node.preorder := by
  cases n with
  | condition c =>
    cases c <;>
      simp [Node.preorder, Condition.preorder, Node.children, Condition.preorders_eq,
        List.flatMap_map]
  | operand o =>
    cases o <;>
      simp [Node.preorder, Operand.preorder, Node.children, Operand.preorders_eq, List.flatMap_map]

/-! ## Conditions and their operands -/

/-- The operands of a condition itself, from left to right. -/
def Condition.operands : Condition → List Operand
  | .compare _ left _ right => [left, right]
  | .crossover _ a b => [a, b]
  | .crossunder _ a b => [a, b]
  | .inRange _ v low high _ => [v, low, high]
  | _ => []

def Node.condition? : Node → Option Condition
  | .condition c => some c
  | .operand _ => none

/-- The conditions of a tree, in pre-order. -/
def Condition.conditions (c : Condition) : List Condition := c.preorder.filterMap Node.condition?

mutual

theorem Operand.filterMap_preorder (o : Operand) :
    o.preorder.filterMap Node.condition? = [] := by
  cases o with
  | computed operation operands =>
    rw [Operand.preorder, List.filterMap_cons_none rfl, Operand.filterMap_preorders]
  | _ => simp [Operand.preorder, Node.condition?]

theorem Operand.filterMap_preorders (os : List Operand) :
    (Operand.preorders os).filterMap Node.condition? = [] := by
  match os with
  | [] => rfl
  | o :: rest =>
    simp [Operand.preorders, Operand.filterMap_preorder o, Operand.filterMap_preorders rest]

end

theorem Condition.filterMap_preorders (cs : List Condition) :
    (Condition.preorders cs).filterMap Node.condition? = cs.flatMap Condition.conditions := by
  rw [Condition.preorders_eq, List.filterMap_flatMap]
  rfl

/-- A condition, then the conditions of its parts from left to right. -/
theorem Condition.conditions_eq (c : Condition) :
    c.conditions = c :: c.parts.flatMap Condition.conditions := by
  cases c <;>
    simp [Condition.conditions, Condition.preorder, Node.condition?, Condition.parts,
      Condition.filterMap_preorders, Operand.filterMap_preorder]

end Stratagem
