import Stratagem.Expression.Basic

/-!
Traversal of trees in pre-order. `Node.preorder` is the plain recursion; `Node.visit` walks a list
of pending nodes and needs no recursion on the tree, and is what runs.
-/

namespace Stratagem

mutual

def Operand.size : Operand → Nat
  | .computed _ operands => Operand.sizes operands + 1
  | _ => 1

def Operand.sizes : List Operand → Nat
  | [] => 0
  | o :: rest => o.size + Operand.sizes rest

end

mutual

def Condition.size : Condition → Nat
  | .all _ children => Condition.sizes children + 1
  | .any _ children => Condition.sizes children + 1
  | .not _ child => child.size + 1
  | .ifThen _ c t => c.size + t.size + 1
  | .ifThenElse _ c t e => c.size + t.size + e.size + 1
  | .compare _ left _ right => left.size + right.size + 1
  | .crossover _ a b => a.size + b.size + 1
  | .crossunder _ a b => a.size + b.size + 1
  | .inRange _ v low high _ => v.size + low.size + high.size + 1

def Condition.sizes : List Condition → Nat
  | [] => 0
  | c :: rest => c.size + Condition.sizes rest

end

/-- The number of nodes of a tree. -/
def Node.size : Node → Nat
  | .condition c => c.size
  | .operand o => o.size

def Node.sizes : List Node → Nat
  | [] => 0
  | n :: rest => n.size + Node.sizes rest

@[simp] theorem Node.sizes_append (xs ys : List Node) :
    Node.sizes (xs ++ ys) = Node.sizes xs + Node.sizes ys := by
  induction xs with
  | nil => simp [Node.sizes]
  | cons n rest ih => simp only [List.cons_append, Node.sizes, ih]; omega

theorem Node.sizes_conditions (cs : List Condition) :
    Node.sizes (cs.map .condition) = Condition.sizes cs := by
  induction cs with
  | nil => rfl
  | cons c rest ih => simp [Node.sizes, Condition.sizes, Node.size, ih]

theorem Node.sizes_operands (os : List Operand) :
    Node.sizes (os.map .operand) = Operand.sizes os := by
  induction os with
  | nil => rfl
  | cons o rest ih => simp [Node.sizes, Operand.sizes, Node.size, ih]

/-- A node counts for itself and its parts. -/
theorem Node.size_eq (n : Node) : n.size = Node.sizes n.children + 1 := by
  cases n with
  | condition c =>
    cases c <;>
      simp [Node.size, Condition.size, Node.children, Node.sizes, Node.sizes_conditions] <;> omega
  | operand o =>
    cases o <;>
      simp [Node.size, Operand.size, Node.children, Node.sizes, Node.sizes_operands]

/-! ## Pre-order -/

mutual

def Operand.preorder : Operand → List Node
  | .computed operation operands =>
    .operand (.computed operation operands) :: Operand.preorders operands
  | o => [.operand o]

def Operand.preorders : List Operand → List Node
  | [] => []
  | o :: rest => o.preorder ++ Operand.preorders rest

end

mutual

def Condition.preorder : Condition → List Node
  | .all mark children => .condition (.all mark children) :: Condition.preorders children
  | .any mark children => .condition (.any mark children) :: Condition.preorders children
  | .not mark child => .condition (.not mark child) :: child.preorder
  | .ifThen mark c t => .condition (.ifThen mark c t) :: (c.preorder ++ t.preorder)
  | .ifThenElse mark c t e =>
    .condition (.ifThenElse mark c t e) :: (c.preorder ++ t.preorder ++ e.preorder)
  | .compare mark left op right =>
    .condition (.compare mark left op right) :: (left.preorder ++ right.preorder)
  | .crossover mark a b => .condition (.crossover mark a b) :: (a.preorder ++ b.preorder)
  | .crossunder mark a b => .condition (.crossunder mark a b) :: (a.preorder ++ b.preorder)
  | .inRange mark v low high inclusive =>
    .condition (.inRange mark v low high inclusive) ::
      (v.preorder ++ low.preorder ++ high.preorder)

def Condition.preorders : List Condition → List Node
  | [] => []
  | c :: rest => c.preorder ++ Condition.preorders rest

end

/-- The node, then the nodes of its parts from left to right. -/
def Node.preorder : Node → List Node
  | .condition c => c.preorder
  | .operand o => o.preorder

/-- Visit the pending nodes, topmost first; `done` holds the visited ones, last one first. -/
def Node.visitFrom (done : List Node) (pending : List Node) : List Node :=
  match pending with
  | [] => done.reverse
  | n :: rest => Node.visitFrom (n :: done) (n.children ++ rest)
termination_by Node.sizes pending
decreasing_by
  simp only [Node.sizes_append, Node.sizes, Node.size_eq n]
  omega

def Node.visit (root : Node) : List Node := Node.visitFrom [] [root]

end Stratagem
