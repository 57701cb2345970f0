import Stratagem.Expression.Dump
import Stratagem.Proofs.Expression.Admissible
import Stratagem.Proofs.Schema.Evaluation

/-! Trees that are written and read again. What is written has every field under its first name and
in its plainest spelling, and each reader takes the plain spelling for what it stands for. So a tree
reads back as itself whenever all its nodes are admissible, and trees that were read are. -/

namespace Stratagem

open Schema

/-! ## Names -/

instance : LawfulNamed Comparison := ⟨fun a => by cases a <;> rfl⟩

instance : LawfulNamed Operation := ⟨fun a => by cases a <;> rfl⟩

instance : LawfulNamed PriceField := ⟨fun a => by cases a <;> rfl⟩

instance : LawfulNamed TimeField := ⟨fun a => by cases a <;> rfl⟩

instance : LawfulNamed TradeField := ⟨fun a => by cases a <;> rfl⟩

instance : LawfulNamed OperandKind := ⟨fun a => by cases a <;> rfl⟩

instance : LawfulNamed ConditionKind := ⟨fun a => by cases a <;> rfl⟩

/-- The name of an operation is trimmed, in lower case and no long name. -/
theorem Operation.plain_name (op : Operation) :
    (longNames.lookup (Text.lower (Text.strip (Named.name op)))).getD
      (Text.lower (Text.strip (Named.name op))) = Named.name op := by
  cases op <;> decide +kernel

theorem readOperation_name (op : Operation) : readOperation (.text (Named.name op)) = .good op := by
  change readNamed Operation (.text ((Operation.longNames.lookup
    (Text.lower (Text.strip (Named.name op)))).getD
      (Text.lower (Text.strip (Named.name op))))) = .good op
  rw [Operation.plain_name]
  exact readNamed_name op

/-! ## Scalars -/

theorem readScalar_toValue (s : Scalar) : readScalar s.toValue = .good s := by
  cases s <;> rfl

theorem readConstant_toValue {c : Constant} (h : c.notFinite? = none) :
    readConstant c.toValue = .good c := by
  have hshape : readConstantShape c.toValue = .good c := by
    cases c with
    | scalar s => simp only [readConstantShape, Constant.toValue, readScalar_toValue]
    | list items =>
      have hitems : readItems 0 (items.map Scalar.toValue) (fun w _ => readScalar w) =
          .good items := readItems_good fun s _ _ => readScalar_toValue s
      have hlist : readScalar (.list (items.map Scalar.toValue)) = .bad notScalar := rfl
      simp only [readConstantShape, Constant.toValue, hlist, Value.items?, hitems]
  simp only [readConstant, hshape, Checked.andThen, h]

theorem readNonempty_text {s : String} (h : s ≠ "") : readNonempty (.text s) = .good s := by
  have hfull : s.isEmpty = false := by simpa [String.isEmpty_iff] using h
  simp [readNonempty, readText, Checked.andThen, hfull]

theorem readNat_int {low high n : Nat} (hlow : low ≤ n) (hhigh : n ≤ high) :
    readNat low (some high) (.int n) = .good n := by
  have hle : ¬ ((high : Int) < n) := by omega
  have hge : ¬ ((n : Int) < low) := by omega
  simp [readNat, readInt, Checked.andThen, intWithin, hle, hge, Checked.map]

theorem readZone_text {z : String} (h : isZone z = true ∧ z ≠ "" ∧ z ≠ "UTC") :
    readZone (.text z) = .good (some z) := by
  obtain ⟨hzone, hfull, hplain⟩ := h
  have hempty : z.isEmpty = false := by simpa [String.isEmpty_iff] using hfull
  simp [readZone, readText, Checked.andThen, hempty, hplain, hzone]

section Fields

variable {fields : Fields} {name : String} {names : List String}

theorem nullable_text {s : Option String}
    (h : Fields.get? fields (.text name) = some (optionalText s)) :
    (nullable fields (name :: names) fun w _ => readText w) = .good s := by
  cases s with
  | none => exact nullable_null h
  | some t => exact nullable_good h rfl fun _ => rfl

theorem nullable_zone {zone : Option String}
    (hzone : ∀ z ∈ zone, isZone z = true ∧ z ≠ "" ∧ z ≠ "UTC")
    (h : Fields.get? fields (.text name) = some (optionalText zone)) :
    (nullable fields (name :: names) fun w _ => readZone w).map Option.join = .good zone := by
  cases zone with
  | none =>
    rw [nullable_null h]
    rfl
  | some z =>
    rw [nullable_good h rfl fun _ => readZone_text (hzone z rfl)]
    rfl

theorem readOffset_int {offset : Nat} (hoffset : offset ≤ maxOffset)
    (h : Fields.get? fields (.text "offset") = some (.int offset)) :
    readOffset fields = .good offset :=
  optional_good h fun _ => readNat_int (Nat.zero_le offset) hoffset

end Fields

/-! ## Nodes -/

theorem Operand.dumps_eq (os : List Operand) : Operand.dumps os = os.map Operand.dump := by
  induction os with
  | nil => rfl
  | cons o rest ih => rw [Operand.dumps, ih, List.map_cons]

theorem Condition.dumps_eq (cs : List Condition) : Condition.dumps cs = cs.map Condition.dump := by
  induction cs with
  | nil => rfl
  | cons c rest ih => rw [Condition.dumps, ih, List.map_cons]

theorem Condition.dump_isNull (c : Condition) : c.dump.isNull = false := by
  cases c <;> rfl

/-- A node that is written and read again. -/
def Node.ReadsBack : Node → Prop
  | .condition c => Condition.read c.dump = .good c
  | .operand o => Operand.read o.dump = .good o

theorem Operand.readsBack {o : Operand} (hadm : (Node.operand o).Admissible)
    (h : ∀ m ∈ (Node.operand o).children, m.ReadsBack) : (Node.operand o).ReadsBack := by
  rw [Node.ReadsBack]
  cases o with
  | constant value =>
    rw [Operand.dump, Operand.read]
    refine variant_good OperandKind.constant rfl ?_
    dsimp only
    rw [optional_good rfl fun _ => readConstant_toValue hadm]
    rfl
  | indicator id field offset =>
    obtain ⟨hid, hoffset⟩ := hadm
    rw [Operand.dump, Operand.read]
    refine variant_good OperandKind.indicator rfl ?_
    dsimp only
    rw [required_good rfl fun _ => readNonempty_text hid, nullable_text rfl,
      readOffset_int hoffset rfl]
    rfl
  | price field offset =>
    rw [Operand.dump, Operand.read]
    refine variant_good OperandKind.price rfl ?_
    dsimp only
    rw [optional_good rfl fun _ => readNamed_name field, readOffset_int hadm rfl]
    rfl
  | tradeContext field =>
    rw [Operand.dump, Operand.read]
    refine variant_good OperandKind.tradeContext rfl ?_
    dsimp only
    rw [required_good rfl fun _ => readNamed_name field]
    rfl
  | time field zone =>
    rw [Operand.dump, Operand.read]
    refine variant_good OperandKind.time rfl ?_
    dsimp only
    rw [required_good rfl fun _ => readNamed_name field, nullable_zone hadm rfl]
    rfl
  | computed operation operands =>
    have hoperands : ∀ p ∈ operands, Operand.read p.dump = .good p :=
      fun p hp => h (.operand p) (List.mem_map_of_mem hp)
    rw [Operand.dump, Operand.dumps_eq, Operand.read]
    refine variant_good OperandKind.computed rfl ?_
    dsimp only
    -- The name is left as it stands; comparing it with what is read would unfold the case tables.
    generalize hname : Value.text (Named.name operation) = tag
    have htag : readOperation tag = .good operation := hname ▸ readOperation_name operation
    rw [required_good rfl fun _ => htag,
      optional_good rfl fun _ => tuple_good fun p hp _ => hoperands p hp]
    exact if_pos hadm
  | external source =>
    rw [Operand.dump, Operand.read]
    refine variant_good OperandKind.external rfl ?_
    dsimp only
    rw [nullable_text rfl]
    rfl
  | custom name =>
    rw [Operand.dump, Operand.read]
    refine variant_good OperandKind.custom rfl ?_
    dsimp only
    rw [nullable_text rfl]
    rfl

theorem readMark_object (mark : Mark) (kind : ConditionKind) (parts : Fields) :
    readMark (("id", optionalText mark.id) :: ("label", optionalText mark.label) ::
      ("type", .text (Named.name kind)) :: parts) = .good mark := by
  rw [readMark, nullable_text rfl, nullable_text rfl]
  rfl

theorem requiredOperand_good {fields : Fields} {name : String} {o : Operand}
    (h : Fields.get? fields (.text name) = some o.dump) (ho : Operand.read o.dump = .good o) :
    requiredOperand fields name = .good o :=
  required_good h fun _ => ho

theorem Condition.readsBack {c : Condition}
    (h : ∀ m ∈ (Node.condition c).children, m.ReadsBack) : (Node.condition c).ReadsBack := by
  rw [Node.ReadsBack]
  have hcondition (d : Condition) (hd : .condition d ∈ (Node.condition c).children) :
    Condition.read d.dump = .good d := h (.condition d) hd
  have hoperand (o : Operand) (ho : .operand o ∈ (Node.condition c).children) :
    Operand.read o.dump = .good o := h (.operand o) ho
  cases c with
  | all mark children | any mark children =>
    have hchildren : ∀ d ∈ children, Condition.read d.dump = .good d :=
      fun d hd => hcondition d (List.mem_map_of_mem hd)
    rw [Condition.dump, Mark.object, Condition.dumps_eq, Condition.read]
    refine variant_good _ rfl ?_
    dsimp only
    rw [readMark_object, optional_good rfl fun _ => tuple_good fun d hd _ => hchildren d hd]
    rfl
  | not mark child =>
    have hchild := hcondition child (by simp [Node.children])
    rw [Condition.dump, Mark.object, Condition.read]
    refine variant_good _ rfl ?_
    dsimp only
    rw [readMark_object, required_good rfl fun _ => hchild]
    rfl
  | ifThen mark c t =>
    have hc := hcondition c (by simp [Node.children])
    have ht := hcondition t (by simp [Node.children])
    rw [Condition.dump, Mark.object, Condition.read]
    refine variant_good _ rfl ?_
    dsimp only
    rw [readMark_object, required_good rfl fun _ => hc, required_good rfl fun _ => ht,
      nullable_null rfl]
    rfl
  | ifThenElse mark c t e =>
    have hc := hcondition c (by simp [Node.children])
    have ht := hcondition t (by simp [Node.children])
    have he := hcondition e (by simp [Node.children])
    rw [Condition.dump, Mark.object, Condition.read]
    refine variant_good _ rfl ?_
    dsimp only
    rw [readMark_object, required_good rfl fun _ => hc, required_good rfl fun _ => ht,
      nullable_good rfl e.dump_isNull fun _ => he]
    rfl
  | compare mark left operator right =>
    have hleft := hoperand left (by simp [Node.children])
    have hright := hoperand right (by simp [Node.children])
    rw [Condition.dump, Mark.object, Condition.read]
    refine variant_good _ rfl ?_
    dsimp only
    rw [readMark_object, requiredOperand_good rfl hleft,
      required_good rfl fun _ => readNamed_name operator, requiredOperand_good rfl hright]
    rfl
  | crossover mark a b | crossunder mark a b =>
    have ha := hoperand a (by simp [Node.children])
    have hb := hoperand b (by simp [Node.children])
    rw [Condition.dump, Mark.object, Condition.read]
    refine variant_good _ rfl ?_
    dsimp only
    rw [readMark_object, requiredOperand_good rfl ha, requiredOperand_good rfl hb]
    rfl
  | inRange mark v low high inclusive =>
    have hv := hoperand v (by simp [Node.children])
    have hlow := hoperand low (by simp [Node.children])
    have hhigh := hoperand high (by simp [Node.children])
    rw [Condition.dump, Mark.object, Condition.read]
    refine variant_good _ rfl ?_
    dsimp only
    rw [readMark_object, requiredOperand_good rfl hv, requiredOperand_good rfl hlow,
      requiredOperand_good rfl hhigh, optional_good rfl fun _ => rfl]
    rfl

/-! ## Trees -/

theorem Node.readsBack {n : Node} (h : ∀ m ∈ n.preorder, m.Admissible) : n.ReadsBack := by
  induction n using Node.induction with
  | step n ih =>
    obtain ⟨hself, hparts⟩ := (Node.forall_mem_preorder n).mp h
    have hchildren : ∀ m ∈ n.children, m.ReadsBack := fun m hm => ih m hm (hparts m hm)
    cases n with
    | condition c => exact Condition.readsBack hchildren
    | operand o => exact Operand.readsBack hself hchildren

/-- Exactly the admissible conditions read back. -/
theorem Condition.read_dump_iff (c : Condition) :
    Condition.read c.dump = .good c ↔ c.Admissible :=
  ⟨Condition.read_admissible, Node.readsBack⟩

theorem Operand.read_dump_iff (o : Operand) : Operand.read o.dump = .good o ↔ o.Admissible :=
  ⟨Operand.read_admissible, Node.readsBack⟩

/-- Whatever value a condition or an operand was read from, it is read again from what it is
written as, and is then written the same. -/
theorem read_dump_of_read (v : Value) :
    (∀ c, Condition.read v = .good c →
      ∃ d, Condition.read c.dump = .good d ∧ d = c ∧ d.dump = c.dump) ∧
    ∀ o, Operand.read v = .good o →
      ∃ p, Operand.read o.dump = .good p ∧ p = o ∧ p.dump = o.dump := by
  constructor
  · intro c hc
    exact ⟨c, (Condition.read_dump_iff c).mpr (Condition.read_admissible hc), rfl, rfl⟩
  · intro o ho
    exact ⟨o, (Operand.read_dump_iff o).mpr (Operand.read_admissible ho), rfl, rfl⟩

/-- A difference in an older spelling: a long name in capitals between blanks, an operand under its
other key, an offset written as a text and the zone that stands for none. -/
def differenceRaw : Value :=
  .object [(.text "type", .text "COMPUTED"), (.text "operation", .text " Subtract\t"),
    (.text "operands", .tuple [
      .object [(.text "type", .text "INDICATOR"), (.text "indicatorId", .text "rsi"),
        (.text "offset", .text " 3.0 ")],
      .object [(.text "type", .text "TIME"), (.text "field", .text "hour"),
        (.text "timezone", .text "UTC")]])]

def difference : Operand := .computed .sub [.indicator "rsi" none 3, .time .hour none]

/-- A conditional with its last branch under the other key. -/
def branchingRaw : Value :=
  .object [(.text "type", .text "IF_THEN_ELSE"),
    (.text "condition", .object [(.text "type", .text "AND")]),
    (.text "then", .object [(.text "type", .text "OR"), (.text "label", .text "l")]),
    (.text "else_", .object [(.text "type", .text "COMPARE"), (.text "left", differenceRaw),
      (.text "operator", .text "in"),
      (.text "right", .object [(.text "type", .text "CONSTANT"),
        (.text "value", .list [.int 1, .bool true, .text "1", .null])])])]

def branching : Condition :=
  .ifThenElse ⟨none, none⟩ (.all ⟨none, none⟩ []) (.any ⟨none, some "l"⟩ [])
    (.compare ⟨none, none⟩ difference .in_
      (.constant (.list [.int 1, .bool true, .text "1", .null])))

theorem read_differenceRaw : Operand.read differenceRaw = .good difference := by
  with_unfolding_all rfl

theorem read_branchingRaw : Condition.read branchingRaw = .good branching := by
  with_unfolding_all rfl

theorem branching_reads_back :
    (Condition.read branchingRaw = .good branching ∧
      Condition.read branching.dump = .good branching) ∧
    Operand.read differenceRaw = .good difference ∧
      Operand.read difference.dump = .good difference := by
  obtain ⟨c, hc, rfl, -⟩ := (read_dump_of_read branchingRaw).1 branching read_branchingRaw
  obtain ⟨o, ho, rfl, -⟩ := (read_dump_of_read differenceRaw).2 difference read_differenceRaw
  exact ⟨⟨read_branchingRaw, hc⟩, read_differenceRaw, ho⟩

end Stratagem
