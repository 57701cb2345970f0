import Stratagem.Proofs.Emission.Lookback

/-! What a walk leaves in its tally, in either scope. Each node of the tree is recorded once: its
imports are there afterwards, none is there that no node asked for, and the lookback is at least
what each price and indicator reaches. -/

namespace Stratagem

namespace Emission

variable {n : Node} {e : Emitted}

/-- The step from one tally to the next that some nodes account for. -/
structure Records (context : EmissionContext) (nodes : List Node) (s t : Tally) : Prop where
  imports : ∀ x, x ∈ t.imports ↔ x ∈ s.imports ∨ ∃ n ∈ nodes, x ∈ nodeImports context.scope n
  rises : s.lookback ≤ t.lookback
  reaches : ∀ n ∈ nodes, ∀ offset ∈ n.offset?, reach context.scope offset ≤ t.lookback
  declared : ∀ id field offset, .operand (.indicator id field offset) ∈ nodes →
    (context.binding.find? id).isSome = true

variable {context : EmissionContext} {s t u : Tally}

theorem Records.nil : Records context [] s s :=
  ⟨by simp, Nat.le_refl _, nofun, by simp⟩

theorem Records.append {xs ys : List Node} (h : Records context xs s u)
    (h' : Records context ys u t) : Records context (xs ++ ys) s t where
  imports x := by
    rw [h'.imports, h.imports, or_assoc]
    simp only [List.mem_append, or_and_right, exists_or]
  rises := Nat.le_trans h.rises h'.rises
  reaches := List.forall_mem_append.mpr
    ⟨fun n hn offset ho => Nat.le_trans (h.reaches n hn offset ho) h'.rises, h'.reaches⟩
  declared id field offset hmem :=
    (List.mem_append.mp hmem).elim (h.declared id field offset) (h'.declared id field offset)

theorem Records.congr {xs ys : List Node} (hmem : ∀ n, n ∈ xs ↔ n ∈ ys)
    (h : Records context xs s t) : Records context ys s t where
  imports x := by simp only [h.imports, hmem]
  rises := h.rises
  reaches n hn := h.reaches n ((hmem n).mpr hn)
  declared id field offset hn := h.declared id field offset ((hmem _).mpr hn)

/-- A price or an indicator is emitted as columns at its offset. -/
theorem lookback_of_offset? {parts : List Emitted} {offset : Nat}
    (hoffset : n.offset? = some offset) (h : node context n parts = .ok e) :
    e.lookback = reach context.scope offset := by
  unfold Node.offset? at hoffset
  split at hoffset
  · cases hoffset
    obtain ⟨name, -, rfl⟩ := indicator_eq_ok h
    rfl
  · cases hoffset
    cases h
    rfl
  · cases hoffset

theorem find?_of_column {b : Binding} {id name : String} {field : Option String}
    (h : b.column id field = .ok name) : (b.find? id).isSome = true := by
  unfold Binding.column at h
  split at h
  · cases h
  · next i hi => rw [hi]; rfl

/-- One node: the step of the walk. -/
theorem record_records {parts : List Emitted} (h : node context n parts = .ok e) :
    Records context [n] s (s.record context.scope n e) where
  imports x := by
    simp only [Tally.record, List.mem_append, List.mem_filter, List.mem_singleton, exists_eq_left]
    by_cases hx : x ∈ s.imports
    · simp [hx]
    · simp [hx]
  rises := Nat.le_max_left ..
  reaches := List.forall_mem_singleton.mpr fun offset ho =>
    lookback_of_offset? ho h ▸ Nat.le_max_right ..
  declared id field offset hmem := by
    obtain rfl := List.mem_singleton.mp hmem
    obtain ⟨name, hname, -⟩ := indicator_eq_ok h
    exact find?_of_column hname

/-- **A walk records each node of the tree, and nothing else.** -/
theorem descend_records {depth : Nat} {s t : Tally} (h : descend context depth n s = (.ok e, t)) :
    Records context n.preorder s t := by
  refine descend_induction (fun n s _ t => Records context n.preorder s t)
    (fun ns s _ t => Records context (ns.flatMap Node.preorder) s t) (fun _ => .nil)
    (fun hn hns => ?_) (fun hparts hnode => ?_) h
  · rw [List.flatMap_cons]
    exact hn.append hns
  · refine (hparts.append (record_records hnode)).congr fun m => ?_
    rw [Node.mem_preorder, List.mem_append, List.mem_singleton, List.mem_flatMap, or_comm]

theorem emitCondition_records {c : Condition} {s t : Tally}
    (h : emitCondition context (.condition c) s = (.ok e, t)) : Records context c.preorder s t := by
  obtain ⟨p, hdescend, -⟩ := emitCondition_descends h
  exact descend_records hdescend

end Emission

end Stratagem
