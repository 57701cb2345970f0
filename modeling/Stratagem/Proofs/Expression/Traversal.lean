import Stratagem.Proofs.Expression.Subtrees

/-! The walk over a tree. The nodes that are still pending account for all that the walk has yet to
list, each with its whole tree in pre-order. A node stands at a place, the path of child numbers
that leads to it, and the walk comes to every place once, in lexicographic order. -/

namespace Stratagem

/-! ## The walk -/

/-- What is done comes first, then the tree of each pending node. -/
theorem Node.visitFrom_eq (done pending : List Node) :
    Node.visitFrom done pending = done.reverse ++ pending.flatMap Node.preorder := by
  fun_induction Node.visitFrom done pending with
  | case1 done => simp
  | case2 done n rest ih =>
    rw [ih, List.flatMap_cons, Node.preorder_eq n]
    simp

theorem Node.visit_eq_preorder (n : Node) : n.visit = n.preorder := by
  rw [Node.visit, Node.visitFrom_eq]
  simp

/-! ## Places -/

/-- The node at a path of child numbers, if the path stays in the tree. -/
def Node.at? : Node → List Nat → Option Node
  | n, [] => some n
  | n, i :: path => n.children[i]?.bind (·.at? path)

/-- All places of a tree in lexicographic order, each with the node that stands there. -/
structure Node.Places (n : Node) (places : List (List Nat × Node)) : Prop where
  sorted : places.Pairwise fun a b => a.1 < b.1
  complete : ∀ path m, (path, m) ∈ places ↔ n.at? path = some m
  nodes : places.map Prod.snd = n.preorder

/-- The places of some trees, where the number of the first one is given. -/
theorem Node.exists_places_of_forest {cs : List Node} (h : ∀ c ∈ cs, ∃ places, c.Places places)
    (first : Nat) : ∃ places : List (List Nat × Node),
      (places.Pairwise fun a b => a.1 < b.1) ∧
      (∀ path m, (path, m) ∈ places ↔
        ∃ i c rest, path = (first + i) :: rest ∧ cs[i]? = some c ∧ c.at? rest = some m) ∧
      places.map Prod.snd = cs.flatMap Node.preorder := by
  induction cs generalizing first with
  | nil => exact ⟨[], by simp⟩
  | cons c cs ih =>
    obtain ⟨hc, hcs⟩ := List.forall_mem_cons.mp h
    obtain ⟨own, hown⟩ := hc
    obtain ⟨others, hsorted, hcomplete, hnodes⟩ := ih hcs (first + 1)
    refine ⟨own.map (fun p => (first :: p.1, p.2)) ++ others, ?_, ?_, ?_⟩
    · refine List.pairwise_append.mpr ⟨?_, hsorted, ?_⟩
      · rw [List.pairwise_map]
        exact hown.sorted.imp fun hab => List.cons_lt_cons_iff.mpr (.inr ⟨rfl, hab⟩)
      · rintro _ ha ⟨path, m⟩ hb
        obtain ⟨a, -, rfl⟩ := List.mem_map.mp ha
        obtain ⟨i, d, rest, rfl, -⟩ := (hcomplete path m).mp hb
        exact List.cons_lt_cons_iff.mpr (.inl (by omega))
    · intro path m
      rw [List.mem_append, hcomplete]
      constructor
      · rintro (hm | ⟨i, d, rest, rfl, hd, hm⟩)
        · obtain ⟨⟨rest, _⟩, hmem, heq⟩ := List.mem_map.mp hm
          cases heq
          exact ⟨0, c, rest, rfl, rfl, (hown.complete _ _).mp hmem⟩
        · exact ⟨i + 1, d, rest, by congr 1; omega, hd, hm⟩
      · rintro ⟨i, d, rest, rfl, hd, hm⟩
        cases i with
        | zero =>
          cases hd
          exact .inl (List.mem_map.mpr ⟨(rest, m), (hown.complete _ _).mpr hm, rfl⟩)
        | succ i => exact .inr ⟨i, d, rest, by congr 1; omega, hd, hm⟩
    · rw [List.map_append, List.map_map, hnodes, List.flatMap_cons, ← hown.nodes]
      rfl

theorem Node.exists_places (n : Node) : ∃ places, n.Places places := by
  induction n using Node.induction with
  | step n ih =>
    obtain ⟨places, hsorted, hcomplete, hnodes⟩ := Node.exists_places_of_forest ih 0
    have hbelow : ∀ path m, (path, m) ∈ places → ∃ i rest, path = i :: rest := by
      intro path m hm
      obtain ⟨i, c, rest, rfl, -⟩ := (hcomplete path m).mp hm
      exact ⟨_, rest, rfl⟩
    refine ⟨([], n) :: places, ?_, ?_, ?_⟩
    · refine List.pairwise_cons.mpr ⟨fun ⟨path, m⟩ hm => ?_, hsorted⟩
      obtain ⟨i, rest, rfl⟩ := hbelow path m hm
      exact List.nil_lt_cons i rest
    · intro path m
      cases path with
      | nil =>
        have hroot : ([], m) ∉ places := fun hm => by
          obtain ⟨i, rest, hno⟩ := hbelow [] m hm
          cases hno
        simp [hroot, Node.at?, eq_comm]
      | cons i path =>
        simp only [List.mem_cons, Prod.mk.injEq, reduceCtorEq, false_and, false_or, hcomplete,
          Nat.zero_add, List.cons.injEq, Node.at?, Option.bind_eq_some_iff]
        constructor
        · rintro ⟨_, c, _, ⟨rfl, rfl⟩, hc, hm⟩
          exact ⟨c, hc, hm⟩
        · rintro ⟨c, hc, hm⟩
          exact ⟨i, c, path, ⟨rfl, rfl⟩, hc, hm⟩
    · rw [List.map_cons, hnodes, ← Node.preorder_eq]

end Stratagem
