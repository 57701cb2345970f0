import Stratagem.Proofs.Document.Sources
import Stratagem.Proofs.Expression.Traversal

/-! Ids of conditions. The check reads the ids of all trees one after the other and keeps those it
has seen, which are distinct. Main statement: it passes the documents in which no two conditions
share an id, and else it reports the first id that was there before. -/

namespace Stratagem

open Schema

variable {ids : List String} {id : String}

/-! ## The first repetition -/

/-- `id` repeats an earlier one, and none before it does. -/
def RepeatsFirst (ids : List String) (id : String) : Prop :=
  ∃ before after, ids = before ++ id :: after ∧ id ∈ before ∧ before.Nodup

theorem RepeatsFirst.not_nodup (h : RepeatsFirst ids id) : ¬ ids.Nodup := by
  obtain ⟨before, after, rfl, hmem, -⟩ := h
  intro hnodup
  exact List.disjoint_of_nodup_append hnodup hmem List.mem_cons_self

theorem RepeatsFirst.eq {seen rest : List String} {found : String} (hseen : seen.Nodup)
    (hid : id ∈ seen) (h : RepeatsFirst (seen ++ id :: rest) found) : found = id := by
  obtain ⟨before, after, heq, hmem, hbefore⟩ := h
  rcases List.append_eq_append_iff.mp heq with ⟨more, rfl, htail⟩ | ⟨more, rfl, htail⟩
  · cases more with
    | nil => exact (List.cons.inj htail).1.symm
    | cons x more =>
      obtain ⟨rfl, -⟩ := List.cons.inj htail
      exact absurd List.mem_cons_self (List.disjoint_of_nodup_append hbefore hid)
  · cases more with
    | nil => exact (List.cons.inj htail).1
    | cons x more =>
      obtain ⟨rfl, -⟩ := List.cons.inj htail
      exact absurd List.mem_cons_self (List.disjoint_of_nodup_append hseen hmem)

/-- With distinct ids seen, the ids seen and those to come make up the whole list. -/
theorem firstRepeatFrom_spec {seen : List String} (hseen : seen.Nodup) (ids : List String) :
    (firstRepeatFrom seen ids = none ↔ (seen.reverse ++ ids).Nodup) ∧
      ∀ id, firstRepeatFrom seen ids = some id ↔ RepeatsFirst (seen.reverse ++ ids) id := by
  induction ids generalizing seen with
  | nil =>
    have hreverse : (seen.reverse ++ []).Nodup := by simpa using hseen
    refine ⟨by simp [firstRepeatFrom, hseen], fun id => ?_⟩
    simp only [firstRepeatFrom, reduceCtorEq, false_iff]
    exact fun h => h.not_nodup hreverse
  | cons first rest ih =>
    rw [firstRepeatFrom]
    split
    · next h =>
      have hmem : first ∈ seen.reverse := by simpa using h
      have hreverse : seen.reverse.Nodup := by simpa using hseen
      have hfirst : RepeatsFirst (seen.reverse ++ first :: rest) first :=
        ⟨seen.reverse, rest, rfl, hmem, hreverse⟩
      refine ⟨by simp [hfirst.not_nodup], fun id => ?_⟩
      rw [Option.some.injEq]
      constructor
      · rintro rfl
        exact hfirst
      · exact fun hid => (hid.eq hreverse hmem).symm
    · next h =>
      have hfresh : first ∉ seen := by simpa using h
      simpa using ih (List.nodup_cons.mpr ⟨hfresh, hseen⟩)

theorem firstRepeat?_eq_none_iff : firstRepeat? ids = none ↔ ids.Nodup :=
  (firstRepeatFrom_spec List.nodup_nil ids).1

theorem firstRepeat?_eq_some_iff : firstRepeat? ids = some id ↔ RepeatsFirst ids id :=
  (firstRepeatFrom_spec List.nodup_nil ids).2 id

/-! ## Conditions with ids -/

/-- The conditions of a document: long side, short side, then the rules of leverage, enabled or
not; of a side those of the entry come first, and each tree goes in pre-order. -/
def Document.conditions (d : Document) : List Condition :=
  [d.long, d.short].flatMap (fun side =>
    side.toList.flatMap fun s => s.entry.conditions ++ s.exit.conditions) ++
  d.leverage.toList.flatMap fun l =>
    l.rules.flatMap fun r => r.condition.toList.flatMap Condition.conditions

/-- Two conditions have the same id. -/
def Condition.SharesId (a b : Condition) : Prop :=
  ∃ id, a.mark.id = some id ∧ b.mark.id = some id

/-- The first condition with an id that some condition before it has, has this id. -/
def SharesFirst (cs : List Condition) (id : String) : Prop :=
  ∃ before c after, cs = before ++ c :: after ∧ c.mark.id = some id ∧
    (∃ b ∈ before, b.mark.id = some id) ∧ before.Pairwise fun a b => ¬ a.SharesId b

theorem nodup_ids_iff {cs : List Condition} :
    (cs.filterMap (·.mark.id)).Nodup ↔ cs.Pairwise fun a b => ¬ a.SharesId b := by
  rw [List.Nodup, List.pairwise_filterMap]
  refine List.Pairwise.iff fun {a b} => ?_
  simp only [Condition.SharesId]
  grind

theorem repeatsFirst_ids_iff {cs : List Condition} :
    RepeatsFirst (cs.filterMap (·.mark.id)) id ↔ SharesFirst cs id := by
  constructor
  · rintro ⟨before, after, heq, hmem, hnodup⟩
    obtain ⟨front, back, rfl, rfl, hback⟩ := List.filterMap_eq_append_iff.mp heq
    obtain ⟨bare, c, rest, rfl, hbare, hc, -⟩ := List.filterMap_eq_cons_iff.mp hback
    obtain ⟨b, hb, hbid⟩ := List.mem_filterMap.mp hmem
    refine ⟨front ++ bare, c, rest, by simp, hc, ⟨b, by simp [hb], hbid⟩, ?_⟩
    rw [← nodup_ids_iff, List.filterMap_append, List.filterMap_eq_nil_iff.mpr hbare]
    simpa using hnodup
  · rintro ⟨before, c, after, rfl, hc, ⟨b, hb, hbid⟩, hpairwise⟩
    refine ⟨before.filterMap (·.mark.id), after.filterMap (·.mark.id), ?_,
      List.mem_filterMap.mpr ⟨b, hb, hbid⟩, nodup_ids_iff.mpr hpairwise⟩
    simp [hc]

theorem Node.id?_eq (n : Node) : n.id? = n.condition?.bind (·.mark.id) := by
  cases n <;> rfl

theorem Condition.visit_ids (c : Condition) :
    (Node.condition c).visit.filterMap Node.id? = c.conditions.filterMap (·.mark.id) := by
  rw [Node.visit_eq_preorder, Condition.conditions, List.filterMap_filterMap]
  exact congrArg (c.preorder.filterMap ·) (funext Node.id?_eq)

theorem Document.flatMap_trees (d : Document) :
    d.trees.flatMap Condition.conditions = d.conditions := by
  obtain ⟨_, _, _, long, short, _, leverage, _, _⟩ := d
  cases long <;> cases short <;> cases leverage <;>
    simp [Document.trees, Document.conditions, SignalConfig.trees,
      List.filterMap_eq_flatMap_toList, List.flatMap_assoc]

theorem Document.nodeIds_eq (d : Document) :
    d.nodeIds = d.conditions.filterMap (·.mark.id) := by
  rw [Document.nodeIds, ← Document.flatMap_trees, List.filterMap_flatMap]
  exact List.flatMap_congr fun c _ => c.visit_ids

/-! ## The check -/

theorem authored_of_read {limits : Limits} {raw : Value} {shape : Shape} {fields : Fields}
    {d : Document} (hcanonical : canonical limits raw = .ok (shape, fields))
    (hread : Document.read (.object fields) = .good d) :
    authored limits raw =
      (firstRepeat? d.nodeIds).elim (.ok d) fun id => .error (.repeatedId id) := by
  simp only [authored, hcanonical, hread, Checked.toExcept, Except.mapError, bind, Except.bind]
  cases firstRepeat? d.nodeIds <;> rfl

/-- The check passes if and only if no two conditions share an id, and else it reports the id that
is the first to be there again; a document that was read is then authored or refused with this id.
The walk behind it lists the nodes of any tree in pre-order, every place once. -/
theorem nodeIds_check_exact (d : Document) :
    (firstRepeat? d.nodeIds = none ↔ d.conditions.Pairwise fun a b => ¬ a.SharesId b) ∧
    (∀ id, firstRepeat? d.nodeIds = some id ↔ SharesFirst d.conditions id) ∧
    (∀ limits raw shape fields, canonical limits raw = .ok (shape, fields) →
      Document.read (.object fields) = .good d →
      (authored limits raw = .ok d ↔ d.conditions.Pairwise fun a b => ¬ a.SharesId b) ∧
      ∀ id, authored limits raw = .error (.repeatedId id) ↔ SharesFirst d.conditions id) ∧
    ∀ n : Node, n.visit = n.preorder ∧ ∃ places, n.Places places := by
  have hnone : firstRepeat? d.nodeIds = none ↔ d.conditions.Pairwise fun a b => ¬ a.SharesId b := by
    rw [firstRepeat?_eq_none_iff, Document.nodeIds_eq, nodup_ids_iff]
  have hsome : ∀ id, firstRepeat? d.nodeIds = some id ↔ SharesFirst d.conditions id := by
    intro id
    rw [firstRepeat?_eq_some_iff, Document.nodeIds_eq, repeatsFirst_ids_iff]
  refine ⟨hnone, hsome, ?_, fun n => ⟨n.visit_eq_preorder, n.exists_places⟩⟩
  intro limits raw shape fields hcanonical hread
  rw [authored_of_read hcanonical hread, ← hnone]
  simp only [← hsome]
  cases firstRepeat? d.nodeIds with
  | none => simp
  | some id => simp

/-- A document in whose leverage a rule that is switched off has the id of a part of the exit. -/
def repeatingRaw : Value :=
  let close : Value := .object [("type", .text "PRICE"), ("field", .text "close")]
  let open_ : Value := .object [("type", .text "PRICE"), ("field", .text "open")]
  let rising (id : String) : Value := .object [("type", .text "COMPARE"), ("id", .text id),
    ("left", close), ("operator", .text "gt"), ("right", open_)]
  .object [("version", .int 2),
    ("long", .object [
      ("entry_conditions", rising "first"),
      ("exit_conditions", .object [("type", .text "NOT"), ("child", rising "second")])]),
    ("leverage", .object [("rules", .list [
      .object [("enabled", .bool false), ("condition", rising "second"),
        ("leverage", .object [("type", .text "CONSTANT"), ("value", .int 2)])]])])]

theorem read_repeatingRaw : ∃ d shape fields, canonical {} repeatingRaw = .ok (shape, fields) ∧
    Document.read (.object fields) = .good d ∧ firstRepeat? d.nodeIds = some "second" := by
  have hsample : (match canonical {} repeatingRaw with
    | .ok (_, fields) => match Document.read (.object fields) with
      | .good d => firstRepeat? d.nodeIds == some "second"
      | .bad _ => false
    | .error _ => false) = true := by decide +kernel
  split at hsample
  · next shape fields hcanonical =>
    split at hsample
    · next d hread => exact ⟨d, shape, fields, hcanonical, hread, by simpa using hsample⟩
    · cases hsample
  · cases hsample

theorem repeating_check_exact : ∃ d shape fields,
    canonical {} repeatingRaw = .ok (shape, fields) ∧ Document.read (.object fields) = .good d ∧
    SharesFirst d.conditions "second" ∧
    authored {} repeatingRaw = .error (.repeatedId "second") := by
  obtain ⟨d, shape, fields, hcanonical, hread, hrepeat⟩ := read_repeatingRaw
  obtain ⟨-, hsome, hauthored, -⟩ := nodeIds_check_exact d
  have hfirst := (hsome "second").mp hrepeat
  exact ⟨d, shape, fields, hcanonical, hread, hfirst,
    ((hauthored {} repeatingRaw shape fields hcanonical hread).2 "second").mpr hfirst⟩

end Stratagem
