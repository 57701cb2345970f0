import Stratagem.Proofs.Document.Migration
import Stratagem.Proofs.Document.Reading
import Stratagem.Proofs.Leverage.Candles
import Stratagem.Proofs.Value.Guard

/-! Where the trees of a document come from. Unwrapping and migration move trees about, and reading
takes them from under other keys, out of rule lists and out of the callbacks, or makes one of a bare
number. Still each tree of a document is read from a value that nests no deeper than the raw
document does. -/

namespace Stratagem

open Schema Schema.Checked Fields

variable {fields : Fields} {s : SignalConfig} {v raw : Value} {x : LeverageValue} {key : Key}
  {d : Document} {limits : Limits}

/-- A node that is read from a value of some depth at most. -/
def Node.ReadWithin (depth : Nat) (n : Node) : Prop := ∃ v : Value, v.depth ≤ depth ∧ n.ReadFrom v

/-- The trees of a document, and the operands that its leverage is computed from. -/
def Document.roots (d : Document) : List Node :=
  d.trees.map .condition ++
    (d.leverage.map fun l => l.rules.map fun r => .operand r.leverage.operand).getD []

def SignalConfig.ReadWithin (depth : Nat) (s : SignalConfig) : Prop :=
  ∀ c ∈ s.trees, (Node.condition c).ReadWithin depth

structure LeverageRule.ReadWithin (depth : Nat) (r : LeverageRule) : Prop where
  condition : ∀ c, r.condition = some c → (Node.condition c).ReadWithin depth
  leverage : (Node.operand r.leverage.operand).ReadWithin depth

variable {depth : Nat}

/-! ## Signals -/

theorem read_never : Condition.read (.object [(.text "type", .text "OR")]) = .good .never := by
  with_unfolding_all rfl

theorem read_neverTree : Condition.read neverTree = .good .never := by
  with_unfolding_all rfl

/-- The tree that never fires has no children, so one mapping is enough to write it. -/
theorem never_readWithin (h : 1 ≤ depth) : (Node.condition .never).ReadWithin depth :=
  ⟨_, by simpa [Value.depth, Value.fieldDepths] using h, read_never⟩

/-- The trees of a side are read from its fields or never fire. -/
theorem SignalConfig.read_within (hdepth : 1 ≤ depth)
    (h : SignalConfig.read (.object fields) = .good s)
    (hfields : ∀ key v c, get? fields key = some v → Condition.read v = .good c →
      (Node.condition c).ReadWithin depth) : s.ReadWithin depth := by
  obtain ⟨entry, exit, hentry, hexit, rfl⟩ := map_seq_eq_good h
  have hone : ∀ {names : List String} {c : Condition},
      (optional fields names .never fun w _ => Condition.read w) = .good c →
        (Node.condition c).ReadWithin depth := by
    intro names c hc
    rcases optional_eq_good hc with rfl | ⟨name, _, v, _, hv, hread⟩
    · exact never_readWithin hdepth
    · exact hfields _ v c hv hread
  intro c hc
  simp only [SignalConfig.trees, List.mem_cons, List.not_mem_nil, or_false] at hc
  rcases hc with rfl | rfl
  · exact hone hentry
  · exact hone hexit

theorem SignalConfig.read_within_of_depth (h : SignalConfig.read v = .good s)
    (hv : v.depth ≤ depth) :
    s.ReadWithin depth := by
  cases v with
  | object fields =>
    have hpos : 1 ≤ depth := by
      rw [Value.depth] at hv
      omega
    refine SignalConfig.read_within hpos h fun key w c hw hc => ⟨w, ?_, hc⟩
    have := Value.depth_lt_of_get? hw
    omega
  | _ => cases h

/-! ## Leverage -/

theorem checkBounds_eq_good {operand : Operand} {min max : Option Binary64}
    (h : checkBounds operand min max = .good x) : x = .clamped operand min max := by
  unfold checkBounds at h
  split at h
  · split at h
    · cases h
    · cases h
      rfl
  · cases h
    rfl

theorem readClamp_source (h : readClamp fields = .good x) :
    ∃ w, Holds fields w ∧ Operand.read w = .good x.operand := by
  obtain ⟨⟨operand, min, max⟩, hparts, hcheck⟩ := andThen_eq_good h
  obtain ⟨f, _, hf, _, hmax⟩ := seq_eq_good hparts
  obtain ⟨g, _, hg, _, rfl⟩ := seq_eq_good hf
  obtain ⟨_, o, _, ho, rfl⟩ := map_seq_eq_good hg
  cases hmax
  obtain rfl := checkBounds_eq_good hcheck
  exact required_source ho

theorem LeverageValue.read_within (hdepth : 1 ≤ depth) (h : LeverageValue.read v = .good x)
    (hv : v.depth ≤ depth) : (Node.operand x.operand).ReadWithin depth := by
  unfold LeverageValue.read at h
  split at h
  · obtain ⟨o, ho, rfl⟩ := map_eq_good h
    exact ⟨_, by simpa [Value.depth, Value.fieldDepths] using hdepth, ho⟩
  · obtain ⟨o, ho, rfl⟩ := map_eq_good h
    exact ⟨_, by simpa [Value.depth, Value.fieldDepths] using hdepth, ho⟩
  · split at h
    · obtain ⟨o, ho, rfl⟩ := map_eq_good h
      exact ⟨_, hv, ho⟩
    · obtain ⟨kind, hkind⟩ := variant_eq_good h
      obtain ⟨w, hw, hread⟩ := readClamp_source hkind
      have := Value.depth_lt_of_holds hw
      exact ⟨w, by omega, hread⟩
  · cases h

theorem LeverageRule.read_within {r : LeverageRule} (h : LeverageRule.read v = .good r)
    (hv : v.depth ≤ depth) : r.ReadWithin depth := by
  cases v with
  | object fields =>
    obtain ⟨_, leverage, hrest, hleverage, rfl⟩ := seq_eq_good h
    obtain ⟨_, condition, henabled, hcondition, rfl⟩ := seq_eq_good hrest
    obtain ⟨_, _, hpriority, _, rfl⟩ := seq_eq_good henabled
    obtain ⟨_, _, hnames, _, rfl⟩ := seq_eq_good hpriority
    obtain ⟨_, _, _, _, rfl⟩ := map_seq_eq_good hnames
    have hpos : 1 ≤ depth := by
      rw [Value.depth] at hv
      omega
    constructor
    · rintro c rfl
      obtain ⟨w, hw, hread⟩ := nullable_source hcondition
      have := Value.depth_lt_of_holds hw
      exact ⟨w, by omega, hread⟩
    · obtain ⟨w, hw, hread⟩ := required_source hleverage
      have := Value.depth_lt_of_holds hw
      exact LeverageValue.read_within hpos hread (by omega)
  | _ => cases h

/-- A bare list of rules is put under a key first, which is one container more, but the rules are
two containers down from there. -/
theorem LeverageSettings.read_within {l : LeverageSettings} (h : LeverageSettings.read v = .good l)
    (hv : v.depth ≤ depth) : ∀ r ∈ l.rules, r.ReadWithin depth := by
  have hrules : ∀ fields : Fields, (Value.object fields).depth ≤ depth + 1 →
      LeverageSettings.read (.object fields) = .good l → ∀ r ∈ l.rules, r.ReadWithin depth := by
    intro fields hfields hread r hr
    obtain ⟨f, _, hf, _, rfl⟩ := seq_eq_good hread
    obtain ⟨g, _, hg, _, rfl⟩ := seq_eq_good hf
    obtain ⟨_, rules, _, hrules, rfl⟩ := map_seq_eq_good hg
    obtain ⟨w, hw, hrule⟩ := tuple_source hrules r hr
    have := Value.depth_lt_of_holds hw
    exact LeverageRule.read_within hrule (by omega)
  cases v with
  | object fields => exact hrules fields (by omega) h
  | list items | tuple items =>
    refine hrules [(.text "rules", .list items)] ?_ h
    simp only [Value.depth, Value.fieldDepths] at hv ⊢
    omega
  | _ => cases h

/-! ## Documents -/

/-- Leverage is looked up where it belongs or among the callbacks, other keys only where they
belong. -/
theorem get?_liftLeverage (h : get? (liftLeverage fields) key = some v) :
    get? fields key = some v ∨ key = .text "leverage" ∧ ∃ callbacks,
      get? fields (.text "callbacks") = some (.object callbacks) ∧
      get? callbacks (.text "leverage") = some v := by
  unfold liftLeverage at h
  split at h
  · next callbacks _ hcallbacks =>
    split at h
    · next leverage hleverage =>
      rw [get?_set] at h
      split at h
      · next hkey =>
        cases h
        exact .inr ⟨hkey, callbacks, hcallbacks, get?_of_present? hleverage⟩
      · exact .inl h
    · exact .inl h
  · exact .inl h

/-- What is asked of a nested document for its trees to be within a depth. -/
structure Shallow (depth : Nat) (fields : Fields) : Prop where
  signals : ∀ name ∈ ["long", "short"], ∀ v s, get? fields (.text name) = some v →
    SignalConfig.read v = .good s → s.ReadWithin depth
  leverage : ∀ name ∈ ["leverage", "callbacks"], ∀ v, get? fields (.text name) = some v →
    v.depth ≤ depth

theorem Shallow.lifted (h : Shallow depth fields)
    (hv : get? (liftLeverage fields) (.text "leverage") = some v) : v.depth ≤ depth := by
  rcases get?_liftLeverage hv with hv | ⟨_, callbacks, hcallbacks, hv⟩
  · exact h.leverage "leverage" (by simp) v hv
  · have hle := h.leverage "callbacks" (by simp) _ hcallbacks
    have hlt := Value.depth_lt_of_get? hv
    omega

theorem Document.read_within (hfields : Shallow depth fields)
    (h : Document.read (.object fields) = .good d) : ∀ n ∈ d.roots, n.ReadWithin depth := by
  obtain ⟨_, ⟨⟩, hread⟩ := Document.read_eq_good h
  have hside : ∀ {name : String} {s : SignalConfig}, name ∈ ["long", "short"] →
      (nullable (liftLeverage fields) [name] fun w _ => SignalConfig.read w) = .good (some s) →
        s.ReadWithin depth := by
    intro name s hname hs
    obtain ⟨_, hmem, v, _, hv, hread⟩ := nullable_eq_good hs
    obtain rfl := List.mem_singleton.mp hmem
    rcases get?_liftLeverage hv with hv | ⟨hkey, _⟩
    · exact hfields.signals _ hname v s hv hread
    · cases hkey
      simp at hname
  have hrules : ∀ l, d.leverage = some l → ∀ r ∈ l.rules, r.ReadWithin depth := by
    intro l hl
    obtain ⟨_, hmem, v, _, hv, hread⟩ := nullable_eq_good (hl ▸ hread.leverage)
    obtain rfl := List.mem_singleton.mp hmem
    exact LeverageSettings.read_within hread (hfields.lifted hv)
  intro n hn
  simp only [Document.roots, Document.trees, List.mem_append, List.mem_map] at hn
  rcases hn with ⟨c, (hc | hc) | hc, rfl⟩ | hn
  · cases hlong : d.long with
    | none => simp [hlong] at hc
    | some s => exact hside (by simp) (hlong ▸ hread.long) c (by simpa [hlong] using hc)
  · cases hshort : d.short with
    | none => simp [hshort] at hc
    | some s => exact hside (by simp) (hshort ▸ hread.short) c (by simpa [hshort] using hc)
  · cases hleverage : d.leverage with
    | none => simp [hleverage] at hc
    | some l =>
      rw [hleverage] at hc
      obtain ⟨r, hr, hcondition⟩ := List.mem_filterMap.mp hc
      exact (hrules l hleverage r hr).condition c hcondition
  · cases hleverage : d.leverage with
    | none => simp [hleverage] at hn
    | some l =>
      rw [hleverage] at hn
      obtain ⟨r, hr, rfl⟩ := List.mem_map.mp hn
      exact (hrules l hleverage r hr).leverage

/-! ## Raw documents -/

theorem asObject_eq_ok (h : asObject v = .ok fields) : v = .object fields := by
  cases v with
  | object fields' =>
    cases h
    rfl
  | _ => cases h

/-- A time frame goes among the parameters, and nothing else changes. -/
theorem get?_carryTimeframe {timeframe : Value} {builder : Fields}
    (hkey : key ≠ .text "parameters") :
    get? (carryTimeframe timeframe builder) key = get? builder key := by
  unfold carryTimeframe
  split
  · rw [get?_set, if_neg hkey]
  · split
    · rfl
    · rw [get?_set, if_neg hkey]
  · rfl

/-- What unwrapping finds lies in the raw document, the parameters apart. -/
theorem depth_lt_of_unwrap (h : unwrap raw = .ok fields) (hkey : key ≠ .text "parameters")
    (hv : get? fields key = some v) : v.depth < raw.depth := by
  cases raw with
  | object outer =>
    simp only [unwrap, asObject, bind, Except.bind, pure, Except.pure] at h
    split at h
    · cases h
      exact Value.depth_lt_of_get? hv
    · next builder hbuilder =>
      have hinner : get? builder key = some v := by
        split at h
        · cases h
          exact hv
        · cases h
          rwa [get?_carryTimeframe hkey] at hv
      exact Nat.lt_trans (Value.depth_lt_of_get? hinner) (Value.depth_lt_of_get? hbuilder)
    · cases h
  | _ => cases h

theorem treeUnder_cases (flat : Fields) (key key' : String) :
    treeUnder flat key key' = neverTree ∨
      ∃ name ∈ [key, key'], get? flat (.text name) = some (treeUnder flat key key') := by
  unfold treeUnder
  cases hfirst : present? flat (.text key) with
  | some v => exact .inr ⟨key, by simp, get?_of_present? hfirst⟩
  | none =>
    cases hsecond : present? flat (.text key') with
    | some v => exact .inr ⟨key', by simp, get?_of_present? hsecond⟩
    | none => exact .inl rfl

/-- A tree that migration moves is as deep as it was, and one that it makes up never fires. -/
theorem treeUnder_readWithin {flat : Fields} {key key' : String} {c : Condition}
    (hdepth : 1 ≤ depth)
    (hflat : ∀ name ∈ [key, key'], ∀ v, get? flat (.text name) = some v → v.depth ≤ depth)
    (h : Condition.read (treeUnder flat key key') = .good c) :
    (Node.condition c).ReadWithin depth := by
  rcases treeUnder_cases flat key key' with hnever | ⟨name, hname, hv⟩
  · rw [hnever, read_neverTree] at h
    cases h
    exact never_readWithin hdepth
  · exact ⟨_, hflat name hname _ hv, h⟩

theorem signalTrees_readWithin {entry exit : Value} (hdepth : 1 ≤ depth)
    (hentry : ∀ c, Condition.read entry = .good c → (Node.condition c).ReadWithin depth)
    (hexit : ∀ c, Condition.read exit = .good c → (Node.condition c).ReadWithin depth)
    (h : SignalConfig.read (signalTrees entry exit) = .good s) : s.ReadWithin depth := by
  refine SignalConfig.read_within hdepth h fun key v c hv hc => ?_
  rw [get?_cons, get?_cons, get?_nil] at hv
  split at hv
  · cases hv
    exact hentry c hc
  · split at hv
    · cases hv
      exact hexit c hc
    · cases hv

/-- The fields of a document that bear trees, before and after migration. -/
theorem shallow_of_normalize {d r : Fields} (hdepth : 1 ≤ depth)
    (hd : ∀ key v, key ≠ .text "parameters" → get? d key = some v → v.depth ≤ depth)
    (h : normalize d = .ok r) : Shallow depth r := by
  have hnames : ∀ name ∈ ["long", "short", "leverage", "callbacks"],
      Key.text name ≠ .text "parameters" := by decide
  have hkept : ∀ name ∈ ["leverage", "callbacks"],
      Key.text name ∉ flatKeys ∧ Key.text name ∉ migratedKeys := by decide
  rcases normalize_eq_ok h with ⟨_, rfl⟩ | ⟨_, rfl⟩
  · constructor
    · intro name hname v s hv hs
      exact SignalConfig.read_within_of_depth hs (hd _ v (hnames name (by grind)) hv)
    · intro name hname v hv
      exact hd _ v (hnames name (by grind)) hv
  · have hmigrated := migrated_migrate d
    constructor
    · intro name hname v s hv hs
      simp only [List.mem_cons, List.not_mem_nil, or_false] at hname
      rcases hname with rfl | rfl
      · rw [hmigrated.long] at hv
        cases hv
        refine signalTrees_readWithin hdepth (fun c => ?_) (fun c => ?_) hs
        · exact treeUnder_readWithin hdepth fun name hname v => hd _ v (by grind)
        · exact treeUnder_readWithin hdepth fun name hname v => hd _ v (by grind)
      · rw [hmigrated.short] at hv
        cases hv
        have hnever : ∀ c, Condition.read neverTree = .good c →
            (Node.condition c).ReadWithin depth := by
          intro c hc
          rw [read_neverTree] at hc
          cases hc
          exact never_readWithin hdepth
        exact signalTrees_readWithin hdepth hnever hnever hs
    · intro name hname v hv
      obtain ⟨hflat, hnew⟩ := hkept name hname
      rw [hmigrated.others _ hflat hnew] at hv
      exact hd _ v (hnames name (by grind)) hv

theorem canonical_eq_ok {shape : Shape} {nested : Fields}
    (h : canonical limits raw = .ok (shape, nested)) :
    ∃ extent fields, Extent.check limits raw = .ok extent ∧ unwrap raw = .ok fields ∧
      normalize fields = .ok nested := by
  obtain ⟨extent, hcheck, h⟩ := exists_of_bind_ok h
  obtain ⟨fields, hunwrap, h⟩ := exists_of_bind_ok h
  obtain ⟨_, _, h⟩ := exists_of_bind_ok h
  obtain ⟨_, hnormalize, h⟩ := exists_of_bind_ok h
  cases h
  exact ⟨extent, fields, ok_of_mapError_ok hcheck, ok_of_mapError_ok hunwrap,
    ok_of_mapError_ok hnormalize⟩

theorem toExcept_eq_ok {α : Type} {x : Checked α} {a : α} (h : x.toExcept = .ok a) :
    x = .good a := by
  cases x with
  | good b =>
    cases h
    rfl
  | bad faults => cases h

theorem authored_eq_ok (h : authored limits raw = .ok d) :
    ∃ shape fields, canonical limits raw = .ok (shape, fields) ∧
      Document.read (.object fields) = .good d := by
  obtain ⟨⟨shape, fields⟩, hcanonical, h⟩ := exists_of_bind_ok h
  obtain ⟨document, hread, h⟩ := exists_of_bind_ok h
  split at h
  · cases h
  · cases h
    exact ⟨shape, fields, hcanonical, toExcept_eq_ok (ok_of_mapError_ok hread)⟩

/-- Every tree of an authored document is read from a value that is no deeper than the ceiling. -/
theorem authored_readWithin (h : authored limits raw = .ok d) :
    ∀ n ∈ d.roots, n.ReadWithin limits.maxDepth := by
  obtain ⟨shape, nested, hcanonical, hread⟩ := authored_eq_ok h
  obtain ⟨extent, fields, hcheck, hunwrap, hnormalize⟩ := canonical_eq_ok hcanonical
  have hraw := Extent.depth_le_of_check hcheck
  have hpos : 1 ≤ raw.depth := by
    obtain ⟨outer, houter, _⟩ := exists_of_bind_ok hunwrap
    rw [asObject_eq_ok houter, Value.depth]
    omega
  refine Document.read_within (shallow_of_normalize (by omega) ?_ hnormalize) hread
  intro key v hkey hv
  have := depth_lt_of_unwrap hunwrap hkey hv
  omega

end Stratagem
