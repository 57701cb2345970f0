import Stratagem.Compiler.Prepare
import Stratagem.Proofs.Value.Fields

/-! Migration to the nested shape. `get?_migrate` says what every key of a migrated document holds,
and the rest follows from it: the result is nested, so a second migration finds nothing to do, and
the stages behind the migration cannot tell a document from its nested form. -/

namespace Stratagem

open Fields

variable {d r : Fields}

/-! ## What migration makes of a flat document -/

/-- The tree under the first of two keys that is not null, or else the one that never fires. -/
def treeUnder (flat : Fields) (key key' : String) : Value :=
  ((present? flat (.text key)).or (present? flat (.text key'))).getD
    (.object [(.text "type", .text "OR"), (.text "children", .list [])])

/-- Keys that migration writes, in the order in which it does. -/
def migratedKeys : List Key :=
  [.text "version", .text "position_mode", .text "long", .text "short"]

/-- A nested document made of a flat one. -/
structure Migrated (flat nested : Fields) : Prop where
  version : get? nested (.text "version") = some (.int 2)
  positionMode : get? nested (.text "position_mode") = some (.text "LONG_ONLY")
  long : get? nested (.text "long") = some (.object
    [(.text "entry_conditions", treeUnder flat "entry_conditions" "entryConditions"),
     (.text "exit_conditions", treeUnder flat "exit_conditions" "exitConditions")])
  short : get? nested (.text "short") = some (.object
    [(.text "entry_conditions", .object [(.text "type", .text "OR"), (.text "children", .list [])]),
     (.text "exit_conditions", .object [(.text "type", .text "OR"), (.text "children", .list [])])])
  noFlatKey : ∀ key ∈ [Key.text "entry_conditions", .text "entryConditions",
    .text "exit_conditions", .text "exitConditions"], key ∉ keys nested
  others : ∀ key, key ∉ flatKeys → key ∉ migratedKeys → get? nested key = get? flat key
  order : keys nested =
    (keys flat).filter (· ∉ flatKeys) ++ migratedKeys.filter (· ∉ keys flat)

theorem firstPresent?_pair (fields : Fields) (key key' : Key) :
    firstPresent? fields [key, key'] = (present? fields key).or (present? fields key') := by
  unfold firstPresent?
  rw [List.findSome?_cons]
  cases present? fields key with
  | none => simp
  | some v => rfl

theorem get?_migrate (flat : Fields) (key : Key) :
    get? (migrate flat) key =
      if key = .text "short" then some (signalTrees neverTree neverTree)
      else if key = .text "long" then some (signalTrees
        (treeUnder flat "entry_conditions" "entryConditions")
        (treeUnder flat "exit_conditions" "exitConditions"))
      else if key = .text "position_mode" then some (.text "LONG_ONLY")
      else if key = .text "version" then some (.int 2)
      else if !flatKeys.contains key then get? flat key else none := by
  simp only [migrate, get?_set, entryKeys, exitKeys, firstPresent?_pair]
  rw [get?_filter (fun k => !flatKeys.contains k)]
  rfl

theorem not_mem_flatKeys {key : Key} (h : key ∈ migratedKeys) : key ∉ flatKeys := by
  revert key
  decide

theorem keys_migrate (flat : Fields) :
    keys (migrate flat) =
      (keys flat).filter (· ∉ flatKeys) ++ migratedKeys.filter (· ∉ keys flat) := by
  have hrest : keys (flat.filter fun f => !flatKeys.contains f.1) =
      (keys flat).filter (· ∉ flatKeys) := by
    rw [keys_filter (fun k => !flatKeys.contains k)]
    simp
  have hnew : migratedKeys.filter (· ∉ (keys flat).filter (· ∉ flatKeys)) =
      migratedKeys.filter (· ∉ keys flat) := by
    apply List.filter_congr
    intro key hkey
    simp [not_mem_flatKeys hkey]
  have hset := keys_foldl_set
    [(.text "version", .int 2), (.text "position_mode", .text "LONG_ONLY"),
     (.text "long", signalTrees ((firstPresent? flat entryKeys).getD neverTree)
       ((firstPresent? flat exitKeys).getD neverTree)),
     (.text "short", signalTrees neverTree neverTree)]
    (by decide : migratedKeys.Nodup) (flat.filter fun f => !flatKeys.contains f.1)
  rw [hrest] at hset
  calc keys (migrate flat)
      = (keys flat).filter (· ∉ flatKeys) ++
          migratedKeys.filter (· ∉ (keys flat).filter (· ∉ flatKeys)) := hset
    _ = (keys flat).filter (· ∉ flatKeys) ++ migratedKeys.filter (· ∉ keys flat) := by rw [hnew]

theorem not_mem_keys_migrate {key : Key} (h : key ∈ flatKeys) (flat : Fields) :
    key ∉ keys (migrate flat) := by
  intro hmem
  rw [keys_migrate] at hmem
  rcases List.mem_append.mp hmem with hold | hnew
  · have hno := (List.mem_filter.mp hold).2
    simp [h] at hno
  · exact not_mem_flatKeys (List.mem_filter.mp hnew).1 h

theorem migrated_migrate (flat : Fields) : Migrated flat (migrate flat) where
  version := by simp [get?_migrate]
  positionMode := by simp [get?_migrate]
  long := by simp [get?_migrate, signalTrees]
  short := by simp [get?_migrate, signalTrees, neverTree]
  noFlatKey := fun _ hkey => not_mem_keys_migrate hkey flat
  others := by
    intro key hflat hnew
    simp only [migratedKeys, List.mem_cons, List.not_mem_nil, or_false, not_or] at hnew
    simp [get?_migrate, hflat, hnew]
  order := keys_migrate flat

/-! ## Shapes -/

theorem version?_migrate (flat : Fields) : version? (migrate flat) = .ok (some 2) := by
  simp [version?, present?, get?_migrate]

/-- The migrated document claims version 2 and has a long side, so it is nested. -/
theorem detectShape_migrate (flat : Fields) : detectShape (migrate flat) = .ok .nested := by
  have hlong : (firstPresent? (migrate flat) nestedKeys).isSome = true := by
    simp [nestedKeys, firstPresent?_pair, present?, get?_migrate, signalTrees]
  simp [detectShape, version?_migrate, hlong, bind, Except.bind, pure, Except.pure]

theorem normalize_of_nested (h : detectShape d = .ok .nested) : normalize d = .ok d := by
  simp [normalize, h, bind, Except.bind, pure, Except.pure]

theorem normalize_of_flat (h : detectShape d = .ok .flat) : normalize d = .ok (migrate d) := by
  simp [normalize, h, bind, Except.bind, pure, Except.pure]

theorem normalize_eq_error_iff (d : Fields) (e : ShapeError) :
    normalize d = .error e ↔ detectShape d = .error e := by
  cases h : detectShape d with
  | error e' => simp [normalize, h, bind, Except.bind]
  | ok shape =>
    cases shape with
    | nested => simp [normalize_of_nested h]
    | flat => simp [normalize_of_flat h]

/-- The nested form is the document itself or its migration. -/
theorem normalize_eq_ok (h : normalize d = .ok r) :
    (detectShape d = .ok .nested ∧ r = d) ∨ (detectShape d = .ok .flat ∧ r = migrate d) := by
  cases hshape : detectShape d with
  | error e => simp [(normalize_eq_error_iff d e).mpr hshape] at h
  | ok shape =>
    cases shape with
    | nested =>
      rw [normalize_of_nested hshape] at h
      exact .inl ⟨rfl, (Except.ok.inj h).symm⟩
    | flat =>
      rw [normalize_of_flat hshape] at h
      exact .inr ⟨rfl, (Except.ok.inj h).symm⟩

theorem detectShape_of_normalize (h : normalize d = .ok r) : detectShape r = .ok .nested := by
  rcases normalize_eq_ok h with ⟨hshape, rfl⟩ | ⟨_, rfl⟩
  · exact hshape
  · exact detectShape_migrate d

/-! ## The stages behind -/

theorem get?_builder_of_normalize (h : normalize d = .ok r)
    (hd : get? d (.text "ui_builder") = none) : get? r (.text "ui_builder") = none := by
  rcases normalize_eq_ok h with ⟨_, rfl⟩ | ⟨_, rfl⟩
  · exact hd
  · rw [(migrated_migrate d).others _ (by decide) (by decide), hd]

/-- A document without a wrapper is its own. -/
theorem unwrap_of_plain (h : get? d (.text "ui_builder") = none) : unwrap (.object d) = .ok d := by
  simp [unwrap, asObject, h, bind, Except.bind, pure, Except.pure]

theorem canonical_of_normalize {limits : Limits}
    (hcheck : (Extent.check limits (.object d)).isOk = true)
    (hwrap : get? d (.text "ui_builder") = none) (h : normalize d = .ok r) :
    ∃ shape, canonical limits (.object d) = .ok (shape, r) := by
  cases hextent : Extent.check limits (.object d) with
  | error e => rw [hextent] at hcheck; cases hcheck
  | ok extent =>
    cases hshape : detectShape d with
    | error e => simp [(normalize_eq_error_iff d e).mpr hshape] at h
    | ok shape =>
      refine ⟨shape, ?_⟩
      rw [canonical, hextent, unwrap_of_plain hwrap]
      change (do return (← (detectShape d).mapError CompileError.shape,
        ← (normalize d).mapError CompileError.shape)) = _
      rw [hshape, h]
      rfl

/-- Behind the migration only the nested form counts, not the shape it came in. -/
theorem prepare_congr {limits : Limits} {a b : Value} {s t : Shape} {fields : Fields}
    (ha : canonical limits a = .ok (s, fields)) (hb : canonical limits b = .ok (t, fields)) :
    prepare limits a = prepare limits b := by
  simp only [prepare, authored, ha, hb, bind, Except.bind]

/-- Migration fails exactly where no shape is found, and for the same reason. Where it succeeds, its
result is nested and stays as it is when it is migrated again; a nested document is its own result,
and a flat one keeps all but its trees. A document without a wrapper and its nested form, if both
pass the size guard, are prepared to the same document or refused for the same reason. -/
theorem normalize_idempotent_migration (d : Fields) :
    (∀ e, normalize d = .error e ↔ detectShape d = .error e) ∧
    ∀ r, normalize d = .ok r →
      detectShape r = .ok .nested ∧ normalize r = .ok r ∧
      (detectShape d = .ok .nested → r = d) ∧
      (detectShape d = .ok .flat → Migrated d r) ∧
      ∀ limits, get? d (.text "ui_builder") = none →
        (Extent.check limits (.object d)).isOk = true →
        (Extent.check limits (.object r)).isOk = true →
        prepare limits (.object d) = prepare limits (.object r) := by
  refine ⟨normalize_eq_error_iff d, ?_⟩
  intro r h
  have hnested := detectShape_of_normalize h
  have hagain := normalize_of_nested hnested
  refine ⟨hnested, hagain, ?_, ?_, ?_⟩
  · intro hd
    rw [normalize_of_nested hd] at h
    exact (Except.ok.inj h).symm
  · intro hd
    rw [normalize_of_flat hd] at h
    obtain rfl := Except.ok.inj h
    exact migrated_migrate d
  · intro limits hwrap hd hr
    obtain ⟨shape, hcanonical⟩ := canonical_of_normalize hd hwrap h
    obtain ⟨shape', hcanonical'⟩ :=
      canonical_of_normalize hr (get?_builder_of_normalize h hwrap) hagain
    exact prepare_congr hcanonical hcanonical'

/-- A flat document whose entry tree stands under the second of its keys. -/
def flatSample : Fields :=
  [(.text "version", .int 1), (.text "entry_conditions", .null), (.text "name", .text "dip"),
   (.text "long", .null),
   (.text "entryConditions", .object [(.text "type", .text "AND"), (.text "children", .list [])])]

def nestedSample : Fields :=
  [(.text "version", .int 2), (.text "name", .text "dip"),
   (.text "long", .object
     [(.text "entry_conditions",
        .object [(.text "type", .text "AND"), (.text "children", .list [])]),
      (.text "exit_conditions",
        .object [(.text "type", .text "OR"), (.text "children", .list [])])]),
   (.text "position_mode", .text "LONG_ONLY"),
   (.text "short", .object
     [(.text "entry_conditions",
        .object [(.text "type", .text "OR"), (.text "children", .list [])]),
      (.text "exit_conditions",
        .object [(.text "type", .text "OR"), (.text "children", .list [])])])]

theorem flatSample_migrates :
    normalize flatSample = .ok nestedSample ∧ Migrated flatSample nestedSample ∧
      normalize nestedSample = .ok nestedSample ∧
      prepare {} (.object flatSample) = prepare {} (.object nestedSample) := by
  have hflat : normalize flatSample = .ok nestedSample := rfl
  obtain ⟨_, hagain, _, hmigrated, hprepare⟩ :=
    (normalize_idempotent_migration flatSample).2 nestedSample hflat
  exact ⟨hflat, hmigrated rfl, hagain, hprepare {} rfl (by decide +kernel) (by decide +kernel)⟩

end Stratagem
