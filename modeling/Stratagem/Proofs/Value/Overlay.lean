import Stratagem.Proofs.Value.Fields
import Stratagem.Value.Overlay

/-! Laws of the overlay of one mapping on another. `get?_overlay` says what each key holds and
`keys_overlay` in which order they stand; in a mapping that holds each key once this is all there
is, so the laws follow by induction on what is laid over. Along a path the two mappings are merged
as long as both hold a mapping, and from there on one of them counts. -/

namespace Stratagem

open Fields

variable {o : Fields}

namespace Value

/-- Each mapping holds each key once, and so do the mappings in it. -/
inductive KeyedOnce : Value → Prop
  | object {fields : Fields} (hkeys : (keys fields).Nodup)
      (h : ∀ key v, get? fields key = some v → KeyedOnce v) : KeyedOnce (.object fields)
  | leaf {v : Value} (h : v.fields? = none) : KeyedOnce v

/-- The value at a path of keys. -/
def at? (v : Value) : List Key → Option Value
  | [] => some v
  | key :: path => (v.fields?.bind (get? · key)).bind (·.at? path)

/-- On the way along a path there is something that is no mapping. -/
def Blocks (v : Value) (path : List Key) : Prop :=
  ∃ front w, front <+: path ∧ front ≠ path ∧ v.at? front = some w ∧ w.fields? = none

end Value

/-! ## One key -/

theorem overlayValue_object (f g : Fields) :
    overlayValue (.object f) (.object g) = .object (overlay f g) := by
  rw [overlayValue]

theorem overlayValue_of_leaf {v : Value} (h : v.fields? = none) (w : Value) :
    overlayValue w v = v := by
  rw [overlayValue.eq_def]
  split
  · cases h
  · rfl

theorem overlayValue_over_leaf {w : Value} (h : w.fields? = none) (v : Value) :
    overlayValue w v = v := by
  rw [overlayValue.eq_def]
  split
  · split
    · cases h
    · rfl
  · rfl

theorem overlay_nil (b : Fields) : overlay b [] = b := by rw [overlay]

theorem overlay_cons (b : Fields) (key : Key) (v : Value) (rest : Fields) :
    overlay b ((key, v) :: rest) =
      overlay (set b key ((get? b key).elim v (overlayValue · v))) rest := by
  rw [overlay]
  cases get? b key <;> rfl

/-- The overlay sets the keys of what is laid over, one after the other. -/
theorem overlay_eq_foldl (b o : Fields) :
    ∃ entries, keys entries = keys o ∧
      overlay b o = entries.foldl (fun fs e => set fs e.1 e.2) b := by
  induction o generalizing b with
  | nil => exact ⟨[], rfl, overlay_nil b⟩
  | cons e rest ih =>
    obtain ⟨key, v⟩ := e
    rw [overlay_cons]
    obtain ⟨entries, hkeys, hfold⟩ := ih (set b key ((get? b key).elim v (overlayValue · v)))
    exact ⟨(key, _) :: entries, congrArg (key :: ·) hkeys, hfold⟩

theorem keys_overlay (h : (keys o).Nodup) (b : Fields) :
    keys (overlay b o) = keys b ++ (keys o).filter (· ∉ keys b) := by
  obtain ⟨entries, hkeys, hfold⟩ := overlay_eq_foldl b o
  rw [hfold, keys_foldl_set entries (hkeys ▸ h), hkeys]

/-- Keys that are there already stay where they are. -/
theorem keys_overlay_of_subset {b : Fields} (ho : (keys o).Nodup)
    (h : ∀ key ∈ keys o, key ∈ keys b) :
    keys (overlay b o) = keys b := by
  rw [keys_overlay ho, List.append_right_eq_self, List.filter_eq_nil_iff]
  simpa using h

theorem get?_overlay (h : (keys o).Nodup) (b : Fields) (key : Key) :
    get? (overlay b o) key =
      (get? o key).elim (get? b key) fun v => some ((get? b key).elim v (overlayValue · v)) := by
  induction o generalizing b with
  | nil => rw [overlay_nil, get?_nil, Option.elim_none]
  | cons e rest ih =>
    obtain ⟨k, v⟩ := e
    obtain ⟨hk, hrest⟩ : k ∉ keys rest ∧ (keys rest).Nodup := List.nodup_cons.mp h
    rw [overlay_cons, ih hrest, get?_set, get?_cons]
    by_cases hkey : key = k
    · subst hkey
      rw [get?_eq_none_iff.mpr hk, if_pos rfl, if_pos rfl]
      rfl
    · rw [if_neg hkey, if_neg hkey]

/-! ## Laws -/

theorem Value.KeyedOnce.nodup {fields : Fields} (h : (Value.object fields).KeyedOnce) :
    (keys fields).Nodup := by
  cases h with
  | object hkeys _ => exact hkeys
  | leaf h => cases h

section Laws

variable {v w : Value}

theorem keyedOnce_overlayValue (hv : v.KeyedOnce) (hw : w.KeyedOnce) :
    (overlayValue w v).KeyedOnce := by
  induction hv generalizing w with
  | leaf h =>
    rw [overlayValue_of_leaf h]
    exact .leaf h
  | @object g hg hvalues ih =>
    cases hw with
    | leaf h =>
      rw [overlayValue_over_leaf h]
      exact .object hg hvalues
    | @object f hf hbeneath =>
      rw [overlayValue_object]
      refine .object ?_ fun key u hu => ?_
      · rw [keys_overlay hg]
        refine List.nodup_append.mpr ⟨hf, hg.filter _, fun k hk l hl hkl => ?_⟩
        have hnew := (List.mem_filter.mp hl).2
        simp [← hkl, hk] at hnew
      · rw [get?_overlay hg] at hu
        cases habove : get? g key with
        | none =>
          rw [habove] at hu
          exact hbeneath key u hu
        | some x =>
          rw [habove] at hu
          obtain rfl := Option.some.inj hu
          cases hbelow : get? f key with
          | none => exact hvalues key x habove
          | some y => exact ih key x habove (hbeneath key y hbelow)

/-- Laid over itself a value stays what it is. -/
theorem overlayValue_self (hv : v.KeyedOnce) : overlayValue v v = v := by
  induction hv with
  | leaf h => exact overlayValue_of_leaf h _
  | @object g hg _ ih =>
    have hkeys : keys (overlay g g) = keys g := keys_overlay_of_subset hg fun _ h => h
    rw [overlayValue_object]
    refine congrArg Value.object (ext_get? (hkeys ▸ hg) hkeys fun key => ?_)
    rw [get?_overlay hg]
    cases hkey : get? g key with
    | none => rfl
    | some x => exact congrArg some (ih key x hkey)

/-- Laid over a second time a value changes nothing more. -/
theorem overlayValue_again (hv : v.KeyedOnce) (hw : w.KeyedOnce) :
    overlayValue (overlayValue w v) v = overlayValue w v := by
  induction hv generalizing w with
  | leaf h => rw [overlayValue_of_leaf h, overlayValue_of_leaf h]
  | @object g hg hvalues ih =>
    have hself := overlayValue_self (.object hg hvalues)
    have hmerged := keyedOnce_overlayValue (.object hg hvalues) hw
    cases hw with
    | leaf h => rw [overlayValue_over_leaf h, hself]
    | @object f hf hbeneath =>
      rw [overlayValue_object] at hmerged ⊢
      rw [overlayValue_object]
      have hkeys : keys (overlay (overlay f g) g) = keys (overlay f g) := by
        refine keys_overlay_of_subset hg fun key hkey => ?_
        rw [keys_overlay hg]
        by_cases hold : key ∈ keys f
        · exact List.mem_append_left _ hold
        · exact List.mem_append_right _ (List.mem_filter.mpr ⟨hkey, by simpa using hold⟩)
      refine congrArg Value.object (ext_get? (hkeys ▸ hmerged.nodup) hkeys fun key => ?_)
      rw [get?_overlay hg (overlay f g), get?_overlay hg f]
      cases habove : get? g key with
      | none => rfl
      | some x =>
        refine congrArg some ?_
        cases hbelow : get? f key with
        | none => exact overlayValue_self (hvalues key x habove)
        | some y => exact ih key x habove (hbeneath key y hbelow)

end Laws

/-! ## Along a path -/

namespace Value

variable {v : Value} {path : List Key}

theorem KeyedOnce.at? {w : Value} (hv : v.KeyedOnce) (h : v.at? path = some w) : w.KeyedOnce := by
  induction path generalizing v with
  | nil =>
    obtain rfl := Option.some.inj h
    exact hv
  | cons key path ih =>
    obtain ⟨u, hu, hpath⟩ := Option.bind_eq_some_iff.mp h
    obtain ⟨fields, hfields, hkey⟩ := Option.bind_eq_some_iff.mp hu
    cases hv with
    | leaf hleaf =>
      rw [hleaf] at hfields
      cases hfields
    | object _ hvalues =>
      cases hfields
      exact ih (hvalues key u hkey) hpath

theorem at?_of_leaf (h : v.fields? = none) (key : Key) (path : List Key) :
    v.at? (key :: path) = none := by
  rw [Value.at?, h]
  rfl

theorem at?_object (fields : Fields) (key : Key) (path : List Key) :
    (Value.object fields).at? (key :: path) = (get? fields key).bind (·.at? path) := rfl

theorem blocks_object {fields : Fields} {key : Key} :
    (Value.object fields).Blocks (key :: path) ↔ ∃ u, get? fields key = some u ∧ u.Blocks path := by
  constructor
  · rintro ⟨front, w, hfront, hne, hw, hleaf⟩
    cases front with
    | nil =>
      obtain rfl := Option.some.inj hw
      cases hleaf
    | cons k front =>
      obtain ⟨rfl, hrest⟩ := List.cons_prefix_cons.mp hfront
      obtain ⟨u, hu, hw⟩ := Option.bind_eq_some_iff.mp hw
      exact ⟨u, hu, front, w, hrest, fun h => hne (congrArg _ h), hw, hleaf⟩
  · rintro ⟨u, hu, front, w, hfront, hne, hw, hleaf⟩
    refine ⟨key :: front, w, List.cons_prefix_cons.mpr ⟨rfl, hfront⟩, by simpa using hne, ?_, hleaf⟩
    rw [at?_object, hu]
    exact hw

theorem object_of_fields? {fields : Fields} (h : v.fields? = some fields) : v = .object fields := by
  cases v <;> cases h
  rfl

/-- Nothing stands behind what is no mapping. -/
theorem Blocks.at? (h : v.Blocks path) : v.at? path = none := by
  induction path generalizing v with
  | nil =>
    obtain ⟨front, _, hfront, hne, -⟩ := h
    exact absurd (List.prefix_nil.mp hfront) hne
  | cons key path ih =>
    cases hfields : v.fields? with
    | none => exact at?_of_leaf hfields key path
    | some fields =>
      obtain rfl := object_of_fields? hfields
      obtain ⟨u, hu, hblocks⟩ := blocks_object.mp h
      rw [at?_object, hu]
      exact ih hblocks

end Value

/-- What a path holds in an overlay: where both sides hold a mapping the overlay of these, else what
the upper side holds, and where that holds nothing, what the lower side holds, unless a value of the
upper side is in the way. -/
structure Overlaid (lower upper merged : Value) (path : List Key) : Prop where
  both : ∀ f g, lower.at? path = some (.object f) → upper.at? path = some (.object g) →
    merged.at? path = some (.object (overlay f g))
  replaced : ∀ v, upper.at? path = some v →
    (lower.at? path).bind Value.fields? = none ∨ v.fields? = none → merged.at? path = some v
  kept : upper.at? path = none → ¬ upper.Blocks path → merged.at? path = lower.at? path
  blocked : upper.Blocks path → merged.at? path = none

namespace Overlaid

variable {lower upper merged : Value} {path : List Key}

/-- Where only the upper side counts. -/
theorem of_upper (hmerged : merged.at? path = upper.at? path)
    (hboth : (lower.at? path).bind Value.fields? = none ∨
      (upper.at? path).bind Value.fields? = none)
    (hkept : upper.at? path = none → ¬ upper.Blocks path → lower.at? path = none) :
    Overlaid lower upper merged path where
  both := fun f g hf hg => by simp [hf, hg, Value.fields?] at hboth
  replaced := fun v hv _ => by rw [hmerged, hv]
  kept := fun hnone hopen => by rw [hmerged, hnone, hkept hnone hopen]
  blocked := fun h => by rw [hmerged, h.at?]

/-- Where only the lower side counts. -/
theorem of_lower (hmerged : merged.at? path = lower.at? path) (hnone : upper.at? path = none)
    (hopen : ¬ upper.Blocks path) : Overlaid lower upper merged path where
  both := fun f g _ hg => by simp [hnone] at hg
  replaced := fun v hv _ => by simp [hnone] at hv
  kept := fun _ _ => hmerged
  blocked := fun h => absurd h hopen

/-- From the values under a key to the mappings. -/
theorem cons {f g m : Fields} {key : Key} (hf : get? f key = some lower)
    (hg : get? g key = some upper) (hm : get? m key = some merged)
    (h : Overlaid lower upper merged path) :
    Overlaid (.object f) (.object g) (.object m) (key :: path) := by
  have hblocks : (Value.object g).Blocks (key :: path) ↔ upper.Blocks path := by
    rw [Value.blocks_object, hg]
    simp
  constructor
  · simpa only [Value.at?_object, hf, hg, hm, Option.bind_some] using h.both
  · simpa only [Value.at?_object, hf, hg, hm, Option.bind_some] using h.replaced
  · simpa only [Value.at?_object, hf, hg, hm, Option.bind_some, hblocks] using h.kept
  · simpa only [Value.at?_object, hf, hg, hm, Option.bind_some, hblocks] using h.blocked

end Overlaid

/-- **Along a path the overlay merges, replaces or keeps.** -/
theorem overlaid_overlayValue {v : Value} (hv : v.KeyedOnce) (w : Value) (path : List Key) :
    Overlaid w v (overlayValue w v) path := by
  induction path generalizing v w with
  | nil =>
    cases hw : w.fields? with
    | none => exact .of_upper (by rw [overlayValue_over_leaf hw]) (.inl hw) nofun
    | some f =>
      cases hfields : v.fields? with
      | none => exact .of_upper (by rw [overlayValue_of_leaf hfields]) (.inr hfields) nofun
      | some g =>
        obtain rfl := Value.object_of_fields? hw
        obtain rfl := Value.object_of_fields? hfields
        rw [overlayValue_object]
        constructor
        · rintro _ _ ⟨⟩ ⟨⟩
          rfl
        · rintro _ ⟨⟩ hleaf
          simp [Value.at?, Value.fields?] at hleaf
        · nofun
        · exact fun h => nomatch h.at?
  | cons key path ih =>
    cases hw : w.fields? with
    | none =>
      have hnone := Value.at?_of_leaf hw key path
      refine .of_upper (by rw [overlayValue_over_leaf hw]) (.inl ?_) fun _ _ => hnone
      rw [hnone, Option.bind_none]
    | some f =>
      obtain rfl := Value.object_of_fields? hw
      cases hv with
      | leaf hleaf =>
        have hnone := Value.at?_of_leaf hleaf key path
        refine .of_upper (by rw [overlayValue_of_leaf hleaf]) (.inr ?_) fun _ hopen => ?_
        · rw [hnone, Option.bind_none]
        · exact absurd ⟨[], v, List.nil_prefix, by simp, rfl, hleaf⟩ hopen
      | @object g hg hvalues =>
        rw [overlayValue_object]
        have hmerged := get?_overlay hg f key
        cases hupper : get? g key with
        | none =>
          rw [hupper] at hmerged
          refine .of_lower ?_ (by rw [Value.at?_object, hupper, Option.bind_none]) ?_
          · rw [Value.at?_object, Value.at?_object, hmerged, Option.elim_none]
          · rw [Value.blocks_object, hupper]
            simp
        | some x =>
          rw [hupper] at hmerged
          cases hlower : get? f key with
          | none =>
            rw [hlower] at hmerged
            have hnone : (Value.object f).at? (key :: path) = none := by
              rw [Value.at?_object, hlower, Option.bind_none]
            refine .of_upper ?_ (.inl (by rw [hnone, Option.bind_none])) fun _ _ => hnone
            rw [Value.at?_object, Value.at?_object, hmerged, hupper]
            rfl
          | some y =>
            rw [hlower] at hmerged
            exact .cons hlower hupper hmerged (ih (hvalues key x hupper) y)

/-- **Laws of the overlay.** For mappings that hold each key once, the overlay is one again. A path
holds in it the overlay of what it holds on both sides if these are mappings, with the keys of the
lower one first and the new keys of the upper one behind them, each in their order; else what it
holds on the upper side, if anything, and then what it holds on the lower side. Nothing laid over,
and something laid over a second time or over itself, change nothing. -/
theorem overlay_merges_sections {b o : Fields} (hb : (Value.object b).KeyedOnce)
    (ho : (Value.object o).KeyedOnce) :
    (Value.object (overlay b o)).KeyedOnce ∧
    (∀ path, Overlaid (.object b) (.object o) (.object (overlay b o)) path) ∧
    (∀ path f g, (Value.object b).at? path = some (.object f) →
      (Value.object o).at? path = some (.object g) →
      keys (overlay f g) = keys f ++ (keys g).filter (· ∉ keys f)) ∧
    overlay b [] = b ∧ overlay (overlay b o) o = overlay b o ∧ overlay o o = o := by
  have hmerged := keyedOnce_overlayValue ho hb
  have hpaths := overlaid_overlayValue ho (.object b)
  have hagain := overlayValue_again ho hb
  have hself := overlayValue_self ho
  simp only [overlayValue_object, Value.object.injEq] at hmerged hpaths hagain hself
  exact ⟨hmerged, hpaths, fun path f g _ hg => keys_overlay (ho.at? hg).nodup f, overlay_nil b,
    hagain, hself⟩

/-! ## A sample -/

namespace Value.KeyedOnce

theorem nil : (Value.object []).KeyedOnce := .object List.nodup_nil nofun

theorem cons {key : Key} {v : Value} {rest : Fields} (hkey : key ∉ keys rest) (hv : v.KeyedOnce)
    (hrest : (Value.object rest).KeyedOnce) : (Value.object ((key, v) :: rest)).KeyedOnce := by
  refine .object (List.nodup_cons.mpr ⟨hkey, hrest.nodup⟩) fun k w hw => ?_
  rw [get?_cons] at hw
  split at hw
  · exact Option.some.inj hw ▸ hv
  · exact hrest.at? (show (Value.object rest).at? [k] = some w by rw [at?_object, hw]; rfl)

end Value.KeyedOnce

/-- A section that is merged, and one that is replaced. -/
def lowerSample : Fields :=
  [("limits", .object [("depth", .int 64), ("items", .list [.int 1])]),
   ("output", .object [("frame", .text "5m")])]

def upperSample : Fields :=
  [("output", .null), ("limits", .object [("nodes", .int 5), ("items", .list [.int 2])])]

def mergedSample : Fields :=
  [("limits", .object [("depth", .int 64), ("items", .list [.int 2]), ("nodes", .int 5)]),
   ("output", .null)]

theorem samples_merge_sections :
    (Value.object lowerSample).KeyedOnce ∧ (Value.object upperSample).KeyedOnce ∧
    overlay lowerSample upperSample = mergedSample ∧
    (∀ path, Overlaid (.object lowerSample) (.object upperSample) (.object mergedSample) path) ∧
    overlay mergedSample upperSample = mergedSample ∧
    overlay upperSample upperSample = upperSample := by
  have hlower : (Value.object lowerSample).KeyedOnce :=
    .cons (by decide) (.cons (by decide) (.leaf rfl) (.cons (by decide) (.leaf rfl) .nil))
      (.cons (by decide) (.cons (by decide) (.leaf rfl) .nil) .nil)
  have hupper : (Value.object upperSample).KeyedOnce :=
    .cons (by decide) (.leaf rfl)
      (.cons (by decide) (.cons (by decide) (.leaf rfl) (.cons (by decide) (.leaf rfl) .nil)) .nil)
  have hmerged : overlay lowerSample upperSample = mergedSample := by rfl
  obtain ⟨-, hpaths, -, -, hagain, hself⟩ := overlay_merges_sections hlower hupper
  rw [hmerged] at hpaths hagain
  exact ⟨hlower, hupper, hmerged, hpaths, hagain, hself⟩

end Stratagem
