import Stratagem.Proofs.Document.Mirroring
import Stratagem.Proofs.Document.Sources

/-! Unwrapping stored documents. A wrapper can give its builder document one thing only, a time
frame where the document leaves its own open. From there on the time frame is only read: migration,
the lifting of leverage and mirroring leave the parameters as they are. -/

namespace Stratagem

open Schema Schema.Checked Fields

/-! ## What a wrapper gives -/

/-- The parameters of a builder document are null, absent or a mapping. -/
def MappingParameters (builder : Fields) : Prop :=
  ∀ v, present? builder (.text "parameters") = some v → ∃ parameters, v = .object parameters

/-- The parameters of a builder document, empty if they are null or absent. -/
def parametersIn (builder : Fields) : Fields :=
  ((present? builder (.text "parameters")).bind Value.fields?).getD []

/-- The time frame that a builder document has itself, where null counts as none. -/
def ownTimeframe? (builder : Fields) : Option Value :=
  present? (parametersIn builder) (.text "timeframe")

/-- There is a place for a time frame, and nothing in it. -/
structure OpenTimeframe (builder : Fields) : Prop where
  mapping : MappingParameters builder
  unset : ownTimeframe? builder = none

/-- A builder document with a time frame put among its parameters, and all else as it was. -/
structure Carried (timeframe : Value) (builder out : Fields) : Prop where
  parameters : ∃ parameters, get? out (.text "parameters") = some (.object parameters) ∧
    get? parameters (.text "timeframe") = some timeframe ∧
    (∀ key, key ≠ .text "timeframe" → get? parameters key = get? (parametersIn builder) key) ∧
    keys parameters = keys (parametersIn builder) ++
      [.text "timeframe"].filter (· ∉ keys (parametersIn builder))
  others : ∀ key, key ≠ .text "parameters" → get? out key = get? builder key
  order : keys out = keys builder ++ [.text "parameters"].filter (· ∉ keys builder)

variable {timeframe : Value} {w b fields : Fields}

theorem parametersIn_of_none (h : present? b (.text "parameters") = none) :
    parametersIn b = [] := by
  rw [parametersIn, h]
  rfl

theorem parametersIn_of_object {parameters : Fields}
    (h : present? b (.text "parameters") = some (.object parameters)) :
    parametersIn b = parameters := by
  rw [parametersIn, h]
  rfl

theorem carryTimeframe_of_open (h : OpenTimeframe b) :
    carryTimeframe timeframe b = set b (.text "parameters")
      (.object (set (parametersIn b) (.text "timeframe") timeframe)) := by
  have hunset := h.unset
  unfold carryTimeframe
  split
  · next hnone => rw [parametersIn_of_none hnone]
  · next parameters hparameters =>
    rw [ownTimeframe?, parametersIn_of_object hparameters] at hunset
    simp [hunset, parametersIn_of_object hparameters]
  · next v hother hv =>
    obtain ⟨parameters, rfl⟩ := h.mapping v hv
    exact (hother parameters rfl).elim

theorem carryTimeframe_of_not_open (h : ¬ OpenTimeframe b) : carryTimeframe timeframe b = b := by
  unfold carryTimeframe
  split
  · next hnone =>
    refine (h ⟨fun v hv => ?_, ?_⟩).elim
    · rw [hnone] at hv
      cases hv
    · rw [ownTimeframe?, parametersIn_of_none hnone]
      rfl
  · next parameters hparameters =>
    split
    · rfl
    · next hunset =>
      refine (h ⟨fun v hv => ⟨parameters, ?_⟩, ?_⟩).elim
      · exact Option.some.inj (hv.symm.trans hparameters)
      · rw [ownTimeframe?, parametersIn_of_object hparameters]
        simpa using hunset
  · rfl

theorem keys_set_eq_append (fields : Fields) (key : Key) (v : Value) :
    keys (set fields key v) = keys fields ++ [key].filter (· ∉ keys fields) :=
  keys_foldl_set [(key, v)] (List.nodup_singleton key) fields

theorem carried_carryTimeframe (timeframe : Value) (h : OpenTimeframe b) :
    Carried timeframe b (carryTimeframe timeframe b) := by
  rw [carryTimeframe_of_open h]
  constructor
  · refine ⟨_, by rw [get?_set, if_pos rfl], by rw [get?_set, if_pos rfl], fun key hkey => ?_,
      keys_set_eq_append _ _ _⟩
    rw [get?_set, if_neg hkey]
  · intro key hkey
    rw [get?_set, if_neg hkey]
  · exact keys_set_eq_append _ _ _

theorem unwrap_wrapper (hb : get? w (.text "ui_builder") = some (.object b)) :
    unwrap (.object w) =
      .ok ((present? w (.text "timeframe")).elim b (carryTimeframe · b)) := by
  simp only [unwrap, asObject, hb, bind, Except.bind, pure, Except.pure]
  cases present? w (.text "timeframe") with
  | none => rfl
  | some timeframe => rfl

/-- Behind the size guard only what is in the wrapper counts. -/
theorem prepare_of_unwrap {limits : Limits} {raw raw' : Value}
    (hraw : (Extent.check limits raw).isOk = true) (hraw' : (Extent.check limits raw').isOk = true)
    (h : unwrap raw = unwrap raw') : prepare limits raw = prepare limits raw' := by
  have hcanonical : canonical limits raw = canonical limits raw' := by
    unfold canonical
    cases hcheck : Extent.check limits raw with
    | error e => rw [hcheck] at hraw; cases hraw
    | ok extent =>
      cases hcheck' : Extent.check limits raw' with
      | error e => rw [hcheck'] at hraw'; cases hraw'
      | ok extent' => rw [h]; rfl
  rw [prepare, prepare, authored, authored, hcanonical]

/-! ## The time frame behind it -/

/-- The builder document comes first, and then the wrapper. -/
theorem ownTimeframe?_unwrap (hb : get? w (.text "ui_builder") = some (.object b))
    (h : unwrap (.object w) = .ok fields) (hfields : MappingParameters fields) :
    ownTimeframe? fields = (ownTimeframe? b).or (present? w (.text "timeframe")) := by
  rw [unwrap_wrapper hb] at h
  cases htimeframe : present? w (.text "timeframe") with
  | none =>
    rw [htimeframe] at h
    cases h
    exact (Option.or_none).symm
  | some timeframe =>
    rw [htimeframe] at h
    obtain rfl : carryTimeframe timeframe b = fields := Except.ok.inj h
    by_cases hopen : OpenTimeframe b
    · obtain ⟨parameters, hparameters, hvalue, -, -⟩ :=
        (carried_carryTimeframe timeframe hopen).parameters
      have hpresent := present?_eq_some_iff.mpr ⟨hparameters, nofun⟩
      rw [ownTimeframe?, parametersIn_of_object hpresent, hopen.unset, Option.none_or]
      exact present?_eq_some_iff.mpr ⟨hvalue, (present?_eq_some_iff.mp htimeframe).2⟩
    · rw [carryTimeframe_of_not_open hopen] at hfields ⊢
      cases hown : ownTimeframe? b with
      | none => exact (hopen ⟨hfields, hown⟩).elim
      | some v => rfl

/-- The time frame of a document is the one in the fields it is read from. -/
structure TimeframeFrom (fields : Fields) (d : Document) : Prop where
  mapping : MappingParameters fields
  own : ownTimeframe? fields = d.parameters.timeframe.map .text
  valid : ∀ s ∈ d.parameters.timeframe, isTimeframe s = true

theorem readTimeframe_eq_good {v : Value} {s : String} (h : readTimeframe v = .good s) :
    v = .text s ∧ isTimeframe s = true := by
  obtain ⟨t, htext, hcheck⟩ := andThen_eq_good h
  split at hcheck
  · next hvalid =>
    cases hcheck
    cases v with
    | text t =>
      cases htext
      exact ⟨rfl, hvalid⟩
    | _ => cases htext
  · cases hcheck

theorem Parameters.read_timeframe {v : Value} {p : Parameters} (h : Parameters.read v = .good p) :
    ∃ parameters, v = .object parameters ∧
      present? parameters (.text "timeframe") = p.timeframe.map .text ∧
      ∀ s ∈ p.timeframe, isTimeframe s = true := by
  obtain ⟨parameters, rfl, hread⟩ := Parameters.read_eq_good h
  refine ⟨parameters, rfl, ?_⟩
  rcases nullable_singleton_eq_good hread.timeframe with ⟨hnone, hp⟩ | ⟨v, _, s, hv, hs, hp⟩
  · rw [hp]
    exact ⟨hnone, nofun⟩
  · obtain ⟨rfl, hvalid⟩ := readTimeframe_eq_good hs
    rw [hp]
    exact ⟨hv, fun _ hmem => Option.some.inj hmem ▸ hvalid⟩

theorem get?_liftLeverage_of_ne {key : Key} (h : key ≠ .text "leverage") :
    get? (liftLeverage fields) key = get? fields key := by
  unfold liftLeverage
  split
  · split
    · rw [get?_set, if_neg h]
    · rfl
  · rfl

theorem Document.read_timeframe {d : Document} (h : Document.read (.object fields) = .good d) :
    TimeframeFrom fields d := by
  obtain ⟨_, ⟨⟩, hread⟩ := Document.read_eq_good h
  have hlifted : get? (liftLeverage fields) (.text "parameters") =
      get? fields (.text "parameters") := get?_liftLeverage_of_ne (by decide)
  rcases optional_singleton_eq_good hread.parameters with ⟨hnone, hdefault⟩ | ⟨v, _, hv, hv'⟩
  · have hpresent : present? fields (.text "parameters") = none := by
      rw [present?, ← hlifted, hnone]
    refine ⟨fun v hv => ?_, ?_, ?_⟩
    · rw [hpresent] at hv
      cases hv
    · rw [ownTimeframe?, parametersIn_of_none hpresent, hdefault]
      rfl
    · intro s hs
      rw [hdefault] at hs
      cases hs
  · obtain ⟨inner, rfl, hown, hvalid⟩ := Parameters.read_timeframe hv'
    have hpresent : present? fields (.text "parameters") = some (.object inner) := by
      rw [present?, ← hlifted, hv]
    refine ⟨fun v hv => ⟨inner, ?_⟩, ?_, hvalid⟩
    · exact Option.some.inj (hv.symm.trans hpresent)
    · rw [ownTimeframe?, parametersIn_of_object hpresent]
      exact hown

theorem get?_parameters_normalize {nested : Fields} (h : normalize fields = .ok nested) :
    get? nested (.text "parameters") = get? fields (.text "parameters") := by
  rcases normalize_eq_ok h with ⟨-, rfl⟩ | ⟨-, rfl⟩
  · rfl
  · exact (migrated_migrate fields).others _ (by decide) (by decide)

theorem TimeframeFrom.congr {fields' : Fields} {d : Document}
    (h : get? fields (.text "parameters") = get? fields' (.text "parameters"))
    (hd : TimeframeFrom fields d) : TimeframeFrom fields' d := by
  have hpresent : present? fields (.text "parameters") = present? fields' (.text "parameters") := by
    rw [present?, present?, h]
  have hparameters : parametersIn fields = parametersIn fields' := by
    rw [parametersIn, parametersIn, hpresent]
  constructor
  · rw [MappingParameters, ← hpresent]
    exact hd.mapping
  · rw [ownTimeframe?, ← hparameters]
    exact hd.own
  · exact hd.valid

/-- A prepared document has the time frame of the document in its wrapper. -/
theorem prepare_timeframe {limits : Limits} {raw : Value} {d : Document}
    (h : prepare limits raw = .ok d) :
    ∃ fields, unwrap raw = .ok fields ∧ TimeframeFrom fields d := by
  obtain ⟨source, hauthored, hmirror⟩ := exists_of_bind_ok h
  obtain ⟨shape, nested, hcanonical, hread⟩ := authored_eq_ok hauthored
  obtain ⟨extent, fields, -, hunwrap, hnormalize⟩ := canonical_eq_ok hcanonical
  obtain ⟨hmapping, hown, hvalid⟩ :=
    (Document.read_timeframe hread).congr (get?_parameters_normalize hnormalize)
  rw [Document.applyMirror_frame (ok_of_mapError_ok hmirror)]
  exact ⟨fields, hunwrap, hmapping, hown, hvalid⟩

end Stratagem
