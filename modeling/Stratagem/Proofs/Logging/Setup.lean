import Stratagem.Command.Session
import Mathlib.Data.List.Basic

/-! Loggers that are set up again and again. The first call for a logger that succeeds brings its
handlers, which stay as they are from then on; every call sets the level of the logger. Main
statement: a logger that was set up writes to one console and at most one file, and it writes the
records that reach two levels, that of the last call and that of the call which brought the
handlers. -/

namespace Stratagem

namespace Loggers

variable {name other : String} {ls : Loggers} {l : Logger}

/-! ## Loggers by name -/

theorem lookup_filter_ne {byName : List (String × Logger)} (h : other ≠ name) :
    (byName.filter fun e => e.1 ≠ name).lookup other = byName.lookup other := by
  induction byName with
  | nil => rfl
  | cons e rest ih =>
    by_cases he : e.1 = name
    · have hskip : (other == e.1) = false := by simpa [he] using h
      rw [List.filter_cons_of_neg (by simpa using he), ih, List.lookup_cons, hskip]
    · rw [List.filter_cons_of_pos (by simpa using he), List.lookup_cons, List.lookup_cons, ih]

theorem get?_set_self (h : properName other = properName name) (ls : Loggers) (l : Logger) :
    (ls.set name l).get? other = some l := by
  simp [get?, set, h]

theorem get?_set_of_ne (h : properName other ≠ properName name) (ls : Loggers) (l : Logger) :
    (ls.set name l).get? other = ls.get? other := by
  have hskip : (properName other == properName name) = false := by simpa using h
  rw [get?, set, List.lookup_cons, hskip, lookup_filter_ne h, get?]

theorem handlers_congr (h : properName other = properName name) (ls : Loggers) :
    ls.handlers other = ls.handlers name := by
  rw [handlers, handlers, get?, get?, h]

/-! ## Writing -/

/-- The handlers that write a record, of the loggers above the one that it is logged on. -/
def takersAbove (ls : Loggers) (r : Record) : List Handler :=
  if ls.isEnabled r then
    (((lineage r.logger).tail.filterMap ls.get?).flatMap Logger.handlers).filter (·.accepts r)
  else []

theorem above_of_get? (h : ls.get? name = some l) :
    ls.above name = l :: (lineage name).tail.filterMap ls.get? := by
  rw [above]
  unfold lineage
  split
  · next hroot =>
    have hget : ls.get? rootName = some l := by
      rw [← h, get?, get?, hroot]
      rfl
    rw [List.filterMap_cons_some hget, List.tail_cons]
  · rw [List.cons_append, List.filterMap_cons_some h, List.tail_cons]

/-- On a logger with a level of its own, that level decides. -/
theorem isEnabled_iff {r : Record} (h : ls.get? r.logger = some l) :
    ls.isEnabled r = true ↔ (l.level.severity : Int) ≤ r.severity := by
  have hpos : 0 < l.level.severity := by cases l.level <;> decide
  simp only [isEnabled, effectiveLevel, above_of_get? h, List.head?_cons, Option.map_some,
    Option.getD_some, Bool.and_eq_true, decide_eq_true_eq]
  omega

/-- Where all handlers of a logger have one threshold, they write a record all or none. -/
theorem takers_eq {r : Record} {threshold : LogLevel} (h : ls.get? r.logger = some l)
    (hall : ∀ x ∈ l.handlers, x.threshold = threshold) :
    ls.takers r =
      (if (max threshold.severity l.level.severity : Int) ≤ r.severity then l.handlers else []) ++
        ls.takersAbove r := by
  have henabled := isEnabled_iff h
  by_cases he : ls.isEnabled r = true
  · have hlevel := henabled.mp he
    rw [takers, takersAbove, if_pos he, if_pos he, above_of_get? h, List.flatMap_cons,
      List.filter_append]
    congr 1
    split
    · refine List.filter_eq_self.mpr fun x hx => ?_
      simp only [Handler.accepts, hall x hx, decide_eq_true_eq]
      omega
    · refine List.filter_eq_nil_iff.mpr fun x hx => ?_
      simp only [Handler.accepts, hall x hx, decide_eq_true_eq]
      omega
  · have hlow : ¬ (max threshold.severity l.level.severity : Int) ≤ r.severity := by
      have := mt henabled.mpr he
      omega
    rw [takers, takersAbove, if_neg he, if_neg he, if_neg hlow, List.append_nil]

end Loggers

/-! ## Calls -/

/-- A call that sets a logger up. -/
structure SetupCall where
  settings : LoggingSettings
  directory : Option Path
  name : String
  today : String
  deriving DecidableEq

namespace SetupCall

def level (c : SetupCall) : LogLevel := c.settings.level

/-- Whether a call is for the logger of a name. -/
def isFor (name : String) (c : SetupCall) : Bool :=
  Loggers.properName name = Loggers.properName c.name

/-- The last call for a logger. -/
def last? (name : String) (calls : List SetupCall) : Option SetupCall :=
  (calls.filter (isFor name)).getLast?

theorem last?_cons (name : String) (c : SetupCall) (calls : List SetupCall) :
    last? name (c :: calls) =
      if isFor name c then some ((last? name calls).getD c) else last? name calls := by
  rw [last?, List.filter_cons]
  split
  · exact List.getLast?_cons
  · rfl

/-- The handlers that a call brings. -/
def Brings (c : SetupCall) (handlers : List Handler) : Prop :=
  ∃ layout, layoutPieces? c.settings.format = some layout ∧
    handlers = freshHandlers c.level layout (c.directory.map fun d => logFile d c.today)

namespace Brings

variable {c : SetupCall} {handlers : List Handler} (h : c.Brings handlers)

include h

theorem ne_nil : handlers ≠ [] := by
  obtain ⟨layout, -, rfl⟩ := h
  simp [freshHandlers]

theorem threshold : ∀ x ∈ handlers, x.threshold = c.level := by
  obtain ⟨layout, -, rfl⟩ := h
  rw [freshHandlers, List.forall_mem_append, List.forall_mem_singleton]
  exact ⟨List.forall_mem_map.mpr fun _ _ => rfl, rfl⟩

theorem one_console : handlers.countP (·.destination = .console) = 1 ∧
    handlers.countP (·.destination ≠ .console) ≤ 1 := by
  obtain ⟨layout, -, rfl⟩ := h
  cases c.directory <;> simp [freshHandlers]

end Brings

end SetupCall

namespace Session

open SetupCall

variable {c : SetupCall} {name : String}

def call (s : Session) (c : SetupCall) : Except Failure Unit × Session :=
  s.setupLogging c.settings c.directory c.name c.today

/-- Some calls, one after the other; a call that fails does not keep the next one from being
made. -/
def callAll (s : Session) (calls : List SetupCall) : Session :=
  calls.foldl (fun s c => (s.call c).2) s

/-- The call that brings a logger its handlers: the first for it that succeeds. -/
def equipping? (s : Session) (name : String) : List SetupCall → Option SetupCall
  | [] => none
  | c :: rest =>
    if isFor name c && (s.call c).1.isOk then some c else (s.call c).2.equipping? name rest

theorem openHandlers_ok {files after : FileTree} {handlers : List Handler}
    (h : openHandlers files c.settings c.directory c.today = (.ok handlers, after)) :
    c.Brings handlers := by
  unfold openHandlers at h
  split at h
  · cases h
  next layout hlayout =>
  refine ⟨layout, hlayout, ?_⟩
  split at h
  · next hnone =>
    cases h
    rw [hnone]
    rfl
  next d hsome =>
  rw [hsome]
  split at h
  · cases h
  split at h
  · cases h
  · cases h
    rfl

/-- A call sets the level of its logger and leaves the others as they are. The handlers stay, unless
there were none and the call has brought some. -/
theorem call_loggers (s : Session) (c : SetupCall) :
    ∃ handlers, (s.call c).2.loggers = s.loggers.set c.name ⟨c.level, handlers⟩ ∧
      ((s.loggers.handlers c.name = [] ∧ (s.call c).1.isOk = true ∧ c.Brings handlers) ∨
        (handlers = s.loggers.handlers c.name ∧ ((s.call c).1.isOk = false ↔ handlers = []))) := by
  rw [call, setupLogging]
  cases hbare : s.loggers.isBare c.name with
  | false =>
    have hsome : s.loggers.handlers c.name ≠ [] := by simpa [Loggers.isBare] using hbare
    exact ⟨_, rfl, .inr ⟨rfl, by simp [Except.isOk, Except.toBool, hsome]⟩⟩
  | true =>
    have hnone : s.loggers.handlers c.name = [] := List.isEmpty_iff.mp hbare
    cases hopen : openHandlers s.files c.settings c.directory c.today with
    | mk result files =>
      cases result with
      | error reason => exact ⟨_, rfl, .inr ⟨rfl, by simp [Except.isOk, Except.toBool, hnone]⟩⟩
      | ok handlers => exact ⟨handlers, rfl, .inl ⟨hnone, rfl, openHandlers_ok hopen⟩⟩

theorem call_other (h : ¬ isFor name c = true) (s : Session) :
    (s.call c).2.loggers.get? name = s.loggers.get? name := by
  obtain ⟨handlers, hset, -⟩ := call_loggers s c
  rw [hset, Loggers.get?_set_of_ne (by simpa [isFor] using h)]

/-- What a call for a logger does to it. -/
theorem call_self (h : isFor name c = true) (s : Session) :
    ∃ handlers, (s.call c).2.loggers.get? name = some ⟨c.level, handlers⟩ ∧
      ((s.loggers.handlers name = [] ∧ (s.call c).1.isOk = true ∧ c.Brings handlers) ∨
        (handlers = s.loggers.handlers name ∧ ((s.call c).1.isOk = false ↔ handlers = []))) := by
  have hname : Loggers.properName name = Loggers.properName c.name := by simpa [isFor] using h
  obtain ⟨handlers, hset, hcases⟩ := call_loggers s c
  rw [← Loggers.handlers_congr hname] at hcases
  exact ⟨handlers, by rw [hset, Loggers.get?_set_self hname], hcases⟩

/-- Handlers that are there stay, and the last call gives the level. -/
theorem callAll_equipped {l : Logger} (hl : l.handlers ≠ []) (calls : List SetupCall) {s : Session}
    (h : s.loggers.get? name = some l) :
    (s.callAll calls).loggers.get? name =
      some ⟨((last? name calls).map level).getD l.level, l.handlers⟩ := by
  induction calls generalizing s l with
  | nil => exact h
  | cons c rest ih =>
    rw [callAll, List.foldl_cons, last?_cons]
    by_cases hfor : isFor name c = true
    · obtain ⟨handlers, hget, hcases⟩ := call_self hfor s
      have hsame : s.loggers.handlers name = l.handlers := by rw [Loggers.handlers, h]; rfl
      rw [hsame] at hcases
      obtain ⟨hnone, -⟩ | ⟨rfl, -⟩ := hcases
      · exact absurd hnone hl
      · rw [if_pos hfor, ← callAll, ih (l := ⟨c.level, l.handlers⟩) hl hget]
        cases last? name rest <;> rfl
    · rw [if_neg hfor, ← callAll, ih hl ((call_other hfor s).trans h)]

/-- A logger without handlers has those of the first call that succeeds, or none still. -/
theorem callAll_bare (calls : List SetupCall) {s : Session} (h : s.loggers.handlers name = []) :
    (s.equipping? name calls = none → (s.callAll calls).loggers.handlers name = []) ∧
    ∀ first, s.equipping? name calls = some first → ∃ handlers last, first.Brings handlers ∧
      last? name calls = some last ∧
      (s.callAll calls).loggers.get? name = some ⟨last.level, handlers⟩ := by
  induction calls generalizing s with
  | nil => exact ⟨fun _ => h, fun _ hnone => by cases hnone⟩
  | cons c rest ih =>
    rw [equipping?, callAll, List.foldl_cons, ← callAll, last?_cons]
    by_cases hfor : isFor name c = true
    · obtain ⟨handlers, hget, ⟨-, hok, hbrings⟩ | ⟨rfl, hfails⟩⟩ := call_self hfor s
      · simp only [hfor, hok, Bool.and_self, if_true, reduceCtorEq, false_implies, true_and,
          Option.some.injEq, forall_eq']
        refine ⟨handlers, (last? name rest).getD c, hbrings, rfl, ?_⟩
        rw [callAll_equipped hbrings.ne_nil rest hget]
        cases last? name rest <;> rfl
      · have hbare : (s.call c).2.loggers.handlers name = [] := by
          rw [Loggers.handlers, hget]
          exact h
        simp only [hfor, hfails.mpr h, Bool.and_false, Bool.false_eq_true, if_false, if_true]
        obtain ⟨hnone, hsome⟩ := ih hbare
        refine ⟨hnone, fun first hfirst => ?_⟩
        obtain ⟨handlers, last, hbrings, hlast, hget⟩ := hsome first hfirst
        exact ⟨handlers, last, hbrings, by rw [hlast]; rfl, hget⟩
    · have hbare : (s.call c).2.loggers.handlers name = [] := by
        rw [Loggers.handlers, call_other hfor]
        exact h
      rw [Bool.not_eq_true] at hfor
      simp only [hfor, Bool.false_and, Bool.false_eq_true, if_false]
      exact ih hbare

/-- **A logger that was set up writes what reaches two levels.** From a logger without handlers, and
after calls of all kinds, it still has none if no call for it has succeeded. Else it has one console
and at most one file, and its handlers write a record exactly if that reaches both the level of the
last call for it and that of the call which brought them. -/
theorem setup_writes_above_both_levels (s : Session) (name : String)
    (hbare : s.loggers.isBare name = true) (calls : List SetupCall) :
    (s.equipping? name calls = none → (s.callAll calls).loggers.isBare name = true) ∧
    ∀ first, s.equipping? name calls = some first → ∃ l last,
      (s.callAll calls).loggers.get? name = some l ∧ last? name calls = some last ∧
      l.level = last.level ∧ l.handlers.countP (·.destination = .console) = 1 ∧
      l.handlers.countP (·.destination ≠ .console) ≤ 1 ∧
      ∀ r : Record, Loggers.properName r.logger = Loggers.properName name →
        (s.callAll calls).loggers.takers r =
          (if (max first.level.severity last.level.severity : Int) ≤ r.severity then l.handlers
            else []) ++ (s.callAll calls).loggers.takersAbove r := by
  obtain ⟨hnone, hsome⟩ := callAll_bare calls (List.isEmpty_iff.mp hbare)
  refine ⟨fun h => List.isEmpty_iff.mpr (hnone h), fun first hfirst => ?_⟩
  obtain ⟨handlers, last, hbrings, hlast, hget⟩ := hsome first hfirst
  refine ⟨⟨last.level, handlers⟩, last, hget, hlast, rfl, hbrings.one_console.1,
    hbrings.one_console.2, fun r hr => ?_⟩
  have hlogger : (s.callAll calls).loggers.get? r.logger = some ⟨last.level, handlers⟩ := by
    rw [← hget, Loggers.get?, Loggers.get?, hr]
  have htakers := Loggers.takers_eq hlogger hbrings.threshold
  exact htakers

/-- A call for the compiler's logger. -/
def compilerCall (settings : LoggingSettings) : SetupCall := ⟨settings, none, compilerLogger, ""⟩

/-- The first call fails, and the last one lowers the level. -/
def lowering : List SetupCall :=
  [compilerCall { format := "plain" }, compilerCall { level := .info },
    ⟨{ level := .error }, none, "", ""⟩, compilerCall { level := .debug }]

theorem lowering_writes_above_both_levels :
    Loggers.empty.isBare compilerLogger = true ∧ ∃ l,
      (callAll { files := .empty } lowering).loggers.get? compilerLogger = some l ∧
      l.level = .debug ∧ l.handlers.countP (·.destination = .console) = 1 ∧
      ∀ r : Record, r.logger = compilerLogger →
        (callAll { files := .empty } lowering).loggers.takers r =
          (if 20 ≤ r.severity then l.handlers else []) ++
            (callAll { files := .empty } lowering).loggers.takersAbove r := by
  have hbare : Loggers.empty.isBare compilerLogger = true := by decide
  have hequip : equipping? { files := .empty } compilerLogger lowering =
      some (compilerCall { level := .info }) := by decide +kernel
  obtain ⟨l, last, hget, hlast, hlevel, hconsole, -, htakers⟩ :=
    (setup_writes_above_both_levels { files := .empty } compilerLogger hbare lowering).2 _ hequip
  obtain rfl : compilerCall { level := .debug } = last := Option.some.inj hlast
  refine ⟨hbare, l, hget, hlevel, hconsole, fun r hr => ?_⟩
  exact htakers r (by rw [hr])

/-- The level of the last call is not enough: handlers that are there keep theirs. -/
theorem lowering_drops_debug_record :
    (last? compilerLogger lowering).map level = some .debug ∧
      (callAll { files := .empty } lowering).loggers.takers
        ⟨compilerLogger, LogLevel.debug.severity, ""⟩ = [] := by
  decide +kernel

end Session

end Stratagem
