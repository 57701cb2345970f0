import Stratagem.Proofs.Leverage.Renaming
import Stratagem.Proofs.Text.Comments

/-! Comments of rules stay on one line. A comment is cut down to printable words, and no printable
character ends a line. -/

namespace Stratagem

namespace Leverage

open Text (Printable printable_literal)

theorem printable_ruleComment (index : Nat) (r : LeverageRule) :
    Printable (ruleComment index r) := by
  refine .append (.append (.append ?_ (printable_literal (by decide)))
    (Text.printable_intText _)) (printable_literal (by decide))
  split
  · exact .append (printable_literal (by decide)) (Text.printable_natText _)
  · exact Text.printable_comment _ _

theorem isInline_ruleComment (index : Nat) (r : LeverageRule) :
    ∀ c ∈ (ruleComment index r).toList, Script.isInline c = true :=
  (printable_ruleComment index r).isInline

theorem compileRules_comments {context : EmissionContext} {start : Nat}
    {rules : List LeverageRule} {s t : Tally} {compiled : List CompiledRule}
    (h : compileRules context start rules s = .ok (compiled, t)) :
    ∀ c ∈ compiled, ∃ index r, c.comment = ruleComment index r := by
  induction rules generalizing start s compiled with
  | nil =>
    cases h
    simp
  | cons r rest ih =>
    obtain ⟨first, _, hfirst, h⟩ := bind_eq_ok h
    obtain ⟨others, _, hothers, h⟩ := bind_eq_ok h
    cases h
    obtain ⟨-, -, -, -, hcomment⟩ := compileRule_eq_ok hfirst
    exact List.forall_mem_cons.mpr ⟨⟨start, r, hcomment⟩, ih hothers⟩

/-- **Every comment of a routine is printable.** -/
theorem compile_comments_printable {binding : Binding} {defaults : LeverageDefaults}
    {maxDepth : Int} {l : LeverageSettings} {r : Routine}
    (h : compile binding defaults maxDepth l = .ok r) :
    ∀ text ∈ r.tail.comment :: r.branches.map Branch.comment, Printable text := by
  obtain ⟨compiled, tally, steady, -, hrules, -, htail, hr⟩ := compile_eq_ok h
  have hcompiled : ∀ c ∈ compiled, Printable c.comment := by
    intro c hc
    obtain ⟨index, rule, hcomment⟩ := compileRules_comments hrules c hc
    rw [hcomment]
    exact printable_ruleComment index rule
  refine List.forall_mem_cons.mpr ⟨?_, List.forall_mem_map.mpr fun b hb => ?_⟩
  · rcases tailOf_cases htail with
      ⟨c, hfind, htail, -⟩ | ⟨-, ⟨x, -, -, htail, -⟩ | ⟨-, htail, -⟩⟩
    · exact htail ▸ hcompiled c (List.mem_of_find?_eq_some hfind)
    · exact htail ▸ printable_literal (by decide)
    · exact htail ▸ printable_literal (by decide)
  · rw [hr] at hb
    obtain ⟨c, hc, hbranch⟩ := List.mem_filterMap.mp hb
    obtain ⟨code, -, rfl⟩ := Option.map_eq_some_iff.mp hbranch
    exact hcompiled c hc

/-- **Every comment of a routine stays on its line.** -/
theorem compile_comments {binding : Binding} {defaults : LeverageDefaults} {maxDepth : Int}
    {l : LeverageSettings} {r : Routine} (h : compile binding defaults maxDepth l = .ok r) :
    ∀ text ∈ r.tail.comment :: r.branches.map Branch.comment,
      ∀ c ∈ text.toList, Script.isInline c = true :=
  fun text htext => (compile_comments_printable h text htext).isInline

end Leverage

end Stratagem
