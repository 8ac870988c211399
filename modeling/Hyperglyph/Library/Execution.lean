import Mathlib.Order.Basic

/-! Finite labelled runs of a transition relation, with the invariant, restriction and
simulation rules that the developments built over them use. -/
namespace Execution

universe u v w x

variable {State : Type u} {Label : Type v}

/-- A finite run from `s`, with the labels of its steps in the order they were taken. -/
inductive Run (step : State → Label → State → Prop) (s : State) : List Label → State → Prop
  | start : Run step s [] s
  | next {labels t label u} :
      Run step s labels t → step t label u → Run step s (labels ++ [label]) u

/-- The states some run from an initial state ends in. -/
def Reachable (step : State → Label → State → Prop) (init : State → Prop) (t : State) : Prop :=
  ∃ s labels, init s ∧ Run step s labels t

/-- The steps of a relation whose pre-state and label meet a condition. -/
def Guarded (step : State → Label → State → Prop) (ok : State → Label → Prop) :
    State → Label → State → Prop :=
  fun s label t => ok s label ∧ step s label t

variable {step : State → Label → State → Prop} {init : State → Prop}

theorem Run.single {s t : State} {label : Label} (h : step s label t) :
    Run step s [label] t := Run.next .start h

theorem Run.append {s t u : State} {first second : List Label}
    (h : Run step s first t) (k : Run step t second u) : Run step s (first ++ second) u := by
  induction k with
  | start => simpa only [List.append_nil] using h
  | next _ last ih => simpa only [List.append_assoc] using Run.next ih last

theorem Run.head {s t u : State} {label : Label} {labels : List Label}
    (h : step s label t) (k : Run step t labels u) : Run step s (label :: labels) u :=
  (Run.single h).append k

/-- A property that every step preserves holds at the end of a run that starts in it. -/
theorem Run.preserves {I : State → Prop}
    (hstep : ∀ {t label u}, I t → step t label u → I u)
    {s t : State} {labels : List Label} (h : Run step s labels t) (hs : I s) : I t := by
  induction h with
  | start => exact hs
  | next _ last ih => exact hstep ih last

/-- The same rule for a relation between the start of the run and each later state. -/
theorem Run.relates {R : State → State → Prop} (hrefl : ∀ s, R s s)
    (hstep : ∀ {s t label u}, R s t → step t label u → R s u)
    {s t : State} {labels : List Label} (h : Run step s labels t) : R s t :=
  h.preserves (I := R s) hstep (hrefl s)

theorem Run.mono {step' : State → Label → State → Prop}
    (hstep : ∀ {t label u}, step t label u → step' t label u)
    {s t : State} {labels : List Label} (h : Run step s labels t) : Run step' s labels t := by
  induction h with
  | start => exact .start
  | next _ last ih => exact .next ih (hstep last)

theorem Run.unguarded {ok : State → Label → Prop} {s t : State} {labels : List Label}
    (h : Run (Guarded step ok) s labels t) : Run step s labels t :=
  h.mono And.right

theorem Reachable.of_init {s : State} (h : init s) : Reachable step init s :=
  ⟨s, [], h, .start⟩

theorem Reachable.extend {s t : State} {labels : List Label} (hs : Reachable step init s)
    (h : Run step s labels t) : Reachable step init t := by
  obtain ⟨s₀, before, h₀, hrun⟩ := hs
  exact ⟨s₀, before ++ labels, h₀, hrun.append h⟩

theorem Reachable.tail {s t : State} {label : Label} (hs : Reachable step init s)
    (h : step s label t) : Reachable step init t :=
  hs.extend (.single h)

/-- The invariant rule. -/
theorem Reachable.invariant {I : State → Prop} (hinit : ∀ {s}, init s → I s)
    (hstep : ∀ {t label u}, I t → step t label u → I u)
    {t : State} (h : Reachable step init t) : I t := by
  obtain ⟨s, labels, hs, hrun⟩ := h
  exact hrun.preserves (I := I) hstep (hinit hs)

/-- The invariant rule whose step case may use what is already known of reachable states. -/
theorem Reachable.invariant_with {I : State → Prop} (hinit : ∀ {s}, init s → I s)
    (hstep : ∀ {t label u}, Reachable step init t → I t → step t label u → I u)
    {t : State} (h : Reachable step init t) : I t := by
  refine (h.invariant (I := fun t => Reachable step init t ∧ I t) ?_ ?_).2
  · exact fun hs => ⟨.of_init hs, hinit hs⟩
  · exact fun ht hlast => ⟨ht.1.tail hlast, hstep ht.1 ht.2 hlast⟩

/-- Where the step is a partial function, a fold of it that is defined is a run. -/
theorem run_of_foldlM {next : State → Label → Option State} {s t : State} {labels : List Label}
    (h : labels.foldlM next s = some t) :
    Run (fun s label t => next s label = some t) s labels t := by
  induction labels generalizing s with
  | nil =>
      cases h
      exact .start
  | cons label labels ih =>
      obtain ⟨u, hstep, hrest⟩ := Option.bind_eq_some_iff.mp h
      exact (ih hrest).head hstep

/-- A function that sends every step to a run sends runs to runs. -/
theorem Run.simulate {State' : Type w} {Label' : Type x} {step' : State' → Label' → State' → Prop}
    {f : State → State'}
    (hstep : ∀ {t label u}, step t label u → ∃ labels, Run step' (f t) labels (f u))
    {s t : State} {labels : List Label} (h : Run step s labels t) :
    ∃ labels', Run step' (f s) labels' (f t) := by
  induction h with
  | start => exact ⟨[], .start⟩
  | next _ last ih =>
      obtain ⟨before, hbefore⟩ := ih
      obtain ⟨more, hmore⟩ := hstep last
      exact ⟨before ++ more, hbefore.append hmore⟩

theorem Reachable.simulate {State' : Type w} {Label' : Type x}
    {step' : State' → Label' → State' → Prop} {init' : State' → Prop} {f : State → State'}
    (hinit : ∀ {s}, init s → init' (f s))
    (hstep : ∀ {t label u}, step t label u → ∃ labels, Run step' (f t) labels (f u))
    {t : State} (h : Reachable step init t) : Reachable step' init' (f t) := by
  obtain ⟨s, labels, hs, hrun⟩ := h
  obtain ⟨labels', hrun'⟩ := hrun.simulate (f := f) hstep
  exact ⟨f s, labels', hinit hs, hrun'⟩

/-- Where every step of the one is a step of the other with the same label, so is every run. -/
theorem Run.matched {State' : Type w} {step' : State' → Label → State' → Prop}
    {R : State → State' → Prop}
    (hstep : ∀ {s s' label t}, R s s' → step s label t → ∃ t', step' s' label t' ∧ R t t')
    {s t : State} {labels : List Label} (h : Run step s labels t) {s' : State'} (hs : R s s') :
    ∃ t', Run step' s' labels t' ∧ R t t' := by
  induction h with
  | start => exact ⟨s', .start, hs⟩
  | next _ last ih =>
      obtain ⟨u', hrun, hu⟩ := ih
      obtain ⟨t', hlast, ht⟩ := hstep hu last
      exact ⟨t', hrun.next hlast, ht⟩

end Execution
