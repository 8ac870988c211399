import Mathlib.Data.List.Induction

/-! Monitors of a history: a monitor reads the events one by one, keeps a standing, and stops at
an event that may not come. -/
namespace Monitor

variable {Standing Event : Type*} {next : Standing → Event → Option Standing} {s t : Standing}
  {events more : List Event} {e : Event}

/-- The standing after the events; `none` where one of them may not come. -/
def reads (next : Standing → Event → Option Standing) : Standing → List Event → Option Standing
  | s, [] => some s
  | s, e :: events => (next s e).bind fun t => reads next t events

@[simp] theorem reads_nil : reads next s [] = some s := rfl

theorem reads_cons : reads next s (e :: events) = (next s e).bind fun t => reads next t events := rfl

@[simp] theorem reads_singleton : reads next s [e] = next s e := by
  simp only [reads_cons, reads_nil, Option.bind_fun_some]

theorem reads_append :
    reads next s (events ++ more) = (reads next s events).bind fun t => reads next t more := by
  induction events generalizing s with
  | nil => rfl
  | cons e events ih => simp only [List.cons_append, reads_cons, ih, Option.bind_assoc]

theorem reads_append_eq_some :
    reads next s (events ++ more) = some t ↔
      ∃ u, reads next s events = some u ∧ reads next u more = some t := by
  rw [reads_append, Option.bind_eq_some_iff]

theorem reads_cons_eq_some :
    reads next s (e :: events) = some t ↔ ∃ u, next s e = some u ∧ reads next u events = some t := by
  rw [reads_cons, Option.bind_eq_some_iff]

/-- Events that leave the standing alone may be skipped. -/
theorem reads_ignored (h : ∀ e ∈ events, next s e = some s) : reads next s events = some s := by
  induction events with
  | nil => rfl
  | cons e events ih =>
      rw [reads_cons, h e List.mem_cons_self, Option.bind_some]
      exact ih fun e' he' => h e' (List.mem_cons_of_mem e he')

/-- Where the standing has changed, some first event changed it. -/
theorem reads_leaves (h : reads next s events = some t) (hne : t ≠ s) :
    ∃ quiet e rest u, events = quiet ++ e :: rest ∧ (∀ x ∈ quiet, next s x = some s) ∧
      next s e = some u ∧ u ≠ s := by
  induction events with
  | nil => exact absurd (Option.some_inj.mp h).symm hne
  | cons e events ih =>
      obtain ⟨u, he, hrest⟩ := reads_cons_eq_some.mp h
      by_cases hu : u = s
      · subst hu
        obtain ⟨quiet, e', rest, v, rfl, hquiet, he', hv⟩ := ih hrest
        refine ⟨e :: quiet, e', rest, v, rfl, ?_, he', hv⟩
        intro x hx
        rcases List.mem_cons.mp hx with rfl | hx
        · exact he
        · exact hquiet x hx
      · exact ⟨[], e, events, u, rfl, by simp, he, hu⟩

/-- Where the standing has changed, some last event changed it to what it is. -/
theorem reads_enters (h : reads next s events = some t) (hne : t ≠ s) :
    ∃ before e quiet u, events = before ++ e :: quiet ∧ reads next s before = some u ∧
      next u e = some t ∧ u ≠ t ∧ ∀ x ∈ quiet, next t x = some t := by
  induction events using List.reverseRecOn with
  | nil => exact absurd (Option.some_inj.mp h).symm hne
  | append_singleton events e ih =>
      obtain ⟨u, hbefore, hlast⟩ := reads_append_eq_some.mp h
      have he : next u e = some t := by simpa using hlast
      by_cases hu : u = t
      · subst hu
        obtain ⟨before, e', quiet, v, rfl, hreads, he', hv, hquiet⟩ := ih hbefore
        refine ⟨before, e', quiet ++ [e], v, by simp, hreads, he', hv, ?_⟩
        intro x hx
        rcases List.mem_append.mp hx with hx | hx
        · exact hquiet x hx
        · rw [List.mem_singleton.mp hx]
          exact he
      · exact ⟨events, e, [], u, rfl, hbefore, he, hu, by simp⟩

end Monitor
