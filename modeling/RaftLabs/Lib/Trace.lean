import Mathlib.Tactic

/-!
# Runs of a transition system

A system is a partial step function `step : S → E → Option S`: the event carries every choice that
the environment or the scheduler makes, and `none` says that the event is not possible.  A *trace*
is the list of the states of a run, the latest first, so an invariant may speak of everything the
run has visited.  `ok` restricts the events a run may take; `anyStep` restricts nothing.
-/

namespace RaftLabs.Lib

variable {S E : Type*}

/-! Concrete runs are of two or three processes, named by the numerals of `Fin`. -/

instance instNeZeroTwo : NeZero 2 := ⟨by decide⟩

instance instNeZeroThree : NeZero 3 := ⟨by decide⟩

/-- The states of a run from `s₀`, latest first, all of whose steps satisfy `ok`. -/
inductive Trace (step : S → E → Option S) (ok : S → E → Prop) (s₀ : S) : List S → Prop
  | init : Trace step ok s₀ [s₀]
  | step {s s' : S} {past : List S} (e : E) : Trace step ok s₀ (s :: past) → ok s e →
      step s e = some s' → Trace step ok s₀ (s' :: s :: past)

/-- No restriction on the events of a run. -/
def anyStep (_ : S) (_ : E) : Prop := True

/-- `s` is reached by a run all of whose steps satisfy `ok`. -/
def Reachable (step : S → E → Option S) (ok : S → E → Prop) (s₀ s : S) : Prop :=
  ∃ past, Trace step ok s₀ (s :: past)

/-- The state after a list of events, if all of them are possible. -/
def run (step : S → E → Option S) : S → List E → Option S
  | s, [] => some s
  | s, e :: es => (step s e).bind fun s' => run step s' es

lemma run_concat (step : S → E → Option S) (s : S) (es : List E) (e : E) :
    run step s (es ++ [e]) = (run step s es).bind fun s' => step s' e := by
  induction es generalizing s with
  | nil => simp [run]
  | cons e' es ih =>
    rw [List.cons_append, run, run, Option.bind_assoc]
    exact congrArg _ (funext fun s' => ih s')

/-- **A loop that can always go on ends**: `Q` is what holds with the events that are left. -/
theorem run_total {f : S → E → Option S} {Q : List E → S → Prop}
    (hstep : ∀ e es s, Q (e :: es) s → ∃ s', f s e = some s' ∧ Q es s') {es : List E} {s : S}
    (h : Q es s) : ∃ s', run f s es = some s' ∧ Q [] s' := by
  induction es generalizing s with
  | nil => exact ⟨s, rfl, h⟩
  | cons e es ih =>
    obtain ⟨s₁, hs₁, h₁⟩ := hstep e es s h
    obtain ⟨s', hs', h'⟩ := ih h₁
    exact ⟨s', Option.bind_eq_some_iff.2 ⟨s₁, hs₁, hs'⟩, h'⟩

/-- The same, with what holds after the events that are done. -/
theorem run_accumulates {f : S → E → Option S} {Q : List E → S → Prop} {es : List E} {s : S}
    (h₀ : Q [] s) (hstep : ∀ done e todo s, es = done ++ e :: todo → Q done s →
      ∃ s', f s e = some s' ∧ Q (done ++ [e]) s') :
    ∃ s', run f s es = some s' ∧ Q es s' := by
  obtain ⟨s', hs', done, he, h⟩ := run_total (f := f)
    (Q := fun todo s => ∃ done, es = done ++ todo ∧ Q done s)
    (fun e todo s ⟨done, he, h⟩ => by
      obtain ⟨s', hs', h'⟩ := hstep done e todo s he h
      exact ⟨s', hs', done ++ [e], by simp [he], h'⟩)
    ⟨[], rfl, h₀⟩
  rw [List.append_nil] at he
  exact ⟨s', hs', he ▸ h⟩

/-- The system that makes only the steps that satisfy `ok`. -/
def guarded (step : S → E → Option S) (ok : S → E → Prop) [∀ s e, Decidable (ok s e)] (s : S)
    (e : E) : Option S :=
  if ok s e then step s e else none

variable {next : S → E → Option S} {ok ok' : S → E → Prop} {s₀ s s' : S} {past tr : List S}

/-- **The invariant rule.**  What holds of the initial state and survives every permitted step holds
of every state of every run, together with the states before it. -/
theorem Trace.invariant {P : S → List S → Prop} (h₀ : P s₀ [])
    (hstep : ∀ s past e s', Trace next ok s₀ (s :: past) → P s past → ok s e →
      next s e = some s' → P s' (s :: past)) :
    ∀ {s past}, Trace next ok s₀ (s :: past) → P s past := by
  have key : ∀ tr, Trace next ok s₀ tr → ∀ s past, tr = s :: past → P s past := by
    intro tr h
    induction h with
    | init =>
      intro s past he
      cases he
      exact h₀
    | step e htr hok hs ih =>
      intro s past he
      cases he
      exact hstep _ _ e _ htr (ih _ _ rfl) hok hs
  intro s past h
  exact key _ h s past rfl

/-- The same for invariants of the latest state alone. -/
theorem Reachable.invariant {P : S → Prop} (h₀ : P s₀)
    (hstep : ∀ s e s', Reachable next ok s₀ s → P s → ok s e → next s e = some s' → P s')
    (h : Reachable next ok s₀ s) : P s := by
  obtain ⟨past, htr⟩ := h
  exact Trace.invariant (P := fun s _ => P s) h₀
    (fun s past e s' htr hi hok hs => hstep s e s' ⟨past, htr⟩ hi hok hs) htr

theorem Trace.tail {a b : S} (h : Trace next ok s₀ (a :: b :: past)) :
    Trace next ok s₀ (b :: past) := by
  cases h with
  | step e h _ _ => exact h

/-- The last step of a run. -/
theorem Trace.last {a b : S} (h : Trace next ok s₀ (a :: b :: past)) :
    ∃ e, ok b e ∧ next b e = some a := by
  cases h with
  | step e _ hok hs => exact ⟨e, hok, hs⟩

/-- A run up to one of its states is a run. -/
theorem Trace.mem (h : Trace next ok s₀ tr) (hs : s ∈ tr) :
    ∃ rest, Trace next ok s₀ (s :: rest) := by
  induction h with
  | init =>
    rw [List.mem_singleton.1 hs]
    exact ⟨[], .init⟩
  | step e htr hok hstep ih =>
    rcases List.mem_cons.1 hs with rfl | hs
    · exact ⟨_, .step e htr hok hstep⟩
    · exact ih hs

/-- What a run was at an earlier moment is a run. -/
theorem Trace.suffix (h : Trace next ok s₀ tr) (hs : s :: past <:+ tr) :
    Trace next ok s₀ (s :: past) := by
  induction h with
  | init =>
    rcases List.suffix_cons_iff.1 hs with h | h
    · rw [h]
      exact .init
    · cases List.suffix_nil.1 h
  | step e htr hok hstep ih =>
    rcases List.suffix_cons_iff.1 hs with h | h
    · rw [h]
      exact .step e htr hok hstep
    · exact ih h

/-- What every step does to a state, the steps before it have done to the states before. -/
theorem Trace.latest {R : S → S → Prop} (hrefl : ∀ s, R s s)
    (htrans : ∀ a b c, R a b → R b c → R a c)
    (hstep : ∀ s past e s', Trace next ok s₀ (s :: past) → ok s e → next s e = some s' → R s s')
    (h : Trace next ok s₀ (s :: past)) {s₁ : S} (h₁ : s₁ ∈ s :: past) : R s₁ s := by
  refine Trace.invariant (P := fun s past => ∀ s₁ ∈ s :: past, R s₁ s) ?_ ?_ h s₁ h₁
  · intro s₁ h₁
    rw [List.mem_singleton.1 h₁]
    exact hrefl _
  · intro s past e s' htr hi hok hs s₁ h₁
    rcases List.mem_cons.1 h₁ with rfl | h₁
    · exact hrefl _
    · exact htrans _ _ _ (hi s₁ h₁) (hstep s past e s' htr hok hs)

/-- Any two states of a run are related, one way or the other. -/
theorem Trace.total {R : S → S → Prop} (hrefl : ∀ s, R s s)
    (htrans : ∀ a b c, R a b → R b c → R a c)
    (hstep : ∀ s past e s', Trace next ok s₀ (s :: past) → ok s e → next s e = some s' → R s s')
    (h : Trace next ok s₀ tr) {s₁ s₂ : S} (h₁ : s₁ ∈ tr) (h₂ : s₂ ∈ tr) :
    R s₁ s₂ ∨ R s₂ s₁ := by
  induction h with
  | init =>
    rw [List.mem_singleton.1 h₁, List.mem_singleton.1 h₂]
    exact Or.inl (hrefl _)
  | step e htr hok hs ih =>
    have htr' := Trace.step e htr hok hs
    rcases List.mem_cons.1 h₂ with rfl | h₂'
    · exact Or.inl (htr'.latest hrefl htrans hstep h₁)
    · rcases List.mem_cons.1 h₁ with rfl | h₁'
      · exact Or.inr (htr'.latest hrefl htrans hstep h₂)
      · exact ih h₁' h₂'

theorem Trace.mono (hok : ∀ s e, ok s e → ok' s e) (h : Trace next ok s₀ tr) :
    Trace next ok' s₀ tr := by
  induction h with
  | init => exact .init
  | step e _ h hs ih => exact .step e ih (hok _ _ h) hs

theorem Reachable.init : Reachable next ok s₀ s₀ := ⟨[], .init⟩

theorem Reachable.step (h : Reachable next ok s₀ s) (e : E) (hok : ok s e)
    (hs : next s e = some s') : Reachable next ok s₀ s' := by
  obtain ⟨past, htr⟩ := h
  exact ⟨s :: past, .step e htr hok hs⟩

/-- What `run` computes is reached by the run of these events, if they are permitted everywhere. -/
theorem Reachable.run_of_forall (h : Reachable next ok s₀ s) {es : List E}
    (hok : ∀ e ∈ es, ∀ s, ok s e) (hr : Lib.run next s es = some s') :
    Reachable next ok s₀ s' := by
  induction es generalizing s with
  | nil =>
    cases hr
    exact h
  | cons e es ih =>
    obtain ⟨s₁, hs, hr⟩ := Option.bind_eq_some_iff.1 hr
    exact ih (h.step e (hok e List.mem_cons_self s) hs)
      (fun e' he' => hok e' (List.mem_cons_of_mem _ he')) hr

theorem Reachable.run (h : Reachable next anyStep s₀ s) {es : List E}
    (hr : Lib.run next s es = some s') : Reachable next anyStep s₀ s' :=
  h.run_of_forall (fun _ _ _ => trivial) hr

/-- The same for a run of permitted steps. -/
theorem Reachable.run_guarded [∀ s e, Decidable (ok s e)] (h : Reachable next ok s₀ s) {es : List E}
    (hr : Lib.run (guarded next ok) s es = some s') : Reachable next ok s₀ s' := by
  induction es generalizing s with
  | nil =>
    cases hr
    exact h
  | cons e es ih =>
    obtain ⟨s₁, hs, hr⟩ := Option.bind_eq_some_iff.1 hr
    unfold guarded at hs
    split at hs
    · rename_i hok
      exact ih (h.step e hok hs) hr
    · cases hs

/-- A run of permitted steps is a run. -/
theorem run_of_guarded [∀ s e, Decidable (ok s e)] {es : List E}
    (hr : run (guarded next ok) s es = some s') : run next s es = some s' := by
  induction es generalizing s with
  | nil => exact hr
  | cons e es ih =>
    obtain ⟨s₁, hs, hr⟩ := Option.bind_eq_some_iff.1 hr
    unfold guarded at hs
    split_ifs at hs
    exact Option.bind_eq_some_iff.2 ⟨s₁, hs, ih hr⟩

theorem Reachable.trans {s'' : S} (h : Reachable next ok s s') (h' : Reachable next ok s' s'') :
    Reachable next ok s s'' :=
  Reachable.invariant (P := Reachable next ok s) h (fun _ e _ _ hi hok hs => hi.step e hok hs) h'

/-- **The variant rule.**  A goal can be reached when, as long as it is not, something can be done that
lowers a measure. -/
theorem Reachable.exists_goal {I G : S → Prop} (μ : S → ℕ)
    (hcycle : ∀ s, I s → ¬ G s → ∃ s', Reachable next ok s s' ∧ I s' ∧ μ s' < μ s) {s : S}
    (hs : I s) : ∃ s', Reachable next ok s s' ∧ I s' ∧ G s' := by
  induction hμ : μ s using Nat.strong_induction_on generalizing s with
  | _ m ih =>
    by_cases hG : G s
    · exact ⟨s, .init, hs, hG⟩
    · obtain ⟨s₁, hr₁, hs₁, hlt⟩ := hcycle s hs hG
      obtain ⟨s₂, hr₂, hs₂, hG₂⟩ := ih (μ s₁) (hμ ▸ hlt) hs₁ rfl
      exact ⟨s₂, hr₁.trans hr₂, hs₂, hG₂⟩

/-- The state of a loop that also keeps a record of what it does. -/
lemma foldl_fst {α β γ : Type*} (f : α → γ → α) (g : α × β → γ → β) (l : List γ) (p : α × β) :
    (l.foldl (fun p c => (f p.1 c, g p c)) p).1 = l.foldl f p.1 :=
  (List.foldl_hom Prod.fst fun _ _ => rfl).symm

end RaftLabs.Lib
