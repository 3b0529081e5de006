import Mathlib.Data.Option.Basic

/-! Runs of a machine.

A machine is a partial step function: `step s e` is the state after event `e`, or
nothing where `e` cannot happen. A run takes a list of events. What every step
preserves holds after every run (`run_invariant`); what is preserved only by steps
that meet a condition holds after every run all of whose steps meet it
(`run_invariant_of`). Where a step keeps a property exactly under a condition, so does
a run (`run_iff`, and `allStates_iff` for a property that a later step may restore). -/
namespace TwilightLine.Run

variable {S E : Type*} (step : S → E → Option S)

/-- The state after a list of events, if each of them could happen in its turn. -/
def run (s : S) : List E → Option S
  | [] => some s
  | e :: rest => (step s e).bind (run · rest)

/-- Every event of the run meets the condition in the state it happens in. -/
def AllSteps (C : S → E → Prop) (s : S) : List E → Prop
  | [] => True
  | e :: rest => C s e ∧ ∀ s', step s e = some s' → AllSteps C s' rest

/-- The property holds before the run and after each of its steps. -/
def AllStates (P : S → Prop) (s : S) : List E → Prop
  | [] => P s
  | e :: rest => P s ∧ ∀ s', step s e = some s' → AllStates P s' rest

/-- What is observed of the steps of a run, oldest first. -/
def trace {O : Type*} (obs : S → E → S → List O) (s : S) : List E → List O
  | [] => []
  | e :: rest =>
    match step s e with
    | none => []
    | some s' => obs s e s' ++ trace obs s' rest

variable {step} {s t : S} {es fs : List E}

theorem run_cons {e : E} (h : run step s (e :: es) = some t) :
    ∃ s', step s e = some s' ∧ run step s' es = some t := by
  simpa [run, Option.bind_eq_some_iff] using h

theorem run_append (h : run step s (es ++ fs) = some t) :
    ∃ s', run step s es = some s' ∧ run step s' fs = some t := by
  induction es generalizing s with
  | nil => exact ⟨s, rfl, h⟩
  | cons e rest ih =>
    obtain ⟨s₁, hstep, hrest⟩ := run_cons h
    obtain ⟨s', h₁, h₂⟩ := ih hrest
    exact ⟨s', by simp [run, hstep, h₁], h₂⟩

theorem run_concat {e : E} {u : S} (h : run step s es = some t) (he : step t e = some u) :
    run step s (es ++ [e]) = some u := by
  induction es generalizing s with
  | nil =>
    cases h
    simp [run, he]
  | cons e' rest ih =>
    obtain ⟨s', hstep, hrest⟩ := run_cons h
    simp [run, hstep, ih hrest]

/-- **The invariant rule under a condition on the steps.** -/
theorem run_invariant_of {C : S → E → Prop} (Inv : S → Prop)
    (hstep : ∀ s e s', Inv s → C s e → step s e = some s' → Inv s')
    (h : run step s es = some t) (hC : AllSteps step C s es) (hs : Inv s) : Inv t := by
  induction es generalizing s with
  | nil =>
    cases h
    exact hs
  | cons e rest ih =>
    obtain ⟨s', he, hrest⟩ := run_cons h
    exact ih hrest (hC.2 s' he) (hstep s e s' hs hC.1 he)

/-- **The invariant rule.** -/
theorem run_invariant (Inv : S → Prop) (hstep : ∀ s e s', Inv s → step s e = some s' → Inv s')
    (h : run step s es = some t) (hs : Inv s) : Inv t := by
  induction es generalizing s with
  | nil =>
    cases h
    exact hs
  | cons e rest ih =>
    obtain ⟨s', he, hrest⟩ := run_cons h
    exact ih hrest (hstep s e s' hs he)

/-- **The rule for steps that cannot fail.** -/
theorem run_progress {C : S → E → Prop} (Inv : S → Prop)
    (hstep : ∀ s e, Inv s → C s e → ∃ s', step s e = some s' ∧ Inv s') (hC : AllSteps step C s es) (hs : Inv s) :
    ∃ t, run step s es = some t ∧ Inv t := by
  induction es generalizing s with
  | nil => exact ⟨s, rfl, hs⟩
  | cons e rest ih =>
    obtain ⟨s', he, hs'⟩ := hstep s e hs hC.1
    obtain ⟨t, hrun, ht⟩ := ih (hC.2 s' he) hs'
    exact ⟨t, by rw [run, he, Option.bind_some, hrun], ht⟩

/-- **The invariant rule for what was observed so far.** -/
theorem run_trace {O : Type*} {obs : S → E → S → List O} {C : S → E → Prop} (Inv : S → List O → Prop)
    (hstep : ∀ s e s' seen, Inv s seen → C s e → step s e = some s' → Inv s' (seen ++ obs s e s'))
    (h : run step s es = some t) (hC : AllSteps step C s es) {seen : List O} (hs : Inv s seen) :
    Inv t (seen ++ trace step obs s es) := by
  induction es generalizing s seen with
  | nil =>
    cases h
    rwa [trace, List.append_nil]
  | cons e rest ih =>
    obtain ⟨s', he, hrest⟩ := run_cons h
    rw [trace, he, ← List.append_assoc]
    exact ih hrest (hC.2 s' he) (hstep s e s' seen hs hC.1 he)

theorem trace_append {O : Type*} {obs : S → E → S → List O} (h : run step s es = some t) :
    trace step obs s (es ++ fs) = trace step obs s es ++ trace step obs t fs := by
  induction es generalizing s with
  | nil =>
    cases h
    rfl
  | cons e rest ih =>
    obtain ⟨s', he, hrest⟩ := run_cons h
    rw [List.cons_append, trace, trace, he, List.append_assoc, ← ih hrest]

theorem run_join {u : S} (h : run step s es = some t) (h' : run step t fs = some u) : run step s (es ++ fs) = some u := by
  induction es generalizing s with
  | nil =>
    cases h
    exact h'
  | cons e rest ih =>
    obtain ⟨s', he, hrest⟩ := run_cons h
    rw [List.cons_append, run, he, Option.bind_some, ih hrest]

/-- A condition on the events alone holds of all steps. -/
theorem allSteps_of_mem {C : E → Prop} (h : ∀ e ∈ es, C e) : AllSteps step (fun _ => C) s es := by
  induction es generalizing s with
  | nil => trivial
  | cons e rest ih =>
    exact ⟨h e (List.mem_cons_self ..), fun _ _ => ih fun e he => h e (List.mem_cons_of_mem _ he)⟩

theorem AllSteps.and {C D : S → E → Prop} (hC : AllSteps step C s es) (hD : AllSteps step D s es) :
    AllSteps step (fun s e => C s e ∧ D s e) s es := by
  induction es generalizing s with
  | nil => trivial
  | cons e rest ih => exact ⟨⟨hC.1, hD.1⟩, fun s' he => ih (hC.2 s' he) (hD.2 s' he)⟩

theorem step_iff {e : E} {s' : S} (he : step s e = some s') {Q : S → Prop} :
    (∀ u, step s e = some u → Q u) ↔ Q s' := by
  constructor
  · exact fun hall => hall s' he
  · intro hQ u hu
    rw [he, Option.some.injEq] at hu
    exact hu ▸ hQ

/-- **The rule for a property that a step keeps exactly under a condition.** -/
theorem run_iff {C : S → E → Prop} {Inv P : S → Prop} (hinv : ∀ s e s', Inv s → step s e = some s' → Inv s')
    (hiff : ∀ s e s', Inv s → step s e = some s' → (P s' ↔ P s ∧ C s e))
    (h : run step s es = some t) (hs : Inv s) : P t ↔ P s ∧ AllSteps step C s es := by
  induction es generalizing s with
  | nil =>
    cases h
    exact ⟨fun hP => ⟨hP, trivial⟩, And.left⟩
  | cons e rest ih =>
    obtain ⟨s', he, hrest⟩ := run_cons h
    rw [ih hrest (hinv s e s' hs he), hiff s e s' hs he, and_assoc, AllSteps, step_iff he]

theorem AllStates.head {P : S → Prop} (h : AllStates step P s es) : P s := by
  cases es with
  | nil => exact h
  | cons => exact h.1

/-- **The rule for a property that a step establishes exactly under a condition.** -/
theorem allStates_iff {C : S → E → Prop} {Inv P : S → Prop}
    (hinv : ∀ s e s', Inv s → step s e = some s' → Inv s')
    (hiff : ∀ s e s', Inv s → P s → step s e = some s' → (P s' ↔ C s e))
    (h : run step s es = some t) (hs : Inv s) (hP : P s) : AllStates step P s es ↔ AllSteps step C s es := by
  induction es generalizing s with
  | nil => exact ⟨fun _ => trivial, fun _ => hP⟩
  | cons e rest ih =>
    obtain ⟨s', he, hrest⟩ := run_cons h
    rw [AllStates, AllSteps, step_iff he, step_iff he, and_iff_right hP, ← hiff s e s' hs hP he]
    constructor
    · exact fun hall => ⟨hall.head, (ih hrest (hinv s e s' hs he) hall.head).mp hall⟩
    · exact fun hall => (ih hrest (hinv s e s' hs he) hall.1).mpr hall.2

/-- What holds in all states holds before and after every step. -/
theorem AllStates.allSteps {P : S → Prop} (h : AllStates step P s es) :
    AllSteps step (fun s e => P s ∧ ∀ s', step s e = some s' → P s') s es := by
  induction es generalizing s with
  | nil => trivial
  | cons e rest ih => exact ⟨⟨h.1, fun s' he => (h.2 s' he).head⟩, fun s' he => ih (h.2 s' he)⟩

theorem AllStates.last {P : S → Prop} (h : AllStates step P s es) (hrun : run step s es = some t) : P t := by
  induction es generalizing s with
  | nil =>
    cases hrun
    exact h
  | cons e rest ih =>
    obtain ⟨s', he, hrest⟩ := run_cons hrun
    exact ih (h.2 s' he) hrest

instance decidableAllStates {P : S → Prop} [DecidablePred P] (s : S) (es : List E) : Decidable (AllStates step P s es) :=
  match es with
  | [] => inferInstanceAs (Decidable (P s))
  | e :: rest =>
    match h : step s e with
    | none => decidable_of_iff (P s) ⟨fun hP => ⟨hP, fun s' hs => by simp [h] at hs⟩, And.left⟩
    | some s' =>
      have := decidableAllStates (P := P) s' rest
      decidable_of_iff (P s ∧ AllStates step P s' rest)
        ⟨fun hP => ⟨hP.1, fun t ht => by rw [h, Option.some.injEq] at ht; exact ht ▸ hP.2⟩,
          fun hP => ⟨hP.1, hP.2 s' h⟩⟩

instance decidableAllSteps {C : S → E → Prop} [∀ s e, Decidable (C s e)] (s : S) (es : List E) :
    Decidable (AllSteps step C s es) :=
  match es with
  | [] => isTrue trivial
  | e :: rest =>
    match h : step s e with
    | none => decidable_of_iff (C s e) ⟨fun hc => ⟨hc, fun s' hs => by simp [h] at hs⟩, And.left⟩
    | some s' =>
      have := decidableAllSteps (C := C) s' rest
      decidable_of_iff (C s e ∧ AllSteps step C s' rest)
        ⟨fun hc => ⟨hc.1, fun t ht => by rw [h, Option.some.injEq] at ht; exact ht ▸ hc.2⟩,
          fun hc => ⟨hc.1, hc.2 s' h⟩⟩

end TwilightLine.Run
