import Mathlib

/-!
# Runs of event systems

A system is a partial step function on states: `step s e = none` when the event `e` is not enabled
in `s`. Invariants are carried along a run by `Along.of_step`, and a law that holds as long as
every step meets a condition is made exact by `along_iff_meets` (at every state) and by
`meets_or_stuck` (at the last state). `run_refines` takes the runs of one system to those of
another.
-/

namespace EventSystem

variable {σ ε : Type*} (step : σ → ε → Option σ)

/-- The state after the events `es`, if each of them is enabled in turn. -/
def run : σ → List ε → Option σ
  | s, [] => some s
  | s, e :: es => (step s e).bind fun s' => run s' es

/-- `A` holds in every state the run passes through, the first one included. -/
def Along (A : σ → Prop) : σ → List ε → Prop
  | s, [] => A s
  | s, e :: es => A s ∧ ∀ s', step s e = some s' → Along A s' es

/-- Every step the run takes meets `C`. -/
def Meets (C : σ → ε → Prop) : σ → List ε → Prop
  | _, [] => True
  | s, e :: es => ∀ s', step s e = some s' → C s e ∧ Meets C s' es

variable {step}

theorem run_cons {s s' : σ} {e : ε} {es : List ε} :
    run step s (e :: es) = some s' ↔ ∃ s₁, step s e = some s₁ ∧ run step s₁ es = some s' := by
  simp [run, Option.bind_eq_some_iff]

theorem run_append (s : σ) (es fs : List ε) :
    run step s (es ++ fs) = (run step s es).bind fun s' => run step s' fs := by
  induction es generalizing s with
  | nil => rfl
  | cons e es ih =>
    simp only [List.cons_append, run, Option.bind_assoc]
    exact congrArg _ (funext ih)

theorem Along.head {A : σ → Prop} {s : σ} {es : List ε} (h : Along step A s es) : A s := by
  cases es with
  | nil => exact h
  | cons e es => exact h.1

theorem Along.last {A : σ → Prop} {es : List ε} :
    ∀ {s s' : σ}, Along step A s es → run step s es = some s' → A s' := by
  induction es with
  | nil =>
    intro s s' h hrun
    cases hrun
    exact h
  | cons e es ih =>
    intro s s' h hrun
    obtain ⟨s₁, hs, hrun⟩ := run_cons.mp hrun
    exact ih (h.2 s₁ hs) hrun

theorem Along.mono {A B : σ → Prop} (hAB : ∀ s, A s → B s) {es : List ε} :
    ∀ {s : σ}, Along step A s es → Along step B s es := by
  induction es with
  | nil => intro s h; exact hAB s h
  | cons e es ih => intro s h; exact ⟨hAB s h.1, fun s' hs => ih (h.2 s' hs)⟩

theorem Along.and {A B : σ → Prop} {es : List ε} :
    ∀ {s : σ}, Along step A s es → Along step B s es → Along step (fun t => A t ∧ B t) s es := by
  induction es with
  | nil => intro s hA hB; exact ⟨hA, hB⟩
  | cons e es ih =>
    intro s hA hB
    exact ⟨⟨hA.1, hB.1⟩, fun s' hs => ih (hA.2 s' hs) (hB.2 s' hs)⟩

theorem Along.append {A : σ → Prop} {es fs : List ε} :
    ∀ {s s' : σ}, Along step A s (es ++ fs) → run step s es = some s' → Along step A s' fs := by
  induction es with
  | nil =>
    intro s s' h hrun
    cases hrun
    exact h
  | cons e es ih =>
    intro s s' h hrun
    obtain ⟨s₁, hs, hrun⟩ := run_cons.mp hrun
    exact ih (h.2 s₁ hs) hrun

theorem Along.of_append {A : σ → Prop} {es fs : List ε} :
    ∀ {s : σ}, Along step A s (es ++ fs) → Along step A s es := by
  induction es with
  | nil => intro s h; exact h.head
  | cons e es ih => intro s h; exact ⟨h.1, fun s' hs => ih (h.2 s' hs)⟩

theorem Meets.append {C : σ → ε → Prop} {es fs : List ε} :
    ∀ {s s' : σ}, Meets step C s (es ++ fs) → run step s es = some s' → Meets step C s' fs := by
  induction es with
  | nil =>
    intro s s' h hrun
    cases hrun
    exact h
  | cons e es ih =>
    intro s s' h hrun
    obtain ⟨s₁, hs, hrun⟩ := run_cons.mp hrun
    exact ih (h s₁ hs).2 hrun

/-- **Invariant rule.** What one step preserves, under an assumption `A` on the states the run
passes through and a condition `C` on its steps, the whole run preserves. -/
theorem Along.of_step {A I : σ → Prop} {C : σ → ε → Prop}
    (hstep : ∀ s e s', A s → A s' → C s e → I s → step s e = some s' → I s') {es : List ε} :
    ∀ {s : σ}, I s → Along step A s es → Meets step C s es → Along step I s es := by
  induction es with
  | nil => intro s hI _ _; exact hI
  | cons e es ih =>
    intro s hI hA hC
    refine ⟨hI, fun s' hs => ?_⟩
    have hA' := hA.2 s' hs
    exact ih (hstep s e s' hA.1 hA'.head (hC s' hs).1 hI hs) hA' (hC s' hs).2

/-- What a step from an invariant state does, under a condition on the steps, every step of a run
does. -/
theorem Meets.of_step {I : σ → Prop} {C P : σ → ε → Prop}
    (hstep : ∀ s e s', I s → C s e → step s e = some s' → I s' ∧ P s e) {es : List ε} :
    ∀ {s : σ}, I s → Meets step C s es → Meets step P s es := by
  induction es with
  | nil => exact fun _ _ => trivial
  | cons e es ih =>
    intro s hI hC s' hs
    obtain ⟨hCe, hC'⟩ := hC s' hs
    obtain ⟨hI', hP⟩ := hstep s e s' hI hCe hs
    exact ⟨hP, ih hI' hC'⟩

theorem along_true (s : σ) (es : List ε) : Along step (fun _ => True) s es := by
  induction es generalizing s with
  | nil => trivial
  | cons e es ih => exact ⟨trivial, fun s' _ => ih s'⟩

theorem meets_true (s : σ) (es : List ε) : Meets step (fun _ _ => True) s es := by
  induction es generalizing s with
  | nil => trivial
  | cons e es ih => exact fun s' _ => ⟨trivial, ih s'⟩

theorem meets_of_forall {C : ε → Prop} {es : List ε} (h : ∀ e ∈ es, C e) (s : σ) :
    Meets step (fun _ e => C e) s es := by
  induction es generalizing s with
  | nil => trivial
  | cons e es ih =>
    intro s' _
    exact ⟨h e List.mem_cons_self, ih (fun e' he' => h e' (List.mem_cons_of_mem _ he')) s'⟩

theorem Along.of_preserved {I : σ → Prop} (hstep : ∀ s e s', I s → step s e = some s' → I s')
    {s : σ} (hI : I s) (es : List ε) : Along step I s es :=
  Along.of_step (fun s e s' _ _ _ => hstep s e s') hI (along_true s es) (meets_true s es)

theorem along_le_last {f : σ → ℕ} (hstep : ∀ s e s', step s e = some s' → f s ≤ f s')
    {es : List ε} :
    ∀ {s s' : σ}, run step s es = some s' → Along step (fun t => f t ≤ f s') s es := by
  induction es with
  | nil =>
    intro s s' hrun
    cases hrun
    exact le_rfl
  | cons e es ih =>
    intro s s' hrun
    obtain ⟨s₁, hs, hrun⟩ := run_cons.mp hrun
    have hrest := ih hrun
    refine ⟨(hstep s e s₁ hs).trans hrest.head, fun s₂ hs₂ => ?_⟩
    rw [hs] at hs₂
    cases hs₂
    exact hrest

/-- **Ranking rule.** A measure that no step raises, and that every step with `P` lowers, bounds the
number of steps with `P` in a run. -/
theorem countP_add_le_of_step {A I : σ → Prop} {C : σ → ε → Prop} {P : ε → Bool} {f : σ → ℕ}
    (hstep : ∀ s e s', A s → A s' → C s e → I s → step s e = some s' →
      I s' ∧ f s' + (if P e then 1 else 0) ≤ f s) {es : List ε} :
    ∀ {s s' : σ}, I s → Along step A s es → Meets step C s es → run step s es = some s' →
      es.countP P + f s' ≤ f s := by
  induction es with
  | nil =>
    intro s s' _ _ _ hrun
    cases hrun
    simp
  | cons e es ih =>
    intro s s' hI hA hC hrun
    obtain ⟨s₁, hs, hrun⟩ := run_cons.mp hrun
    have hA' := hA.2 s₁ hs
    obtain ⟨hCe, hC'⟩ := hC s₁ hs
    obtain ⟨hI', hle⟩ := hstep s e s₁ hA.1 hA'.head hCe hI hs
    have hrest := ih hI' hA' hC' hrun
    rw [List.countP_cons]
    omega

theorem length_add_le_of_step {A I : σ → Prop} {C : σ → ε → Prop} {f : σ → ℕ}
    (hstep : ∀ s e s', A s → A s' → C s e → I s → step s e = some s' → I s' ∧ f s' < f s)
    {es : List ε} {s s' : σ} (hI : I s) (hA : Along step A s es) (hC : Meets step C s es)
    (hrun : run step s es = some s') : es.length + f s' ≤ f s := by
  have h := countP_add_le_of_step (P := fun _ => true) (f := f)
    (fun s e s' hA hA' hC hI hs => hstep s e s' hA hA' hC hI hs) hI hA hC hrun
  rwa [List.countP_true] at h

/-- **Exact conditions, state by state.** If, from a good state, a step leads to a good state
exactly when it meets `C`, a run stays good exactly when all its steps meet `C`. -/
theorem along_iff_meets {J G : σ → Prop} {C : σ → ε → Prop}
    (hstep : ∀ s e s', J s → G s → step s e = some s' → J s' ∧ (G s' ↔ C s e)) {es : List ε} :
    ∀ {s : σ}, J s → G s → (Along step G s es ↔ Meets step C s es) := by
  induction es with
  | nil => intro s _ hG; exact ⟨fun _ => trivial, fun _ => hG⟩
  | cons e es ih =>
    intro s hJ hG
    constructor
    · intro h s' hs
      obtain ⟨hJ', hiff⟩ := hstep s e s' hJ hG hs
      have hG' := (h.2 s' hs).head
      exact ⟨hiff.mp hG', (ih hJ' hG').mp (h.2 s' hs)⟩
    · intro h
      refine ⟨hG, fun s' hs => ?_⟩
      obtain ⟨hJ', hiff⟩ := hstep s e s' hJ hG hs
      have hC := h s' hs
      exact (ih hJ' (hiff.mpr hC.1)).mpr hC.2

/-- **Exact conditions, at the last state.** A run whose steps all meet `C` ends in the invariant;
one with a step that does not is stuck in `B` from its first such step on. -/
theorem meets_or_stuck {I B : σ → Prop} {C : σ → ε → Prop}
    (hgood : ∀ s e s', I s → C s e → step s e = some s' → I s')
    (hbad : ∀ s e s', I s → ¬ C s e → step s e = some s' → B s')
    (hstuck : ∀ s e s', B s → step s e = some s' → B s') {es : List ε} :
    ∀ {s s' : σ}, I s → run step s es = some s' →
      (Meets step C s es ∧ I s') ∨ (¬ Meets step C s es ∧ B s') := by
  have hrest : ∀ (es : List ε) (s s' : σ), B s → run step s es = some s' → B s' := by
    intro es s s' hB hrun
    exact (Along.of_preserved hstuck hB es).last hrun
  induction es with
  | nil =>
    intro s s' hI hrun
    cases hrun
    exact Or.inl ⟨trivial, hI⟩
  | cons e es ih =>
    intro s s' hI hrun
    obtain ⟨s₁, hs, hrun⟩ := run_cons.mp hrun
    by_cases hC : C s e
    · rcases ih (hgood s e s₁ hI hC hs) hrun with ⟨hm, hI'⟩ | ⟨hm, hB⟩
      · refine Or.inl ⟨fun s₂ hs₂ => ?_, hI'⟩
        rw [hs] at hs₂
        cases hs₂
        exact ⟨hC, hm⟩
      · exact Or.inr ⟨fun h => hm (h s₁ hs).2, hB⟩
    · exact Or.inr ⟨fun h => hC (h s₁ hs).1, hrest es s₁ s' (hbad s e s₁ hI hC hs) hrun⟩

/-! ## Refinement -/

section Refinement

variable {τ δ : Type*} {step' : τ → δ → Option τ}

/-- **Refinement rule.** If every step either leaves the image of the state under `f` as it is or is
a step of the other system that meets `D`, every run is, under `f`, a run of the other system. -/
theorem run_refines {f : σ → τ} {A I : σ → Prop} {B : τ → Prop} {C : σ → ε → Prop}
    {D : τ → δ → Prop} (hAB : ∀ s, A s → B (f s))
    (hstep : ∀ s e s', A s → A s' → C s e → I s → step s e = some s' →
      I s' ∧ (f s' = f s ∨ ∃ d, step' (f s) d = some (f s') ∧ D (f s) d)) {es : List ε} :
    ∀ {s s' : σ}, I s → Along step A s es → Meets step C s es → run step s es = some s' →
      I s' ∧ ∃ ds, run step' (f s) ds = some (f s') ∧ Along step' B (f s) ds ∧
        Meets step' D (f s) ds := by
  induction es with
  | nil =>
    intro s s' hI hA _ hrun
    cases hrun
    exact ⟨hI, [], rfl, hAB s hA, trivial⟩
  | cons e es ih =>
    intro s s' hI hA hC hrun
    obtain ⟨s₁, hs, hrun⟩ := run_cons.mp hrun
    have hA' := hA.2 s₁ hs
    obtain ⟨hCe, hC'⟩ := hC s₁ hs
    obtain ⟨hI', hcase⟩ := hstep s e s₁ hA.1 hA'.head hCe hI hs
    obtain ⟨hlast, ds, hrun', hB, hD⟩ := ih hI' hA' hC' hrun
    refine ⟨hlast, ?_⟩
    rcases hcase with hsame | ⟨d, hd, hDd⟩
    · rw [hsame] at hrun' hB hD
      exact ⟨ds, hrun', hB, hD⟩
    · refine ⟨d :: ds, run_cons.mpr ⟨f s₁, hd, hrun'⟩, ⟨hAB s hA.1, fun t ht => ?_⟩, fun t ht => ?_⟩
      · rw [hd] at ht
        cases ht
        exact hB
      · rw [hd] at ht
        cases ht
        exact ⟨hDd, hD⟩

end Refinement

/-! ## Concrete runs -/

/-- What a computation says about the state a concrete run ends in. -/
theorem exists_of_check {o : Option σ} {p : σ → Prop} [DecidablePred p]
    (h : (o.any fun s => decide (p s)) = true) : ∃ s, o = some s ∧ p s := by
  obtain ⟨s, hs, hp⟩ := (Option.any_eq_true _ _).mp h
  exact ⟨s, hs, of_decide_eq_true hp⟩

instance decidableAlong (A : σ → Prop) [DecidablePred A] :
    ∀ (es : List ε) (s : σ), Decidable (Along step A s es)
  | [], s => inferInstanceAs (Decidable (A s))
  | e :: es, s =>
    match h : step s e with
    | none => decidable_of_iff (A s) ⟨fun hA => ⟨hA, fun s' hs => by rw [h] at hs; cases hs⟩,
        fun hA => hA.1⟩
    | some s' =>
      have := decidableAlong A es s'
      decidable_of_iff (A s ∧ Along step A s' es)
        ⟨fun hA => ⟨hA.1, fun s₁ hs => by rw [h] at hs; cases hs; exact hA.2⟩,
          fun hA => ⟨hA.1, hA.2 s' h⟩⟩

instance decidableMeets (C : σ → ε → Prop) [∀ s, DecidablePred (C s)] :
    ∀ (es : List ε) (s : σ), Decidable (Meets step C s es)
  | [], _ => inferInstanceAs (Decidable True)
  | e :: es, s =>
    match h : step s e with
    | none => isTrue fun s' hs => by rw [h] at hs; cases hs
    | some s' =>
      have := decidableMeets C es s'
      decidable_of_iff (C s e ∧ Meets step C s' es)
        ⟨fun hC s₁ hs => by rw [h] at hs; cases hs; exact hC, fun hC => hC s' h⟩

end EventSystem
