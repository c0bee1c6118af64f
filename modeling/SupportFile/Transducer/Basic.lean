/-!
This module contains machines that answer every input, unless they do not come to an end on it: their
runs, what a run leaves of its last inputs, and when it comes to an end.
-/

namespace Transducer

variable {σ : Type u} {ι : Type v} {ω : Type w}

def run (step : σ → ι → Option (σ × ω)) (s : σ) (inputs : List ι) : Option (σ × List ω) :=
  match inputs with
  | [] => some (s, [])
  | input :: inputs =>
    match step s input with
    | none => none
    | some (s, output) => (run step s inputs).map (fun (s, outputs) => (s, output :: outputs))

theorem run_cons_eq_some_iff {step : σ → ι → Option (σ × ω)} {s s' : σ} {input : ι} {inputs : List ι}
    {outputs : List ω}
    : run step s (input :: inputs) = some (s', outputs)
        ↔
      ∃ s₁ output outputs', step s input = some (s₁, output)
        ∧ run step s₁ inputs = some (s', outputs') ∧ outputs = output :: outputs' := by
  rw [run]
  cases hstep : step s input with
  | none => simp
  | some result =>
    rcases result with ⟨s₁, output⟩
    simp only [Option.map_eq_some_iff, Prod.exists, Prod.mk.injEq, Option.some.injEq]
    constructor
    . rintro ⟨s₂, outputs', hrun, rfl, rfl⟩
      exact ⟨s₁, output, outputs', ⟨rfl, rfl⟩, hrun, rfl⟩
    . rintro ⟨_, _, outputs', ⟨rfl, rfl⟩, hrun, rfl⟩
      exact ⟨s', outputs', hrun, rfl, rfl⟩

/--
The part `f` of the state is as the last of the inputs that touch it has left it, and the answer to
this input stands at its place among the outputs.
-/
theorem run_latest {step : σ → ι → Option (σ × ω)} {s s' : σ} {inputs : List ι} {outputs : List ω}
    (h : run step s inputs = some (s', outputs)) {f : σ → τ} {touches : ι → Bool}
    (hframe : ∀ s s' input output, step s input = some (s', output) → touches input = false →
      f s' = f s)
    : ((∀ input ∈ inputs, touches input = false) ∧ f s' = f s)
        ∨
      ∃ before input after s₁ s₂ output,
        inputs = before ++ input :: after
          ∧ touches input = true
          ∧ (∀ input ∈ after, touches input = false)
          ∧ step s₁ input = some (s₂, output)
          ∧ outputs[before.length]? = some output
          ∧ f s' = f s₂ := by
  induction inputs generalizing s outputs with
  | nil =>
    simp only [run, Option.some.injEq, Prod.mk.injEq] at h
    rcases h with ⟨rfl, rfl⟩
    exact .inl ⟨by simp, rfl⟩
  | cons input inputs ih =>
    rcases run_cons_eq_some_iff.mp h with ⟨s₁, output, outputs, hstep, hrun, rfl⟩
    cases ih hrun with
    | inl hnone =>
      cases htouches : touches input with
      | false =>
        refine .inl ⟨?_, hnone.right.trans (hframe s s₁ input output hstep htouches)⟩
        simpa [htouches] using hnone.left
      | true =>
        exact .inr ⟨[], input, inputs, s, s₁, output, rfl, htouches, hnone.left, hstep, rfl,
          hnone.right⟩
    | inr hlatest =>
      rcases hlatest with ⟨before, input', after, s₂, s₃, output', rfl, hlatest⟩
      exact .inr ⟨input :: before, input', after, s₂, s₃, output', rfl, hlatest⟩

theorem run_isSome {step : σ → ι → Option (σ × ω)} {inputs : List ι}
    (h : ∀ input ∈ inputs, ∀ s, (step s input).isSome) (s : σ)
    : (run step s inputs).isSome := by
  induction inputs generalizing s with
  | nil => rfl
  | cons input inputs ih =>
    rw [List.forall_mem_cons] at h
    rcases Option.isSome_iff_exists.mp (h.left s) with ⟨⟨s₁, output⟩, hstep⟩
    rw [run, hstep]
    simpa using ih h.right s₁

theorem step_of_run {step : σ → ι → Option (σ × ω)} {s : σ} {inputs : List ι}
    (h : (run step s inputs).isSome)
    : ∀ input ∈ inputs, ∃ s, (step s input).isSome := by
  induction inputs generalizing s with
  | nil => simp
  | cons input inputs ih =>
    rcases Option.isSome_iff_exists.mp h with ⟨⟨s', outputs⟩, hrun⟩
    rcases run_cons_eq_some_iff.mp hrun with ⟨s₁, output, outputs', hstep, hrest, rfl⟩
    rw [List.forall_mem_cons]
    exact ⟨⟨s, by simp [hstep]⟩, ih (by rw [hrest]; rfl)⟩

/-- A bound on what each step takes is a bound on what they all take. -/
theorem exists_run_iff {step : Nat → σ → ι → Option (σ × ω)} {ends : ι → Prop}
    (hsound : ∀ fuel s input, (step fuel s input).isSome → ends input)
    (hcomplete : ∀ input, ends input → ∃ bound, ∀ fuel, bound ≤ fuel → ∀ s,
      (step fuel s input).isSome)
    (s : σ) (inputs : List ι)
    : (∃ fuel, (run (step fuel) s inputs).isSome) ↔ ∀ input ∈ inputs, ends input := by
  constructor
  . rintro ⟨fuel, h⟩ input hinput
    rcases step_of_run h input hinput with ⟨s, hstep⟩
    exact hsound fuel s input hstep
  . intro h
    have hbound : ∃ bound, ∀ fuel, bound ≤ fuel → ∀ input ∈ inputs, ∀ s,
        (step fuel s input).isSome := by
      induction inputs with
      | nil => exact ⟨0, by simp⟩
      | cons input inputs ih =>
        rw [List.forall_mem_cons] at h
        rcases hcomplete input h.left with ⟨bound, hbound⟩
        rcases ih h.right with ⟨bound', hbound'⟩
        refine ⟨max bound bound', ?_⟩
        intro fuel hfuel
        rw [List.forall_mem_cons]
        exact ⟨hbound fuel (by omega), hbound' fuel (by omega)⟩
    rcases hbound with ⟨bound, hbound⟩
    exact ⟨bound, run_isSome (hbound bound (Nat.le_refl bound)) s⟩

end Transducer
