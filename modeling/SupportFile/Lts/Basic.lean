/-!
This module contains labelled transition systems, the rules for invariants of everything they can
reach, their restriction to the steps that meet a condition, and what holds all along one run.
-/

structure Lts (σ : Type u) (α : Type v) where
  init : σ → Prop
  step : σ → α → σ → Prop

namespace Lts

variable {σ : Type u} {α : Type v}

inductive Reachable (M : Lts σ α) : σ → Prop where
  | init : M.init s → Reachable M s
  | step : Reachable M s → M.step s a s' → Reachable M s'

def ofFun (init : σ → Prop) (next : σ → α → Option σ) : Lts σ α where
  init := init
  step s a s' := next s a = some s'

def restrict (M : Lts σ α) (G : σ → α → Prop) : Lts σ α where
  init := M.init
  step s a s' := M.step s a s' ∧ G s a

/--
The proof obligations of an invariant. `K` is what is already known of all reachable states.
-/
structure Inductive (M : Lts σ α) (K I : σ → Prop) : Prop where
  init : ∀ {s}, M.init s → I s
  step : ∀ {s a s'}, K s → I s → M.step s a s' → I s'

variable {M : Lts σ α}

theorem Inductive.reachable {K I : σ → Prop} (h : Inductive M K I)
    (hK : ∀ {s}, M.Reachable s → K s) {s : σ} (hs : M.Reachable s)
    : I s := by
  induction hs with
  | init hinit => exact h.init hinit
  | step hreach hstep ih => exact h.step (hK hreach) ih hstep

theorem Reachable.of_restrict {G : σ → α → Prop} {s : σ} (hs : (M.restrict G).Reachable s)
    : M.Reachable s := by
  induction hs with
  | init hinit => exact .init hinit
  | step _ hstep ih => exact .step ih hstep.left

def exec (next : σ → α → Option σ) (s : σ) (as : List α) : Option σ :=
  match as with
  | [] => some s
  | a :: as => (next s a).bind (fun s => exec next s as)

theorem reachable_of_exec {init : σ → Prop} {next : σ → α → Option σ} (as : List α) {s s' : σ}
    (hs : (ofFun init next).Reachable s) (h : exec next s as = some s')
    : (ofFun init next).Reachable s' := by
  induction as generalizing s with
  | nil =>
    rw [exec, Option.some.injEq] at h
    rw [← h]
    exact hs
  | cons a as ih =>
    rw [exec, Option.bind_eq_some_iff] at h
    rcases h with ⟨s1, hstep, h⟩
    apply ih (.step hs hstep) h

theorem reachable_restrict_of_exec {init : σ → Prop} {next : σ → α → Option σ}
    {G : σ → α → Prop} [∀ s a, Decidable (G s a)] (as : List α) {s s' : σ}
    (hs : ((ofFun init next).restrict G).Reachable s)
    (h : exec (fun s a => if G s a then next s a else none) s as = some s')
    : ((ofFun init next).restrict G).Reachable s' := by
  induction as generalizing s with
  | nil =>
    rw [exec, Option.some.injEq] at h
    rw [← h]
    exact hs
  | cons a as ih =>
    rw [exec, Option.bind_eq_some_iff] at h
    rcases h with ⟨s1, hstep, h⟩
    split at hstep
    . next hG => exact ih (.step hs ⟨hstep, hG⟩) h
    . contradiction

variable {next : σ → α → Option σ}

/-- `P` holds in every state that the run `as` goes through, the first one included. -/
def Always (next : σ → α → Option σ) (P : σ → Prop) (s : σ) (as : List α) : Prop :=
  ∀ before, before <+: as → ∀ s', exec next s before = some s' → P s'

def EachStep (next : σ → α → Option σ) (G : σ → α → Prop) (s : σ) (as : List α) : Prop :=
  ∀ before a, before ++ [a] <+: as → ∀ s' s'', exec next s before = some s' →
    next s' a = some s'' → G s' a

theorem exec_cons_eq_some_iff {s s' : σ} {a : α} {as : List α}
    : exec next s (a :: as) = some s' ↔ ∃ s1, next s a = some s1 ∧ exec next s1 as = some s' := by
  rw [exec, Option.bind_eq_some_iff]

theorem always_cons_iff {P : σ → Prop} {s : σ} {a : α} {as : List α}
    : Always next P s (a :: as) ↔ P s ∧ ∀ s', next s a = some s' → Always next P s' as := by
  constructor
  . intro h
    constructor
    . exact h [] List.nil_prefix s rfl
    . intro s1 hstep before hpre s' hexec
      apply h (a :: before) (List.cons_prefix_cons.mpr ⟨rfl, hpre⟩)
      exact exec_cons_eq_some_iff.mpr ⟨s1, hstep, hexec⟩
  . rintro ⟨hs, h⟩ before hpre s' hexec
    rcases List.prefix_cons_iff.mp hpre with rfl | ⟨before, rfl, hrest⟩
    . rw [exec, Option.some.injEq] at hexec
      rwa [← hexec]
    . rcases exec_cons_eq_some_iff.mp hexec with ⟨s1, hstep, hexec⟩
      exact h s1 hstep before hrest s' hexec

theorem eachStep_cons_iff {G : σ → α → Prop} {s : σ} {a : α} {as : List α}
    : EachStep next G s (a :: as)
        ↔
      ∀ s', next s a = some s' → G s a ∧ EachStep next G s' as := by
  constructor
  . intro h s1 hstep
    constructor
    . exact h [] a (by simp) s s1 rfl hstep
    . intro before a' hpre s' s'' hexec
      apply h (a :: before) a' (List.cons_prefix_cons.mpr ⟨rfl, hpre⟩)
      exact exec_cons_eq_some_iff.mpr ⟨s1, hstep, hexec⟩
  . intro h before a' hpre s' s'' hexec hstep'
    cases before with
    | nil =>
      rw [List.nil_append, List.cons_prefix_cons] at hpre
      rw [exec, Option.some.injEq] at hexec
      rw [hpre.left]
      rw [hpre.left] at hstep'
      rw [← hexec] at hstep' ⊢
      exact (h s'' hstep').left
    | cons a1 before =>
      rw [List.cons_append, List.cons_prefix_cons] at hpre
      rcases hpre with ⟨rfl, hpre⟩
      rcases exec_cons_eq_some_iff.mp hexec with ⟨s1, hstep, hexec⟩
      exact (h s1 hstep).right before a' hpre s' s'' hexec hstep'

/--
If every step out of a state with `P` keeps it exactly when the step meets `G`, then the runs with
`P` all along are those all of whose steps meet `G`.
-/
theorem always_iff_eachStep {P : σ → Prop} {G : σ → α → Prop}
    (hstep : ∀ {s a s'}, P s → next s a = some s' → (P s' ↔ G s a)) (as : List α) {s : σ} (hs : P s)
    : Always next P s as ↔ EachStep next G s as := by
  induction as generalizing s with
  | nil =>
    constructor
    . intro _ before a hpre
      simp at hpre
    . intro _ before hpre s' hexec
      rw [List.prefix_nil.mp hpre, exec, Option.some.injEq] at hexec
      rwa [← hexec]
  | cons a as ih =>
    rw [always_cons_iff, eachStep_cons_iff]
    constructor
    . rintro ⟨_, h⟩ s' hnext
      have hs' : P s' := h s' hnext [] List.nil_prefix s' rfl
      exact ⟨(hstep hs hnext).mp hs', (ih hs').mp (h s' hnext)⟩
    . intro h
      refine ⟨hs, ?_⟩
      intro s' hnext
      rcases h s' hnext with ⟨hG, hsteps⟩
      exact (ih ((hstep hs hnext).mpr hG)).mpr hsteps

/-- A rank that no step increases and every own step decreases bounds the own steps of a run. -/
theorem rank_of_exec {P : σ → Prop} {G : α → Prop} {own : α → Bool} {rank : σ → Nat}
    (hstep : ∀ s a s', P s → G a → next s a = some s' → P s' ∧ (own a).toNat + rank s' ≤ rank s)
    (as : List α) (hG : ∀ a ∈ as, G a) {s s' : σ} (hs : P s) (h : exec next s as = some s')
    : as.countP own + rank s' ≤ rank s := by
  induction as generalizing s with
  | nil =>
    rw [exec, Option.some.injEq] at h
    simp [h]
  | cons a as ih =>
    rw [List.forall_mem_cons] at hG
    rcases exec_cons_eq_some_iff.mp h with ⟨s1, hnext, hexec⟩
    have hrank := hstep s a s1 hs hG.left hnext
    have hrest := ih hG.right hrank.left hexec
    have hcount : (a :: as).countP own = (own a).toNat + as.countP own := by
      rw [List.countP_cons, Nat.add_comm]
      cases own a with
      | false => rfl
      | true => rfl
    have hle := hrank.right
    omega

end Lts
