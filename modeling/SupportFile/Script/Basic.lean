import Mathlib.Data.List.Basic

/-!
This module contains scripts, which run commands and decide by what these print. What a script does is
the set of its runs, in which every command may print anything. It also contains the rules for scripts
that run one after the other, and for loops that try something again and again.
-/

inductive Script (γ ω α : Type) where
  | done (a : α)
  | exit
  | exec (command : γ) (next : ω → Script γ ω α)

namespace Script

variable {γ ω σ α β δ : Type}

def bind (p : Script γ ω α) (f : α → Script γ ω β) : Script γ ω β :=
  match p with
  | .done a => f a
  | .exit => .exit
  | .exec command next => .exec command (fun output => (next output).bind f)

instance : Monad (Script γ ω) where
  pure := .done
  bind := bind

def capture (command : γ) : Script γ ω ω :=
  .exec command .done

def run (command : γ) : Script γ ω Unit :=
  .exec command (fun _ => .done ())

def inOrder (ps : List (Script γ ω Unit)) : Script γ ω Unit :=
  match ps with
  | [] => .done ()
  | p :: ps => p.bind (fun _ => inOrder ps)

/-- A loop that is left as soon as the output is good enough, and with `exit` after so many attempts. -/
def retry (enough : ω → Bool) (attempt : Script γ ω ω) (left : Nat) (output : ω) : Script γ ω Unit :=
  if enough output then
    .done ()
  else
    match left with
    | 0 => .exit
    | left + 1 => attempt.bind (retry enough attempt left)

/-- The result is `none` if the script has been left with `exit`. -/
inductive Runs : Script γ ω α → List (γ × ω) → Option α → Prop where
  | done : Runs (.done a) [] (some a)
  | exit : Runs .exit [] none
  | exec : Runs (next output) events result →
      Runs (.exec command next) ((command, output) :: events) result

/-- Whatever the commands print, a run ends with `Q`. -/
def wp (p : Script γ ω α) (Q : List (γ × ω) → Option α → Prop) : Prop :=
  match p with
  | .done a => Q [] (some a)
  | .exit => Q [] none
  | .exec command next =>
    ∀ output, (next output).wp (fun events result => Q ((command, output) :: events) result)

/-- The run in a world that answers the commands. -/
def eval (world : σ → γ → σ × ω) (p : Script γ ω α) (s : σ) : σ × Option α :=
  match p with
  | .done a => (s, some a)
  | .exit => (s, none)
  | .exec command next => (next (world s command).snd).eval world (world s command).fst

def Only (P : γ → Prop) (p : Script γ ω α) : Prop :=
  ∀ events result, Runs p events result → ∀ event ∈ events, P event.fst

def AtMost (n : Nat) (p : Script γ ω α) : Prop :=
  ∀ events result, Runs p events result → events.length ≤ n

theorem runs_done_iff {a : α} {events : List (γ × ω)} {result : Option α}
    : Runs (.done a) events result ↔ events = [] ∧ result = some a := by
  constructor
  . intro h
    cases h
    exact ⟨rfl, rfl⟩
  . rintro ⟨rfl, rfl⟩
    exact .done

theorem runs_exec_iff {command : γ} {next : ω → Script γ ω α} {events : List (γ × ω)}
    {result : Option α}
    : Runs (.exec command next) events result
        ↔
      ∃ output rest, events = (command, output) :: rest ∧ Runs (next output) rest result := by
  constructor
  . intro h
    cases h with
    | exec h => exact ⟨_, _, rfl, h⟩
  . rintro ⟨output, rest, rfl, h⟩
    exact .exec h

theorem runs_bind_iff {p : Script γ ω α} {f : α → Script γ ω β} {events : List (γ × ω)}
    {result : Option β}
    : Runs (p.bind f) events result
        ↔
      (∃ before after a, events = before ++ after ∧ Runs p before (some a) ∧ Runs (f a) after result)
        ∨
      (Runs p events none ∧ result = none) := by
  induction p generalizing events with
  | done a =>
    rw [bind]
    constructor
    . intro h
      exact .inl ⟨[], events, a, rfl, .done, h⟩
    . rintro (⟨before, after, a', rfl, hp, h⟩ | ⟨hp, _⟩)
      . cases hp
        exact h
      . cases hp
  | exit =>
    rw [bind]
    constructor
    . intro h
      cases h
      exact .inr ⟨.exit, rfl⟩
    . rintro (⟨before, after, a, rfl, hp, _⟩ | ⟨hp, rfl⟩)
      . cases hp
      . cases hp
        exact .exit
  | exec command next ih =>
    rw [bind, runs_exec_iff]
    constructor
    . rintro ⟨output, rest, rfl, h⟩
      rcases (ih output).mp h with ⟨before, after, a, rfl, hp, h⟩ | ⟨hp, rfl⟩
      . exact .inl ⟨(command, output) :: before, after, a, rfl, .exec hp, h⟩
      . exact .inr ⟨.exec hp, rfl⟩
    . rintro (⟨before, after, a, rfl, hp, h⟩ | ⟨hp, rfl⟩)
      . rcases runs_exec_iff.mp hp with ⟨output, rest, rfl, hnext⟩
        exact ⟨output, rest ++ after, rfl, (ih output).mpr (.inl ⟨rest, after, a, rfl, hnext, h⟩)⟩
      . rcases runs_exec_iff.mp hp with ⟨output, rest, rfl, hnext⟩
        exact ⟨output, rest, rfl, (ih output).mpr (.inr ⟨hnext, rfl⟩)⟩

theorem wp_iff {p : Script γ ω α} {Q : List (γ × ω) → Option α → Prop}
    : p.wp Q ↔ ∀ events result, Runs p events result → Q events result := by
  induction p generalizing Q with
  | done a =>
    constructor
    . rintro h events result hruns
      cases hruns
      exact h
    . intro h
      exact h [] (some a) .done
  | exit =>
    constructor
    . rintro h events result hruns
      cases hruns
      exact h
    . intro h
      exact h [] none .exit
  | exec command next ih =>
    rw [wp]
    constructor
    . rintro h events result hruns
      rcases runs_exec_iff.mp hruns with ⟨output, rest, rfl, hnext⟩
      exact (ih output).mp (h output) rest result hnext
    . intro h output
      rw [ih]
      intro events result hruns
      exact h _ result (.exec hruns)

theorem wp_ite {c : Prop} [Decidable c] {p q : Script γ ω α} {Q : List (γ × ω) → Option α → Prop}
    : (if c then p else q).wp Q ↔ (c → p.wp Q) ∧ (¬c → q.wp Q) := by
  split
  . next hc => simp [hc]
  . next hc => simp [hc]

theorem only_iff {P : γ → Prop} {p : Script γ ω α}
    : p.Only P ↔ p.wp (fun events _ => ∀ event ∈ events, P event.fst) := by
  exact wp_iff.symm

theorem atMost_iff {n : Nat} {p : Script γ ω α}
    : p.AtMost n ↔ p.wp (fun events _ => events.length ≤ n) := by
  exact wp_iff.symm

theorem runs_eval (world : σ → γ → σ × ω) (p : Script γ ω α) (s : σ)
    : ∃ events, Runs p events (p.eval world s).snd := by
  induction p generalizing s with
  | done a => exact ⟨[], .done⟩
  | exit => exact ⟨[], .exit⟩
  | exec command next ih =>
    rcases ih (world s command).snd (world s command).fst with ⟨events, h⟩
    exact ⟨_, .exec h⟩

section Only

variable {P : γ → Prop}

theorem Only.bind {p : Script γ ω α} {f : α → Script γ ω β} (hp : p.Only P)
    (hf : ∀ a, (f a).Only P)
    : (p.bind f).Only P := by
  intro events result h
  rcases runs_bind_iff.mp h with ⟨before, after, a, rfl, hruns, h⟩ | ⟨hruns, _⟩
  . rw [List.forall_mem_append]
    exact ⟨hp before (some a) hruns, hf a after result h⟩
  . exact hp events none hruns

theorem Only.retry {enough : ω → Bool} {attempt : Script γ ω ω} (h : attempt.Only P) (left : Nat)
    (output : ω)
    : (retry enough attempt left output).Only P := by
  have hdone : (.done () : Script γ ω Unit).Only P := only_iff.mpr (by simp [wp])
  induction left generalizing output with
  | zero =>
    unfold Script.retry
    split
    . exact hdone
    . exact only_iff.mpr (by simp [wp])
  | succ left ih =>
    unfold Script.retry
    split
    . exact hdone
    . exact h.bind ih

theorem Only.inOrder {ps : List (Script γ ω Unit)} (h : ∀ p ∈ ps, p.Only P)
    : (inOrder ps).Only P := by
  induction ps with
  | nil => exact only_iff.mpr (by simp [Script.inOrder, wp])
  | cons p ps ih =>
    rw [List.forall_mem_cons] at h
    exact h.left.bind (fun _ => ih h.right)

end Only

theorem AtMost.bind {n m : Nat} {p : Script γ ω α} {f : α → Script γ ω β} (hp : p.AtMost n)
    (hf : ∀ a, (f a).AtMost m)
    : (p.bind f).AtMost (n + m) := by
  intro events result h
  rcases runs_bind_iff.mp h with ⟨before, after, a, rfl, hruns, h⟩ | ⟨hruns, _⟩
  . have hbefore := hp before (some a) hruns
    have hafter := hf a after result h
    rw [List.length_append]
    omega
  . have hevents := hp events none hruns
    omega

theorem AtMost.retry {enough : ω → Bool} {attempt : Script γ ω ω} {n : Nat} (h : attempt.AtMost n)
    (left : Nat) (output : ω)
    : (retry enough attempt left output).AtMost (left * n) := by
  have hdone : (.done () : Script γ ω Unit).AtMost (left * n) := atMost_iff.mpr (by simp [wp])
  induction left generalizing output with
  | zero =>
    unfold Script.retry
    split
    . exact hdone
    . exact atMost_iff.mpr (by simp [wp])
  | succ left ih =>
    unfold Script.retry
    split
    . exact hdone
    . rw [Nat.succ_mul, Nat.add_comm]
      exact h.bind (fun output => ih output (atMost_iff.mpr (by simp [wp])))

theorem AtMost.inOrder {bounded : List (Script γ ω Unit × Nat)} (h : ∀ p ∈ bounded, p.fst.AtMost p.snd)
    : (inOrder (bounded.map Prod.fst)).AtMost ((bounded.map Prod.snd).foldr (· + ·) 0) := by
  induction bounded with
  | nil => exact atMost_iff.mpr (by simp [Script.inOrder, wp])
  | cons p bounded ih =>
    rw [List.forall_mem_cons] at h
    exact h.left.bind (fun _ => ih h.right)

theorem bind_assoc (p : Script γ ω α) (f : α → Script γ ω β) (g : β → Script γ ω δ)
    : (p.bind f).bind g = p.bind (fun a => (f a).bind g) := by
  induction p with
  | done a => rfl
  | exit => rfl
  | exec command next ih =>
    simp only [bind, ih]

theorem inOrder_append (ps qs : List (Script γ ω Unit))
    : inOrder (ps ++ qs) = (inOrder ps).bind (fun _ => inOrder qs) := by
  induction ps with
  | nil => rfl
  | cons p ps ih => rw [List.cons_append, inOrder, inOrder, ih, bind_assoc]

theorem runs_inOrder_none {ps : List (Script γ ω Unit)} {events : List (γ × ω)}
    (h : Runs (inOrder ps) events none)
    : ∃ before p after events' last, ps = before ++ p :: after ∧ events = events' ++ last
        ∧ Runs (inOrder before) events' (some ()) ∧ Runs p last none := by
  induction ps generalizing events with
  | nil => cases h
  | cons p ps ih =>
    rw [inOrder, runs_bind_iff] at h
    rcases h with ⟨events', rest, _, rfl, hp, h⟩ | ⟨hp, _⟩
    . rcases ih h with ⟨before, q, after, events'', last, rfl, rfl, hbefore, hq⟩
      refine ⟨p :: before, q, after, events' ++ events'', last, rfl, by simp, ?_, hq⟩
      rw [inOrder, runs_bind_iff]
      exact .inl ⟨events', events'', (), rfl, hp, hbefore⟩
    . exact ⟨[], p, ps, [], events, rfl, rfl, .done, hp⟩

/-- What scripts have done in order is what one of them has done, if it has been reached, and the rest. -/
theorem runs_section {before after : List (Script γ ω Unit)} {p : Script γ ω Unit} {P P' : γ → Prop}
    (hbefore : ∀ q ∈ before, q.Only P) (hafter : ∀ q ∈ after, q.Only P') {events : List (γ × ω)}
    {result : Option Unit} (h : Runs (inOrder (before ++ p :: after)) events result)
    : (result = none ∧ ∀ event ∈ events, P event.fst)
        ∨
      ∃ events' own events'' result', events = events' ++ own ++ events''
        ∧ (∀ event ∈ events', P event.fst) ∧ (∀ event ∈ events'', P' event.fst)
        ∧ Runs p own result' ∧ (result = some () → result' = some ())
        ∧ (result' = some () → Runs (inOrder after) events'' result) := by
  rw [inOrder_append, runs_bind_iff] at h
  rcases h with ⟨events', rest, _, rfl, hevents', h⟩ | ⟨h, rfl⟩
  . have hP := Only.inOrder hbefore _ _ hevents'
    rw [inOrder, runs_bind_iff] at h
    rcases h with ⟨own, events'', _, rfl, hp, h⟩ | ⟨hp, rfl⟩
    . have hP' := Only.inOrder hafter _ _ h
      exact .inr ⟨events', own, events'', some (), by simp, hP, hP', hp, fun _ => rfl, fun _ => h⟩
    . exact .inr ⟨events', rest, [], none, by simp, hP, by simp, hp, by simp, by simp⟩
  . exact .inl ⟨rfl, Only.inOrder hbefore _ _ h⟩

variable [DecidableEq γ]

def lastOutput (command : γ) (events : List (γ × ω)) : Option ω :=
  (events.reverse.find? (fun event => event.fst = command)).map Prod.snd

def count (command : γ) (events : List (γ × ω)) : Nat :=
  events.countP (fun event => event.fst = command)

@[simp]
theorem lastOutput_append (command : γ) (events events' : List (γ × ω))
    : lastOutput command (events ++ events')
        =
      (lastOutput command events').or (lastOutput command events) := by
  simp [lastOutput, List.find?_append, Option.map_or]

@[simp]
theorem count_append (command : γ) (events events' : List (γ × ω))
    : count command (events ++ events') = count command events + count command events' := by
  simp [count]

theorem count_eq_zero {command : γ} {events : List (γ × ω)} (h : ∀ event ∈ events, event.fst ≠ command)
    : count command events = 0 := by
  simpa [count, List.countP_eq_zero] using h

theorem lastOutput_eq_none {command : γ} {events : List (γ × ω)}
    (h : ∀ event ∈ events, event.fst ≠ command)
    : lastOutput command events = none := by
  simp only [lastOutput, Option.map_eq_none_iff, List.find?_eq_none, List.mem_reverse,
    decide_eq_true_eq]
  exact h

def firstOutput (command : γ) (events : List (γ × ω)) : Option ω :=
  (events.find? (fun event => event.fst = command)).map Prod.snd

@[simp]
theorem firstOutput_append (command : γ) (events events' : List (γ × ω))
    : firstOutput command (events ++ events')
        =
      (firstOutput command events).or (firstOutput command events') := by
  simp [firstOutput, List.find?_append, Option.map_or]

theorem firstOutput_eq_none {command : γ} {events : List (γ × ω)}
    (h : ∀ event ∈ events, event.fst ≠ command)
    : firstOutput command events = none := by
  simp only [firstOutput, Option.map_eq_none_iff, List.find?_eq_none, decide_eq_true_eq]
  exact h

/-- An attempt installs once and ends with a look at what there is. -/
theorem runs_retry {enough : ω → Bool} {attempt : Script γ ω ω} {install probe : γ}
    (hcount : ∀ events result, Runs attempt events result → count install events = 1)
    (hlast : ∀ events output, Runs attempt events (some output) →
      lastOutput probe events = some output)
    {left : Nat} {output : ω} {events : List (γ × ω)} {result : Option Unit}
    (h : Runs (retry enough attempt left output) events result)
    : count install events ≤ left
        ∧ (enough output = true → events = [])
        ∧ (result = some () → enough ((lastOutput probe events).getD output) = true)
        ∧ (result = none →
          (count install events = left ∧ enough ((lastOutput probe events).getD output) = false)
            ∨ ∃ events' last, events = events' ++ last ∧ Runs attempt last none) := by
  induction left generalizing output events with
  | zero =>
    unfold retry at h
    split at h
    . next henough =>
      rcases runs_done_iff.mp h with ⟨rfl, rfl⟩
      exact ⟨Nat.le_refl 0, fun _ => rfl, fun _ => henough, by simp⟩
    . next henough =>
      cases h
      have hmissing : enough output = false := by simpa using henough
      exact ⟨Nat.le_refl 0, fun _ => rfl, by simp, fun _ => .inl ⟨rfl, hmissing⟩⟩
  | succ left ih =>
    unfold retry at h
    split at h
    . next henough =>
      rcases runs_done_iff.mp h with ⟨rfl, rfl⟩
      exact ⟨Nat.zero_le _, fun _ => rfl, fun _ => henough, by simp⟩
    . next henough =>
      rcases runs_bind_iff.mp h with ⟨events', rest, output', rfl, hattempt, h⟩ | ⟨hattempt, rfl⟩
      . rcases ih h with ⟨hle, _, hsome, hnone⟩
        have hone := hcount _ _ hattempt
        have hlook : (lastOutput probe (events' ++ rest)).getD output
            = (lastOutput probe rest).getD output' := by
          rw [lastOutput_append, hlast _ _ hattempt]
          cases lastOutput probe rest with
          | none => rfl
          | some output'' => rfl
        rw [count_append, hone, hlook]
        refine ⟨by omega, fun htrue => absurd htrue henough, hsome, ?_⟩
        intro hresult
        rcases hnone hresult with ⟨hcount, hmissing⟩ | ⟨events'', last, rfl, hlast⟩
        . exact .inl ⟨by omega, hmissing⟩
        . exact .inr ⟨events' ++ events'', last, by simp, hlast⟩
      . have hone := hcount _ _ hattempt
        refine ⟨by omega, fun htrue => absurd htrue henough, by simp, ?_⟩
        intro _
        exact .inr ⟨[], events, rfl, hattempt⟩

end Script
