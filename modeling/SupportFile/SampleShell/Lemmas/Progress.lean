import SupportFile.SampleShell.Lemmas.Step

/-!
This module contains the bound on the steps of the installer. Whatever the other processes do, it never
gets stuck, and every invocation of it comes to an end.
-/

namespace SampleToRun

def Action.isOwn (action : Action) : Bool :=
  match action with
  | .giveUp | .extract | .launch _ | .poll | .fuser | .exit | .kill | .remove => true
  | .choose _ | .upload | .spawn _ | .terminate _ | .openSocket _ _ | .closeSocket _ _ => false

def Action.isChoice (action : Action) : Bool :=
  match action with
  | .choose _ => true
  | _ => false

/-- What the script does in a step of its own. -/
inductive Proceeds (s : State) : Action → State → Prop where
  | giveUp : s.pc = .starting → Proceeds s .giveUp { s with pc := .idle }
  | extract : s.pc = .starting →
      Proceeds s .extract { s with directory := some {}, pc := .launching .tomcat }
  | launch : s.pc = .launching server → launch s server pid = some s' → Proceeds s (.launch pid) s'
  | poll : s.pc = .polling server count launched → Proceeds s .poll (poll s server count launched)
  | fuser : s.pc = .failing server launched →
      Proceeds s .fuser { s with host := s.host.fuser server.port, pc := .exiting launched }
  | exit : s.pc = .exiting launched → Proceeds s .exit { s with pc := .idle }
  | kill : s.pc = .killing rownum → Proceeds s .kill (kill s rownum)
  | remove : s.pc = .removing → Proceeds s .remove { s with directory := some {}, pc := .idle }

inductive StepCases (s : State) (action : Action) (s' : State) : Prop where
  | chosen (choice : Choice) : action = .choose choice → s.pc = .idle → s' = choose s choice →
      StepCases s action s'
  | own : action.isOwn = true → Proceeds s action s' → StepCases s action s'
  | other : action.isOwn = false → surroundings s action = some s' → StepCases s action s'

theorem step_cases {s s' : State} {action : Action} (h : step s action = some s')
    : StepCases s action s' := by
  unfold step at h
  split at h
  . next choice hpc =>
    split at h
    . cases h
      exact .chosen choice rfl hpc rfl
    . contradiction
  . next hpc =>
    cases h
    exact .own rfl (.giveUp hpc)
  . next hpc =>
    cases h
    exact .own rfl (.extract hpc)
  . next hpc => exact .own rfl (.launch hpc h)
  . next hpc =>
    cases h
    exact .own rfl (.poll hpc)
  . next hpc =>
    cases h
    exact .own rfl (.fuser hpc)
  . next hpc =>
    cases h
    exact .own rfl (.exit hpc)
  . next hpc =>
    cases h
    exact .own rfl (.kill hpc)
  . next hpc =>
    cases h
    exact .own rfl (.remove hpc)
  . refine .other ?_ h
    unfold surroundings at h
    split at h
    . rfl
    . rfl
    . rfl
    . rfl
    . rfl
    . contradiction

theorem surroundings_frame {s s' : State} {action : Action} (h : surroundings s action = some s')
    : s'.pc = s.pc ∧ s'.directory = s.directory := by
  unfold surroundings at h
  split at h
  . cases h
    exact ⟨rfl, rfl⟩
  . split at h
    . contradiction
    . cases h
      exact ⟨rfl, rfl⟩
  . cases h
    exact ⟨rfl, rfl⟩
  . cases h
    exact ⟨rfl, rfl⟩
  . cases h
    exact ⟨rfl, rfl⟩
  . contradiction

-- What is left to do once the server before has been found.
def Server.rest (server : Server) : Nat :=
  match server with
  | .tomcat =>
    (Server.mechat.polls + 2) + (Server.charServerApp.polls + 2) + (Server.charServerManage.polls + 2)
  | .mechat => (Server.charServerApp.polls + 2) + (Server.charServerManage.polls + 2)
  | .charServerApp => Server.charServerManage.polls + 2
  | .charServerManage => 0

/-- The number of steps that the script takes at most until it is done. -/
def State.remaining (s : State) : Nat :=
  match s.pc with
  | .idle => 0
  | .starting => 1 + (Server.tomcat.polls + 4 + Server.tomcat.rest)
  | .launching server => server.polls + 4 + server.rest
  | .polling server count _ => (server.polls + 1 - count) + 2 + server.rest
  | .failing _ _ => 2
  | .exiting _ => 1
  | .killing rownum => ((s.pidLog.getD []).length + 1 - rownum) + 2
  | .removing => 1

def Counts (s : State) : Prop :=
  ∀ server count launched, s.pc = .polling server count launched → count ≤ server.polls

theorem choose_pc (s : State) (choice : Choice)
    : (choose s choice).pc = s.pc ∨ (choose s choice).pc = .starting
        ∨ (choose s choice).pc = .killing 1 := by
  cases choice with
  | startAll =>
    unfold choose
    dsimp only
    split
    . exact .inl rfl
    . exact .inr (.inl rfl)
  | stopAll =>
    unfold choose
    dsimp only
    split
    . exact .inr (.inr rfl)
    . exact .inl rfl
  | clear => exact .inl rfl
  | quit => exact .inl rfl

theorem launch_pc {s s' : State} {server : Server} {pid : Option Pid}
    (h : launch s server pid = some s')
    : ∃ launched, s'.pc = .polling server 0 launched := by
  unfold launch at h
  split at h
  . cases h
    exact ⟨none, rfl⟩
  . next pid =>
    split at h
    . contradiction
    . cases h
      exact ⟨some pid, rfl⟩

theorem poll_pc (s : State) (server : Server) (count : Nat) (launched : Option Pid)
    : (∃ next, server.next = some next ∧ (poll s server count launched).pc = .launching next)
        ∨ (server.next = none ∧ (poll s server count launched).pc = .idle)
        ∨ (server.polls < count + 1 ∧ (poll s server count launched).pc = .failing server launched)
        ∨ (count + 1 ≤ server.polls
          ∧ (poll s server count launched).pc = .polling server (count + 1) launched) := by
  unfold poll
  dsimp only
  split
  . cases hnext : server.next with
    | none => exact .inr (.inl ⟨rfl, rfl⟩)
    | some next => exact .inl ⟨next, rfl, rfl⟩
  . split
    . next hcount => exact .inr (.inr (.inl ⟨hcount, rfl⟩))
    . next hcount => exact .inr (.inr (.inr ⟨by omega, rfl⟩))

theorem kill_pc (s : State) (rownum : Nat)
    : ((s.row rownum).isSome ∧ (kill s rownum).pc = .killing (rownum + 1))
        ∨ (s.row rownum = none ∧ (kill s rownum).pc = .removing) := by
  unfold kill
  cases hrow : s.row rownum with
  | none => exact .inr ⟨rfl, rfl⟩
  | some pid => exact .inl ⟨rfl, rfl⟩

theorem kill_pidLog (s : State) (rownum : Nat) : (kill s rownum).pidLog = s.pidLog := by
  unfold kill
  split
  . rfl
  . rfl

theorem counts_inductive : system.Inductive (fun _ => True) Counts := by
  constructor
  . rintro s ⟨host, _, rfl⟩ server count launched hpc
    contradiction
  . intro s action s' _ hs hstep server count launched hpc
    cases step_cases hstep with
    | chosen choice _ hidle hchoose =>
      rw [hchoose] at hpc
      have hchoose := choose_pc s choice
      rw [hpc, hidle] at hchoose
      simp at hchoose
    | own _ hproceeds =>
      cases hproceeds with
      | launch _ hlaunch =>
        rcases launch_pc hlaunch with ⟨launched', hpc'⟩
        rw [hpc', Pc.polling.injEq] at hpc
        omega
      | @poll server' count' launched' _ =>
        have hpoll := poll_pc s server' count' launched'
        rw [hpc] at hpoll
        simp only [reduceCtorEq, and_false, exists_false, Pc.polling.injEq, false_or] at hpoll
        rcases hpoll with ⟨hle, rfl, rfl, rfl⟩
        exact hle
      | @kill rownum _ =>
        have hkill := kill_pc s rownum
        rw [hpc] at hkill
        simp at hkill
      | giveUp | extract | fuser | exit | remove => contradiction
    | other _ hsurroundings =>
      rw [(surroundings_frame hsurroundings).left] at hpc
      exact hs server count launched hpc

theorem Proceeds.remaining_lt {s s' : State} {action : Action} (hs : Counts s)
    (h : Proceeds s action s')
    : s'.remaining < s.remaining := by
  cases h with
  | giveUp hpc =>
    simp only [State.remaining, hpc]
    omega
  | extract hpc =>
    simp only [State.remaining, hpc]
    omega
  | launch hpc hlaunch =>
    rcases launch_pc hlaunch with ⟨launched, hpc'⟩
    simp only [State.remaining, hpc, hpc']
    omega
  | @poll server count launched hpc =>
    have hcount := hs server count launched hpc
    rcases poll_pc s server count launched with ⟨next, hnext, hpc'⟩ | ⟨_, hpc'⟩ | ⟨_, hpc'⟩ | ⟨_, hpc'⟩
    . have hrest : next.polls + 2 + next.rest = server.rest := by
        cases server with
        | tomcat | mechat | charServerApp =>
          cases hnext
          rfl
        | charServerManage => contradiction
      simp only [State.remaining, hpc, hpc']
      omega
    . simp only [State.remaining, hpc, hpc']
      omega
    . simp only [State.remaining, hpc, hpc']
      omega
    . simp only [State.remaining, hpc, hpc']
      omega
  | fuser hpc =>
    simp only [State.remaining, hpc]
    omega
  | exit hpc =>
    simp only [State.remaining, hpc]
    omega
  | @kill rownum hpc =>
    rcases kill_pc s rownum with ⟨hrow, hpc'⟩ | ⟨_, hpc'⟩
    . have hlt : rownum - 1 < (s.pidLog.getD []).length := by
        unfold State.row at hrow
        rcases Option.isSome_iff_exists.mp hrow with ⟨pid, hpid⟩
        exact (List.getElem?_eq_some_iff.mp hpid).choose
      simp only [State.remaining, hpc, hpc', kill_pidLog]
      omega
    . simp only [State.remaining, hpc, hpc']
      omega
  | remove hpc =>
    simp only [State.remaining, hpc]
    omega

theorem remaining_of_step {s s' : State} {action : Action} (hs : Counts s)
    (haction : action.isChoice = false) (h : step s action = some s')
    : action.isOwn.toNat + s'.remaining ≤ s.remaining := by
  cases step_cases h with
  | chosen choice hchoice =>
    rw [hchoice] at haction
    contradiction
  | own hown hproceeds =>
    have hlt := hproceeds.remaining_lt hs
    rw [hown, Bool.toNat_true]
    omega
  | other hother hsurroundings =>
    rcases surroundings_frame hsurroundings with ⟨hpc, hdirectory⟩
    have hremaining : s'.remaining = s.remaining := by
      unfold State.remaining State.pidLog
      rw [hpc, hdirectory]
    rw [hother, hremaining, Bool.toNat_false]
    omega

theorem exists_own_step {s : State} (hpc : s.pc ≠ .idle)
    : ∃ action, action.isOwn = true ∧ (step s action).isSome := by
  cases h : s.pc with
  | idle => contradiction
  | starting => exact ⟨.giveUp, rfl, by simp [step, h]⟩
  -- The command that launches the server may fail, and the script goes on.
  | launching server => exact ⟨.launch none, rfl, by simp [step, h, launch]⟩
  | polling server count launched => exact ⟨.poll, rfl, by simp [step, h]⟩
  | failing server launched => exact ⟨.fuser, rfl, by simp [step, h]⟩
  | exiting launched => exact ⟨.exit, rfl, by simp [step, h]⟩
  | killing rownum => exact ⟨.kill, rfl, by simp [step, h]⟩
  | removing => exact ⟨.remove, rfl, by simp [step, h]⟩

theorem remaining_eq_zero_iff {s : State} : s.remaining = 0 ↔ s.pc = .idle := by
  cases h : s.pc with
  | idle => simp [State.remaining, h]
  | starting | launching | polling | failing | exiting | killing | removing =>
    simp [State.remaining, h]

/-- The number of steps that an invocation takes at most. -/
def Choice.bound (choice : Choice) (s : State) : Nat :=
  match choice with
  -- All servers but the last are found at the last poll, and the last one is not.
  | .startAll => 81
  | .stopAll => (s.pidLog.getD []).length + 2
  | .clear | .quit => 0

theorem remaining_choose_le {s : State} (hpc : s.pc = .idle) (choice : Choice)
    : (choose s choice).remaining ≤ choice.bound s := by
  have hidle := remaining_eq_zero_iff.mpr hpc
  cases choice with
  | startAll =>
    unfold choose
    dsimp only
    split
    . omega
    . exact Nat.le_refl 81
  | stopAll =>
    unfold choose
    dsimp only
    split
    . exact Nat.le_refl _
    . omega
  | clear =>
    have hcleared : (choose s .clear).remaining = 0 := remaining_eq_zero_iff.mpr hpc
    omega
  | quit => exact Nat.le_of_eq hidle

theorem invocation_ends {s s' s'' : State} (hs : system.Reachable s) {choice : Choice}
    (hchoice : step s (.choose choice) = some s') {actions : List Action}
    (hactions : ∀ action ∈ actions, action.isChoice = false)
    (h : Lts.exec step s' actions = some s'')
    : actions.countP Action.isOwn ≤ choice.bound s
        ∧
      (actions.countP Action.isOwn = choice.bound s → s''.pc = .idle)
        ∧
      (s''.pc ≠ .idle → ∃ action, action.isOwn = true ∧ (step s'' action).isSome) := by
  have hs' : system.Reachable s' := .step hs hchoice
  have hrank : actions.countP Action.isOwn + s''.remaining ≤ s'.remaining := by
    apply Lts.rank_of_exec (P := system.Reachable) _ actions hactions hs' h
    intro s₁ action s₂ hs₁ haction hstep
    have hcounts := counts_inductive.reachable (fun _ => trivial) hs₁
    exact ⟨.step hs₁ hstep, remaining_of_step hcounts haction hstep⟩
  have hbound : s'.remaining ≤ choice.bound s := by
    cases step_cases hchoice with
    | chosen choice' heq hpc hs' =>
      cases heq
      rw [hs']
      exact remaining_choose_le hpc choice
    | own hown _ => contradiction
    | other _ hsurroundings => contradiction
  refine ⟨by omega, ?_, exists_own_step⟩
  intro hcount
  apply remaining_eq_zero_iff.mp
  omega

def foreignServer : Process :=
  { pid := 1, owner := .foreign, sockets := [{ proto := .tcp, localPort := 80, remotePort := none }] }

theorem invocation_ends_oneServer
    : ∃ s, Lts.exec step { host := [foreignServer] }
          [.choose .startAll, .extract, .launch none, .poll, .launch none] = some s
        ∧ ∃ action, action.isOwn = true ∧ (step s action).isSome := by
  refine ⟨_, rfl, ?_⟩
  have hinit : system.Reachable { host := [foreignServer] } := by
    apply Lts.Reachable.init
    apply init_of_foreign
    simp [foreignServer]
  have hends := @invocation_ends _ _ _ hinit .startAll rfl [.extract, .launch none, .poll, .launch none]
    (by decide) rfl
  exact hends.right.right (by decide)

end SampleToRun
