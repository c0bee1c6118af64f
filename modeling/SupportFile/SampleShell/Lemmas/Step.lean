import SupportFile.SampleShell.Impl.SampleToRun

/-!
This module contains what a single step of the installer or of its surroundings can do to the
processes, to `pid.log` and to the place of the script.
-/

namespace Host

def Shrinks (host host' : Host) : Prop :=
  ∀ p' ∈ host', ∃ p ∈ host, p.pid = p'.pid ∧ p.owner = p'.owner

theorem Shrinks.refl (host : Host) : Shrinks host host := by
  intro p hp
  exact ⟨p, hp, rfl, rfl⟩

theorem signal_shrinks (host : Host) (target : Process → Bool)
    : Shrinks host (host.signal target) := by
  intro p' hp'
  unfold signal at hp'
  rw [List.mem_map] at hp'
  rcases hp' with ⟨p, hp, rfl⟩
  refine ⟨p, hp, ?_⟩
  split
  . exact ⟨rfl, rfl⟩
  . exact ⟨rfl, rfl⟩

theorem update_shrinks (host : Host) (pid : Pid) (f : List Socket → List Socket)
    : Shrinks host (host.update pid f) := by
  intro p' hp'
  unfold update at hp'
  rw [List.mem_map] at hp'
  rcases hp' with ⟨p, hp, rfl⟩
  refine ⟨p, hp, ?_⟩
  split
  . exact ⟨rfl, rfl⟩
  . exact ⟨rfl, rfl⟩

theorem terminate_shrinks (host : Host) (pid : Pid) : Shrinks host (host.terminate pid) := by
  intro p hp
  unfold terminate at hp
  rw [List.mem_filter] at hp
  exact ⟨p, hp.left, rfl, rfl⟩

end Host

namespace SampleToRun

def Pc.launched (pc : Pc) : Option Pid :=
  match pc with
  | .polling _ _ launched => launched
  | .failing _ launched => launched
  | .exiting launched => launched
  | _ => none

structure Keeps (s s' : State) : Prop where
  generation : s'.generation = s.generation
  launches : s'.launches = s.launches
  pidLog : s'.pidLog = s.pidLog

theorem Keeps.refl (s : State) : Keeps s s := by
  constructor
  all_goals rfl

inductive Effect (s : State) (action : Action) (s' : State) : Prop where
  | quiet : Keeps s s' → s.host.Shrinks s'.host → s'.pc.launched = s.pc.launched →
      (s'.pc = .starting → s.pc = .starting) → Effect s action s'
  | spawned (pid : Pid) : Keeps s s' → action = .spawn pid → s'.pc = s.pc →
      s'.host = { pid := pid, owner := .foreign } :: s.host → Effect s action s'
  | started : s.pc = .idle → s'.pc = .starting → s.pidLog = none → s'.pidLog = none →
      s'.generation = s.generation + 1 → s'.launches = s.launches → s'.host = s.host →
      Effect s action s'
  | extracted : s.pc = .starting → s'.pc = .launching .tomcat → s'.pidLog = none →
      s'.generation = s.generation → s'.launches = s.launches → s'.host = s.host →
      Effect s action s'
  | launched (server : Server) (pid : Pid) : s.pc = .launching server →
      s'.pc = .polling server 0 (some pid) → s'.pidLog = s.pidLog →
      s'.generation = s.generation → s'.launches = (s.generation, pid) :: s.launches →
      s'.host = { pid := pid, owner := .server s.generation } :: s.host → Effect s action s'
  | recorded (server : Server) (count : Nat) (launched : Option Pid) : action = .poll →
      s.pc = .polling server count launched → s'.pc.launched = none → s'.pc ≠ .starting →
      s.host.lsof server.port ≠ [] →
      s'.pidLog = some (s.pidLog.getD [] ++ s.host.lsof server.port) →
      s'.generation = s.generation → s'.launches = s.launches → s'.host = s.host →
      Effect s action s'
  | left (launched : Option Pid) : Keeps s s' → action = .exit → s.pc = .exiting launched →
      s'.pc = .idle → s'.host = s.host → Effect s action s'
  | erased : action = .remove ∨ action = .choose .clear → s'.pc = .idle → s'.pidLog = none →
      s'.generation = s.generation → s'.launches = s.launches → s'.host = s.host →
      Effect s action s'

theorem choose_effect {s : State} (hpc : s.pc = .idle) (choice : Choice)
    : Effect s (.choose choice) (choose s choice) := by
  cases choice with
  | startAll =>
    unfold choose
    dsimp
    split
    . exact .quiet (.refl s) (.refl s.host) rfl id
    . next hlog =>
      rw [Bool.not_eq_true, Option.isSome_eq_false_iff, Option.isNone_iff_eq_none] at hlog
      exact .started hpc rfl hlog hlog rfl rfl rfl
  | stopAll =>
    unfold choose
    dsimp
    split
    . exact .quiet ⟨rfl, rfl, rfl⟩ (.refl s.host) (by rw [hpc]; rfl) (by simp)
    . exact .quiet (.refl s) (.refl s.host) rfl id
  | clear => exact .erased (.inr rfl) hpc rfl rfl rfl rfl
  | quit => exact .quiet (.refl s) (.refl s.host) rfl id

theorem launch_effect {s s' : State} {server : Server} {pid : Option Pid} {action : Action}
    (hpc : s.pc = .launching server) (h : launch s server pid = some s')
    : Effect s action s' := by
  unfold launch at h
  split at h
  . cases h
    exact .quiet ⟨rfl, rfl, rfl⟩ (.refl s.host) (by rw [hpc]; rfl) (by simp)
  . next pid =>
    split at h
    . contradiction
    . cases h
      exact .launched server pid hpc rfl rfl rfl rfl rfl

theorem poll_effect {s : State} {server : Server} {count : Nat} {launched : Option Pid}
    (hpc : s.pc = .polling server count launched)
    : Effect s .poll (poll s server count launched) := by
  unfold poll
  dsimp only
  split
  . next hpids =>
    refine .recorded server count launched rfl hpc ?_ ?_ hpids rfl rfl rfl rfl
    . dsimp only
      split <;> rfl
    . dsimp only
      split <;> simp
  . split
    . exact .quiet ⟨rfl, rfl, rfl⟩ (.refl s.host) (by rw [hpc]; rfl) (by simp)
    . exact .quiet ⟨rfl, rfl, rfl⟩ (.refl s.host) (by rw [hpc]; rfl) (by simp)

theorem kill_effect {s : State} {rownum : Nat} (hpc : s.pc = .killing rownum)
    : Effect s .kill (kill s rownum) := by
  unfold kill
  split
  . exact .quiet ⟨rfl, rfl, rfl⟩ (Host.signal_shrinks _ _) (by rw [hpc]; rfl) (by simp)
  . exact .quiet ⟨rfl, rfl, rfl⟩ (.refl s.host) (by rw [hpc]; rfl) (by simp)

theorem surroundings_effect {s s' : State} {action : Action}
    (h : surroundings s action = some s')
    : Effect s action s' := by
  unfold surroundings at h
  split at h
  . cases h
    exact .quiet ⟨rfl, rfl, rfl⟩ (.refl s.host) rfl id
  . next pid =>
    split at h
    . contradiction
    . cases h
      exact .spawned pid ⟨rfl, rfl, rfl⟩ rfl rfl rfl
  . cases h
    exact .quiet ⟨rfl, rfl, rfl⟩ (Host.terminate_shrinks _ _) rfl id
  . cases h
    exact .quiet ⟨rfl, rfl, rfl⟩ (s.host.update_shrinks _ _) rfl id
  . next pid socket =>
    cases h
    exact .quiet ⟨rfl, rfl, rfl⟩ (s.host.update_shrinks pid (fun l => l.erase socket)) rfl id
  . contradiction

theorem step_effect {s s' : State} {action : Action} (h : step s action = some s')
    : Effect s action s' := by
  unfold step at h
  split at h
  . next choice hpc =>
    split at h
    . cases h
      apply choose_effect hpc choice
    . contradiction
  . next hpc =>
    cases h
    exact .quiet ⟨rfl, rfl, rfl⟩ (.refl s.host) (by rw [hpc]; rfl) (by simp)
  . next hpc =>
    cases h
    exact .extracted hpc rfl rfl rfl rfl rfl
  . next hpc => exact launch_effect hpc h
  . next hpc =>
    cases h
    apply poll_effect hpc
  . next hpc =>
    cases h
    exact .quiet ⟨rfl, rfl, rfl⟩ (Host.signal_shrinks _ _) (by rw [hpc]; rfl) (by simp)
  . next launched hpc =>
    cases h
    exact .left launched ⟨rfl, rfl, rfl⟩ rfl hpc rfl rfl
  . next hpc =>
    cases h
    apply kill_effect hpc
  . cases h
    exact .erased (.inl rfl) rfl rfl rfl rfl rfl
  . apply surroundings_effect h

theorem init_of_foreign {host : Host} (h : ∀ p ∈ host, p.owner = .foreign)
    : system.init { host := host } := by
  exact ⟨host, h, rfl⟩

def FreshStart (s : State) : Prop :=
  s.pc = .starting → s.pidLog = none

theorem freshStart_inductive : system.Inductive (fun _ => True) FreshStart := by
  constructor
  . rintro s ⟨host, _, rfl⟩ hpc
    contradiction
  . intro s action s' _ hs hstep hpc'
    -- Only the status check leads into the installation, and it has looked for `pid.log`.
    cases step_effect hstep with
    | quiet hkeeps _ _ hpc =>
      rw [hkeeps.pidLog]
      apply hs (hpc hpc')
    | spawned pid hkeeps _ hpc _ =>
      rw [hkeeps.pidLog]
      rw [hpc] at hpc'
      apply hs hpc'
    | started _ _ _ hlog => exact hlog
    | extracted _ hpc =>
      rw [hpc] at hpc'
      contradiction
    | launched _ _ _ hpc =>
      rw [hpc] at hpc'
      contradiction
    | recorded _ _ _ _ _ _ hpc => contradiction
    | left _ _ _ _ hpc =>
      rw [hpc] at hpc'
      contradiction
    | erased _ hpc =>
      rw [hpc] at hpc'
      contradiction

theorem freshStart {s : State} (hs : system.Reachable s) : FreshStart s := by
  apply freshStart_inductive.reachable (fun _ => trivial) hs

end SampleToRun
