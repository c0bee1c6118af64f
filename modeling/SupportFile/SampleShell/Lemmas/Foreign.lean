import SupportFile.SampleShell.Lemmas.Conditions
import SupportFile.SampleShell.Lemmas.Step

/-!
This module contains the proof that "Stop all" signals none but the servers of the installer, and a
run in which the script takes another process for one of them.
-/

namespace Host

theorem exists_of_mem_lsof {host : Host} {port : Nat} {pid : Pid} (h : pid ∈ host.lsof port)
    : ∃ p ∈ host, p.pid = pid := by
  unfold lsof at h
  rw [List.mem_flatMap] at h
  rcases h with ⟨p, hp, hpid⟩
  rw [List.mem_map] at hpid
  rcases hpid with ⟨_, _, hpid⟩
  exact ⟨p, hp, hpid⟩

end Host

namespace SampleToRun

/--
The number was that of a server that the latest run of "Start all" has launched, and no other
process has it now.
-/
def Own (s : State) (pid : Pid) : Prop :=
  (s.generation, pid) ∈ s.launches ∧ ∀ p ∈ s.host, p.pid = pid → p.owner = .server s.generation

def Signals (s : State) (pid : Pid) : Prop :=
  ∃ rownum, s.pc = .killing rownum ∧ s.row rownum = some pid

structure Attributed (s : State) : Prop where
  launches : ∀ p ∈ s.host, ∀ generation, p.owner = .server generation →
    (generation, p.pid) ∈ s.launches
  log : ∀ pid ∈ s.pidLog.getD [], Own s pid

theorem Attributed.of_shrinks {s s' : State} (hs : Attributed s) (hkeeps : Keeps s s')
    (hhost : s.host.Shrinks s'.host)
    : Attributed s' := by
  constructor
  . intro p' hp' generation howner'
    rcases hhost p' hp' with ⟨p, hp, hpid, howner⟩
    rw [hkeeps.launches, ← hpid]
    apply hs.launches p hp
    rw [howner, howner']
  . intro pid hpid
    rw [hkeeps.pidLog] at hpid
    rcases hs.log pid hpid with ⟨hlaunched, hown⟩
    unfold Own
    rw [hkeeps.generation, hkeeps.launches]
    refine ⟨hlaunched, ?_⟩
    intro p' hp' hpid'
    rcases hhost p' hp' with ⟨p, hp, hpid, howner⟩
    rw [← howner]
    apply hown p hp
    rw [hpid, hpid']

theorem Attributed.spawned {s s' : State} {pid : Pid} (hs : Attributed s) (hkeeps : Keeps s s')
    (hpid : Attributes s (.spawn pid))
    (hhost : s'.host = { pid := pid, owner := .foreign } :: s.host)
    : Attributed s' := by
  constructor
  . intro p hp generation howner
    rw [hhost, List.mem_cons] at hp
    rw [hkeeps.launches]
    cases hp with
    | inl hp =>
      subst hp
      contradiction
    | inr hp => exact hs.launches p hp generation howner
  . intro pid' hpid'
    rw [hkeeps.pidLog] at hpid'
    rcases hs.log pid' hpid' with ⟨hlaunched, hown⟩
    unfold Own
    rw [hkeeps.generation, hkeeps.launches, hhost]
    refine ⟨hlaunched, ?_⟩
    intro p hp hp'
    rw [List.mem_cons] at hp
    cases hp with
    | inl hp =>
      -- The new process has a number that is not in `pid.log`.
      subst hp
      dsimp at hp'
      subst hp'
      contradiction
    | inr hp => exact hown p hp hp'

theorem Attributed.launched {s s' : State} {pid : Pid} (hs : Attributed s)
    (hlog : s'.pidLog = s.pidLog) (hgeneration : s'.generation = s.generation)
    (hlaunches : s'.launches = (s.generation, pid) :: s.launches)
    (hhost : s'.host = { pid := pid, owner := .server s.generation } :: s.host)
    : Attributed s' := by
  constructor
  . intro p hp generation howner
    rw [hhost, List.mem_cons] at hp
    rw [hlaunches, List.mem_cons]
    cases hp with
    | inl hp =>
      subst hp
      dsimp at howner
      rw [Owner.server.injEq] at howner
      left
      rw [howner]
    | inr hp =>
      right
      apply hs.launches p hp generation howner
  . intro pid' hpid'
    rw [hlog] at hpid'
    rcases hs.log pid' hpid' with ⟨hlaunched, hown⟩
    unfold Own
    rw [hgeneration, hlaunches, hhost]
    refine ⟨List.mem_cons_of_mem _ hlaunched, ?_⟩
    intro p hp hp'
    rw [List.mem_cons] at hp
    cases hp with
    | inl hp => rw [hp]
    | inr hp => exact hown p hp hp'

theorem Attributed.recorded {s s' : State} {server : Server} {count : Nat} {launched : Option Pid}
    (hs : Attributed s) (hpc : s.pc = .polling server count launched) (hpoll : Attributes s .poll)
    (hlog : s'.pidLog = some (s.pidLog.getD [] ++ s.host.lsof server.port))
    (hgeneration : s'.generation = s.generation) (hlaunches : s'.launches = s.launches)
    (hhost : s'.host = s.host)
    : Attributed s' := by
  constructor
  . rw [hhost, hlaunches]
    apply hs.launches
  . intro pid hpid
    rw [hlog, Option.getD_some, List.mem_append] at hpid
    unfold Own
    rw [hgeneration, hlaunches, hhost]
    cases hpid with
    | inl hpid => exact hs.log pid hpid
    | inr hpid =>
      unfold Attributes AttributesAt at hpoll
      rw [hpc] at hpoll
      rcases Host.exists_of_mem_lsof hpid with ⟨p, hp, rfl⟩
      refine ⟨hs.launches p hp _ (hpoll p hp hpid), ?_⟩
      intro p' hp' hpid'
      apply hpoll p' hp'
      rw [hpid']
      exact hpid

theorem Attributed.of_no_log {s s' : State} (hs : Attributed s) (hlog : s'.pidLog = none)
    (hlaunches : s'.launches = s.launches) (hhost : s'.host = s.host)
    : Attributed s' := by
  constructor
  . rw [hhost, hlaunches]
    apply hs.launches
  . rw [hlog]
    simp

theorem attributed_inductive
    : (system.restrict Attributes).Inductive (fun _ => True) Attributed := by
  constructor
  . rintro s ⟨host, hforeign, rfl⟩
    constructor
    . intro p hp generation howner
      rw [hforeign p hp] at howner
      contradiction
    . simp [State.pidLog]
  . intro s action s' _ hs hstep
    rcases hstep with ⟨hstep, hattributes⟩
    cases step_effect hstep with
    | quiet hkeeps hhost _ _ => exact hs.of_shrinks hkeeps hhost
    | spawned pid hkeeps haction _ hhost =>
      rw [haction] at hattributes
      apply hs.spawned hkeeps hattributes hhost
    | started _ _ _ hlog _ hlaunches hhost => exact hs.of_no_log hlog hlaunches hhost
    | extracted _ _ hlog _ hlaunches hhost => exact hs.of_no_log hlog hlaunches hhost
    | launched server pid _ _ hlog hgeneration hlaunches hhost =>
      apply hs.launched hlog hgeneration hlaunches hhost
    | recorded server count launched haction hpc _ _ _ hlog hgeneration hlaunches hhost =>
      rw [haction] at hattributes
      apply hs.recorded hpc hattributes hlog hgeneration hlaunches hhost
    | left _ hkeeps _ _ _ hhost =>
      apply hs.of_shrinks hkeeps
      rw [hhost]
      apply Host.Shrinks.refl
    | erased _ _ hlog _ hlaunches hhost => exact hs.of_no_log hlog hlaunches hhost

theorem kill_own {s : State} (hs : (system.restrict Attributes).Reachable s) {pid : Pid}
    (hsignals : Signals s pid)
    : Own s pid := by
  have hattributed : Attributed s := attributed_inductive.reachable (fun _ => trivial) hs
  rcases hsignals with ⟨rownum, _, hrow⟩
  apply hattributed.log
  unfold State.row at hrow
  apply List.mem_of_getElem? hrow

def startAndStop : List Action :=
  [.choose .startAll, .extract, .launch (some 100), .openSocket 100 ⟨.tcp, 80, none⟩, .poll,
    .launch none] ++ List.replicate 11 .poll ++ [.fuser, .exit, .choose .stopAll]

theorem kill_own_tomcat
    : ∃ s, (system.restrict Attributes).Reachable s ∧ s.pc = .killing 1 ∧ Own s 100 := by
  have hs : (system.restrict Attributes).Reachable
      { host := [⟨100, .server 1, [⟨.tcp, 80, none⟩], false⟩]
        directory := some ⟨some [100]⟩
        pc := .killing 1
        generation := 1
        launches := [(1, 100)] } := by
    have hinit : (system.restrict Attributes).Reachable { host := [] } := by
      exact .init (init_of_foreign (by simp))
    apply Lts.reachable_restrict_of_exec startAndStop hinit (by decide)
  exact ⟨_, hs, rfl, kill_own hs ⟨1, rfl, rfl⟩⟩

def webServer : Process :=
  ⟨7, .foreign, [⟨.tcp, 80, none⟩], false⟩

theorem kill_not_own
    : ¬ ∀ s, system.Reachable s → ∀ pid, Signals s pid → Own s pid := by
  intro h
  have hs : system.Reachable
      { host := [⟨100, .server 1, [], false⟩, webServer]
        directory := some ⟨some [7]⟩
        pc := .killing 1
        generation := 1
        launches := [(1, 100)] } := by
    have hinit : system.Reachable { host := [webServer] } := by
      exact .init (init_of_foreign (by simp [webServer]))
    apply Lts.reachable_of_exec
      ([.choose .startAll, .extract, .launch (some 100), .poll, .launch none]
        ++ List.replicate 11 .poll ++ [.fuser, .exit, .choose .stopAll]) hinit (by decide)
  have hown := (h _ hs 7 ⟨1, rfl, rfl⟩).right webServer (by simp) rfl
  contradiction

end SampleToRun
