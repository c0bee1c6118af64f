import SupportFile.SampleShell.Lemmas.Conditions
import SupportFile.SampleShell.Lemmas.Step

/-!
This module contains the proof that "Stop all" can still find every server that was launched, and a
run in which the script loses track of one.
-/

namespace SampleToRun

def Recorded (s : State) (p : Process) : Prop :=
  ∃ log, s.pidLog = some log ∧ p.pid ∈ log

def Tracked (s : State) : Prop :=
  ∀ p ∈ s.host, p.isServer = true → Recorded s p ∨ s.pc.launched = some p.pid

theorem isServer_congr {p p' : Process} (h : p.owner = p'.owner) : p.isServer = p'.isServer := by
  unfold Process.isServer
  rw [h]

theorem Tracked.of_shrinks {s s' : State} (hs : Tracked s) (hhost : s.host.Shrinks s'.host)
    (hlog : s'.pidLog = s.pidLog) (hpc : s'.pc.launched = s.pc.launched)
    : Tracked s' := by
  intro p' hp' hserver
  rcases hhost p' hp' with ⟨p, hp, hpid, howner⟩
  rw [← isServer_congr howner] at hserver
  unfold Recorded
  rw [hlog, hpc, ← hpid]
  apply hs p hp hserver

theorem Tracked.spawned {s s' : State} {pid : Pid} (hs : Tracked s) (hkeeps : Keeps s s')
    (hpc : s'.pc = s.pc) (hhost : s'.host = { pid := pid, owner := .foreign } :: s.host)
    : Tracked s' := by
  intro p hp hserver
  unfold Recorded
  rw [hkeeps.pidLog, hpc]
  rw [hhost, List.mem_cons] at hp
  cases hp with
  | inl hp =>
    subst hp
    contradiction
  | inr hp => exact hs p hp hserver

theorem Tracked.launched {s s' : State} {server : Server} {pid : Pid} (hs : Tracked s)
    (hpc : s.pc = .launching server) (hpc' : s'.pc = .polling server 0 (some pid))
    (hlog : s'.pidLog = s.pidLog)
    (hhost : s'.host = { pid := pid, owner := .server s.generation } :: s.host)
    : Tracked s' := by
  intro p hp hserver
  unfold Recorded
  rw [hlog, hpc']
  rw [hhost, List.mem_cons] at hp
  cases hp with
  | inl hp =>
    subst hp
    exact .inr rfl
  | inr hp =>
    have hrecorded := hs p hp hserver
    rw [hpc] at hrecorded
    cases hrecorded with
    | inl hrecorded => exact .inl hrecorded
    | inr hnone => contradiction

theorem Tracked.recorded {s s' : State} {server : Server} {count : Nat} {launched : Option Pid}
    (hs : Tracked s) (hpc : s.pc = .polling server count launched) (hkeeps : KeepsTrack s .poll)
    (hpids : s.host.lsof server.port ≠ [])
    (hlog : s'.pidLog = some (s.pidLog.getD [] ++ s.host.lsof server.port))
    (hhost : s'.host = s.host)
    : Tracked s' := by
  intro p hp hserver
  rw [hhost] at hp
  left
  refine ⟨_, hlog, ?_⟩
  rw [List.mem_append]
  cases hs p hp hserver with
  | inl hrecorded =>
    rcases hrecorded with ⟨log, hsome, hmem⟩
    left
    rw [hsome]
    exact hmem
  | inr hlaunched =>
    -- The script stops waiting for the server here, so the poll has to list it.
    right
    unfold KeepsTrack KeepsTrackAt at hkeeps
    rw [hpc] at hkeeps hlaunched
    apply hkeeps hpids p hp hserver hlaunched

theorem Tracked.left {s s' : State} {launched : Option Pid} (hs : Tracked s)
    (hkeeps : Keeps s s') (hpc : s.pc = .exiting launched) (hexit : KeepsTrack s .exit)
    (hhost : s'.host = s.host)
    : Tracked s' := by
  intro p hp hserver
  rw [hhost] at hp
  unfold KeepsTrack KeepsTrackAt at hexit
  rw [hpc] at hexit
  have htracked := hs p hp hserver
  rw [hpc] at htracked
  cases htracked with
  | inl hrecorded =>
    left
    unfold Recorded
    rw [hkeeps.pidLog]
    exact hrecorded
  | inr hlaunched => exact absurd hlaunched (hexit p hp hserver)

theorem Tracked.of_no_server {s : State} (h : ∀ p ∈ s.host, p.isServer = false) : Tracked s := by
  intro p hp hserver
  rw [h p hp] at hserver
  contradiction

theorem Tracked.no_server {s : State} (hs : Tracked s) (hlog : s.pidLog = none)
    (hpc : s.pc.launched = none)
    : ∀ p ∈ s.host, p.isServer = false := by
  intro p hp
  cases hserver : p.isServer with
  | false => rfl
  | true =>
    cases hs p hp hserver with
    | inl hrecorded =>
      rcases hrecorded with ⟨log, hsome, _⟩
      rw [hlog] at hsome
      contradiction
    | inr hlaunched =>
      rw [hpc] at hlaunched
      contradiction

theorem tracked_inductive : (system.restrict KeepsTrack).Inductive FreshStart Tracked := by
  constructor
  . rintro s ⟨host, hforeign, rfl⟩
    apply Tracked.of_no_server
    intro p hp
    unfold Process.isServer
    rw [hforeign p hp]
  . intro s action s' hfresh hs hstep
    rcases hstep with ⟨hstep, hkeepsTrack⟩
    -- Where `pid.log` is not there afterwards, there must not be any server.
    cases step_effect hstep with
    | quiet hkeeps hhost hpc _ => exact hs.of_shrinks hhost hkeeps.pidLog hpc
    | spawned pid hkeeps _ hpc hhost => exact hs.spawned hkeeps hpc hhost
    | started hpc hpc' hlog hlog' _ _ hhost =>
      apply Tracked.of_no_server
      rw [hhost]
      apply hs.no_server hlog (by rw [hpc]; rfl)
    | extracted hpc hpc' hlog' _ _ hhost =>
      apply Tracked.of_no_server
      rw [hhost]
      apply hs.no_server (hfresh hpc) (by rw [hpc]; rfl)
    | launched server pid hpc hpc' hlog _ _ hhost => exact hs.launched hpc hpc' hlog hhost
    | recorded server count launched haction hpc _ _ hpids hlog _ _ hhost =>
      rw [haction] at hkeepsTrack
      apply hs.recorded hpc hkeepsTrack hpids hlog hhost
    | left launched hkeeps haction hpc _ hhost =>
      rw [haction] at hkeepsTrack
      apply hs.left hkeeps hpc hkeepsTrack hhost
    | erased haction _ _ _ _ hhost =>
      apply Tracked.of_no_server
      rw [hhost]
      cases haction with
      | inl haction =>
        rw [haction] at hkeepsTrack
        exact hkeepsTrack
      | inr haction =>
        rw [haction] at hkeepsTrack
        exact hkeepsTrack

theorem servers_recorded {s : State} (hs : (system.restrict KeepsTrack).Reachable s)
    (hidle : s.pc = .idle)
    : ∀ p ∈ s.host, p.isServer = true → Recorded s p := by
  intro p hp hserver
  have htracked : Tracked s :=
    tracked_inductive.reachable (fun hs => freshStart hs.of_restrict) hs
  have hp := htracked p hp hserver
  rw [hidle] at hp
  cases hp with
  | inl hrecorded => exact hrecorded
  | inr hnone => contradiction

def tomcatOnly : List Action :=
  [.choose .startAll, .extract, .launch (some 100), .openSocket 100 ⟨.tcp, 80, none⟩, .poll,
    .launch none] ++ List.replicate 11 .poll ++ [.fuser, .exit]

theorem servers_recorded_tomcatOnly
    : ∃ s, (system.restrict KeepsTrack).Reachable s ∧ s.pc = .idle
        ∧ ∃ p ∈ s.host, p.isServer = true ∧ Recorded s p := by
  have hs : (system.restrict KeepsTrack).Reachable
      { host := [⟨100, .server 1, [⟨.tcp, 80, none⟩], false⟩]
        directory := some ⟨some [100]⟩
        generation := 1
        launches := [(1, 100)] } := by
    have hinit : (system.restrict KeepsTrack).Reachable { host := [] } := by
      exact .init (init_of_foreign (by simp))
    apply Lts.reachable_restrict_of_exec tomcatOnly hinit (by decide)
  exact ⟨_, hs, rfl, _, List.mem_singleton_self _, rfl,
    servers_recorded hs rfl _ (List.mem_singleton_self _) rfl⟩

def slowTomcat : List Action :=
  [.choose .startAll, .extract, .launch (some 100)] ++ List.replicate 11 .poll ++ [.fuser, .exit]

theorem servers_not_recorded
    : ¬ ∀ s, system.Reachable s → s.pc = .idle →
        ∀ p ∈ s.host, p.isServer = true → Recorded s p := by
  intro h
  have hs : system.Reachable
      { host := [⟨100, .server 1, [], false⟩]
        directory := some {}
        generation := 1
        launches := [(1, 100)] } := by
    have hinit : system.Reachable { host := [] } := by
      exact .init (init_of_foreign (by simp))
    apply Lts.reachable_of_exec slowTomcat hinit (by decide)
  rcases h _ hs rfl ⟨100, .server 1, [], false⟩ (by simp) rfl with ⟨log, hlog, _⟩
  contradiction

end SampleToRun
