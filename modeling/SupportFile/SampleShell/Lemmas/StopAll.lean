import SupportFile.SampleShell.Lemmas.Progress

/-!
This module contains what "Stop all" does to the processes of the host, while these start, end and use
their sockets: those written in `pid.log` are signalled, and no others.
-/

namespace Host

theorem mem_signal {host : Host} {target : Process → Bool} {p' : Process}
    (h : p' ∈ host.signal target)
    : ∃ p ∈ host, p.pid = p'.pid ∧ p'.signalled = (target p || p.signalled) := by
  unfold signal at h
  rcases List.mem_map.mp h with ⟨p, hp, rfl⟩
  refine ⟨p, hp, ?_⟩
  split
  . next htarget =>
    rw [htarget]
    exact ⟨rfl, rfl⟩
  . next htarget =>
    rw [Bool.not_eq_true] at htarget
    rw [htarget]
    exact ⟨rfl, rfl⟩

theorem isUsed_iff {host : Host} {pid : Pid} : host.isUsed pid = true ↔ ∃ p ∈ host, p.pid = pid := by
  unfold isUsed
  simp only [List.any_eq_true, beq_iff_eq]

theorem isUsed_map {host : Host} {f : Process → Process} (hf : ∀ p, (f p).pid = p.pid) (pid : Pid)
    : isUsed (host.map f) pid = host.isUsed pid := by
  simp [isUsed, List.any_map, Function.comp_def, hf]

theorem mem_update {host : Host} (pid : Pid) (f : List Socket → List Socket) {p' : Process}
    (h : p' ∈ host.update pid f)
    : ∃ p ∈ host, p.pid = p'.pid ∧ p.signalled = p'.signalled := by
  unfold update at h
  rcases List.mem_map.mp h with ⟨p, hp, rfl⟩
  refine ⟨p, hp, ?_⟩
  split
  . exact ⟨rfl, rfl⟩
  . exact ⟨rfl, rfl⟩

theorem isUsed_update (host : Host) (pid : Pid) (f : List Socket → List Socket) (pid' : Pid)
    : (host.update pid f).isUsed pid' = host.isUsed pid' := by
  unfold update
  apply isUsed_map
  intro p
  split
  . rfl
  . rfl

theorem isUsed_kill (host : Host) (pid pid' : Pid)
    : (host.kill pid).isUsed pid' = host.isUsed pid' := by
  unfold kill signal
  apply isUsed_map
  intro p
  split
  . rfl
  . rfl

end Host

namespace SampleToRun

/-- A process of `s'` was there in `s`, signalled or not as it is now, or it has a new number. -/
theorem surroundings_mem {s s' : State} {action : Action} (h : surroundings s action = some s')
    {p' : Process} (hp' : p' ∈ s'.host)
    : (∃ p ∈ s.host, p.pid = p'.pid ∧ p.signalled = p'.signalled)
        ∨
      p'.signalled = false ∧ s.host.isUsed p'.pid = false := by
  unfold surroundings at h
  split at h
  . cases h
    exact .inl ⟨p', hp', rfl, rfl⟩
  . next pid =>
    split at h
    . contradiction
    . next hused =>
      cases h
      cases hp' with
      | head => exact .inr ⟨rfl, by simpa using hused⟩
      | tail _ hp' => exact .inl ⟨p', hp', rfl, rfl⟩
  . cases h
    exact .inl ⟨p', (List.mem_filter.mp hp').left, rfl, rfl⟩
  . next pid socket =>
    cases h
    exact .inl (Host.mem_update pid (fun l => socket :: l) hp')
  . next pid socket =>
    cases h
    exact .inl (Host.mem_update pid (fun l => l.erase socket) hp')
  . contradiction

theorem surroundings_isUsed {s s' : State} {action : Action} (h : surroundings s action = some s')
    {pid : Pid} (haction : action ≠ .terminate pid) (hused : s.host.isUsed pid = true)
    : s'.host.isUsed pid = true := by
  unfold surroundings at h
  split at h
  . cases h
    exact hused
  . split at h
    . contradiction
    . cases h
      unfold Host.isUsed at *
      rw [List.any_cons, hused, Bool.or_true]
  . next pid' =>
    cases h
    rcases Host.isUsed_iff.mp hused with ⟨p, hp, rfl⟩
    apply Host.isUsed_iff.mpr
    refine ⟨p, List.mem_filter.mpr ⟨hp, ?_⟩, rfl⟩
    rw [bne_iff_ne]
    rintro rfl
    contradiction
  . next pid' socket =>
    cases h
    exact (s.host.isUsed_update pid' (fun l => socket :: l) pid).trans hused
  . next pid' socket =>
    cases h
    exact (s.host.isUsed_update pid' (fun l => l.erase socket) pid).trans hused
  . contradiction

section StopAll

variable {pids : List Pid}

structure Stopping (pids : List Pid) (s : State) : Prop where
  pc : s.pc = .idle ∨ s.pc = .removing
    ∨ ∃ rownum, 1 ≤ rownum ∧ rownum ≤ pids.length + 1 ∧ s.pc = .killing rownum
  log : s.pc ≠ .idle → s.pidLog = some pids
  removed : s.pc = .idle → s.directory = some {}

def todo (pids : List Pid) (s : State) : List Action :=
  match s.pc with
  | .killing rownum => List.replicate (pids.length + 2 - rownum) .kill ++ [.remove]
  | .removing => [.remove]
  | _ => []

-- The rows of the file that have been read.
def handled (pids : List Pid) (s : State) : List Pid :=
  match s.pc with
  | .killing rownum => pids.take (rownum - 1)
  | _ => pids

/-- A step of the script while it stops the processes: `pid` is the one that it signals, if any. -/
inductive Stops (pids : List Pid) (s : State) : Action → State → Prop where
  | kill (rownum : Nat) (pid : Pid) : s.pc = .killing rownum → 1 ≤ rownum →
      pids[rownum - 1]? = some pid →
      Stops pids s .kill { s with host := s.host.kill pid, pc := .killing (rownum + 1) }
  | last (rownum : Nat) : s.pc = .killing rownum → rownum = pids.length + 1 →
      Stops pids s .kill { s with pc := .removing }
  | remove : s.pc = .removing → Stops pids s .remove { s with directory := some {}, pc := .idle }

theorem Stopping.stops {s s' : State} (hs : Stopping pids s) {action : Action}
    (h : Proceeds s action s')
    : Stops pids s action s' := by
  have hpc := hs.pc
  cases h with
  | @kill rownum hkilling =>
    rw [hkilling] at hpc
    simp only [reduceCtorEq, Pc.killing.injEq, false_or] at hpc
    rcases hpc with ⟨_, hle, hle', rfl⟩
    have hrow : s.row rownum = pids[rownum - 1]? := by
      unfold State.row
      rw [hs.log (by rw [hkilling]; simp), Option.getD_some]
    unfold SampleToRun.kill
    rw [hrow]
    cases hpid : pids[rownum - 1]? with
    | some pid => exact .kill rownum pid hkilling hle hpid
    | none =>
      rw [List.getElem?_eq_none_iff] at hpid
      exact .last rownum hkilling (by omega)
  | remove hremoving => exact .remove hremoving
  | giveUp h | extract h | launch h | poll h | fuser h | exit h =>
    rw [h] at hpc
    simp at hpc

theorem Stopping.step {s s' : State} (hs : Stopping pids s) {action : Action}
    (haction : action.isChoice = false) (h : step s action = some s')
    : Stopping pids s' ∧ todo pids s = [action].filter Action.isOwn ++ todo pids s' := by
  cases step_cases h with
  | chosen choice hchoice =>
    rw [hchoice] at haction
    contradiction
  | other hother hsurroundings =>
    rcases surroundings_frame hsurroundings with ⟨hpc, hdirectory⟩
    constructor
    . constructor
      . rw [hpc]
        exact hs.pc
      . rw [hpc, State.pidLog, hdirectory]
        exact hs.log
      . rw [hpc, hdirectory]
        exact hs.removed
    . unfold todo
      rw [hpc, List.filter_cons, hother]
      rfl
  | own hown hproceeds =>
    cases hs.stops hproceeds with
    | kill rownum pid hpc hle hpid =>
      have hlt := (List.getElem?_eq_some_iff.mp hpid).choose
      constructor
      . constructor
        . exact .inr (.inr ⟨rownum + 1, by omega, by omega, rfl⟩)
        . intro _
          exact hs.log (by rw [hpc]; simp)
        . intro hidle
          contradiction
      . have hsucc : pids.length + 2 - rownum = pids.length + 2 - (rownum + 1) + 1 := by
          omega
        simp only [todo, hpc]
        rw [hsucc, List.replicate_succ]
        rfl
    | last rownum hpc hlast =>
      constructor
      . constructor
        . exact .inr (.inl rfl)
        . intro _
          exact hs.log (by rw [hpc]; simp)
        . intro hidle
          contradiction
      . have hone : pids.length + 2 - rownum = 1 := by
          omega
        simp only [todo, hpc]
        rw [hone]
        rfl
    | remove hpc =>
      constructor
      . constructor
        . exact .inl rfl
        . intro hidle
          contradiction
        . intro _
          rfl
      . simp only [todo, hpc]
        rfl

structure Signalled (pids : List Pid) (pid : Pid) (s : State) : Prop where
  isUsed : s.host.isUsed pid = true
  signalled : pid ∈ handled pids s → ∀ p ∈ s.host, p.pid = pid → p.signalled = true

theorem mem_take_succ {rownum : Nat} (hle : 1 ≤ rownum) {pid : Pid}
    (hpid : pids[rownum - 1]? = some pid) (pid' : Pid)
    : pid' ∈ pids.take (rownum + 1 - 1) ↔ pid' ∈ pids.take (rownum - 1) ∨ pid' = pid := by
  have hsucc : rownum + 1 - 1 = rownum - 1 + 1 := by
    omega
  rw [hsucc, List.take_add_one, hpid, List.mem_append]
  simp

theorem Signalled.step {s s' : State} (hs : Stopping pids s) {pid : Pid} (hsig : Signalled pids pid s)
    {action : Action} (haction : action.isChoice = false) (hterminate : action ≠ .terminate pid)
    (h : step s action = some s')
    : Signalled pids pid s' := by
  cases step_cases h with
  | chosen choice hchoice =>
    rw [hchoice] at haction
    contradiction
  | other _ hsurroundings =>
    constructor
    . exact surroundings_isUsed hsurroundings hterminate hsig.isUsed
    . intro hhandled p' hp' hpid
      unfold handled at hhandled
      rw [(surroundings_frame hsurroundings).left] at hhandled
      cases surroundings_mem hsurroundings hp' with
      | inl hold =>
        rcases hold with ⟨p, hp, hsame, hsignalled⟩
        rw [← hsignalled]
        exact hsig.signalled hhandled p hp (hsame.trans hpid)
      | inr hnew =>
        rw [hpid, hsig.isUsed] at hnew
        exact absurd hnew.right (by simp)
  | own _ hproceeds =>
    cases hs.stops hproceeds with
    | kill rownum pid' hpc hle hpid' =>
      constructor
      . exact (s.host.isUsed_kill pid' pid).trans hsig.isUsed
      . intro hhandled p' hp' hpid
        rcases Host.mem_signal hp' with ⟨p, hp, hsame, hsignalled⟩
        rw [hsignalled, Bool.or_eq_true, beq_iff_eq]
        cases (mem_take_succ hle hpid' pid).mp hhandled with
        | inl hbefore =>
          refine .inr (hsig.signalled ?_ p hp (hsame.trans hpid))
          simpa only [handled, hpc] using hbefore
        | inr hnow => exact .inl ((hsame.trans hpid).trans hnow)
    | last rownum hpc hlast =>
      constructor
      . exact hsig.isUsed
      . intro hhandled
        apply hsig.signalled
        simp only [handled, hpc]
        rw [hlast, Nat.add_sub_cancel, List.take_length]
        exact hhandled
    | remove hpc =>
      constructor
      . exact hsig.isUsed
      . intro hhandled
        apply hsig.signalled
        simpa only [handled, hpc] using hhandled

/-- Nothing is signalled but what is written in the file, or was signalled before. -/
def OnlyListed (pids : List Pid) (host : Host) (s : State) : Prop :=
  ∀ p ∈ s.host, p.signalled = true → p.pid ∈ pids ∨ ∃ p' ∈ host, p'.pid = p.pid ∧ p'.signalled = true

theorem OnlyListed.step {s s' : State} (hs : Stopping pids s) {host : Host}
    (honly : OnlyListed pids host s) {action : Action} (haction : action.isChoice = false)
    (h : step s action = some s')
    : OnlyListed pids host s' := by
  intro p' hp' hsignalled'
  cases step_cases h with
  | chosen choice hchoice =>
    rw [hchoice] at haction
    contradiction
  | other _ hsurroundings =>
    cases surroundings_mem hsurroundings hp' with
    | inl hold =>
      rcases hold with ⟨p, hp, hsame, hsignalled⟩
      rw [← hsame]
      exact honly p hp (hsignalled.trans hsignalled')
    | inr hnew =>
      rw [hnew.left] at hsignalled'
      contradiction
  | own _ hproceeds =>
    cases hs.stops hproceeds with
    | kill rownum pid hpc hle hpid =>
      rcases Host.mem_signal hp' with ⟨p, hp, hsame, hsignalled⟩
      rw [hsignalled', eq_comm, Bool.or_eq_true, beq_iff_eq] at hsignalled
      rw [← hsame]
      cases hsignalled with
      | inl hkilled =>
        rw [hkilled]
        exact .inl (List.mem_of_getElem? hpid)
      | inr hsignalled => exact honly p hp hsignalled
    | last rownum hpc hlast => exact honly p' hp' hsignalled'
    | remove hpc => exact honly p' hp' hsignalled'

end StopAll

end SampleToRun
