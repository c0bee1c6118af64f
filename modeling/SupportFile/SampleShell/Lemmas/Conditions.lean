import SupportFile.SampleShell.Impl.SampleToRun

/-!
This module contains the conditions on the steps of a run under which the installer keeps track of
its servers, and under which it takes no other process for one of them.
-/

namespace SampleToRun

/--
The polls that are taken for success list the server that was launched, as long as it runs. The
script gives up on a server only when it does not run any more, and `pid.log` is deleted only when
no server does.
-/
def KeepsTrackAt (host : Host) (action : Action) (pc : Pc) : Prop :=
  match action, pc with
  | .poll, .polling server _ launched =>
    host.lsof server.port ≠ [] →
      ∀ p ∈ host, p.isServer = true → launched = some p.pid → p.pid ∈ host.lsof server.port
  | .exit, .exiting launched => ∀ p ∈ host, p.isServer = true → launched ≠ some p.pid
  | .remove, _ => ∀ p ∈ host, p.isServer = false
  | .choose .clear, _ => ∀ p ∈ host, p.isServer = false
  | _, _ => True

def KeepsTrack (s : State) (action : Action) : Prop :=
  KeepsTrackAt s.host action s.pc

instance : Decidable (KeepsTrackAt host action pc) := by
  unfold KeepsTrackAt
  split
  all_goals infer_instance

instance : Decidable (KeepsTrack s action) :=
  inferInstanceAs (Decidable (KeepsTrackAt s.host action s.pc))

/--
A poll lists only processes that were launched by the current run of "Start all", and no new
process gets a number that is written in `pid.log`.
-/
def AttributesAt (s : State) (action : Action) (pc : Pc) : Prop :=
  match action, pc with
  | .poll, .polling server _ _ =>
    ∀ p ∈ s.host, p.pid ∈ s.host.lsof server.port → p.owner = .server s.generation
  | .spawn pid, _ => pid ∉ s.pidLog.getD []
  | _, _ => True

def Attributes (s : State) (action : Action) : Prop :=
  AttributesAt s action s.pc

instance : Decidable (AttributesAt s action pc) := by
  unfold AttributesAt
  split
  all_goals infer_instance

instance : Decidable (Attributes s action) :=
  inferInstanceAs (Decidable (AttributesAt s action s.pc))

end SampleToRun
