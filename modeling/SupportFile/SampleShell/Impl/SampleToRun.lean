import SupportFile.Lts.Basic
import SupportFile.SampleShell.Impl.Host

/-!
This module contains the installer as a transition system. Its invocations follow one another, and
between any two of its commands the other processes of the host and the servers do as they like.
-/

namespace SampleToRun

inductive Server where
  | tomcat
  | mechat
  | charServerApp
  | charServerManage
  deriving DecidableEq, Repr

def Server.port (server : Server) : Nat :=
  match server with
  | .tomcat => 80
  | .mechat => 8887
  | .charServerApp => 50100
  | .charServerManage => 50200

def Server.polls (server : Server) : Nat :=
  -- The bound of the test `[ $count -gt 10 ]`, which the last server has raised.
  match server with
  | .tomcat | .mechat | .charServerApp => 10
  | .charServerManage => 40

def Server.next (server : Server) : Option Server :=
  match server with
  | .tomcat => some .mechat
  | .mechat => some .charServerApp
  | .charServerApp => some .charServerManage
  | .charServerManage => none

inductive Choice where
  | startAll
  | stopAll
  | clear
  | quit
  deriving DecidableEq, Repr

/--
Where the script is. `launched` is the process of the server that it waits for, which the script
itself does not know.
-/
inductive Pc where
  | idle
  -- The status check has been passed, everything up to the archive is being installed.
  | starting
  | launching (server : Server)
  | polling (server : Server) (count : Nat) (launched : Option Pid)
  | failing (server : Server) (launched : Option Pid)
  | exiting (launched : Option Pid)
  | killing (rownum : Nat)
  | removing
  deriving DecidableEq, Repr

structure Directory where
  pidLog : Option (List Pid) := none
  deriving DecidableEq, Repr

/--
`package` tells whether the script and its archive are there, which `rm -f sample_to_run*` removes.
`launches` remembers which process was launched by which run of "Start all".
-/
structure State where
  host : Host
  package : Bool := true
  directory : Option Directory := none
  pc : Pc := .idle
  generation : Nat := 0
  launches : List (Nat × Pid) := []
  deriving DecidableEq, Repr

inductive Action where
  | choose (choice : Choice)
  | giveUp
  | extract
  | launch (pid : Option Pid)
  | poll
  | fuser
  | exit
  | kill
  | remove
  | upload
  | spawn (pid : Pid)
  | terminate (pid : Pid)
  | openSocket (pid : Pid) (socket : Socket)
  | closeSocket (pid : Pid) (socket : Socket)
  deriving DecidableEq, Repr

def State.pidLog (s : State) : Option (List Pid) :=
  s.directory.bind (·.pidLog)

def choose (s : State) (choice : Choice) : State :=
  match choice with
  | .startAll =>
    if s.pidLog.isSome then
      s
    else
      { s with pc := .starting, generation := s.generation + 1 }
  | .stopAll =>
    if s.pidLog.isSome then
      { s with pc := .killing 1 }
    else
      s
  -- The pattern of `rm -f sample_to_run*` matches the script as well.
  | .clear => { s with package := false, directory := none }
  | .quit => s

def launch (s : State) (server : Server) (pid : Option Pid) : Option State :=
  match pid with
  -- A command that fails leaves no process, and the script does not look at its status.
  | none => some { s with pc := .polling server 0 none }
  | some pid =>
    if s.host.isUsed pid then
      none
    else
      some { s with
        host := { pid := pid, owner := .server s.generation } :: s.host
        launches := (s.generation, pid) :: s.launches
        pc := .polling server 0 (some pid) }

def poll (s : State) (server : Server) (count : Nat) (launched : Option Pid) : State :=
  let count := count + 1
  let pids := s.host.lsof server.port
  if pids ≠ [] then
    { s with
      directory := some { pidLog := some (s.pidLog.getD [] ++ pids) }
      pc :=
        match server.next with
        | some server => .launching server
        | none => .idle }
  else if count > server.polls then
    { s with pc := .failing server launched }
  else
    { s with pc := .polling server count launched }

def State.row (s : State) (rownum : Nat) : Option Pid :=
  -- The script asks `sed` for the line.
  (s.pidLog.getD [])[rownum - 1]?

def kill (s : State) (rownum : Nat) : State :=
  match s.row rownum with
  | some pid => { s with host := s.host.kill pid, pc := .killing (rownum + 1) }
  | none => { s with pc := .removing }

def surroundings (s : State) (action : Action) : Option State :=
  match action with
  | .upload => some { s with package := true }
  | .spawn pid =>
    if s.host.isUsed pid then
      none
    else
      some { s with host := { pid := pid, owner := .foreign } :: s.host }
  | .terminate pid => some { s with host := s.host.terminate pid }
  | .openSocket pid socket => some { s with host := s.host.update pid (fun l => socket :: l) }
  | .closeSocket pid socket => some { s with host := s.host.update pid (fun l => l.erase socket) }
  | _ => none

def step (s : State) (action : Action) : Option State :=
  match action, s.pc with
  | .choose choice, .idle => if s.package then some (choose s choice) else none
  | .giveUp, .starting => some { s with pc := .idle }
  | .extract, .starting => some { s with directory := some {}, pc := .launching .tomcat }
  | .launch pid, .launching server => launch s server pid
  | .poll, .polling server count launched => some (poll s server count launched)
  -- Only a process that has bound the port is signalled.
  | .fuser, .failing server launched =>
    some { s with host := s.host.fuser server.port, pc := .exiting launched }
  | .exit, .exiting _ => some { s with pc := .idle }
  | .kill, .killing rownum => some (kill s rownum)
  | .remove, .removing => some { s with directory := some {}, pc := .idle }
  | action, _ => surroundings s action

def system : Lts State Action :=
  Lts.ofFun (fun s => ∃ host : Host, (∀ p ∈ host, p.owner = .foreign) ∧ s = { host := host }) step

end SampleToRun
