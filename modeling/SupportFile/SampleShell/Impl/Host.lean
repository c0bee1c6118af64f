/-!
This module contains the processes of a host with their internet sockets, and the tools that the
installer uses to look them up and to signal them. A process that has been signalled ends whenever
it likes.
-/

abbrev Pid := Nat

inductive Proto where
  | tcp
  | udp
  deriving DecidableEq, Repr

structure Socket where
  proto : Proto
  localPort : Nat
  remotePort : Option Nat
  deriving DecidableEq, Repr

-- `generation` is the number of the run of the installer that has launched the server.
inductive Owner where
  | foreign
  | server (generation : Nat)
  deriving DecidableEq, Repr

structure Process where
  pid : Pid
  owner : Owner
  sockets : List Socket := []
  signalled : Bool := false
  deriving DecidableEq, Repr

abbrev Host := List Process

def Socket.isOn (socket : Socket) (port : Nat) : Bool :=
  socket.localPort == port || socket.remotePort == some port

def Process.isServer (p : Process) : Bool :=
  match p.owner with
  | .foreign => false
  | .server _ => true

namespace Host

def isUsed (host : Host) (pid : Pid) : Bool :=
  host.any (·.pid == pid)

def lsof (host : Host) (port : Nat) : List Pid :=
  -- The second column of `lsof -i :port`, which has a line for every socket.
  host.flatMap (fun p => (p.sockets.filter (·.isOn port)).map (fun _ => p.pid))

def signal (host : Host) (target : Process → Bool) : Host :=
  host.map (fun p => if target p then { p with signalled := true } else p)

def kill (host : Host) (pid : Pid) : Host :=
  host.signal (·.pid == pid)

def fuser (host : Host) (port : Nat) : Host :=
  host.signal (fun p => p.sockets.any (fun socket => socket.proto == .tcp && socket.localPort == port))

def update (host : Host) (pid : Pid) (f : List Socket → List Socket) : Host :=
  host.map (fun p => if p.pid == pid then { p with sockets := f p.sockets } else p)

def terminate (host : Host) (pid : Pid) : Host :=
  host.filter (·.pid != pid)

end Host
