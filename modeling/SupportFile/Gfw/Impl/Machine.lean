import SupportFile.Gfw.Impl.Switch
import SupportFile.Transducer.Basic

/-!
This module contains the branch `SSR` of `switch.sh`, and the script over one invocation after the other:
what its branches leave in the two directories, and what they print.
-/

namespace Switch

-- The lines of `user-config.json`.
def userConfig : List (List Char) :=
  [
    "\x7b",
    "    \"server\": \"0.0.0.0\",",
    "    \"server_ipv6\": \"::\",",
    "    \"server_port\": 11111,",
    "    \"local_address\": \"127.0.0.1\",",
    "    \"local_port\": 1080,",
    "",
    "    \"password\": \"uuid\",",
    "    \"method\": \"aes-256-ctr\",",
    "    \"protocol\": \"auth_aes128_md5\",",
    "    \"protocol_param\": \"\",",
    "    \"obfs\": \"tls1.2_ticket_auth_compatible\",",
    "    \"obfs_param\": \"\",",
    "    \"speed_limit_per_con\": 0,",
    "    \"speed_limit_per_user\": 0,",
    "",
    "    \"additional_ports\" : \x7b\x7d, // only works under multi-user mode",
    "    \"additional_ports_only\" : false, // only works under multi-user mode",
    "    \"timeout\": 120,",
    "    \"udp_timeout\": 60,",
    "    \"dns_ipv6\": false,",
    "    \"connect_verbose_info\": 0,",
    "    \"redirect\": \"\",",
    "    \"fast_open\": false",
    "\x7d"
  ].map ascii

def replaceServerPort (port : List Char) (file : List (List Char)) : List (List Char) :=
  let replace_string := ascii "\"server_port\": 11111"
  let replace_with := ascii "\"server_port\": " ++ port
  Sed.substituteLines replace_string replace_with file

def replacePassword (password : Uuid) (file : List (List Char)) : List (List Char) :=
  let replace_string := ascii "\"password\": \"uuid\""
  let replace_with := ascii "\"password\": \"" ++ password.val ++ ascii "\""
  Sed.substituteLines replace_string replace_with file

structure SsrEnv where
  calls : Nat := 0
  port : Option Port := none
  occupy : List Char := []
  config : List (List Char) := userConfig

def drawPort (w : World) (env : SsrEnv) : SsrEnv :=
  let port := w.shuf env.calls
  let occupy := w.lsof env.calls
  { env with port := some port, occupy := occupy, calls := env.calls + 1 }

def ssr (w : World) (fuel : Nat) : Option SsrEnv := do
  let env ← While.loop (fun env => !env.occupy.isEmpty) (drawPort w) fuel (drawPort w {})
  let env := { env with config := replaceServerPort (expand env.port) env.config }
  return { env with config := replacePassword w.uuidgen env.config }

structure Directory where
  config : Option (List (List Char))
  deriving DecidableEq, Repr

/-- `/etc/v2ray`, and `shadowsocksr` in the directory that the script is always called from. -/
structure Machine where
  v2ray : Option Directory := none
  shadowsocksr : Option Directory := none
  deriving DecidableEq, Repr

/--
The options with the world that their commands meet. `cloned` tells whether the program gets its
directory, by `go.sh` or by `git clone`, and `wget` whether the configuration is downloaded.
-/
inductive Opt where
  | v2ray (w : World) (cloned wget : Bool)
  | ssr (w : World) (cloned wget : Bool)
  | shows
  | quit

-- What is not there is not moved and not edited either.
def installed (cloned wget : Bool) (config : List (List Char)) : Option Directory :=
  if cloned then
    some { config := if wget then some config else none }
  else
    none

def sedLine (n : Nat) (path : List Char) (dir : Directory) : List Char :=
  match dir.config with
  | some file => (Sed.printLine n file).getD []
  | none => ascii "sed: can't read " ++ path ++ ascii ": No such file or directory"

def Machine.showV2ray (m : Machine) : List (List Char) :=
  match m.v2ray with
  | none => [ascii "v2ray is not installed"]
  | some dir =>
    let v2ray_port := sedLine 8 (ascii "/etc/v2ray/config.json") dir
    let v2ray_id := sedLine 13 (ascii "/etc/v2ray/config.json") dir
    [ascii "v2ray ->", v2ray_port, v2ray_id]

def Machine.showSsr (m : Machine) : List (List Char) :=
  match m.shadowsocksr with
  | none => [ascii "ssr is not installed"]
  | some dir =>
    let ssr_port := sedLine 4 (ascii "shadowsocksr/user-config.json") dir
    let ssr_password := sedLine 8 (ascii "shadowsocksr/user-config.json") dir
    [ascii "ssr ->", ssr_port, ssr_password]

def echoV2ray (port_dy port_al : Option Port) (uuid : Uuid) : List (List Char) :=
  [ascii "port_dy -> " ++ expand port_dy, ascii "port_al -> " ++ expand port_al,
    ascii "uuid -> " ++ uuid.val]

def echoSsr (port : Option Port) (password : Uuid) : List (List Char) :=
  [ascii "port -> " ++ expand port, ascii "password -> " ++ password.val]

def choose (fuel : Nat) (m : Machine) (opt : Opt) : Option (Machine × List (List Char)) :=
  match opt with
  | .v2ray w cloned wget =>
    (v2ray w fuel).map (fun env =>
      ({ m with v2ray := installed cloned wget env.config },
        echoV2ray env.port_dy env.port_al w.uuidgen))
  | .ssr w cloned wget =>
    (ssr w fuel).map (fun env =>
      ({ m with shadowsocksr := installed cloned wget env.config }, echoSsr env.port w.uuidgen))
  | .shows => some (m, m.showV2ray ++ m.showSsr)
  | .quit => some (m, [])

def run (fuel : Nat) (m : Machine) (opts : List Opt)
    : Option (Machine × List (List (List Char))) :=
  Transducer.run (choose fuel) m opts

end Switch
