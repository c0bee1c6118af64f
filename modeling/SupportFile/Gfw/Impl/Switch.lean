import SupportFile.Sed.Basic
import SupportFile.While.Basic

/-!
This module contains the branches `V2Ray` and `Show` of `switch.sh`, and the template of the
configuration that the first one fills in.
-/

namespace Switch

def ascii (s : String) : List Char :=
  s.toByteArray.data.toList.map (fun b => Char.ofNat b.toNat)

example : ascii "\"port\"" = ['"', 'p', 'o', 'r', 't', '"'] := by
  decide

-- What `shuf -i 10000-40000 -n 1` prints.
abbrev Port := { n : Nat // 10000 ≤ n ∧ n ≤ 40000 }

def Port.text (port : Port) : List Char :=
  Nat.toDigits 10 port.val

def isUuidChar (c : Char) : Bool :=
  ('0' ≤ c && c ≤ '9') || ('a' ≤ c && c ≤ 'f') || c == '-'

def isUuid (s : List Char) : Bool :=
  (s.splitOn '-').map List.length == [8, 4, 4, 4, 12] && s.all isUuidChar

-- What `uuidgen` prints.
abbrev Uuid := { s : List Char // isUuid s = true }

-- The lines of `config_server.json`.
def configServer : List (List Char) :=
  [
    "\x7b",
    "  \"log\": \x7b",
    "    \"access\": \"/etc/v2ray/access.log\",",
    "    \"error\": \"/etc/v2ray/error.log\",",
    "    \"loglevel\": \"warning\"",
    "  \x7d,",
    "  \"inbound\": \x7b",
    "    \"port\": 11111,",
    "    \"protocol\": \"vmess\",",
    "    \"settings\": \x7b",
    "      \"clients\": [",
    "        \x7b",
    "          \"id\": \"uuid\",",
    "          \"level\": 1,",
    "          \"alterId\": 64,",
    "          \"security\": \"auto\"",
    "        \x7d",
    "      ],",
    "      \"detour\": \x7b",
    "        \"to\": \"dynamicPort\"",
    "      \x7d",
    "    \x7d,",
    "    \"streamSettings\": \x7b",
    "      \"network\": \"mkcp\"",
    "    \x7d",
    "  \x7d,",
    "  \"outbound\": \x7b",
    "    \"protocol\": \"freedom\",",
    "    \"settings\": \x7b\x7d",
    "  \x7d,",
    "  \"inboundDetour\": [",
    "    \x7b",
    "      \"port\": 22222,",
    "      \"protocol\": \"vmess\",",
    "      \"settings\": \x7b",
    "        \"clients\": [",
    "          \x7b",
    "            \"id\": \"uuid\",",
    "            \"level\": 1,",
    "            \"alterId\": 64,",
    "            \"security\": \"auto\"",
    "          \x7d",
    "        ]",
    "      \x7d,",
    "      \"allocate\": \x7b",
    "        \"strategy\": \"always\"",
    "      \x7d",
    "    \x7d,",
    "    \x7b",
    "      \"protocol\": \"vmess\",",
    "      \"port\": \"10000-40000\",",
    "      \"tag\": \"dynamicPort\",",
    "      \"settings\": \x7b",
    "        \"default\": \x7b",
    "          \"level\": 1,",
    "          \"alterId\": 32",
    "        \x7d",
    "      \x7d,",
    "      \"allocate\": \x7b",
    "        \"strategy\": \"random\",",
    "        \"concurrency\": 2,",
    "        \"refresh\": 5",
    "      \x7d,",
    "      \"streamSettings\": \x7b",
    "        \"network\": \"mkcp\"",
    "      \x7d",
    "    \x7d",
    "  ],",
    "  \"outboundDetour\": [",
    "    \x7b",
    "      \"protocol\": \"blackhole\",",
    "      \"settings\": \x7b\x7d,",
    "      \"tag\": \"blocked\"",
    "    \x7d",
    "  ],",
    "  \"routing\": \x7b",
    "    \"strategy\": \"rules\",",
    "    \"settings\": \x7b",
    "      \"rules\": [",
    "        \x7b",
    "          \"type\": \"field\",",
    "          \"ip\": [",
    "            \"0.0.0.0/8\",",
    "            \"10.0.0.0/8\",",
    "            \"100.64.0.0/10\",",
    "            \"127.0.0.0/8\",",
    "            \"169.254.0.0/16\",",
    "            \"172.16.0.0/12\",",
    "            \"192.0.0.0/24\",",
    "            \"192.0.2.0/24\",",
    "            \"192.168.0.0/16\",",
    "            \"198.18.0.0/15\",",
    "            \"198.51.100.0/24\",",
    "            \"203.0.113.0/24\",",
    "            \"::1/128\",",
    "            \"fc00::/7\",",
    "            \"fe80::/10\"",
    "          ],",
    "          \"outboundTag\": \"blocked\"",
    "        \x7d",
    "      ]",
    "    \x7d",
    "  \x7d,",
    "  \"transport\": \x7b",
    "    \"kcpSettings\": \x7b",
    "      \"mtu\": 1350,",
    "      \"tti\": 20,",
    "      \"uplinkCapacity\": 20,",
    "      \"downlinkCapacity\": 100,",
    "      \"congestion\": false,",
    "      \"readBufferSize\": 1,",
    "      \"writeBufferSize\": 1,",
    "      \"header\": \x7b",
    "        \"type\": \"srtp\"",
    "      \x7d",
    "    \x7d",
    "  \x7d",
    "\x7d"
  ].map ascii

def someUuid : Uuid :=
  ⟨ascii "3f2504e0-4f89-41d3-9a0c-0305e82c3301", by decide⟩

def replacePortDy (port_dy : List Char) (file : List (List Char)) : List (List Char) :=
  let replace_string := ascii "\"port\": 11111"
  let replace_with := ascii "\"port\": " ++ port_dy
  Sed.substituteLines replace_string replace_with file

def replacePortAl (port_al : List Char) (file : List (List Char)) : List (List Char) :=
  let replace_string := ascii "\"port\": 22222"
  let replace_with := ascii "\"port\": " ++ port_al
  Sed.substituteLines replace_string replace_with file

def replaceUuid (uuid : Uuid) (file : List (List Char)) : List (List Char) :=
  let replace_string := ascii "\"id\": \"uuid\""
  let replace_with := ascii "\"id\": \"" ++ uuid.val ++ ascii "\""
  Sed.substituteLines replace_string replace_with file

def substitutions (port_dy port_al : Port) (uuid : Uuid) : List (List Char) :=
  replaceUuid uuid (replacePortAl port_al.text (replacePortDy port_dy.text configServer))

def showV2ray (file : List (List Char)) : Option (List Char) × Option (List Char) :=
  (Sed.printLine 8 file, Sed.printLine 13 file)

inductive Event where
  | shuf (port : Port)
  | lsof (port : Port) (occupy : List Char)
  deriving DecidableEq, Repr

/-- What the commands print when they are called for the first time, the second time and so on. -/
structure World where
  shuf : Nat → Port
  lsof : Nat → List Char
  uuidgen : Uuid

structure Env where
  calls : Nat := 0
  trace : List Event := []
  port_dy : Option Port := none
  port_al : Option Port := none
  occupy : List Char := []
  config : List (List Char) := configServer

def expand (port : Option Port) : List Char :=
  match port with
  | some port => port.text
  | none => []

def draw (w : World) (assign : Port → Env → Env) (env : Env) : Env :=
  let port := w.shuf env.calls
  let occupy := w.lsof env.calls
  { assign port env with
    occupy := occupy
    calls := env.calls + 1
    trace := env.trace ++ [.shuf port, .lsof port occupy] }

def drawDy (w : World) : Env → Env :=
  draw w (fun port env => { env with port_dy := some port })

def drawAl (w : World) : Env → Env :=
  draw w (fun port env => { env with port_al := some port })

def whileDy (env : Env) : Bool :=
  !env.occupy.isEmpty

def whileAl (env : Env) : Bool :=
  -- The names of the variables are compared and not their values.
  !env.occupy.isEmpty || "port_al" == "port_dy"

def v2ray (w : World) (fuel : Nat) : Option Env := do
  let env ← While.loop whileDy (drawDy w) fuel (drawDy w {})
  let env := { env with config := replacePortDy (expand env.port_dy) env.config }
  let env ← While.loop whileAl (drawAl w) fuel (drawAl w env)
  let env := { env with config := replacePortAl (expand env.port_al) env.config }
  return { env with config := replaceUuid w.uuidgen env.config }

end Switch
