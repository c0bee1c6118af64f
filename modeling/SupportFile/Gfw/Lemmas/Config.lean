import SupportFile.Gfw.Impl.Switch
import SupportFile.Json.Path
import SupportFile.Json.Render

namespace Switch

open Json

theorem digitChar_spec {d : Nat} (h : d < 10)
    : isDigit d.digitChar = true ∧ d.digitChar ≠ '"' ∧ (d.digitChar = '0' → d = 0) := by
  have hall : ∀ d < 10, isDigit d.digitChar = true ∧ d.digitChar ≠ '"' ∧ (d.digitChar = '0' → d = 0)
      := by
    decide
  apply hall d h

theorem text_eq (port : Port)
    : port.text
        =
      [(port.val / 10000).digitChar, (port.val / 1000 % 10).digitChar,
        (port.val / 100 % 10).digitChar, (port.val / 10 % 10).digitChar,
        (port.val % 10).digitChar] := by
  rcases port with ⟨n, hlo, hhi⟩
  unfold Port.text
  dsimp
  rw [Nat.toDigits_of_base_le (by decide) (by omega), Nat.toDigits_of_base_le (by decide) (by omega),
    Nat.toDigits_of_base_le (by decide) (by omega), Nat.toDigits_of_base_le (by decide) (by omega),
    Nat.toDigits_of_lt_base (by omega)]
  simp [Nat.div_div_eq_div_mul]

theorem text_spec (port : Port)
    : ∃ a b c d e, port.text = [a, b, c, d, e] ∧ a ≠ '0'
        ∧ ∀ x ∈ [a, b, c, d, e], isDigit x = true ∧ x ≠ '"' := by
  refine ⟨_, _, _, _, _, text_eq port, ?_, ?_⟩
  . intro h
    have hzero := (digitChar_spec (d := port.val / 10000) (by omega)).right.right h
    omega
  . have hdigit {d : Nat} (h : d < 10) : isDigit d.digitChar = true ∧ d.digitChar ≠ '"' :=
      ⟨(digitChar_spec h).left, (digitChar_spec h).right.left⟩
    simp only [List.forall_mem_cons, List.not_mem_nil]
    exact ⟨hdigit (by omega), hdigit (by omega), hdigit (by omega), hdigit (by omega),
      hdigit (by omega), by simp⟩

theorem digitChar_injective {d d' : Nat} (hd : d < 10) (hd' : d' < 10)
    (h : d.digitChar = d'.digitChar)
    : d = d' := by
  have hall : ∀ d < 10, ∀ d' < 10, d.digitChar = d'.digitChar → d = d' := by
    decide
  apply hall d hd d' hd' h

theorem text_injective {port port' : Port} (h : port.text = port'.text) : port = port' := by
  have hport := port.property
  have hport' := port'.property
  rw [text_eq, text_eq] at h
  simp only [List.cons.injEq] at h
  rcases h with ⟨h₄, h₃, h₂, h₁, h₀, _⟩
  have h₄ := digitChar_injective (by omega) (by omega) h₄
  have h₃ := digitChar_injective (by omega) (by omega) h₃
  have h₂ := digitChar_injective (by omega) (by omega) h₂
  have h₁ := digitChar_injective (by omega) (by omega) h₁
  have h₀ := digitChar_injective (by omega) (by omega) h₀
  apply Subtype.ext
  omega

theorem isNumber_text (port : Port) : isNumber port.text = true := by
  rcases text_spec port with ⟨a, b, c, d, e, htext, hne, hall⟩
  rw [htext]
  simp only [List.forall_mem_cons, List.not_mem_nil] at hall
  rcases hall with ⟨⟨ha, _⟩, ⟨hb, _⟩, ⟨hc, _⟩, ⟨hd, _⟩, ⟨he, _⟩, _⟩
  have hminus : a ≠ '-' := by
    rintro rfl
    revert ha
    decide
  simp [isNumber, isUnsigned, isFrac, hminus, hne, ha, hb, hc, hd, he]

theorem all_isUnescaped (uuid : Uuid) : uuid.val.all isUnescaped = true := by
  have huuid := uuid.property
  unfold isUuid at huuid
  rw [Bool.and_eq_true, List.all_eq_true] at huuid
  rw [List.all_eq_true]
  intro c hc
  have hc := huuid.right c hc
  have hascii : ∀ n < 0x80, isUuidChar (Char.ofNat n) = true → isUnescaped (Char.ofNat n) = true := by
    decide
  have hlt : c.toNat < 0x80 := by
    have hle : c ≤ 'f' := by
      unfold isUuidChar at hc
      simp only [Bool.or_eq_true, Bool.and_eq_true, decide_eq_true_eq, beq_iff_eq] at hc
      rcases hc with (hc | hc) | hc
      . apply Char.le_trans hc.right (by decide)
      . apply hc.right
      . subst hc
        decide
    apply Nat.lt_of_le_of_lt hle (by decide)
  have hspec := hascii c.toNat hlt
  rw [Char.ofNat_toNat] at hspec
  apply hspec hc

section Lines

def withPlaces (port_dy id_dy port_al id_al : List Char) : List (List Char) :=
  (((configServer.set 12 id_dy).set 37 id_al).set 32 port_al).set 7 port_dy

def portLine (blanks : String) (port : List Char) : List Char :=
  ascii blanks ++ (ascii "\"port\": " ++ port) ++ ascii ","

def idLine (blanks : String) (id : List Char) : List Char :=
  ascii blanks ++ (ascii "\"id\": \"" ++ id ++ ascii "\"") ++ ascii ","

theorem replacePortDy_configServer (port_dy : List Char)
    : replacePortDy port_dy configServer = configServer.set 7 (portLine "    " port_dy) := by
  rfl

theorem replacePortAl_configServer (port_al : List Char)
    : replacePortAl port_al configServer = configServer.set 32 (portLine "      " port_al) := by
  rfl

theorem replaceUuid_configServer (uuid : Uuid)
    : replaceUuid uuid configServer
        =
      (configServer.set 12 (idLine "          " uuid.val)).set 37
        (idLine "            " uuid.val) := by
  rfl

theorem substitute_portLine_of_ne {port : Port} (hne : port.val ≠ 22222) (replacement : List Char)
    : Sed.substitute (ascii "\"port\": 22222") replacement (portLine "    " port.text)
        =
      portLine "    " port.text := by
  apply Sed.substitute_eq_self
  rcases text_spec port with ⟨a, b, c, d, e, htext, _, hall⟩
  have hother : '2' = a → '2' = b → '2' = c → '2' = d → '2' ≠ e := by
    rintro rfl rfl rfl rfl rfl
    apply hne
    have hport : port = ⟨22222, by decide⟩ := text_injective htext
    rw [hport]
  have hline : portLine "    " port.text
      = [' ', ' ', ' ', ' ', '"', 'p', 'o', 'r', 't', '"', ':', ' ', a, b, c, d, e, ','] := by
    rw [htext]
    rfl
  have hpattern : ascii "\"port\": 22222"
      = ['"', 'p', 'o', 'r', 't', '"', ':', ' ', '2', '2', '2', '2', '2'] := by
    rfl
  rw [hline, hpattern]
  -- Only the quote in front of the key can start a match, and there the digits are different.
  simpa [List.infix_cons_iff, List.cons_prefix_cons] using hother

theorem substitute_id_portLine {blanks : String} (hblanks : blanks = "    " ∨ blanks = "      ")
    (port : Port) (replacement : List Char)
    : Sed.substitute (ascii "\"id\": \"uuid\"") replacement (portLine blanks port.text)
        =
      portLine blanks port.text := by
  apply Sed.substitute_eq_self
  rcases text_spec port with ⟨a, b, c, d, e, htext, _, _⟩
  have hpattern : ascii "\"id\": \"uuid\""
      = ['"', 'i', 'd', '"', ':', ' ', '"', 'u', 'u', 'i', 'd', '"'] := by
    rfl
  have hline : portLine blanks port.text
      = ascii blanks ++ ['"', 'p', 'o', 'r', 't', '"', ':', ' ', a, b, c, d, e, ','] := by
    rw [htext]
    unfold portLine
    rw [List.append_assoc]
    rfl
  have hascii : ascii blanks = [' ', ' ', ' ', ' '] ∨ ascii blanks = [' ', ' ', ' ', ' ', ' ', ' '] := by
    rcases hblanks with rfl | rfl
    . exact Or.inl rfl
    . exact Or.inr rfl
  rw [hline, hpattern]
  rcases hascii with hascii | hascii
  all_goals
    rw [hascii]
    simp [List.infix_cons_iff, List.cons_prefix_cons]

theorem substitutions_eq (port_dy port_al : Port) (uuid : Uuid)
    : substitutions port_dy port_al uuid
        =
      withPlaces
        (portLine "    " (if port_dy.val = 22222 then port_al.text else port_dy.text))
        (idLine "          " uuid.val)
        (portLine "      " port_al.text)
        (idLine "            " uuid.val) := by
  have hdy : Sed.substitute (ascii "\"port\": 22222") (ascii "\"port\": " ++ port_al.text)
      (portLine "    " port_dy.text)
        =
      portLine "    " (if port_dy.val = 22222 then port_al.text else port_dy.text) := by
    split
    . next h =>
      rw [show port_dy = ⟨22222, by decide⟩ from Subtype.ext h]
      rfl
    . next h => apply substitute_portLine_of_ne h
  have hid : Sed.substitute (ascii "\"id\": \"uuid\"") (ascii "\"id\": \"" ++ uuid.val ++ ascii "\"")
      (portLine "    " (if port_dy.val = 22222 then port_al.text else port_dy.text))
        =
      portLine "    " (if port_dy.val = 22222 then port_al.text else port_dy.text) := by
    split
    . apply substitute_id_portLine (Or.inl rfl)
    . apply substitute_id_portLine (Or.inl rfl)
  have hal := replacePortAl_configServer port_al.text
  have huuid := replaceUuid_configServer uuid
  unfold substitutions withPlaces
  rw [replacePortDy_configServer]
  unfold replacePortAl at hal ⊢
  unfold replaceUuid at huuid ⊢
  dsimp only at *
  rw [Sed.substituteLines_set, hal, hdy, Sed.substituteLines_set, Sed.substituteLines_set, huuid, hid,
    substitute_id_portLine (Or.inr rfl)]

end Lines

section Document

def plain (s : String) (h : (ascii s).all isUnescaped = true := by decide) : PlainString :=
  ⟨ascii s, h⟩

def lexeme (s : String) (h : isNumber (ascii s) = true := by decide) : Lexeme :=
  ⟨ascii s, h⟩

def client (id : PlainString) : Doc :=
  .obj [(plain "id", .str id), (plain "level", .num (lexeme "1")),
    (plain "alterId", .num (lexeme "64")), (plain "security", .str (plain "auto"))]

def document (port_dy port_al : Lexeme) (id : PlainString) : Doc :=
  .obj
    [(plain "log", .obj
        [(plain "access", .str (plain "/etc/v2ray/access.log")),
          (plain "error", .str (plain "/etc/v2ray/error.log")),
          (plain "loglevel", .str (plain "warning"))]),
      (plain "inbound", .obj
        [(plain "port", .num port_dy),
          (plain "protocol", .str (plain "vmess")),
          (plain "settings", .obj
            [(plain "clients", .arr [client id]),
              (plain "detour", .obj [(plain "to", .str (plain "dynamicPort"))])]),
          (plain "streamSettings", .obj [(plain "network", .str (plain "mkcp"))])]),
      (plain "outbound", .obj
        [(plain "protocol", .str (plain "freedom")),
          (plain "settings", .obj [])]),
      (plain "inboundDetour", .arr
        [.obj
            [(plain "port", .num port_al),
              (plain "protocol", .str (plain "vmess")),
              (plain "settings", .obj [(plain "clients", .arr [client id])]),
              (plain "allocate", .obj [(plain "strategy", .str (plain "always"))])],
          .obj
            [(plain "protocol", .str (plain "vmess")),
              (plain "port", .str (plain "10000-40000")),
              (plain "tag", .str (plain "dynamicPort")),
              (plain "settings", .obj
                [(plain "default", .obj
                    [(plain "level", .num (lexeme "1")),
                      (plain "alterId", .num (lexeme "32"))])]),
              (plain "allocate", .obj
                [(plain "strategy", .str (plain "random")),
                  (plain "concurrency", .num (lexeme "2")),
                  (plain "refresh", .num (lexeme "5"))]),
              (plain "streamSettings", .obj [(plain "network", .str (plain "mkcp"))])]]),
      (plain "outboundDetour", .arr
        [.obj
            [(plain "protocol", .str (plain "blackhole")),
              (plain "settings", .obj []),
              (plain "tag", .str (plain "blocked"))]]),
      (plain "routing", .obj
        [(plain "strategy", .str (plain "rules")),
          (plain "settings", .obj
            [(plain "rules", .arr
                [.obj
                    [(plain "type", .str (plain "field")),
                      (plain "ip", .arr
                        [.str (plain "0.0.0.0/8"),
                          .str (plain "10.0.0.0/8"),
                          .str (plain "100.64.0.0/10"),
                          .str (plain "127.0.0.0/8"),
                          .str (plain "169.254.0.0/16"),
                          .str (plain "172.16.0.0/12"),
                          .str (plain "192.0.0.0/24"),
                          .str (plain "192.0.2.0/24"),
                          .str (plain "192.168.0.0/16"),
                          .str (plain "198.18.0.0/15"),
                          .str (plain "198.51.100.0/24"),
                          .str (plain "203.0.113.0/24"),
                          .str (plain "::1/128"),
                          .str (plain "fc00::/7"),
                          .str (plain "fe80::/10")]),
                      (plain "outboundTag", .str (plain "blocked"))]])])]),
      (plain "transport", .obj
        [(plain "kcpSettings", .obj
            [(plain "mtu", .num (lexeme "1350")),
              (plain "tti", .num (lexeme "20")),
              (plain "uplinkCapacity", .num (lexeme "20")),
              (plain "downlinkCapacity", .num (lexeme "100")),
              (plain "congestion", .bool false),
              (plain "readBufferSize", .num (lexeme "1")),
              (plain "writeBufferSize", .num (lexeme "1")),
              (plain "header", .obj [(plain "type", .str (plain "srtp"))])])])]

theorem withPlaces_eq_lines (port_dy port_al : Lexeme) (id : PlainString)
    : withPlaces (portLine "    " port_dy.val) (idLine "          " id.val)
        (portLine "      " port_al.val) (idLine "            " id.val)
        =
      (document port_dy port_al id).lines 0 [] [] := by
  rfl

theorem text_document (port_dy port_al : Lexeme) (id : PlainString)
    : Text
        (Doc.unlines (withPlaces (portLine "    " port_dy.val) (idLine "          " id.val)
          (portLine "      " port_al.val) (idLine "            " id.val)))
        (document port_dy port_al id).toJson := by
  rw [withPlaces_eq_lines]
  apply Doc.text_lines

theorem text_configServer
    : Text (Doc.unlines configServer)
        (document (lexeme "11111") (lexeme "22222") (plain "uuid")).toJson := by
  have hlines : withPlaces (portLine "    " (lexeme "11111").val) (idLine "          " (plain "uuid").val)
      (portLine "      " (lexeme "22222").val) (idLine "            " (plain "uuid").val)
        =
      configServer := by
    rfl
  have htext := text_document (lexeme "11111") (lexeme "22222") (plain "uuid")
  rw [hlines] at htext
  exact htext

end Document

def key (k : String) : Step :=
  .key (JsString.ofChars (ascii k))

/-- The configuration with both ports and ids filled in and everything else as it was. -/
def fillIn (template : Json) (port_dy port_al : Port) (uuid : Uuid) : Option Json := do
  let config ← template.replace? [key "inbound", key "port"] (.num port_dy.text)
  -- The first detour is the one of `vmess`.
  let config ← config.replace? [key "inboundDetour", .index 0, key "port"] (.num port_al.text)
  let config ← config.replace?
    [key "inbound", key "settings", key "clients", .index 0, key "id"]
    (.str (JsString.ofChars uuid.val))
  config.replace?
    [key "inboundDetour", .index 0, key "settings", key "clients", .index 0, key "id"]
    (.str (JsString.ofChars uuid.val))

structure IsAnnounced (port_dy port_al : Port) (uuid : Uuid) (file : List (List Char)) : Prop where
  config : ∃ template config, Text (Doc.unlines configServer) template
    ∧ Text (Doc.unlines file) config ∧ fillIn template port_dy port_al uuid = some config
  shown : showV2ray file
    = (some (portLine "    " port_dy.text), some (idLine "          " uuid.val))

theorem showV2ray_substitutions (port_dy port_al : Port) (uuid : Uuid)
    : showV2ray (substitutions port_dy port_al uuid)
        =
      (some (portLine "    " (if port_dy.val = 22222 then port_al.text else port_dy.text)),
        some (idLine "          " uuid.val)) := by
  rw [substitutions_eq]
  rfl

theorem isAnnounced_of_ne {port_dy : Port} (hne : port_dy.val ≠ 22222) (port_al : Port) (uuid : Uuid)
    : IsAnnounced port_dy port_al uuid (substitutions port_dy port_al uuid) := by
  have hfill : fillIn (document (lexeme "11111") (lexeme "22222") (plain "uuid")).toJson port_dy
      port_al uuid
        =
      some (document ⟨port_dy.text, isNumber_text port_dy⟩ ⟨port_al.text, isNumber_text port_al⟩
        ⟨uuid.val, all_isUnescaped uuid⟩).toJson := by
    rfl
  have htext := text_document ⟨port_dy.text, isNumber_text port_dy⟩
    ⟨port_al.text, isNumber_text port_al⟩ ⟨uuid.val, all_isUnescaped uuid⟩
  constructor
  . refine ⟨_, _, text_configServer, ?_, hfill⟩
    rw [substitutions_eq, if_neg hne]
    exact htext
  . rw [showV2ray_substitutions, if_neg hne]

theorem isAnnounced_iff {port_dy port_al : Port} (hdiff : port_dy ≠ port_al) (uuid : Uuid)
    : IsAnnounced port_dy port_al uuid (substitutions port_dy port_al uuid)
        ↔
      port_dy.val ≠ 22222 := by
  constructor
  . intro h hval
    have hshown := h.shown
    rw [showV2ray_substitutions, if_pos hval] at hshown
    simp only [Prod.mk.injEq, Option.some.injEq, and_true, portLine, List.append_cancel_left_eq,
      List.append_cancel_right_eq] at hshown
    apply hdiff (text_injective hshown).symm
  . intro hne
    apply isAnnounced_of_ne hne

theorem isAnnounced_iff_10000
    : IsAnnounced ⟨10000, by decide⟩ ⟨22222, by decide⟩ someUuid
        (substitutions ⟨10000, by decide⟩ ⟨22222, by decide⟩ someUuid)
        ↔
      10000 ≠ 22222 := by
  apply isAnnounced_iff
  decide

theorem not_isAnnounced_22222
    : ¬IsAnnounced ⟨22222, by decide⟩ ⟨10000, by decide⟩ someUuid
        (substitutions ⟨22222, by decide⟩ ⟨10000, by decide⟩ someUuid) := by
  intro h
  have hshown := h.shown
  rw [showV2ray_substitutions] at hshown
  revert hshown
  decide

end Switch
