import SupportFile.Gfw.Impl.Machine
import SupportFile.Gfw.Lemmas.Config
import SupportFile.Gfw.Lemmas.Ports

/-!
This module contains what `Show` prints after any number of invocations of the script: for each of the
two programs it is what the last invocation that has installed it has announced.
-/

namespace Switch

section Ssr

def serverPortLine (port : List Char) : List Char :=
  ascii "    " ++ (ascii "\"server_port\": " ++ port) ++ ascii ","

def passwordLine (password : List Char) : List Char :=
  ascii "    " ++ (ascii "\"password\": \"" ++ password ++ ascii "\"") ++ ascii ","

theorem replaceServerPort_userConfig (port : List Char)
    : replaceServerPort port userConfig = userConfig.set 3 (serverPortLine port) := by
  rfl

theorem replacePassword_userConfig (password : Uuid)
    : replacePassword password userConfig = userConfig.set 7 (passwordLine password.val) := by
  rfl

theorem substitute_serverPortLine (port : Port) (replacement : List Char)
    : Sed.substitute (ascii "\"password\": \"uuid\"") replacement (serverPortLine port.text)
        =
      serverPortLine port.text := by
  apply Sed.substitute_eq_self
  intro hinfix
  have hw : 'w' ∈ serverPortLine port.text := by
    apply hinfix.subset
    decide
  rcases text_spec port with ⟨a, b, c, d, e, htext, _, hdigits⟩
  unfold serverPortLine at hw
  rw [htext, List.mem_append, List.mem_append, List.mem_append] at hw
  rcases hw with (hw | hw | hw) | hw
  . revert hw
    decide
  . revert hw
    decide
  . have hdigit := (hdigits 'w' hw).left
    revert hdigit
    decide
  . revert hw
    decide

theorem replace_userConfig (port : Port) (password : Uuid)
    : replacePassword password (replaceServerPort port.text userConfig)
        =
      (userConfig.set 7 (passwordLine password.val)).set 3 (serverPortLine port.text) := by
  have hpassword := replacePassword_userConfig password
  unfold replacePassword at hpassword ⊢
  dsimp only at *
  rw [replaceServerPort_userConfig, Sed.substituteLines_set, substitute_serverPortLine, hpassword]

theorem drawPort_iterate (w : World) (n : Nat)
    : (drawPort w)^[n] (drawPort w {})
        =
      { calls := n + 1, port := some (w.shuf n), occupy := w.lsof n } := by
  induction n with
  | zero => rfl
  | succ n ih =>
    rw [Function.iterate_succ_apply', ih]
    rfl

theorem endsAfter_drawPort_iff (w : World) (n : Nat)
    : While.EndsAfter (fun env => !env.occupy.isEmpty) (drawPort w) (drawPort w {}) n
        ↔
      FirstFree w.lsof 0 n := by
  unfold While.EndsAfter FirstFree
  simp only [drawPort_iterate, Bool.not_eq_false', Bool.not_eq_true', List.isEmpty_iff,
    List.isEmpty_eq_false_iff, Nat.zero_le, true_and, forall_const]

def afterPort (w : World) (i : Nat) : SsrEnv where
  calls := i + 1
  port := some (w.shuf i)
  occupy := w.lsof i
  config := (userConfig.set 7 (passwordLine w.uuidgen.val)).set 3 (serverPortLine (w.shuf i).text)

theorem ssr_sound {w : World} {fuel : Nat} {env : SsrEnv} (h : ssr w fuel = some env)
    : ∃ i, FirstFree w.lsof 0 i ∧ env = afterPort w i := by
  unfold ssr at h
  simp only [Option.bind_eq_bind, Option.bind_eq_some_iff, Option.pure_def, Option.some.injEq] at h
  rcases h with ⟨_, hloop, rfl⟩
  rcases While.loop_sound hloop with ⟨i, hi, rfl⟩
  refine ⟨i, (endsAfter_drawPort_iff w i).mp hi, ?_⟩
  rw [drawPort_iterate]
  dsimp only [expand]
  rw [replace_userConfig]
  rfl

theorem ssr_complete {w : World} {i fuel : Nat} (hport : FirstFree w.lsof 0 i) (hfuel : i < fuel)
    : ssr w fuel = some (afterPort w i) := by
  have hloop := While.loop_complete ((endsAfter_drawPort_iff w i).mpr hport) hfuel
  unfold ssr
  rw [hloop, drawPort_iterate, Option.bind_eq_bind, Option.bind_some]
  dsimp only [expand]
  rw [replace_userConfig]
  rfl

end Ssr

theorem v2ray_of_lt {w : World} {i j fuel : Nat} (hdy : FirstFree w.lsof 0 i)
    (hal : FirstFree w.lsof (i + 1) j) (hfuel : j < fuel)
    : (v2ray w fuel).isSome := by
  have hj : i + 1 + (j - (i + 1)) = j := Nat.add_sub_cancel' hal.left
  rw [← hj] at hal
  have hlt := hdy.left
  have hle := hal.left
  have h₁ := While.loop_complete ((endsAfter_drawDy_iff w i).mpr hdy) (show i < fuel by omega)
  have h₂ := While.loop_complete ((endsAfter_drawAl_iff w i _).mpr hal)
    (show j - (i + 1) < fuel by omega)
  unfold afterDy at h₂
  dsimp only at h₂
  unfold v2ray
  rw [h₁]
  dsimp only [Option.bind_eq_bind, Option.bind_some]
  rw [h₂]
  rfl

/-- A free port turns up for everything that the option installs. -/
def Opt.Ends (opt : Opt) : Prop :=
  match opt with
  | .v2ray w _ _ => ∃ i j, FirstFree w.lsof 0 i ∧ FirstFree w.lsof (i + 1) j
  | .ssr w _ _ => ∃ i, FirstFree w.lsof 0 i
  | .shows | .quit => True

def Opt.isV2ray (opt : Opt) : Bool :=
  match opt with
  | .v2ray _ _ _ => true
  | _ => false

def Opt.isSsr (opt : Opt) : Bool :=
  match opt with
  | .ssr _ _ _ => true
  | _ => false

/-- What `Show` prints about V2Ray. -/
def reportV2ray (cloned wget : Bool) (port_dy port_al : Port) (uuid : Uuid) : List (List Char) :=
  let missing := ascii "sed: can't read /etc/v2ray/config.json: No such file or directory"
  if cloned then
    if wget then
      [ascii "v2ray ->",
        portLine "    " (if port_dy.val = 22222 then port_al.text else port_dy.text),
        idLine "          " uuid.val]
    else
      [ascii "v2ray ->", missing, missing]
  else
    [ascii "v2ray is not installed"]

def reportSsr (cloned wget : Bool) (port : Port) (password : Uuid) : List (List Char) :=
  let missing := ascii "sed: can't read shadowsocksr/user-config.json: No such file or directory"
  if cloned then
    if wget then
      [ascii "ssr ->", serverPortLine port.text, passwordLine password.val]
    else
      [ascii "ssr ->", missing, missing]
  else
    [ascii "ssr is not installed"]

theorem choose_v2ray {fuel : Nat} {m m' : Machine} {w : World} {cloned wget : Bool}
    {output : List (List Char)} (h : choose fuel m (.v2ray w cloned wget) = some (m', output))
    : ∃ i j, FirstFree w.lsof 0 i ∧ FirstFree w.lsof (i + 1) j
        ∧ output = echoV2ray (some (w.shuf i)) (some (w.shuf j)) w.uuidgen
        ∧ m'.showV2ray = reportV2ray cloned wget (w.shuf i) (w.shuf j) w.uuidgen := by
  simp only [choose, Option.map_eq_some_iff, Prod.mk.injEq] at h
  rcases h with ⟨env, henv, rfl, rfl⟩
  rcases v2ray_sound henv with ⟨i, j, hdy, hal, hselected⟩
  refine ⟨i, j, hdy, hal, ?_, ?_⟩
  . rw [hselected.port_dy, hselected.port_al]
  . have hshow := showV2ray_substitutions (w.shuf i) (w.shuf j) w.uuidgen
    rw [← hselected.config, showV2ray, Prod.mk.injEq] at hshow
    cases cloned with
    | false => rfl
    | true =>
      cases wget with
      | false => rfl
      | true =>
        simp only [Machine.showV2ray, installed, sedLine, if_true, hshow.left, hshow.right,
          Option.getD_some, reportV2ray]

theorem choose_ssr {fuel : Nat} {m m' : Machine} {w : World} {cloned wget : Bool}
    {output : List (List Char)} (h : choose fuel m (.ssr w cloned wget) = some (m', output))
    : ∃ i, FirstFree w.lsof 0 i
        ∧ output = echoSsr (some (w.shuf i)) w.uuidgen
        ∧ m'.showSsr = reportSsr cloned wget (w.shuf i) w.uuidgen := by
  simp only [choose, Option.map_eq_some_iff, Prod.mk.injEq] at h
  rcases h with ⟨env, henv, rfl, rfl⟩
  rcases ssr_sound henv with ⟨i, hport, rfl⟩
  refine ⟨i, hport, rfl, ?_⟩
  cases cloned with
  | false => rfl
  | true =>
    cases wget with
    | false => rfl
    | true => rfl

theorem choose_keeps_v2ray {fuel : Nat} {m m' : Machine} {opt : Opt} {output : List (List Char)}
    (h : choose fuel m opt = some (m', output)) (hopt : opt.isV2ray = false)
    : m'.showV2ray = m.showV2ray := by
  cases opt with
  | v2ray w cloned wget => contradiction
  | ssr w cloned wget =>
    simp only [choose, Option.map_eq_some_iff, Prod.mk.injEq] at h
    rcases h with ⟨env, _, rfl, _⟩
    rfl
  | shows | quit =>
    simp only [choose, Option.some.injEq, Prod.mk.injEq] at h
    rw [h.left]

theorem choose_keeps_ssr {fuel : Nat} {m m' : Machine} {opt : Opt} {output : List (List Char)}
    (h : choose fuel m opt = some (m', output)) (hopt : opt.isSsr = false)
    : m'.showSsr = m.showSsr := by
  cases opt with
  | v2ray w cloned wget =>
    simp only [choose, Option.map_eq_some_iff, Prod.mk.injEq] at h
    rcases h with ⟨env, _, rfl, _⟩
    rfl
  | ssr w cloned wget => contradiction
  | shows | quit =>
    simp only [choose, Option.some.injEq, Prod.mk.injEq] at h
    rw [h.left]

theorem ends_of_choose {fuel : Nat} {m : Machine} {opt : Opt} (h : (choose fuel m opt).isSome)
    : opt.Ends := by
  rcases Option.isSome_iff_exists.mp h with ⟨⟨m', output⟩, h⟩
  cases opt with
  | v2ray w cloned wget =>
    rcases choose_v2ray h with ⟨i, j, hdy, hal, _⟩
    exact ⟨i, j, hdy, hal⟩
  | ssr w cloned wget =>
    rcases choose_ssr h with ⟨i, hport, _⟩
    exact ⟨i, hport⟩
  | shows | quit => trivial

theorem choose_of_ends {opt : Opt} (h : opt.Ends)
    : ∃ bound, ∀ fuel, bound ≤ fuel → ∀ m, (choose fuel m opt).isSome := by
  cases opt with
  | v2ray w cloned wget =>
    rcases h with ⟨i, j, hdy, hal⟩
    refine ⟨j + 1, ?_⟩
    intro fuel hfuel m
    rw [choose, Option.isSome_map]
    exact v2ray_of_lt hdy hal hfuel
  | ssr w cloned wget =>
    rcases h with ⟨i, hport⟩
    refine ⟨i + 1, ?_⟩
    intro fuel hfuel m
    rw [choose, ssr_complete hport hfuel]
    rfl
  | shows | quit => exact ⟨0, fun _ _ _ => rfl⟩

def LatestV2ray (m m' : Machine) (opts : List Opt) (outputs : List (List (List Char))) : Prop :=
  ((∀ opt ∈ opts, opt.isV2ray = false) ∧ m'.showV2ray = m.showV2ray)
    ∨
  ∃ before w cloned wget after i j,
    opts = before ++ .v2ray w cloned wget :: after
      ∧ (∀ opt ∈ after, opt.isV2ray = false)
      ∧ FirstFree w.lsof 0 i
      ∧ FirstFree w.lsof (i + 1) j
      ∧ outputs[before.length]? = some (echoV2ray (some (w.shuf i)) (some (w.shuf j)) w.uuidgen)
      ∧ m'.showV2ray = reportV2ray cloned wget (w.shuf i) (w.shuf j) w.uuidgen

def LatestSsr (m m' : Machine) (opts : List Opt) (outputs : List (List (List Char))) : Prop :=
  ((∀ opt ∈ opts, opt.isSsr = false) ∧ m'.showSsr = m.showSsr)
    ∨
  ∃ before w cloned wget after i,
    opts = before ++ .ssr w cloned wget :: after
      ∧ (∀ opt ∈ after, opt.isSsr = false)
      ∧ FirstFree w.lsof 0 i
      ∧ outputs[before.length]? = some (echoSsr (some (w.shuf i)) w.uuidgen)
      ∧ m'.showSsr = reportSsr cloned wget (w.shuf i) w.uuidgen

theorem run_latestV2ray {fuel : Nat} {m m' : Machine} {opts : List Opt}
    {outputs : List (List (List Char))} (h : run fuel m opts = some (m', outputs))
    : LatestV2ray m m' opts outputs := by
  unfold run at h
  cases Transducer.run_latest h (fun _ _ _ _ => choose_keeps_v2ray) with
  | inl hnone => exact .inl hnone
  | inr hlatest =>
    rcases hlatest with ⟨before, opt, after, m₁, m₂, output, hopts, htouches, hafter, hstep, houtput,
      hshow⟩
    cases opt with
    | v2ray w cloned wget =>
      rcases choose_v2ray hstep with ⟨i, j, hdy, hal, rfl, hreport⟩
      exact .inr ⟨before, w, cloned, wget, after, i, j, hopts, hafter, hdy, hal, houtput,
        hshow.trans hreport⟩
    | ssr w cloned wget => contradiction
    | shows | quit => contradiction

theorem run_latestSsr {fuel : Nat} {m m' : Machine} {opts : List Opt}
    {outputs : List (List (List Char))} (h : run fuel m opts = some (m', outputs))
    : LatestSsr m m' opts outputs := by
  unfold run at h
  cases Transducer.run_latest h (fun _ _ _ _ => choose_keeps_ssr) with
  | inl hnone => exact .inl hnone
  | inr hlatest =>
    rcases hlatest with ⟨before, opt, after, m₁, m₂, output, hopts, htouches, hafter, hstep, houtput,
      hshow⟩
    cases opt with
    | v2ray w cloned wget => contradiction
    | ssr w cloned wget =>
      rcases choose_ssr hstep with ⟨i, hport, rfl, hreport⟩
      exact .inr ⟨before, w, cloned, wget, after, i, hopts, hafter, hport, houtput,
        hshow.trans hreport⟩
    | shows | quit => contradiction

theorem run_shows (m : Machine) (opts : List Opt)
    : ((∃ fuel, (run fuel m opts).isSome) ↔ ∀ opt ∈ opts, opt.Ends)
        ∧
      ∀ fuel m' outputs, run fuel m opts = some (m', outputs) →
        LatestV2ray m m' opts outputs ∧ LatestSsr m m' opts outputs
          ∧ choose fuel m' .shows = some (m', m'.showV2ray ++ m'.showSsr) := by
  constructor
  . exact @Transducer.exists_run_iff _ _ _ choose Opt.Ends (fun _ _ _ => ends_of_choose)
      (fun _ => choose_of_ends) m opts
  . intro fuel m' outputs h
    exact ⟨run_latestV2ray h, run_latestSsr h, rfl⟩

end Switch
