import SupportFile.Gfw.Impl.Switch

namespace Switch

def FirstFree (lsof : Nat → List Char) (n i : Nat) : Prop :=
  n ≤ i ∧ lsof i = [] ∧ ∀ k, n ≤ k → k < i → lsof k ≠ []

def ReportedFree (trace : List Event) (port : Port) : Prop :=
  ∃ before after, trace = before ++ .shuf port :: .lsof port [] :: after

theorem ReportedFree.append {trace : List Event} {port : Port} (h : ReportedFree trace port)
    (more : List Event)
    : ReportedFree (trace ++ more) port := by
  rcases h with ⟨before, after, rfl⟩
  exact ⟨before, after ++ more, by simp⟩

section Draw

variable {w : World} {assign : Port → Env → Env}

theorem draw_iterate_calls (n : Nat) (env : Env)
    : ((draw w assign)^[n] env).calls = env.calls + n := by
  induction n generalizing env with
  | zero => rfl
  | succ n ih =>
    rw [Function.iterate_succ_apply, ih]
    unfold draw
    dsimp
    omega

theorem draw_iterate_trace (n : Nat) (env : Env)
    : ∃ more, ((draw w assign)^[n] env).trace = env.trace ++ more := by
  induction n with
  | zero => exact ⟨[], by simp⟩
  | succ n ih =>
    rcases ih with ⟨more, hmore⟩
    rw [Function.iterate_succ_apply']
    unfold draw at *
    dsimp
    rw [hmore, List.append_assoc]
    exact ⟨_, rfl⟩

theorem draw_iterate_eq {f : Env → τ} {g : Nat → τ}
    (h : ∀ env, f (draw w assign env) = g env.calls) (n : Nat) (env : Env)
    : f ((draw w assign)^[n] (draw w assign env)) = g (env.calls + n) := by
  rw [← Function.iterate_succ_apply, Function.iterate_succ_apply', h, draw_iterate_calls]

theorem draw_iterate_occupy (n : Nat) (env : Env)
    : ((draw w assign)^[n] (draw w assign env)).occupy = w.lsof (env.calls + n) := by
  have hoccupy (env : Env) : (draw w assign env).occupy = w.lsof env.calls := rfl
  apply draw_iterate_eq hoccupy n env

theorem draw_iterate_reportedFree {n : Nat} {env : Env} (h : w.lsof (env.calls + n) = [])
    : ReportedFree ((draw w assign)^[n] (draw w assign env)).trace (w.shuf (env.calls + n)) := by
  rw [← Function.iterate_succ_apply, Function.iterate_succ_apply']
  rw [← draw_iterate_calls n env] at h ⊢
  refine ⟨((draw w assign)^[n] env).trace, [], ?_⟩
  unfold draw at *
  dsimp
  rw [h]

theorem endsAfter_draw_iff {cond : Env → Bool} (hcond : ∀ env, cond env = !env.occupy.isEmpty)
    (env : Env) (n : Nat)
    : While.EndsAfter cond (draw w assign) (draw w assign env) n
        ↔
      FirstFree w.lsof env.calls (env.calls + n) := by
  unfold While.EndsAfter FirstFree
  simp only [hcond, draw_iterate_occupy, Bool.not_eq_false', Bool.not_eq_true',
    List.isEmpty_iff, List.isEmpty_eq_false_iff]
  constructor
  . rintro ⟨hfree, hbefore⟩
    refine ⟨by omega, hfree, ?_⟩
    intro k hk hlt
    have hk' := hbefore (k - env.calls) (by omega)
    rw [Nat.add_sub_cancel' hk] at hk'
    exact hk'
  . rintro ⟨_, hfree, hbefore⟩
    refine ⟨hfree, ?_⟩
    intro k hk
    apply hbefore (env.calls + k) (by omega) (by omega)

end Draw

theorem drawDy_iterate (w : World) (n : Nat) (env : Env)
    : ((drawDy w)^[n] (drawDy w env)).port_dy = some (w.shuf (env.calls + n))
        ∧ ((drawDy w)^[n] (drawDy w env)).config = env.config := by
  constructor
  . have hport (env : Env)
        : (draw w (fun port env => { env with port_dy := some port }) env).port_dy
            = some (w.shuf env.calls) := rfl
    apply draw_iterate_eq (g := fun k => some (w.shuf k)) hport n env
  . have hconfig (env : Env) : (drawDy w env).config = env.config := rfl
    apply While.iterate_frame hconfig (n + 1) env

theorem drawAl_iterate (w : World) (n : Nat) (env : Env)
    : ((drawAl w)^[n] (drawAl w env)).port_al = some (w.shuf (env.calls + n))
        ∧ ((drawAl w)^[n] (drawAl w env)).port_dy = env.port_dy
        ∧ ((drawAl w)^[n] (drawAl w env)).config = env.config := by
  refine ⟨?_, ?_, ?_⟩
  . have hport (env : Env)
        : (draw w (fun port env => { env with port_al := some port }) env).port_al
            = some (w.shuf env.calls) := rfl
    apply draw_iterate_eq (g := fun k => some (w.shuf k)) hport n env
  . have hport (env : Env) : (drawAl w env).port_dy = env.port_dy := rfl
    apply While.iterate_frame hport (n + 1) env
  . have hconfig (env : Env) : (drawAl w env).config = env.config := rfl
    apply While.iterate_frame hconfig (n + 1) env

theorem whileAl_eq (env : Env) : whileAl env = !env.occupy.isEmpty := by
  have hnames : ("port_al" == "port_dy") = false := by
    decide
  unfold whileAl
  rw [hnames, Bool.or_false]

structure Selected (w : World) (i j : Nat) (env : Env) : Prop where
  port_dy : env.port_dy = some (w.shuf i)
  port_al : env.port_al = some (w.shuf j)
  reported_dy : ReportedFree env.trace (w.shuf i)
  reported_al : ReportedFree env.trace (w.shuf j)
  config : env.config = substitutions (w.shuf i) (w.shuf j) w.uuidgen

def afterDy (w : World) (i : Nat) : Env :=
  let env := (drawDy w)^[i] (drawDy w {})
  { env with config := replacePortDy (expand env.port_dy) env.config }

def afterAl (w : World) (i n : Nat) : Env :=
  let env := (drawAl w)^[n] (drawAl w (afterDy w i))
  { env with config := replaceUuid w.uuidgen (replacePortAl (expand env.port_al) env.config) }

theorem afterDy_calls (w : World) (i : Nat) : (afterDy w i).calls = i + 1 := by
  have hcalls : ((drawDy w)^[i + 1] {}).calls = 0 + (i + 1) := draw_iterate_calls (i + 1) {}
  rw [Function.iterate_succ_apply, Nat.zero_add] at hcalls
  exact hcalls

theorem afterDy_eq (w : World) (i : Nat)
    : (afterDy w i).port_dy = some (w.shuf i)
        ∧ (afterDy w i).config = replacePortDy (w.shuf i).text configServer := by
  have hi := drawDy_iterate w i {}
  rw [Nat.zero_add] at hi
  refine ⟨hi.left, ?_⟩
  unfold afterDy
  dsimp
  rw [hi.left, hi.right]
  rfl

theorem selected_afterAl {w : World} {i n : Nat} (hdy : FirstFree w.lsof 0 i)
    (hal : FirstFree w.lsof (i + 1) (i + 1 + n))
    : Selected w i (i + 1 + n) (afterAl w i n) := by
  have hi := afterDy_eq w i
  have hn := drawAl_iterate w n (afterDy w i)
  rw [afterDy_calls] at hn
  refine ⟨hn.right.left.trans hi.left, hn.left, ?_, ?_, ?_⟩
  . have hreported : ReportedFree (afterDy w i).trace (w.shuf i) := by
      have hfree : w.lsof (0 + i) = [] := by
        rw [Nat.zero_add]
        apply hdy.right.left
      have hreported : ReportedFree (afterDy w i).trace (w.shuf (0 + i)) :=
        @draw_iterate_reportedFree w _ i {} hfree
      rw [Nat.zero_add] at hreported
      exact hreported
    have htrace : ∃ more, ((drawAl w)^[n + 1] (afterDy w i)).trace = (afterDy w i).trace ++ more :=
      draw_iterate_trace (n + 1) (afterDy w i)
    rcases htrace with ⟨more, hmore⟩
    unfold afterAl
    dsimp
    rw [← Function.iterate_succ_apply, hmore]
    apply hreported.append
  . have hfree : w.lsof ((afterDy w i).calls + n) = [] := by
      rw [afterDy_calls]
      apply hal.right.left
    rw [← afterDy_calls w i]
    apply draw_iterate_reportedFree hfree
  . unfold afterAl substitutions
    dsimp
    rw [hn.left, hn.right.right, hi.right]
    rfl

theorem endsAfter_drawDy_iff (w : World) (i : Nat)
    : While.EndsAfter whileDy (drawDy w) (drawDy w {}) i ↔ FirstFree w.lsof 0 i := by
  have hiff : While.EndsAfter whileDy (drawDy w) (drawDy w {}) i ↔ FirstFree w.lsof 0 (0 + i) :=
    endsAfter_draw_iff (fun _ => rfl) {} i
  rw [Nat.zero_add] at hiff
  exact hiff

theorem endsAfter_drawAl_iff (w : World) (i n : Nat)
    : While.EndsAfter whileAl (drawAl w) (drawAl w (afterDy w i)) n
        ↔
      FirstFree w.lsof (i + 1) (i + 1 + n) := by
  rw [← afterDy_calls w i]
  apply endsAfter_draw_iff whileAl_eq (afterDy w i) n

theorem v2ray_sound {w : World} {fuel : Nat} {env : Env} (h : v2ray w fuel = some env)
    : ∃ i j, FirstFree w.lsof 0 i ∧ FirstFree w.lsof (i + 1) j ∧ Selected w i j env := by
  unfold v2ray at h
  simp only [Option.bind_eq_bind, Option.bind_eq_some_iff, Option.pure_def, Option.some.injEq] at h
  rcases h with ⟨env₁, h₁, env₂, h₂, rfl⟩
  rcases While.loop_sound h₁ with ⟨i, hi, rfl⟩
  rcases While.loop_sound h₂ with ⟨n, hn, rfl⟩
  have hdy := (endsAfter_drawDy_iff w i).mp hi
  have hal := (endsAfter_drawAl_iff w i n).mp hn
  exact ⟨i, i + 1 + n, hdy, hal, selected_afterAl hdy hal⟩

theorem v2ray_complete {w : World} {i j : Nat} (hdy : FirstFree w.lsof 0 i)
    (hal : FirstFree w.lsof (i + 1) j)
    : ∃ fuel env, v2ray w fuel = some env ∧ Selected w i j env := by
  have hj : i + 1 + (j - (i + 1)) = j := Nat.add_sub_cancel' hal.left
  rw [← hj] at hal
  have hi := (endsAfter_drawDy_iff w i).mpr hdy
  have hn := (endsAfter_drawAl_iff w i (j - (i + 1))).mpr hal
  have hselected := selected_afterAl hdy hal
  rw [hj] at hselected
  refine ⟨i + (j - (i + 1)) + 1, afterAl w i (j - (i + 1)), ?_, hselected⟩
  have h₁ := @While.loop_complete _ _ _ _ _ hi (i + (j - (i + 1)) + 1) (by omega)
  have h₂ := @While.loop_complete _ _ _ _ _ hn (i + (j - (i + 1)) + 1) (by omega)
  unfold v2ray
  rw [h₁]
  dsimp
  unfold afterDy at h₂
  dsimp at h₂
  rw [h₂]
  rfl

def DistinctFreePorts (env : Env) : Prop :=
  ∃ dy al, env.port_dy = some dy ∧ env.port_al = some al ∧ dy ≠ al
    ∧ ReportedFree env.trace dy ∧ ReportedFree env.trace al

theorem Selected.distinct_iff {w : World} {i j : Nat} {env : Env} (h : Selected w i j env)
    : DistinctFreePorts env ↔ w.shuf i ≠ w.shuf j := by
  constructor
  . rintro ⟨dy, al, hdy, hal, hne, _⟩
    rw [h.port_dy] at hdy
    rw [h.port_al] at hal
    cases hdy
    cases hal
    exact hne
  . intro hne
    exact ⟨_, _, h.port_dy, h.port_al, hne, h.reported_dy, h.reported_al⟩

theorem distinctFreePorts_iff (w : World)
    : (∀ fuel env, v2ray w fuel = some env → DistinctFreePorts env)
        ↔
      ∀ i j, FirstFree w.lsof 0 i → FirstFree w.lsof (i + 1) j → w.shuf i ≠ w.shuf j := by
  constructor
  . intro h i j hdy hal
    rcases v2ray_complete hdy hal with ⟨fuel, env, henv, hselected⟩
    apply hselected.distinct_iff.mp (h fuel env henv)
  . intro h fuel env henv
    rcases v2ray_sound henv with ⟨i, j, hdy, hal, hselected⟩
    apply hselected.distinct_iff.mpr (h i j hdy hal)

def samePortTwice : World where
  shuf _ := ⟨10000, by decide⟩
  lsof _ := []
  uuidgen := someUuid

theorem not_distinctFreePorts_samePortTwice
    : ¬∀ fuel env, v2ray samePortTwice fuel = some env → DistinctFreePorts env := by
  intro h
  have hfree (n : Nat) : FirstFree samePortTwice.lsof n n := ⟨by omega, rfl, by omega⟩
  rcases v2ray_complete (hfree 0) (hfree 1) with ⟨fuel, env, henv, hselected⟩
  apply hselected.distinct_iff.mp (h fuel env henv) rfl

end Switch
