import SupportFile.SampleShell.Impl.Install
import SupportFile.SampleShell.Impl.Provision

/-!
This module contains what the installer does before it launches the servers, whatever the commands print
that it runs.
-/

namespace Install

open Script

theorem bind_eq (p : Sh α) (f : α → Sh β) : p >>= f = Script.bind p f := by
  rfl

theorem pure_eq (a : α) : (pure a : Sh α) = .done a := by
  rfl

/--
What an attempt may do: it runs at most `bound` of the `commands` and installs once, its result is what
the probe has printed last, and it leaves the script only as `failed` tells.
-/
structure Attempt (c : Component) (commands : List String) (bound : Nat)
    (failed : List (String × Output) → Prop) (events : List (String × Output)) (result : Option Output)
    : Prop where
  only : ∀ event ∈ events, event.fst ∈ commands
  atMost : events.length ≤ bound
  once : count c.install events = 1
  last : ∀ output, result = some output → lastOutput c.probe events = some output
  fails : result = none → failed events

theorem installJdk_attempt
    : installJdk.wp (Attempt jdk
        ["apt-get update", "apt-get --assume-yes install openjdk-8-jdk", "java -version"] 3
        (fun _ => False)) := by
  simp only [installJdk, bind_eq, run, capture, Script.bind, wp]
  intro _ _ _
  constructor
  all_goals simp [count, lastOutput, jdk]

theorem installMysql_attempt
    : installMysql.wp (Attempt mysql
        ["wget https://github.com/sxydh/other-data/raw/master/mysql/mysql-apt-config_0.8.14-1_all.deb",
          "dpkg -i mysql-apt-config_0.8.14-1_all.deb", "apt update",
          "apt --assume-yes install mysql-server", "mysql --version",
          "rm -f mysql-apt-config_0.8.14-1_all.deb"] 6 (fun _ => False)) := by
  simp only [installMysql, bind_eq, pure_eq, run, capture, Script.bind, wp, wp_ite]
  intro _ _ _ _ _
  constructor
  . intro _
    constructor
    all_goals simp [count, lastOutput, mysql]
  . intro _ _
    constructor
    all_goals simp [count, lastOutput, mysql]

def lacksConfiguration (events : List (String × Output)) : Prop :=
  ∃ output, lastOutput "ls -l" events = some output ∧ contains output "redis.conf" = false

theorem installRedis_attempt
    : installRedis.wp (Attempt redis
        ["apt-get update", "apt-get --assume-yes install redis-server", "redis-cli --version",
          "service redis-server status", "service redis-server stop", "rm -f redis.conf",
          "wget https://raw.githubusercontent.com/sxydh/other-data/master/redis/redis.conf", "ls -l",
          "rm -f /etc/redis/redis.conf", "mv redis.conf /etc/redis/", "service redis-server restart",
          "echo config set requirepass \"123\" | redis-cli"] 13 lacksConfiguration) := by
  simp only [installRedis, configureRedis, bind_eq, pure_eq, run, capture, Script.bind, wp, wp_ite]
  intro _ _ _
  refine ⟨fun _ => ?_, fun _ _ => ⟨fun _ _ _ _ output => ?_, fun _ _ _ output => ?_⟩⟩
  . constructor
    all_goals simp [count, lastOutput, redis]
  -- The service may have been stopped before, which the rest does not depend on.
  all_goals
    constructor
    . intro hmissing
      constructor
      case fails =>
        intro _
        exact ⟨output, by simp [lastOutput], by simpa using hmissing⟩
      all_goals simp [count, lastOutput, redis]
    . intro _ _ _ _ _ _
      constructor
      all_goals simp [count, lastOutput, redis]

theorem installUnrar_attempt
    : installUnrar.wp (Attempt unrar
        ["apt-get --assume-yes install unrar", "unrar -version"] 2 (fun _ => False)) := by
  simp only [installUnrar, bind_eq, run, capture, Script.bind, wp]
  intro _ _
  constructor
  all_goals simp [count, lastOutput, unrar]

theorem downloadArchive_attempt
    : downloadArchive.wp (Attempt archive
        ["rm -f sample_to_run.part*",
          "wget https://github.com/sxydh/other-data/raw/master/utils/sample-shell/sample_to_run.part1.rar",
          "wget https://github.com/sxydh/other-data/raw/master/utils/sample-shell/sample_to_run.part2.rar",
          "ls -l"] 4 (fun _ => False)) := by
  simp only [downloadArchive, bind_eq, run, capture, Script.bind, wp]
  intro _ _ _ _
  constructor
  all_goals simp [count, lastOutput, archive]

section Require

variable {c : Component} {attempt : Sh Output} {commands : List String} {bound : Nat}
  {failed : List (String × Output) → Prop} (hattempt : attempt.wp (Attempt c commands bound failed))

include hattempt

theorem require_only : (c.require attempt).Only (· ∈ c.probe :: commands) := by
  have hprobe : (capture c.probe : Sh Output).Only (· ∈ c.probe :: commands) := by
    rw [only_iff]
    simp [capture, wp]
  apply hprobe.bind
  intro output
  apply Only.retry
  intro events result h event hevent
  exact List.mem_cons_of_mem _ ((wp_iff.mp hattempt events result h).only event hevent)

theorem require_atMost : (c.require attempt).AtMost (1 + attempts * bound) := by
  have hprobe : (capture c.probe : Sh Output).AtMost 1 := by
    rw [atMost_iff]
    simp [capture, wp]
  apply hprobe.bind
  intro output
  apply AtMost.retry
  intro events result h
  exact (wp_iff.mp hattempt events result h).atMost

theorem runs_require (hne : c.probe ≠ c.install) {events : List (String × Output)} {result : Option Unit}
    (h : Runs (c.require attempt) events result)
    : ∃ output, lastOutput c.probe events = some output
        ∧ count c.install events ≤ attempts
        ∧ (0 < count c.install events →
          ∃ output, firstOutput c.probe events = some output ∧ c.enough output = false)
        ∧ (result = some () → c.enough output = true)
        ∧ (result = none → (count c.install events = attempts ∧ c.enough output = false)
          ∨ ∃ events' last, events = events' ++ last ∧ failed last) := by
  rcases runs_exec_iff.mp h with ⟨output, rest, rfl, hrest⟩
  have honce (events : List (String × Output)) (result : Option Output) (h : Runs attempt events result)
      : count c.install events = 1 := (wp_iff.mp hattempt events result h).once
  have hlast (events : List (String × Output)) (output : Output)
      (h : Runs attempt events (some output))
      : lastOutput c.probe events = some output := (wp_iff.mp hattempt events _ h).last output rfl
  have hretry := runs_retry honce hlast hrest
  have hcount : count c.install ((c.probe, output) :: rest) = count c.install rest := by
    simp [count, hne]
  have hlook : lastOutput c.probe ((c.probe, output) :: rest)
      = some ((lastOutput c.probe rest).getD output) := by
    rw [← List.singleton_append, lastOutput_append]
    cases lastOutput c.probe rest with
    | none => simp [lastOutput]
    | some output' => rfl
  rcases hretry with ⟨hle, hfound, hsome, hnone⟩
  rw [hcount, hlook]
  refine ⟨_, rfl, hle, ?_, hsome, ?_⟩
  . intro hpos
    refine ⟨output, by simp [firstOutput], ?_⟩
    cases henough : c.enough output with
    | false => rfl
    | true =>
      rw [hfound henough] at hpos
      contradiction
  . intro hresult
    rcases hnone hresult with hmissing | ⟨events', last, rfl, hlast⟩
    . exact .inl hmissing
    . exact .inr ⟨(c.probe, output) :: events', last, rfl, (wp_iff.mp hattempt last none hlast).fails rfl⟩

end Require

/-- A section with the commands that it may run, and a bound on how many it runs. -/
structure Outline where
  script : Sh Unit
  commands : List String
  bound : Nat
  only : script.Only (· ∈ commands)
  atMost : script.AtMost bound

def Component.outline (c : Component) {attempt : Sh Output} {commands : List String} {bound : Nat}
    {failed : List (String × Output) → Prop} (h : attempt.wp (Attempt c commands bound failed))
    : Outline where
  script := c.require attempt
  commands := c.probe :: commands
  bound := 1 + attempts * bound
  only := require_only h
  atMost := require_atMost h

def outlines : List Outline :=
  [jdk.outline installJdk_attempt,
    mysql.outline installMysql_attempt,
    { script := database
      commands := ["mysql -uroot -p123 -e \"SHOW DATABASES\"",
        "mysql -uroot -p123 -e \"CREATE SCHEMA `charging_system`\""]
      bound := 3
      only := by
        simp only [database, only_iff, bind_eq, pure_eq, run, capture, Script.bind, wp, wp_ite,
          List.forall_mem_cons]
        simp
      atMost := by
        simp [database, atMost_iff, bind_eq, pure_eq, run, capture, Script.bind, wp, wp_ite] },
    { script := user
      commands :=
        ["mysql --user=\"root\" --password=\"123\" --execute=\"SELECT user FROM mysql.user\"",
          "mysql --user=\"root\" --password=\"123\" --execute=\"CREATE USER keep IDENTIFIED BY '123'\"",
          "mysql --user=\"root\" --password=\"123\" --execute=\"GRANT ALL ON *.* TO keep\"",
          "mysql --user=\"root\" --password=\"123\" --execute=\"FLUSH PRIVILEGES\""]
      bound := 5
      only := by
        simp only [user, only_iff, bind_eq, pure_eq, run, capture, Script.bind, wp, wp_ite,
          List.forall_mem_cons]
        simp
      atMost := by
        simp [user, atMost_iff, bind_eq, pure_eq, run, capture, Script.bind, wp, wp_ite] },
    redis.outline installRedis_attempt,
    unrar.outline installUnrar_attempt,
    { script := run "rm -f sample_to_run.part*"
      commands := ["rm -f sample_to_run.part*"]
      bound := 1
      only := by simp [only_iff, run, wp]
      atMost := by simp [atMost_iff, run, wp] },
    archive.outline downloadArchive_attempt,
    { script := extract
      commands := ["rm -rf sample_to_run", "unrar x sample_to_run.part1.rar"]
      bound := 2
      only := by simp [extract, only_iff, bind_eq, run, Script.bind, wp]
      atMost := by simp [extract, atMost_iff, bind_eq, run, Script.bind, wp] }]

theorem installation_atMost : installation.AtMost 100 := by
  have hbound : ∀ p ∈ outlines.map (fun outline => (outline.script, outline.bound)),
      p.fst.AtMost p.snd := by
    intro p hp
    rcases List.mem_map.mp hp with ⟨outline, _, rfl⟩
    exact outline.atMost
  exact AtMost.inOrder hbound

theorem only_ne {os : List Outline} {command : String} (h : ∀ o ∈ os, command ∉ o.commands)
    : ∀ q ∈ os.map Outline.script, q.Only (· ≠ command) := by
  intro q hq
  rcases List.mem_map.mp hq with ⟨o, ho, rfl⟩
  intro events result hruns event hevent heq
  apply h o ho
  rw [← heq]
  exact o.only events result hruns event hevent

structure IsSection (c : Component) (attempt : Sh Output) (k : Nat) : Prop where
  sections_eq : sections = (outlines.take k).map Outline.script ++ c.require attempt
    :: (outlines.drop (k + 1)).map Outline.script
  probe_ne : c.probe ≠ c.install
  before : ∀ o ∈ outlines.take k, c.install ∉ o.commands
  after_install : ∀ o ∈ outlines.drop (k + 1), c.install ∉ o.commands
  after_probe : ∀ o ∈ outlines.drop (k + 1), c.probe ∉ o.commands

theorem jdk_isSection : IsSection jdk installJdk 0 := by
  constructor
  . rfl
  all_goals decide

theorem mysql_isSection : IsSection mysql installMysql 1 := by
  constructor
  . rfl
  all_goals decide

theorem redis_isSection : IsSection redis installRedis 4 := by
  constructor
  . rfl
  all_goals decide

theorem unrar_isSection : IsSection unrar installUnrar 5 := by
  constructor
  . rfl
  all_goals decide

theorem archive_isSection : IsSection archive downloadArchive 7 := by
  constructor
  . rfl
  all_goals decide

/-- Whether the last look at a component has found it. -/
def LastLook (c : Component) (events : List (String × Output)) (found : Bool) : Prop :=
  ∃ output, lastOutput c.probe events = some output ∧ c.enough output = found

section Component

variable {c : Component} {attempt : Sh Output} {commands : List String} {bound k : Nat}
  {failed : List (String × Output) → Prop} (hattempt : attempt.wp (Attempt c commands bound failed))
  (hsection : IsSection c attempt k) {events : List (String × Output)} {result : Option Unit}
  (h : Runs installation events result)

include hattempt hsection h

theorem component_cases
    : (result = none ∧ count c.install events = 0)
        ∨
      ∃ events' own events'' result', events = events' ++ own ++ events''
        ∧ Runs (c.require attempt) own result' ∧ (result = some () → result' = some ())
        ∧ count c.install events = count c.install own
        ∧ lastOutput c.probe events = lastOutput c.probe own
        ∧ ((∀ o ∈ outlines.take k, c.probe ∉ o.commands) →
          firstOutput c.probe events = firstOutput c.probe own) := by
  have hbefore : ∀ q ∈ (outlines.take k).map Outline.script, q.Only (fun command =>
      command ≠ c.install ∧ ((∀ o ∈ outlines.take k, c.probe ∉ o.commands) → command ≠ c.probe)) := by
    intro q hq events result hruns event hevent
    refine ⟨only_ne hsection.before q hq events result hruns event hevent, ?_⟩
    intro hfirst
    exact only_ne hfirst q hq events result hruns event hevent
  have hafter : ∀ q ∈ (outlines.drop (k + 1)).map Outline.script, q.Only (fun command =>
      command ≠ c.install ∧ command ≠ c.probe) := by
    intro q hq events result hruns event hevent
    exact ⟨only_ne hsection.after_install q hq events result hruns event hevent,
      only_ne hsection.after_probe q hq events result hruns event hevent⟩
  unfold installation at h
  rw [hsection.sections_eq] at h
  rcases runs_section hbefore hafter h with
    ⟨hnone, hP⟩ | ⟨events', own, events'', result', rfl, hP, hP', hown, hsome, _⟩
  . exact .inl ⟨hnone, count_eq_zero (fun event hevent => (hP event hevent).left)⟩
  . have hcount : count c.install (events' ++ own ++ events'') = count c.install own := by
      rw [count_append, count_append, count_eq_zero (fun event hevent => (hP event hevent).left),
        count_eq_zero (fun event hevent => (hP' event hevent).left)]
      omega
    rcases runs_require hattempt hsection.probe_ne hown with ⟨output, hlook, _⟩
    have hlast : lastOutput c.probe (events' ++ own ++ events'') = lastOutput c.probe own := by
      rw [lastOutput_append, lastOutput_append, hlook,
        lastOutput_eq_none (fun event hevent => (hP' event hevent).right)]
      rfl
    refine .inr ⟨events', own, events'', result', rfl, hown, hsome, hcount, hlast, ?_⟩
    intro hfirst
    rw [firstOutput_append, firstOutput_append,
      firstOutput_eq_none (fun event hevent => (hP event hevent).right hfirst),
      firstOutput_eq_none (fun event hevent => (hP' event hevent).right)]
    simp

theorem component_attempts_le : count c.install events ≤ attempts := by
  rcases component_cases hattempt hsection h with
    ⟨_, hzero⟩ | ⟨_, own, _, result', _, hown, _, hcount, _, _⟩
  . rw [hzero]
    exact Nat.zero_le _
  . rcases runs_require hattempt hsection.probe_ne hown with ⟨_, _, hle, _⟩
    rw [hcount]
    exact hle

theorem component_found (hresult : result = some ()) : LastLook c events true := by
  rcases component_cases hattempt hsection h with
    ⟨hnone, _⟩ | ⟨_, own, _, result', _, hown, hsome, _, hlast, _⟩
  . rw [hresult] at hnone
    contradiction
  . rcases runs_require hattempt hsection.probe_ne hown with ⟨output, hlook, _, _, hfound, _⟩
    exact ⟨output, hlast.trans hlook, hfound (hsome hresult)⟩

theorem component_missing (hfirst : ∀ o ∈ outlines.take k, c.probe ∉ o.commands)
    (hpos : 0 < count c.install events)
    : ∃ output, firstOutput c.probe events = some output ∧ c.enough output = false := by
  rcases component_cases hattempt hsection h with
    ⟨_, hzero⟩ | ⟨_, own, _, result', _, hown, _, hcount, _, hfirst'⟩
  . omega
  . rcases runs_require hattempt hsection.probe_ne hown with ⟨_, _, _, hmissing, _⟩
    rw [hcount] at hpos
    rw [hfirst' hfirst]
    exact hmissing hpos

end Component

theorem lastOutput_append_of_some {command : String} {events : List (String × Output)} {output : Output}
    (h : lastOutput command events = some output) (events' : List (String × Output))
    : lastOutput command (events' ++ events) = some output := by
  rw [lastOutput_append, h, Option.some_or]

theorem require_fails {c : Component} {attempt : Sh Output} {commands : List String} {bound k : Nat}
    {failed : List (String × Output) → Prop} (hattempt : attempt.wp (Attempt c commands bound failed))
    (hsection : IsSection c attempt k) {events last : List (String × Output)}
    (h : Runs installation (events ++ last) none) (hlast : Runs (c.require attempt) last none)
    : (LastLook c (events ++ last) false ∧ count c.install (events ++ last) = attempts)
        ∨
      ∃ events' last', events ++ last = events' ++ last' ∧ failed last' := by
  rcases runs_require hattempt hsection.probe_ne hlast with ⟨output, hlook, _, _, _, hnone⟩
  rcases hnone rfl with ⟨hcount, hmissing⟩ | ⟨events', last', rfl, hfailed⟩
  . refine .inl ⟨⟨output, lastOutput_append_of_some hlook events, hmissing⟩, ?_⟩
    have hle := component_attempts_le hattempt hsection h
    rw [count_append] at hle ⊢
    omega
  . exact .inr ⟨events ++ events', last', by simp, hfailed⟩

theorem require_gives_up {c : Component} {attempt : Sh Output} {commands : List String} {bound k : Nat}
    (hattempt : attempt.wp (Attempt c commands bound (fun _ => False)))
    (hsection : IsSection c attempt k) {events last : List (String × Output)}
    (h : Runs installation (events ++ last) none) (hlast : Runs (c.require attempt) last none)
    : LastLook c (events ++ last) false ∧ count c.install (events ++ last) = attempts := by
  rcases require_fails hattempt hsection h hlast with hfails | ⟨_, _, _, hfalse⟩
  . exact hfails
  . contradiction

theorem not_runs_none {p : Sh Unit} (h : p.wp (fun _ result => result ≠ none))
    (events : List (String × Output))
    : ¬Runs p events none := by
  intro hruns
  exact wp_iff.mp h events none hruns rfl

theorem database_never_exits : database.wp (fun _ result => result ≠ none) := by
  simp [database, bind_eq, pure_eq, run, capture, Script.bind, wp, wp_ite]

theorem user_never_exits : user.wp (fun _ result => result ≠ none) := by
  simp [user, bind_eq, pure_eq, run, capture, Script.bind, wp, wp_ite]

theorem extract_cases
    : extract.wp (fun events result => result = some ()
        ∧ ∃ output output', events
          = [("rm -rf sample_to_run", output), ("unrar x sample_to_run.part1.rar", output')]) := by
  simp [extract, bind_eq, run, Script.bind, wp]

def components : List Component :=
  [jdk, mysql, redis, unrar, archive]

theorem exists_isSection {c : Component} (hc : c ∈ components)
    : ∃ attempt commands bound failed k,
        attempt.wp (Attempt c commands bound failed) ∧ IsSection c attempt k := by
  simp only [components, List.mem_cons, List.not_mem_nil, or_false] at hc
  rcases hc with rfl | rfl | rfl | rfl | rfl
  . exact ⟨_, _, _, _, _, installJdk_attempt, jdk_isSection⟩
  . exact ⟨_, _, _, _, _, installMysql_attempt, mysql_isSection⟩
  . exact ⟨_, _, _, _, _, installRedis_attempt, redis_isSection⟩
  . exact ⟨_, _, _, _, _, installUnrar_attempt, unrar_isSection⟩
  . exact ⟨_, _, _, _, _, downloadArchive_attempt, archive_isSection⟩

theorem installation_fails {events : List (String × Output)} (h : Runs installation events none)
    : (∃ c ∈ components, LastLook c events false ∧ count c.install events = attempts)
        ∨
      lacksConfiguration events := by
  rcases runs_inOrder_none h with ⟨before, p, after, events', last, hsections, rfl, _, hp⟩
  have hmem : p ∈ sections := by
    simp [hsections]
  simp only [sections, List.mem_cons, List.not_mem_nil, or_false] at hmem
  rcases hmem with rfl | rfl | rfl | rfl | rfl | rfl | rfl | rfl | rfl
  . exact .inl ⟨jdk, by simp [components], require_gives_up installJdk_attempt jdk_isSection h hp⟩
  . exact .inl ⟨mysql, by simp [components], require_gives_up installMysql_attempt mysql_isSection h hp⟩
  . exact absurd hp (not_runs_none database_never_exits last)
  . exact absurd hp (not_runs_none user_never_exits last)
  . rcases require_fails installRedis_attempt redis_isSection h hp with
      hfails | ⟨_, _, heq, output, hlook, hmissing⟩
    . exact .inl ⟨redis, by simp [components], hfails⟩
    . rw [heq]
      exact .inr ⟨output, lastOutput_append_of_some hlook _, hmissing⟩
  . exact .inl ⟨unrar, by simp [components], require_gives_up installUnrar_attempt unrar_isSection h hp⟩
  . exact absurd hp (not_runs_none (by simp [run, wp]) last)
  . exact .inl ⟨archive, by simp [components],
      require_gives_up downloadArchive_attempt archive_isSection h hp⟩
  . have := (wp_iff.mp extract_cases last none hp).left
    contradiction

/--
Whatever the commands print, the installation runs at most a hundred of them, tries nothing more than
three times, and installs only what it has not found at its first look. It comes to extract the archive,
which it then does last, only if the last look at every component has found it, and otherwise it has given
up one after three attempts or has not got the configuration of redis.
-/
theorem installation_runs {events : List (String × Output)} {result : Option Unit}
    (h : Runs installation events result)
    : events.length ≤ 100
        ∧
      (∀ c ∈ components, count c.install events ≤ attempts)
        ∧
      (∀ c ∈ [jdk, mysql, redis, unrar], 0 < count c.install events →
        ∃ output, firstOutput c.probe events = some output ∧ c.enough output = false)
        ∧
      (result = some () → (∀ c ∈ components, LastLook c events true)
        ∧ ∃ before output output', events = before
          ++ [("rm -rf sample_to_run", output), ("unrar x sample_to_run.part1.rar", output')])
        ∧
      (result = none → (∀ event ∈ events, event.fst ≠ "unrar x sample_to_run.part1.rar")
        ∧ ((∃ c ∈ components, LastLook c events false ∧ count c.install events = attempts)
          ∨ lacksConfiguration events)) := by
  have hextract : ∀ q ∈ (outlines.take 8).map Outline.script,
      q.Only (· ≠ "unrar x sample_to_run.part1.rar") := by
    apply only_ne
    decide
  have hafter : ∀ q ∈ ([] : List (Sh Unit)), q.Only (fun _ => True) := by
    simp
  replace h : Runs (inOrder ((outlines.take 8).map Outline.script ++ extract :: [])) events result := h
  have hcases := runs_section hextract hafter h
  refine ⟨installation_atMost events result h, ?_, ?_, ?_, ?_⟩
  . intro c hc
    rcases exists_isSection hc with ⟨attempt, commands, bound, failed, k, hattempt, hsection⟩
    exact component_attempts_le hattempt hsection h
  . simp only [List.forall_mem_cons, List.not_mem_nil, false_implies, implies_true, and_true]
    exact ⟨component_missing installJdk_attempt jdk_isSection h (by decide),
      component_missing installMysql_attempt mysql_isSection h (by decide),
      component_missing installRedis_attempt redis_isSection h (by decide),
      component_missing installUnrar_attempt unrar_isSection h (by decide)⟩
  . intro hresult
    constructor
    . intro c hc
      rcases exists_isSection hc with ⟨attempt, commands, bound, failed, k, hattempt, hsection⟩
      exact component_found hattempt hsection h hresult
    . rcases hcases with ⟨hnone, _⟩ | ⟨events', own, events'', result', rfl, _, _, hown, hsome, hrest⟩
      . rw [hresult] at hnone
        contradiction
      . rcases wp_iff.mp extract_cases own result' hown with ⟨hdone, output, output', rfl⟩
        rcases runs_done_iff.mp (hrest hdone) with ⟨rfl, _⟩
        exact ⟨events', output, output', by simp⟩
  . intro hresult
    constructor
    . rcases hcases with ⟨_, hP⟩ | ⟨events', own, events'', result', rfl, _, _, hown, hsome, hrest⟩
      . exact hP
      . have hdone := (wp_iff.mp extract_cases own result' hown).left
        rcases runs_done_iff.mp (hrest hdone) with ⟨_, hsome'⟩
        rw [hresult] at hsome'
        contradiction
    . rw [hresult] at h
      exact installation_fails h

-- A host that has everything but the archive.
def installedHost (downloaded : Bool) (command : String) : Bool × Output :=
  if command = "rm -f sample_to_run.part*" then
    (false, [])
  else if command = archive.install then
    (true, [])
  else if command = "ls -l" then
    (downloaded, if downloaded then "sample_to_run.part1.rar sample_to_run.part2.rar".toList else [])
  else if command = "mysql --version" then
    (downloaded, "mysql  Ver 8.0.18".toList)
  else
    (downloaded, [])

theorem installation_runs_installedHost
    : ∃ events, Runs installation events (some ()) ∧ events.length ≤ 100
        ∧ ∀ c ∈ components, LastLook c events true := by
  rcases runs_eval installedHost installation false with ⟨events, h⟩
  replace h : Runs installation events (some ()) := h
  have hinstalls := installation_runs h
  exact ⟨events, h, hinstalls.left, (hinstalls.right.right.right.left rfl).left⟩

/-- The server as the client `mysql` reaches it. -/
def client (s : Provision.MySql) (command : String) : Provision.MySql × Output :=
  if command = "mysql -uroot -p123 -e \"SHOW DATABASES\"" then
    (s, Provision.showDatabases s)
  else if command = "mysql -uroot -p123 -e \"CREATE SCHEMA `charging_system`\"" then
    (Provision.createSchema s, [])
  else if command
      = "mysql --user=\"root\" --password=\"123\" --execute=\"SELECT user FROM mysql.user\"" then
    (s, Provision.selectUser s)
  else if command
      = "mysql --user=\"root\" --password=\"123\" --execute=\"CREATE USER keep IDENTIFIED BY '123'\"" then
    (Provision.createUser s, [])
  else if command = "mysql --user=\"root\" --password=\"123\" --execute=\"GRANT ALL ON *.* TO keep\"" then
    (Provision.grantAll s, [])
  else
    (s, [])

theorem eval_database (s : Provision.MySql)
    : database.eval client s = (Provision.databaseSection s, some ()) := by
  unfold Provision.databaseSection Provision.createUnless
  split
  . next hmissing =>
    have hcontains : contains (Provision.showDatabases s) "charging_system" = false :=
      decide_eq_false hmissing
    simp [database, bind_eq, pure_eq, run, capture, Script.bind, eval, client, hcontains]
  . next hfound =>
    have hcontains : contains (Provision.showDatabases s) "charging_system" = true :=
      decide_eq_true (not_not.mp hfound)
    simp [database, bind_eq, pure_eq, run, capture, Script.bind, eval, client, hcontains]

theorem eval_user (s : Provision.MySql)
    : user.eval client s = (Provision.userSection s, some ()) := by
  unfold Provision.userSection Provision.createUnless
  split
  . next hmissing =>
    have hcontains : contains (Provision.selectUser s) "keep" = false := decide_eq_false hmissing
    simp [user, bind_eq, pure_eq, run, capture, Script.bind, eval, client, hcontains]
  . next hfound =>
    have hcontains : contains (Provision.selectUser s) "keep" = true :=
      decide_eq_true (not_not.mp hfound)
    simp [user, bind_eq, pure_eq, run, capture, Script.bind, eval, client, hcontains]

end Install
