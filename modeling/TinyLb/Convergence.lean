import TinyLb.HostRouting
import TinyLb.Tasks

/-! What the file says is what the proxy does, once the file is left alone: for the reload loop, and
for all the tasks of a process next to each other. -/

namespace TinyLb.Convergence
open Config Hosts Backends Tls LiveConfig Machine Tasks
open Reload hiding step
open HostRouting (BestRoute ExactMatch WildcardMatch)
open Text (splitFirst)

section Loop
variable {Cert PrivateKey SigningKey : Type} {formats : ReloadLoop.Formats Cert PrivateKey SigningKey}
  {c : LbConfig} {p : Process Cert SigningKey} {action : ReloadLoop.Action}
  {s t : ReloadLoop.State Cert SigningKey}

/-- The window is the configuration's, and so is the table where the routes can be applied. -/
structure Shows (c : LbConfig) (p : Process Cert SigningKey) : Prop where
  secs : p.windowMs = windowOfSecs c.log.errorSummarySecs
  table : validate c.routes = .ok () → Distinct c.routes → p.registry.config = c.routes

theorem start_shows {parsers : Parsers Cert PrivateKey SigningKey} {disk : Disk} {now : Instant}
    (started : Process.start parsers disk now c = some p) : Valid p.registry ∧ Shows c p := by
  have both : ∀ {reg : BackendRegistry} {resolver : Option (ReloadableCertResolver Cert SigningKey)},
      BackendRegistry.new now c.routes = .ok reg →
      Valid reg ∧ Shows c ⟨reg, windowOfSecs c.log.errorSummarySecs, resolver⟩ := by
    intro reg resolver built
    obtain ⟨valid, shown⟩ := new_spec built
    exact ⟨valid, rfl, fun _ _ => shown⟩
  unfold Process.start at started
  split at started
  next reg _ _ built _ _ =>
    split at started
    next => cases started; exact both built
    next => cases started
  next reg built _ _ => cases started; exact both built
  next => cases started

theorem reloadBody_shows {parsers : Parsers Cert PrivateKey SigningKey} {disk : Disk} {now : Instant}
    {answer : Except HostError Unit} {after : Process Cert SigningKey} (valid : Valid p.registry)
    (applied : reloadBody parsers disk now c p = some (answer, after)) :
    Valid after.registry ∧ Shows c after := by
  unfold reloadBody at applied
  split at applied
  next => cases applied
  next reply registry called =>
    cases applied
    refine ⟨applyConfig_valid valid called, rfl, fun accepted distinct => ?_⟩
    rcases applyConfig_cases called with ⟨e, refused, -, -⟩ | ⟨ids, last, -, -, done, rfl⟩
    · rw [refused] at accepted
      cases accepted
    · have shown : ids.map last.route = c.routes := applyRoutes_config valid distinct done
      exact shown

def pending : ReloadLoop.Position → Option LbConfig
  | .launching c | .applying c => some c
  | _ => none

/-- The process runs on what was loaded last, where that is a configuration. -/
structure UpToDate (formats : ReloadLoop.Formats Cert PrivateKey SigningKey)
    (s : ReloadLoop.State Cert SigningKey) : Prop where
  valid : ∀ p, s.process = some p → Valid p.registry
  read : ∀ c, pending s.position = some c → s.lastLoad.bind formats.toml = some c
  live : pending s.position = none → ∀ c, s.lastLoad.bind formats.toml = some c →
    ∃ p, s.process = some p ∧ Shows c p

theorem upToDate_start (file : ReloadLoop.ConfigFile) :
    UpToDate formats (.start file : ReloadLoop.State Cert SigningKey) where
  valid p none := by cases none
  read c none := by cases none
  live _ c none := by cases none

theorem moves_upToDate (moves : ReloadLoop.Moves formats s action t) (known : UpToDate formats s) :
    UpToDate formats t := by
  obtain ⟨valid, read, live⟩ := known
  cases moves with
  | write | sighup => exact ⟨valid, read, live⟩
  | load c here parsed =>
    refine ⟨valid, fun c' same => ?_, fun quiet => (by cases quiet)⟩
    cases same
    exact parsed
  | launch now disk c p here started =>
    obtain ⟨sound, shows⟩ := start_shows started
    refine ⟨fun p' same => ?_, fun c' none => (by cases none), fun _ c' loaded => ⟨p, rfl, ?_⟩⟩
    · cases same
      exact sound
    · have before := read c (by rw [here]; rfl)
      cases before.symm.trans loaded
      exact shows
  | begin here | listen here | early here | tick here | recv here | unmodified here | modified here | hungUp here =>
    exact ⟨valid, fun c none => (by cases none), fun _ => live (by rw [here]; rfl)⟩
  | reloadConfig c here parsed =>
    refine ⟨valid, fun c' same => ?_, fun quiet => (by cases quiet)⟩
    cases same
    exact parsed
  | unreadable here refused =>
    refine ⟨valid, fun c none => (by cases none), fun _ c loaded => ?_⟩
    rw [Option.bind_some, refused] at loaded
    cases loaded
  | apply now disk c answer after here applied =>
    obtain ⟨p, running, done⟩ := Option.bind_eq_some_iff.mp applied
    obtain ⟨sound, shows⟩ := reloadBody_shows (valid p running) done
    refine ⟨fun p' same => ?_, fun c' none => (by cases none), fun _ c' loaded => ⟨after, rfl, ?_⟩⟩
    · cases same
      exact sound
    · have before := read c (by rw [here]; rfl)
      cases before.symm.trans loaded
      exact shows

theorem reachable_upToDate (reached : Reachable (ReloadLoop.step formats) s t) (known : UpToDate formats s) :
    UpToDate formats t :=
  reached.invariant (fun _ _ _ before taken => moves_upToDate (ReloadLoop.step_moves taken) before) known

end Loop

section Processes
variable {Cert PrivateKey SigningKey : Type} {formats : ReloadLoop.Formats Cert PrivateKey SigningKey}
  {config : HealthConfig} {a : Tasks.Action} {actions : List Tasks.Action} {s t : Tasks.State Cert SigningKey}

theorem watch_cases (taken : step formats config a s = some t) :
    t.watch = s.watch ∨ (∃ b, a = .watch b ∧ ReloadLoop.step formats b s.watch = some t.watch) ∨
      (∃ c, s.watch.position = .applying c) ∧ t.watch = { s.watch with position := .selecting } := by
  cases step_change taken with
  | watch b next own moved => exact Or.inr (Or.inl ⟨b, rfl, moved⟩)
  | tryReloadCerts disk c here stage => exact Or.inr (Or.inr ⟨⟨c, here⟩, rfl⟩)
  | _ => exact Or.inl rfl

def FreshWrite : Tasks.Action → Tasks.State Cert SigningKey → Prop
  | .watch b, s => ReloadLoop.FreshWrite b s.watch
  | _, _ => True

def NoWrite (a : Tasks.Action) : Prop := ∀ file, a ≠ .watch (.write file)

theorem NoWrite.watch {b : ReloadLoop.Action} (quiet : NoWrite (.watch b)) : ReloadLoop.NoWrite b :=
  fun file same => quiet file (congrArg _ same)

theorem step_tracked (taken : step formats config a s = some t) (fresh : FreshWrite a s)
    (tracked : ReloadLoop.Tracked s.watch) : ReloadLoop.Tracked t.watch := by
  rcases watch_cases taken with same | ⟨b, rfl, moved⟩ | ⟨⟨c, here⟩, ended⟩
  · rw [same]
    exact tracked
  · exact (ReloadLoop.step_moves moved).tracked fresh tracked
  · rw [ended]
    exact ⟨⟨tracked.stamped.file, tracked.stamped.remembered⟩, rfl, fun _ => tracked.unmodified (by simp [here])⟩

theorem step_polled (taken : step formats config a s = some t) (fresh : FreshWrite a s) (quiet : NoWrite a)
    (polled : ReloadLoop.Polled s.watch) : ReloadLoop.Polled t.watch := by
  rcases watch_cases taken with same | ⟨b, rfl, moved⟩ | ⟨⟨c, here⟩, ended⟩
  · rw [same]
    exact polled
  · exact (ReloadLoop.step_moves moved).polled fresh quiet.watch polled
  · refine ⟨step_tracked taken fresh polled.tracked, fun _ _ => ?_⟩
    rw [ended]
    exact polled.settled (by simp [here]) (by simp [here])

theorem step_lastLoad (taken : step formats config a s = some t) (quiet : NoWrite a)
    (loaded : s.watch.lastLoad = some s.watch.file.contents) :
    t.watch.lastLoad = some t.watch.file.contents := by
  rcases watch_cases taken with same | ⟨b, rfl, moved⟩ | ⟨-, ended⟩
  · rw [same]
    exact loaded
  · exact (ReloadLoop.step_moves moved).lastLoad quiet.watch loaded
  · rw [ended]
    exact loaded

/-- From a state that the loop relies on: when a tick has been handled, what was loaded last is what
the file holds, until it is written again. -/
theorem loaded_of_tick {before after rest : List Tasks.Action} {v handled : Tasks.State Cert SigningKey}
    (tracked : ReloadLoop.Tracked v.watch)
    (fresh : Conforms (step formats config) FreshWrite (before ++ .watch .tick :: after) v)
    (ticked : run (step formats config) (before ++ .watch .tick :: after) v = some handled)
    (selecting : handled.watch.position = .selecting) (quiet : ∀ a ∈ after ++ rest, NoWrite a)
    (done : run (step formats config) rest handled = some s) :
    s.watch.lastLoad = some s.watch.file.contents := by
  obtain ⟨due, first, second⟩ := run_append_some.mp ticked
  obtain ⟨freshBefore, freshTick⟩ := Conforms.append fresh first
  obtain ⟨won, taken, third⟩ := run_cons_some.mp second
  have reached : ReloadLoop.Tracked due.watch :=
    run_invariant_of_conforms (I := fun s => ReloadLoop.Tracked s.watch)
      (fun _ _ _ known ok taken => step_tracked taken ok known) tracked freshBefore first
  have polled : ReloadLoop.Polled won.watch := by
    refine ⟨step_tracked taken trivial reached, fun elsewhere => ?_⟩
    cases step_change taken with
    | watch b next own moved => cases ReloadLoop.step_moves moved <;> exact absurd rfl elsewhere
  have settled : ReloadLoop.Polled handled.watch :=
    run_invariant_of_conforms (I := fun s => ReloadLoop.Polled s.watch)
      (fun _ _ _ known ok taken => step_polled taken ok.1 ok.2 known) polled
      ((freshTick.2 won taken).and_forall fun a member => quiet a (List.mem_append_left _ member)) third
  have loaded := settled.settled (by simp [selecting]) (by simp [selecting])
  have keep : ∀ a (x y : Tasks.State Cert SigningKey), x.watch.lastLoad = some x.watch.file.contents →
      NoWrite a → step formats config a x = some y → y.watch.lastLoad = some y.watch.file.contents :=
    fun _ _ _ known ok taken => step_lastLoad taken ok known
  exact run_invariant_of_forall keep loaded (fun a member => quiet a (List.mem_append_right _ member)) done

variable {file : ReloadLoop.ConfigFile} {boot : List ReloadLoop.Action} {r : ReloadLoop.State Cert SigningKey}
  {p : Process Cert SigningKey} {now : Instant} {routes : List RouteConfig} {c : LbConfig}

theorem shows_of_run (booted : run (ReloadLoop.step formats) boot (.start file) = some r)
    (launched : r.process = some p) (done : run (step formats config) actions (.start now routes p r) = some s)
    (idle : pending s.watch.position = none) (loaded : s.watch.lastLoad.bind formats.toml = some c) :
    s.windowMs = windowOfSecs c.log.errorSummarySecs ∧ s.traffic.reload = none ∧
      (validate c.routes = .ok () → Distinct c.routes → s.traffic.reg.config = c.routes) := by
  obtain ⟨_, reached, p', rfl, -, body⟩ := run_mirrors launched done
  have upToDate := reachable_upToDate (Reachable.trans ⟨boot, booted⟩ reached) (upToDate_start file)
  obtain ⟨last, same, shows⟩ := upToDate.live idle c loaded
  cases same
  have elsewhere : ∀ c', s.watch.position ≠ .applying c' := by
    intro c' here
    rw [here] at idle
    cases idle
  cases body with
  | window stage secs unlocked follows =>
    refine ⟨secs.symm.trans shows.secs, unlocked, fun accepted distinct => ?_⟩
    exact (follows.quiet unlocked).config.trans (shows.table accepted distinct)
  | table c' _ here => exact absurd here (elsewhere c')
  | rounds c' _ _ here => exact absurd here (elsewhere c')
  | certs c' _ _ _ _ here => exact absurd here (elsewhere c')

theorem tracked_of_begin (booted : run (ReloadLoop.step formats) boot (.start file) = some r)
    (launched : r.process = some p) (started : run (step formats config) actions (.start now routes p r) = some s)
    (begun : step formats config (.watch .begin) s = some t)
    (current : t.watch.lastLoad = some t.watch.file.contents) : ReloadLoop.Tracked t.watch := by
  have done := run_snoc_some.mpr ⟨s, started, begun⟩
  obtain ⟨_, ⟨more, reached⟩, p', rfl, -, -⟩ := run_mirrors launched done
  have stamped := ReloadLoop.run_stamped (run_trans booted reached)
  refine ⟨⟨stamped.file, stamped.remembered⟩, ?_, fun _ _ => current⟩
  cases step_change begun with
  | watch b next own moved =>
    cases ReloadLoop.step_moves moved
    rfl

/-- All tasks of a process next to each other. The file holds what was loaded when its modification time
is first read, and every edit gives it one that it never had; a poll tick is handled after the last edit. Then
the window is what the file says whenever no reload is under way; and so are the table and the group of
every host, if the routes are accepted with no host twice and no url twice in a route. -/
theorem edits_take_effect {starting before after rest : List Tasks.Action} {u v handled : Tasks.State Cert SigningKey}
    (booted : run (ReloadLoop.step formats) boot (.start file) = some r) (launched : r.process = some p)
    (started : run (step formats config) starting (.start now routes p r) = some u)
    (begun : step formats config (.watch .begin) u = some v)
    (current : v.watch.lastLoad = some v.watch.file.contents)
    (fresh : Conforms (step formats config) FreshWrite (before ++ .watch .tick :: after) v)
    (ticked : run (step formats config) (before ++ .watch .tick :: after) v = some handled)
    (selecting : handled.watch.position = .selecting) (quiet : ∀ a ∈ after ++ rest, NoWrite a)
    (done : run (step formats config) rest handled = some s) (idle : pending s.watch.position = none)
    (parsed : formats.toml s.watch.file.contents = some c) :
    s.windowMs = windowOfSecs c.log.errorSummarySecs ∧
      (validate c.routes = .ok () → Distinct c.routes → s.traffic.reg.config = c.routes ∧
        ∀ header,
          (∀ g, s.traffic.reg.findGroup header = some g →
            ∃ i, s.traffic.reg.groups[i]? = some g ∧ BestRoute c.routes (splitFirst ':' header) i) ∧
          (s.traffic.reg.findGroup header = none ↔
            ∀ route ∈ c.routes, ¬ExactMatch route.host (splitFirst ':' header) ∧
              ∀ suffix, ¬WildcardMatch route.host (splitFirst ':' header) suffix)) := by
  have tracked := tracked_of_begin booted launched started begun current
  have loaded := loaded_of_tick tracked fresh ticked selecting quiet done
  have whole : run (step formats config)
      (starting ++ .watch .begin :: ((before ++ .watch .tick :: after) ++ rest)) (.start now routes p r) = some s :=
    run_trans started (run_cons_some.mpr ⟨v, begun, run_trans ticked done⟩)
  have known : s.watch.lastLoad.bind formats.toml = some c := by
    rw [loaded]
    exact parsed
  obtain ⟨secs, -, table⟩ := shows_of_run booted launched whole idle known
  refine ⟨secs, fun accepted distinct => ?_⟩
  have shown := table accepted distinct
  refine ⟨shown, fun header => ⟨fun g found => ?_, ?_⟩⟩
  · obtain ⟨i, here, chosen⟩ := HostRouting.findGroup_eq_some.mp found
    exact ⟨i, here, shown ▸ chosen.bestRoute⟩
  · rw [← shown]
    exact HostRouting.findGroup_eq_none

/-- The edit removes a route and raises a limit, while a request goes through; then the health checks wake. -/
theorem edits_take_effect_busy : ∃ (formats : ReloadLoop.Formats Unit Unit Unit) (s : Tasks.State Unit Unit)
    (edited : LbConfig), formats.toml s.watch.file.contents = some edited ∧
      formats.toml [] ≠ some edited ∧ (s.traffic.reg.backend 0).activeConnections = 1 ∧
      s.windowMs = windowOfSecs edited.log.errorSummarySecs ∧ s.traffic.reg.config = edited.routes := by
  let routes : List RouteConfig := [⟨['a'], [⟨['u'], 5, false⟩]⟩, ⟨['b'], []⟩]
  let first : LbConfig := { sampleConfig with routes := routes }
  let edited : LbConfig :=
    { sampleConfig with routes := [⟨['a'], [⟨['u'], 9, false⟩]⟩], log := ⟨none, 50, 3, 0⟩ }
  let formats : ReloadLoop.Formats Unit Unit Unit :=
    ⟨fun contents => if contents = [] then some first else some edited, noPem⟩
  let move (m : Traffic.Move) : Tasks.Action := .request (.advance 0 m)
  let starting : List Tasks.Action := [.request (.arrive ['/'] ['a'] false), move .findGroup]
  let before : List Tasks.Action := [move .selectBackend, .watch (.write ⟨[1], 1⟩)]
  let after : List Tasks.Action :=
    [.watch .metadata, .watch .reloadConfig, .setWindowSecs, .applyConfig, move .openGuard, .applyRoute,
      .swapGroups, .tryReloadCerts noFiles]
  let rest : List Tasks.Action := [.health .wake]
  let table : BackendRegistry := ⟨⟨[⟨['u'], 5, false, true, 0, 0, 0⟩]⟩,
    ⟨[⟨['a'], .exact ['a'], [0], rfl⟩, ⟨['b'], .exact ['b'], [], rfl⟩]⟩, [0, 1]⟩
  let p : Process Unit Unit := ⟨table, windowOfSecs 60, none⟩
  let r : ReloadLoop.State Unit Unit := ⟨⟨[], 0⟩, [0], .spawned, none, none, false, some [], some p⟩
  have booted : run (ReloadLoop.step formats) [.load, .launch 0 noFiles] (.start ⟨[], 0⟩) = some r := rfl
  let u := (run (step formats ⟨10, 1, 1⟩) starting (.start 0 routes p r)).get rfl
  let v := (step formats ⟨10, 1, 1⟩ (.watch .begin) u).get rfl
  let handled := (run (step formats ⟨10, 1, 1⟩) (before ++ .watch .tick :: after) v).get rfl
  have started : run (step formats ⟨10, 1, 1⟩) starting (.start 0 routes p r) = some u := rfl
  have begun : step formats ⟨10, 1, 1⟩ (.watch .begin) u = some v := rfl
  have ticked : run (step formats ⟨10, 1, 1⟩) (before ++ .watch .tick :: after) v = some handled := rfl
  have done : run (step formats ⟨10, 1, 1⟩) rest handled = some _ := rfl
  have quiet : ∀ a ∈ after ++ rest, NoWrite a := by simp [after, rest, move, NoWrite]
  have later : ∀ a ∈ .watch .tick :: after, ∀ s : Tasks.State Unit Unit, FreshWrite a s := by
    simp [after, move, FreshWrite, ReloadLoop.FreshWrite]
  have new : (1 : ReloadLoop.SystemTime) ∉ [0] := by decide
  have fresh : Conforms (step formats ⟨10, 1, 1⟩) FreshWrite (before ++ .watch .tick :: after) v :=
    .cons trivial rfl (.cons new rfl (.of_forall later _))
  obtain ⟨secs, table⟩ := edits_take_effect booted rfl started begun rfl fresh ticked rfl quiet done rfl rfl
  exact ⟨formats, _, edited, rfl, by decide, rfl, secs, (table rfl ⟨by decide, by decide⟩).1⟩

end Processes

end TinyLb.Convergence
