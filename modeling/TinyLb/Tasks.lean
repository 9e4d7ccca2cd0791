import TinyLb.AtomicReload
import TinyLb.RouteSnapshot
import TinyLb.HealthChecks
import TinyLb.Sampling
import TinyLb.ReloadLoop

/-! The tasks that `run` spawns, side by side: the requests, the health checks, the sampler, and the
loop that reloads the configuration, whose body is a step at a time here. -/

namespace TinyLb.Tasks
open Config Backends Tls LiveConfig StatsStore AtomicReload Machine
open Traffic hiding step Action
open Sampling (Sampler Tick)
open HealthChecks (Round Visit Loop)

/-- Where the body of the reload loop stands, once a configuration has been read. -/
inductive Stage where
  | window
  | table
  | rounds
  | certs
  deriving DecidableEq

/-- All that the tasks share or remember. The `process` of `watch` is the one that was launched; what has
become of it is in the other fields. -/
structure State (Cert SigningKey : Type) where
  traffic : System
  clock : Instant
  loop : Loop
  rounds : List Round
  visits : List Visit
  stats : Stats
  sampler : Sampler
  ticks : List Tick
  reading : Tick
  watch : ReloadLoop.State Cert SigningKey
  stage : Stage
  windowMs : UInt64
  resolver : Option (ReloadableCertResolver Cert SigningKey)

inductive Action where
  | request (action : Traffic.Action)
  | health (action : HealthChecks.Action)
  | sample (action : Sampling.Action)
  | watch (action : ReloadLoop.Action)
  | setWindowSecs
  | applyConfig
  | applyRoute
  | swapGroups
  | tryReloadCerts (disk : Disk)

section Model
variable {Cert PrivateKey SigningKey : Type}

/-- `run` after its last spawn. -/
def State.start (now : Instant) (routes : List RouteConfig) (p : Process Cert SigningKey)
    (watch : ReloadLoop.State Cert SigningKey) : State Cert SigningKey :=
  ⟨.start p.registry routes, now, .asleep, [], [], .new, .asleep, [], .empty, watch, .window, p.windowMs,
    p.resolver⟩

def State.health (s : State Cert SigningKey) : HealthChecks.State :=
  ⟨s.traffic, s.clock, s.loop, s.rounds, s.visits⟩

def State.withHealth (s : State Cert SigningKey) (h : HealthChecks.State) : State Cert SigningKey :=
  { s with traffic := h.traffic, clock := h.clock, loop := h.loop, rounds := h.past, visits := h.visits }

def State.sampling (s : State Cert SigningKey) : Sampling.State :=
  ⟨s.traffic, s.stats, s.sampler, s.ticks, s.reading⟩

def State.withSampling (s : State Cert SigningKey) (m : Sampling.State) : State Cert SigningKey :=
  { s with traffic := m.traffic, stats := m.stats, sampler := m.sampler, ticks := m.past, reading := m.current }

/-- One step of one task. Requests arrive and advance; the other tasks make their own moves only. -/
def step (formats : ReloadLoop.Formats Cert PrivateKey SigningKey) (config : HealthConfig) :
    Action → State Cert SigningKey → Option (State Cert SigningKey)
  | .request (.arrive path host upgrade), s =>
      (Traffic.step (.arrive path host upgrade) s.traffic).map fun next => { s with traffic := next }
  | .request (.advance r move), s =>
      (Traffic.step (.advance r move) s.traffic).map fun next => { s with traffic := next }
  | .request _, _ => none
  | .health (.traffic _), _ => none
  | .health action, s => (HealthChecks.step config action s.health).map s.withHealth
  | .sample (.traffic _), _ => none
  | .sample action, s => (Sampling.step action s.sampling).map s.withSampling
  | .watch (.launch _ _), _ => none
  | .watch (.apply _ _), _ => none
  | .watch action, s => (ReloadLoop.step formats action s.watch).map fun next => { s with watch := next }
  | .setWindowSecs, s =>
      match s.watch.position, s.stage with
      | .applying config, .window =>
          some { s with windowMs := windowOfSecs config.log.errorSummarySecs, stage := .table }
      | _, _ => none
  | .applyConfig, s =>
      match s.watch.position, s.stage with
      | .applying config, .table =>
          (Traffic.step (.reloadStart s.clock config.routes) s.traffic).map fun next =>
            { s with traffic := next, stage := if next.reload.isSome then .rounds else .certs }
      | _, _ => none
  | .applyRoute, s =>
      match s.stage with
      | .rounds => (Traffic.step .reloadRoute s.traffic).map fun next => { s with traffic := next }
      | _ => none
  | .swapGroups, s =>
      match s.stage with
      | .rounds => (Traffic.step .reloadSwap s.traffic).map fun next =>
          { s with traffic := next, stage := .certs }
      | _ => none
  | .tryReloadCerts disk, s =>
      match s.watch.position, s.stage with
      | .applying config, .certs =>
          some { s with
            resolver := reloadCerts formats.pem disk config s.resolver
            watch := { s.watch with position := .selecting }
            stage := .window }
      | _, _ => none

inductive Change (formats : ReloadLoop.Formats Cert PrivateKey SigningKey) (config : HealthConfig)
    (s : State Cert SigningKey) : Action → State Cert SigningKey → Prop
  | request (action : Traffic.Action) (next : System)
      (ordinary : (∃ path host upgrade, action = .arrive path host upgrade) ∨ ∃ r move, action = .advance r move)
      (moved : Traffic.step action s.traffic = some next) :
      Change formats config s (.request action) { s with traffic := next }
  | health (action : HealthChecks.Action) (next : HealthChecks.State) (own : ∀ a, action ≠ .traffic a)
      (moved : HealthChecks.step config action s.health = some next) :
      Change formats config s (.health action) (s.withHealth next)
  | sample (action : Sampling.Action) (next : Sampling.State) (own : ∀ a, action ≠ .traffic a)
      (moved : Sampling.step action s.sampling = some next) :
      Change formats config s (.sample action) (s.withSampling next)
  | watch (action : ReloadLoop.Action) (next : ReloadLoop.State Cert SigningKey)
      (own : ∀ now disk, action ≠ .launch now disk ∧ action ≠ .apply now disk)
      (moved : ReloadLoop.step formats action s.watch = some next) :
      Change formats config s (.watch action) { s with watch := next }
  | setWindowSecs (c : LbConfig) (here : s.watch.position = .applying c) (stage : s.stage = .window) :
      Change formats config s .setWindowSecs
        { s with windowMs := windowOfSecs c.log.errorSummarySecs, stage := .table }
  | applyConfig (c : LbConfig) (next : System) (here : s.watch.position = .applying c)
      (stage : s.stage = .table) (moved : Traffic.step (.reloadStart s.clock c.routes) s.traffic = some next) :
      Change formats config s .applyConfig
        { s with traffic := next, stage := if next.reload.isSome then .rounds else .certs }
  | applyRoute (next : System) (stage : s.stage = .rounds)
      (moved : Traffic.step .reloadRoute s.traffic = some next) :
      Change formats config s .applyRoute { s with traffic := next }
  | swapGroups (next : System) (stage : s.stage = .rounds)
      (moved : Traffic.step .reloadSwap s.traffic = some next) :
      Change formats config s .swapGroups { s with traffic := next, stage := .certs }
  | tryReloadCerts (disk : Disk) (c : LbConfig) (here : s.watch.position = .applying c)
      (stage : s.stage = .certs) :
      Change formats config s (.tryReloadCerts disk) { s with
        resolver := reloadCerts formats.pem disk c s.resolver
        watch := { s.watch with position := .selecting }
        stage := .window }

variable {formats : ReloadLoop.Formats Cert PrivateKey SigningKey} {config : HealthConfig} {action : Action}
  {s t : State Cert SigningKey}

theorem step_change (taken : step formats config action s = some t) : Change formats config s action t := by
  unfold step at taken
  split at taken
  next path host upgrade =>
    obtain ⟨next, moved, rfl⟩ := Option.map_eq_some_iff.mp taken
    exact .request _ next (Or.inl ⟨path, host, upgrade, rfl⟩) moved
  next r move =>
    obtain ⟨next, moved, rfl⟩ := Option.map_eq_some_iff.mp taken
    exact .request _ next (Or.inr ⟨r, move, rfl⟩) moved
  next => cases taken
  next => cases taken
  next action own =>
    obtain ⟨next, moved, rfl⟩ := Option.map_eq_some_iff.mp taken
    exact .health action next own moved
  next => cases taken
  next action own =>
    obtain ⟨next, moved, rfl⟩ := Option.map_eq_some_iff.mp taken
    exact .sample action next own moved
  next => cases taken
  next => cases taken
  next action unlaunched unapplied =>
    obtain ⟨next, moved, rfl⟩ := Option.map_eq_some_iff.mp taken
    exact .watch action next (fun now disk => ⟨unlaunched now disk, unapplied now disk⟩) moved
  next =>
    split at taken
    next c here stage => cases taken; exact .setWindowSecs c here stage
    next => cases taken
  next =>
    split at taken
    next c here stage =>
      obtain ⟨next, moved, rfl⟩ := Option.map_eq_some_iff.mp taken
      exact .applyConfig c next here stage moved
    next => cases taken
  next =>
    split at taken
    next stage =>
      obtain ⟨next, moved, rfl⟩ := Option.map_eq_some_iff.mp taken
      exact .applyRoute next stage moved
    next => cases taken
  next =>
    split at taken
    next stage =>
      obtain ⟨next, moved, rfl⟩ := Option.map_eq_some_iff.mp taken
      exact .swapGroups next stage moved
    next => cases taken
  next disk =>
    split at taken
    next c here stage => cases taken; exact .tryReloadCerts disk c here stage
    next => cases taken

/-- What the health checks do to the traffic: the two writes of a probe are two probes, each of which
leaves one of the two fields as it is. -/
theorem health_traffic {action : HealthChecks.Action} {h next : HealthChecks.State}
    (own : ∀ a, action ≠ .traffic a) (moved : HealthChecks.step config action h = some next) :
    next.traffic = h.traffic ∨
      ∃ b now healthy, Traffic.step (.probe b now healthy) h.traffic = some next.traffic := by
  cases HealthChecks.step_change moved with
  | traffic action => exact absurd rfl (own action)
  | stamp walk b due started answer here result =>
    subst result
    refine Or.inr ⟨b, h.clock, (h.traffic.reg.backend b).healthy, ?_⟩
    refine congrArg (fun arena => some { h.traffic with reg := { h.traffic.reg with backendAt := arena } }) ?_
    exact Arena.modify_congr _ rfl
  | settle walk b due started ended answer here result =>
    subst result
    refine Or.inr ⟨b, (h.traffic.reg.backend b).lastHealthCheck, answer.isSuccess, ?_⟩
    refine congrArg (fun arena => some { h.traffic with reg := { h.traffic.reg with backendAt := arena } }) ?_
    exact Arena.modify_congr _ rfl
  | _ => subst_vars; exact Or.inl rfl

theorem sample_traffic {action : Sampling.Action} {m next : Sampling.State}
    (own : ∀ a, action ≠ .traffic a) (moved : Sampling.step action m = some next) :
    next.traffic = m.traffic ∨ ∃ b, Traffic.step (.sample b) m.traffic = some next.traffic := by
  cases Sampling.step_change moved with
  | traffic action => exact absurd rfl (own action)
  | swap walk b c here result => subst result; exact Or.inr ⟨b, rfl⟩
  | _ => subst_vars; exact Or.inl rfl

theorem health_outside {a : Traffic.Action} {h : HealthChecks.State} {next : System}
    (outside : ∀ b now healthy, a ≠ .probe b now healthy) (moved : Traffic.step a h.traffic = some next) :
    HealthChecks.step config (.traffic a) h = some { h with traffic := next } := by
  cases a with
  | probe b now healthy => exact absurd rfl (outside b now healthy)
  | _ => exact congrArg (Option.map fun next => { h with traffic := next }) moved

theorem sample_outside {a : Traffic.Action} {m : Sampling.State} {next : System}
    (outside : ∀ b, a ≠ .sample b) (moved : Traffic.step a m.traffic = some next) :
    Sampling.step (.traffic a) m = some { m with traffic := next } := by
  cases a with
  | sample b => exact absurd rfl (outside b)
  | _ => exact congrArg (Option.map fun next => { m with traffic := next }) moved

theorem traffic_view (taken : step formats config action s = some t) :
    t.traffic = s.traffic ∨ ∃ a, Traffic.step a s.traffic = some t.traffic := by
  cases step_change taken with
  | request a next ordinary moved => exact Or.inr ⟨a, moved⟩
  | health a next own moved =>
    rcases health_traffic own moved with same | ⟨b, now, healthy, probed⟩
    · exact Or.inl same
    · exact Or.inr ⟨_, probed⟩
  | sample a next own moved =>
    rcases sample_traffic own moved with same | ⟨b, sampled⟩
    · exact Or.inl same
    · exact Or.inr ⟨_, sampled⟩
  | applyConfig c next here stage moved => exact Or.inr ⟨_, moved⟩
  | applyRoute next stage moved => exact Or.inr ⟨_, moved⟩
  | swapGroups next stage moved => exact Or.inr ⟨_, moved⟩
  | watch | setWindowSecs | tryReloadCerts => exact Or.inl rfl

theorem health_view (taken : step formats config action s = some t) :
    t.health = s.health ∨ ∃ a, HealthChecks.step config a s.health = some t.health := by
  cases step_change taken with
  | request a next ordinary moved =>
    refine Or.inr ⟨.traffic a, health_outside ?_ moved⟩
    rcases ordinary with ⟨path, host, upgrade, rfl⟩ | ⟨r, move, rfl⟩ <;> simp
  | health a next own moved => exact Or.inr ⟨a, moved⟩
  | sample a next own moved =>
    rcases sample_traffic own moved with same | ⟨b, sampled⟩
    · exact Or.inl (congrArg (fun traffic => ({ s.health with traffic := traffic } : HealthChecks.State)) same)
    · exact Or.inr ⟨.traffic (.sample b), health_outside (by simp) sampled⟩
  | applyConfig c next here stage moved => exact Or.inr ⟨_, health_outside (by simp) moved⟩
  | applyRoute next stage moved => exact Or.inr ⟨_, health_outside (by simp) moved⟩
  | swapGroups next stage moved => exact Or.inr ⟨_, health_outside (by simp) moved⟩
  | watch | setWindowSecs | tryReloadCerts => exact Or.inl rfl

theorem sampling_view (taken : step formats config action s = some t) :
    t.sampling = s.sampling ∨ ∃ a, Sampling.step a s.sampling = some t.sampling := by
  cases step_change taken with
  | request a next ordinary moved =>
    refine Or.inr ⟨.traffic a, sample_outside ?_ moved⟩
    rcases ordinary with ⟨path, host, upgrade, rfl⟩ | ⟨r, move, rfl⟩ <;> simp
  | health a next own moved =>
    rcases health_traffic own moved with same | ⟨b, now, healthy, probed⟩
    · exact Or.inl (congrArg (fun traffic => ({ s.sampling with traffic := traffic } : Sampling.State)) same)
    · exact Or.inr ⟨.traffic (.probe b now healthy), sample_outside (by simp) probed⟩
  | sample a next own moved => exact Or.inr ⟨a, moved⟩
  | applyConfig c next here stage moved => exact Or.inr ⟨_, sample_outside (by simp) moved⟩
  | applyRoute next stage moved => exact Or.inr ⟨_, sample_outside (by simp) moved⟩
  | swapGroups next stage moved => exact Or.inr ⟨_, sample_outside (by simp) moved⟩
  | watch | setWindowSecs | tryReloadCerts => exact Or.inl rfl

/-- How far the body of the loop has come from the process `p` that it started with. -/
inductive Body (s : State Cert SigningKey) (p : Process Cert SigningKey) : Prop
  | window (stage : s.stage = .window) (secs : p.windowMs = s.windowMs) (unlocked : s.traffic.reload = none)
      (follows : Follows s.traffic p.registry)
  | table (c : LbConfig) (stage : s.stage = .table) (here : s.watch.position = .applying c)
      (secs : s.windowMs = windowOfSecs c.log.errorSummarySecs) (unlocked : s.traffic.reload = none)
      (follows : Follows s.traffic p.registry)
  | rounds (c : LbConfig) (now : Instant) (stage : s.stage = .rounds) (here : s.watch.position = .applying c)
      (secs : s.windowMs = windowOfSecs c.log.errorSummarySecs)
      (under : current s.traffic = some (now, c.routes)) (follows : Follows s.traffic p.registry)
  | certs (c : LbConfig) (now : Instant) (answer : Except Hosts.HostError Unit) (after : BackendRegistry)
      (stage : s.stage = .certs) (here : s.watch.position = .applying c)
      (secs : s.windowMs = windowOfSecs c.log.errorSummarySecs)
      (applied : p.registry.applyConfig now c.routes = some (answer, after))
      (unlocked : s.traffic.reload = none) (follows : Follows s.traffic after)

/-- The reload loop as one that makes its body in one step. -/
structure Mirrors (s : State Cert SigningKey) (r : ReloadLoop.State Cert SigningKey) : Prop where
  whole : ∃ p, r = { s.watch with process := some p } ∧ p.resolver = s.resolver ∧ Body s p

theorem Body.traffic {p : Process Cert SigningKey} {a : Traffic.Action} (body : Body s p)
    (moved : Traffic.step a s.traffic = some t.traffic) (unstarted : ∀ now routes, a ≠ .reloadStart now routes)
    (unswapped : a ≠ .reloadSwap) (stage : t.stage = s.stage) (watch : t.watch = s.watch)
    (secs : t.windowMs = s.windowMs) : Body t p := by
  have unlocked : ∀ idle, Follows s.traffic idle → s.traffic.reload = none → t.traffic.reload = none := by
    intro idle follows none
    have same := (step_follows moved follows unstarted unswapped).2
    rw [current, current, none] at same
    simpa using same
  cases body with
  | window here same none follows =>
    exact .window (stage.trans here) (same.trans secs.symm) (unlocked _ follows none)
      (step_follows moved follows unstarted unswapped).1
  | table c here position same none follows =>
    exact .table c (stage.trans here) (watch ▸ position) (secs.trans same) (unlocked _ follows none)
      (step_follows moved follows unstarted unswapped).1
  | rounds c now here position same under follows =>
    obtain ⟨later, still⟩ := step_follows moved follows unstarted unswapped
    exact .rounds c now (stage.trans here) (watch ▸ position) (secs.trans same) (still.trans under) later
  | certs c now answer after here position same applied none follows =>
    exact .certs c now answer after (stage.trans here) (watch ▸ position) (secs.trans same) applied
      (unlocked _ follows none) (step_follows moved follows unstarted unswapped).1

theorem Body.same {p : Process Cert SigningKey} (body : Body s p) (traffic : t.traffic = s.traffic)
    (stage : t.stage = s.stage) (watch : t.watch.position = s.watch.position) (secs : t.windowMs = s.windowMs) :
    Body t p := by
  cases body with
  | window here same none follows =>
    exact .window (stage.trans here) (same.trans secs.symm) (traffic ▸ none) (traffic ▸ follows)
  | table c here position same none follows =>
    exact .table c (stage.trans here) (watch.trans position) (secs.trans same) (traffic ▸ none)
      (traffic ▸ follows)
  | rounds c now here position same under follows =>
    exact .rounds c now (stage.trans here) (watch.trans position) (secs.trans same) (traffic ▸ under)
      (traffic ▸ follows)
  | certs c now answer after here position same applied none follows =>
    exact .certs c now answer after (stage.trans here) (watch.trans position) (secs.trans same) applied
      (traffic ▸ none) (traffic ▸ follows)

theorem watch_process {action : ReloadLoop.Action} {w next : ReloadLoop.State Cert SigningKey}
    (own : ∀ now disk, action ≠ .launch now disk ∧ action ≠ .apply now disk)
    (moved : ReloadLoop.step formats action w = some next) (p : Option (Process Cert SigningKey)) :
    ReloadLoop.step formats action { w with process := p } = some { next with process := p } := by
  cases ReloadLoop.step_moves moved with
  | launch now disk => exact absurd rfl (own now disk).1
  | apply now disk => exact absurd rfl (own now disk).2
  | _ => simp_all [ReloadLoop.step]

/-- While a configuration is applied the file can be written and signals can come, and that is all. -/
theorem watch_applying {action : ReloadLoop.Action} {c : LbConfig} {w next : ReloadLoop.State Cert SigningKey}
    (own : ∀ now disk, action ≠ .launch now disk ∧ action ≠ .apply now disk)
    (moved : ReloadLoop.step formats action w = some next) (here : w.position = .applying c) :
    next.position = .applying c := by
  cases ReloadLoop.step_moves moved with
  | apply now disk => exact absurd rfl (own now disk).2
  | _ => simp_all

/-- Steps that the loop with a body in one step does not see. -/
theorem Mirrors.unseen {r : ReloadLoop.State Cert SigningKey} (mirrors : Mirrors s r) (watch : t.watch = s.watch)
    (resolver : t.resolver = s.resolver) (body : ∀ p, Body s p → Body t p) : Mirrors t r := by
  obtain ⟨p, rfl, certs, stands⟩ := mirrors.whole
  exact ⟨p, by rw [watch], certs.trans resolver.symm, body p stands⟩

theorem watch_mirrors {r : ReloadLoop.State Cert SigningKey} {action : ReloadLoop.Action}
    {next : ReloadLoop.State Cert SigningKey} (mirrors : Mirrors s r)
    (own : ∀ now disk, action ≠ .launch now disk ∧ action ≠ .apply now disk)
    (moved : ReloadLoop.step formats action s.watch = some next) :
    ∃ r', Reachable (ReloadLoop.step formats) r r' ∧ Mirrors { s with watch := next } r' := by
  obtain ⟨p, rfl, certs, body⟩ := mirrors.whole
  refine ⟨_, .single (watch_process own moved (some p)), p, rfl, certs, ?_⟩
  cases body with
  | window stage secs unlocked follows => exact .window stage secs unlocked follows
  | table c stage here secs unlocked follows =>
    exact .table c stage (watch_applying own moved here) secs unlocked follows
  | rounds c now stage here secs under follows =>
    exact .rounds c now stage (watch_applying own moved here) secs under follows
  | certs c now answer after stage here secs applied unlocked follows =>
    exact .certs c now answer after stage (watch_applying own moved here) secs applied unlocked follows

theorem Body.setWindowSecs {p : Process Cert SigningKey} {c : LbConfig} (body : Body s p)
    (here : s.watch.position = .applying c) (stage : s.stage = .window) :
    Body { s with windowMs := windowOfSecs c.log.errorSummarySecs, stage := .table } p := by
  cases body with
  | window _ secs unlocked follows => exact .table c rfl here rfl unlocked follows
  | _ => simp_all

theorem Body.applyConfig {p : Process Cert SigningKey} {c : LbConfig} {next : System} (body : Body s p)
    (here : s.watch.position = .applying c) (stage : s.stage = .table)
    (moved : Traffic.step (.reloadStart s.clock c.routes) s.traffic = some next) :
    Body { s with traffic := next, stage := if next.reload.isSome then .rounds else .certs } p := by
  cases body with
  | table c' _ here' secs unlocked follows =>
    cases here.symm.trans here'
    obtain ⟨-, ⟨e, refused, rfl⟩ | ⟨accepted, rfl⟩⟩ := ConnectionLedger.reloadStart_cases moved
    · refine .certs c s.clock (.error e) p.registry ?_ here secs ?_ unlocked follows
      · rw [unlocked]
        rfl
      · simp only [BackendRegistry.applyConfig, refused]
    · exact .rounds c s.clock rfl here secs rfl (start_follows follows unlocked accepted)
  | _ => simp_all

theorem Body.applyRoute {p : Process Cert SigningKey} {next : System} (body : Body s p) (stage : s.stage = .rounds)
    (moved : Traffic.step .reloadRoute s.traffic = some next) : Body { s with traffic := next } p := by
  cases body with
  | rounds c now _ here secs under follows =>
    obtain ⟨later, still⟩ := step_follows moved follows nofun nofun
    exact .rounds c now stage here secs (still.trans under) later
  | _ => simp_all

theorem Body.swapGroups {p : Process Cert SigningKey} {next : System} (body : Body s p) (stage : s.stage = .rounds)
    (moved : Traffic.step .reloadSwap s.traffic = some next) :
    Body { s with traffic := next, stage := .certs } p := by
  cases body with
  | rounds c now _ here secs under follows =>
    obtain ⟨request, after, ended, called, unlocked, later⟩ := swap_follows moved follows
    cases under.symm.trans ended
    obtain ⟨⟨answer, registry⟩, applied, rfl⟩ := Option.map_eq_some_iff.mp called
    exact .certs c now answer registry rfl here secs applied unlocked later
  | _ => simp_all

theorem certs_mirrors {r : ReloadLoop.State Cert SigningKey} {c : LbConfig} (mirrors : Mirrors s r)
    (disk : Disk) (here : s.watch.position = .applying c) (stage : s.stage = .certs) :
    ∃ r', Reachable (ReloadLoop.step formats) r r' ∧ Mirrors { s with
      resolver := reloadCerts formats.pem disk c s.resolver
      watch := { s.watch with position := .selecting }
      stage := .window } r' := by
  obtain ⟨p, rfl, certs, body⟩ := mirrors.whole
  cases body with
  | certs c' now answer after _ here' secs applied unlocked follows =>
    cases here.symm.trans here'
    let last : Process Cert SigningKey :=
      ⟨after, windowOfSecs c.log.errorSummarySecs, reloadCerts formats.pem disk c p.resolver⟩
    have taken : ReloadLoop.step formats (.apply now disk) { s.watch with process := some p } =
        some { s.watch with process := some last, position := .selecting } := by
      simp only [ReloadLoop.step, here, Option.bind_some, reloadBody, applied]
      rfl
    refine ⟨_, .single taken, last, rfl, ?_, .window rfl secs.symm unlocked follows⟩
    exact congrArg (reloadCerts formats.pem disk c) certs
  | _ => simp_all

theorem step_mirrors {r : ReloadLoop.State Cert SigningKey} (mirrors : Mirrors s r)
    (taken : step formats config action s = some t) :
    ∃ r', Reachable (ReloadLoop.step formats) r r' ∧ Mirrors t r' := by
  cases step_change taken with
  | request a next ordinary moved =>
    refine ⟨r, .refl r, mirrors.unseen rfl rfl fun p body => ?_⟩
    rcases ordinary with ⟨path, host, upgrade, rfl⟩ | ⟨i, move, rfl⟩
    · exact body.traffic moved nofun nofun rfl rfl rfl
    · exact body.traffic moved nofun nofun rfl rfl rfl
  | health a next own moved =>
    refine ⟨r, .refl r, mirrors.unseen rfl rfl fun p body => ?_⟩
    rcases health_traffic own moved with same | ⟨b, now, healthy, probed⟩
    · exact body.same same rfl rfl rfl
    · exact body.traffic probed nofun nofun rfl rfl rfl
  | sample a next own moved =>
    refine ⟨r, .refl r, mirrors.unseen rfl rfl fun p body => ?_⟩
    rcases sample_traffic own moved with same | ⟨b, sampled⟩
    · exact body.same same rfl rfl rfl
    · exact body.traffic sampled nofun nofun rfl rfl rfl
  | watch a next own moved => exact watch_mirrors mirrors own moved
  | setWindowSecs c here stage =>
    exact ⟨r, .refl r, mirrors.unseen rfl rfl fun p body => body.setWindowSecs here stage⟩
  | applyConfig c next here stage moved =>
    exact ⟨r, .refl r, mirrors.unseen rfl rfl fun p body => body.applyConfig here stage moved⟩
  | applyRoute next stage moved =>
    exact ⟨r, .refl r, mirrors.unseen rfl rfl fun p body => body.applyRoute stage moved⟩
  | swapGroups next stage moved =>
    exact ⟨r, .refl r, mirrors.unseen rfl rfl fun p body => body.swapGroups stage moved⟩
  | tryReloadCerts disk c here stage => exact certs_mirrors mirrors disk here stage

/-- The steps of the body, next to the certificate files that `disk` holds. -/
def Action.Own (disk : Disk) : Action → Prop
  | .setWindowSecs | .applyConfig | .applyRoute | .swapGroups => True
  | .tryReloadCerts found => found = disk
  | _ => False

structure Finished (c : LbConfig) (s t : State Cert SigningKey) : Prop where
  position : t.watch.position = .selecting
  unlocked : t.traffic.reload = none
  secs : t.windowMs = windowOfSecs c.log.errorSummarySecs
  requests : t.traffic.requests = s.traffic.requests
  loop : t.loop = s.loop
  sampler : t.sampler = s.sampler

/-- No more than `n` steps of the body finish it. -/
def Finishes (formats : ReloadLoop.Formats Cert PrivateKey SigningKey) (config : HealthConfig) (disk : Disk)
    (c : LbConfig) (n : Nat) (s : State Cert SigningKey) : Prop :=
  ∃ actions t, (∀ a ∈ actions, a.Own disk) ∧ actions.length ≤ n ∧
    run (step formats config) actions s = some t ∧ Finished c s t

variable {disk : Disk} {c : LbConfig} {n : Nat}

theorem Finishes.step {mid : State Cert SigningKey} (taken : Tasks.step formats config action s = some mid)
    (own : action.Own disk) (requests : mid.traffic.requests = s.traffic.requests)
    (loop : mid.loop = s.loop) (sampler : mid.sampler = s.sampler) (rest : Finishes formats config disk c n mid) :
    Finishes formats config disk c (n + 1) s := by
  obtain ⟨actions, t, listed, few, done, finished⟩ := rest
  refine ⟨action :: actions, t, List.forall_mem_cons.mpr ⟨own, listed⟩, Nat.succ_le_succ few,
    run_cons_some.mpr ⟨mid, taken, done⟩, ?_⟩
  exact ⟨finished.position, finished.unlocked, finished.secs, finished.requests.trans requests,
    finished.loop.trans loop, finished.sampler.trans sampler⟩

theorem finishes_certs (here : s.watch.position = .applying c) (stage : s.stage = .certs)
    (unlocked : s.traffic.reload = none) (secs : s.windowMs = windowOfSecs c.log.errorSummarySecs) :
    Finishes formats config disk c 1 s := by
  have taken : Tasks.step formats config (.tryReloadCerts disk) s = some { s with
      resolver := reloadCerts formats.pem disk c s.resolver
      watch := { s.watch with position := .selecting }
      stage := .window } := by
    simp only [Tasks.step, here, stage]
  exact ⟨[.tryReloadCerts disk], _, by simp [Action.Own], Nat.le_refl _, run_single.mpr taken, rfl, unlocked,
    secs, rfl, rfl, rfl⟩

theorem finishes_rounds {now : Instant} {todo : List RouteConfig} {newGroups : List GroupId}
    (here : s.watch.position = .applying c) (stage : s.stage = .rounds)
    (secs : s.windowMs = windowOfSecs c.log.errorSummarySecs)
    (under : s.traffic.reload = some ⟨now, c.routes, todo, newGroups⟩)
    (parsed : ∀ route ∈ todo, ∃ kind, Hosts.parse route.host = .ok kind) :
    Finishes formats config disk c (todo.length + 2) s := by
  induction todo generalizing s newGroups with
  | nil =>
    have swapped : Traffic.step .reloadSwap s.traffic = some { s.traffic with
        reg := { s.traffic.reg with groups := newGroups }, reload := none, inForce := c.routes } := by
      simp only [Traffic.step, under]
    have taken : Tasks.step formats config .swapGroups s = some { s with
        traffic := { s.traffic with
          reg := { s.traffic.reg with groups := newGroups }, reload := none, inForce := c.routes }
        stage := .certs } := by
      simp only [Tasks.step, stage, swapped, Option.map_some]
    exact Finishes.step taken trivial rfl rfl rfl (finishes_certs here rfl rfl secs)
  | cons route rest ih =>
    obtain ⟨⟨kind, accepted⟩, later⟩ := List.forall_mem_cons.mp parsed
    obtain ⟨g, next, applied⟩ := Merge.applyRoute_of_parse s.traffic.reg now accepted
    have moved : Traffic.step .reloadRoute s.traffic = some { s.traffic with
        reg := next, reload := some ⟨now, c.routes, rest, newGroups ++ [g]⟩ } := by
      simp only [Traffic.step, under, applied]
    have taken : Tasks.step formats config .applyRoute s = some { s with
        traffic := { s.traffic with
          reg := next, reload := some ⟨now, c.routes, rest, newGroups ++ [g]⟩ } } := by
      simp only [Tasks.step, stage, moved, Option.map_some]
    exact Finishes.step taken trivial rfl rfl rfl (ih here stage secs rfl later)

theorem finishes_table (here : s.watch.position = .applying c) (stage : s.stage = .table)
    (secs : s.windowMs = windowOfSecs c.log.errorSummarySecs) (unlocked : s.traffic.reload = none) :
    Finishes formats config disk c (c.routes.length + 3) s := by
  cases checked : Backends.validate c.routes with
  | error e =>
    have moved : Traffic.step (.reloadStart s.clock c.routes) s.traffic = some s.traffic := by
      simp only [Traffic.step, unlocked, checked]
    have taken : Tasks.step formats config .applyConfig s = some { s with stage := .certs } := by
      simp only [Tasks.step, here, stage, moved, Option.map_some, unlocked]
      rfl
    obtain ⟨actions, t, listed, few, done, finished⟩ :=
      Finishes.step taken trivial rfl rfl rfl (finishes_certs here rfl unlocked secs)
    exact ⟨actions, t, listed, Nat.le_trans few (Nat.le_add_left 2 (c.routes.length + 1)), done, finished⟩
  | ok =>
    have moved : Traffic.step (.reloadStart s.clock c.routes) s.traffic =
        some { s.traffic with reload := some ⟨s.clock, c.routes, c.routes, []⟩ } := by
      simp only [Traffic.step, unlocked, checked]
    have taken : Tasks.step formats config .applyConfig s = some { s with
        traffic := { s.traffic with reload := some ⟨s.clock, c.routes, c.routes, []⟩ }, stage := .rounds } := by
      simp only [Tasks.step, here, stage, moved, Option.map_some]
      rfl
    exact Finishes.step taken trivial rfl rfl rfl
      (finishes_rounds here rfl secs rfl (Reload.validate_ok_iff.mp checked))

theorem Body.finishes {p : Process Cert SigningKey} (body : Body s p)
    (here : s.watch.position = .applying c) : Finishes formats config disk c (c.routes.length + 4) s := by
  cases body with
  | window stage secs unlocked follows =>
    have taken : Tasks.step formats config .setWindowSecs s =
        some { s with windowMs := windowOfSecs c.log.errorSummarySecs, stage := .table } := by
      simp only [Tasks.step, here, stage]
    exact Finishes.step taken trivial rfl rfl rfl (finishes_table here rfl rfl unlocked)
  | table c' stage here' secs unlocked follows =>
    cases here.symm.trans here'
    obtain ⟨actions, t, listed, few, rest⟩ := finishes_table here stage secs unlocked
    exact ⟨actions, t, listed, Nat.le_succ_of_le few, rest⟩
  | rounds c' now stage here' secs under follows =>
    cases here.symm.trans here'
    obtain ⟨⟨time, routes, todo, newGroups⟩, installing, same⟩ := Option.map_eq_some_iff.mp under
    cases same
    have underway := follows.busy _ installing
    have parsed := fun route member => Reload.validate_ok_iff.mp underway.accepted route (underway.left.subset member)
    obtain ⟨actions, t, listed, few, rest⟩ := finishes_rounds here stage secs installing parsed
    refine ⟨actions, t, listed, Nat.le_trans few ?_, rest⟩
    exact Nat.add_le_add underway.left.length_le (by decide)
  | certs c' now answer after stage here' secs applied unlocked follows =>
    cases here.symm.trans here'
    obtain ⟨actions, t, listed, few, rest⟩ := finishes_certs here stage unlocked secs
    exact ⟨actions, t, listed, Nat.le_trans few (Nat.le_add_left 1 (c.routes.length + 3)), rest⟩

def sampleConfig : LbConfig :=
  ⟨⟨['x'], none, none⟩, ⟨10, 1, 1⟩, [⟨['a'], [⟨['u'], 5, true⟩]⟩, ⟨['b'], [⟨['w'], 1, false⟩]⟩], ⟨none, 50, 3, 60⟩⟩

def sampleFormats : ReloadLoop.Formats Unit Unit Unit :=
  ⟨fun contents => if contents = [] then some sampleConfig else none, noPem⟩

theorem sampleHost : Hosts.parse ['a'] = .ok (.exact ['a']) := rfl

def sampleRegistry : BackendRegistry :=
  ⟨⟨[⟨['u'], 5, false, true, 0, 0, 0⟩]⟩, ⟨[⟨['a'], .exact ['a'], [0], sampleHost⟩]⟩, [0]⟩

def sampleRoutes : List RouteConfig := [⟨['a'], [⟨['u'], 5, false⟩]⟩]

def sampleProcess : Process Unit Unit := ⟨sampleRegistry, 60000, none⟩

def sampleWatch : ReloadLoop.State Unit Unit :=
  ⟨⟨[], 0⟩, [0], .spawned, none, none, false, some [], some sampleProcess⟩

def sampleBefore : List Action :=
  [.watch .begin, .health .wake, .sample .wake, .health .enter, .health .reach, .health .send,
    .sample .enter, .sample .load, .watch (.write ⟨[], 1⟩), .watch .tick, .watch .metadata, .watch .reloadConfig,
    .setWindowSecs, .applyConfig, .health (.receive .failed), .applyRoute, .health .stamp]

def sampleAfter : List Action :=
  [.sample .swap, .health .settle, .applyRoute, .swapGroups, .tryReloadCerts noFiles]

section Runs
variable {now : Instant} {routes : List RouteConfig} {p : Process Cert SigningKey}
  {r : ReloadLoop.State Cert SigningKey} {actions : List Action}

theorem run_mirrors (launched : r.process = some p)
    (done : run (step formats config) actions (.start now routes p r) = some s) :
    ∃ r', Reachable (ReloadLoop.step formats) r r' ∧ Mirrors s r' := by
  have initial : Mirrors (.start now routes p r) r := by
    refine ⟨p, ?_, rfl, .window rfl rfl rfl ⟨fun _ => .refl _, nofun⟩⟩
    rw [← launched]
    rfl
  exact run_simulation (R := fun s r => Mirrors s r)
    (fun a s t r mirrors taken => step_mirrors mirrors taken) initial done

theorem traffic_of_run (done : run (step formats config) actions (.start now routes p r) = some s) :
    Reachable Traffic.step (.start p.registry routes) s.traffic :=
  run_projection (fun _ _ _ => traffic_view) done

/-- Every run of all tasks together is, seen by one of them, a run of that task alone among actions of
others: of the requests, of the health checks, of the sampler, and of a reload loop that does its body
in one step. Between two reloads the table has the objects and the settings that such a loop leaves. -/
theorem tasks_refine (launched : r.process = some p)
    (done : run (step formats config) actions (.start now routes p r) = some s) :
    Reachable Traffic.step (.start p.registry routes) s.traffic ∧
    Reachable (HealthChecks.step config) (.start now p.registry routes) s.health ∧
    Reachable Sampling.step (.start p.registry routes) s.sampling ∧
    ∃ p', Reachable (ReloadLoop.step formats) r { s.watch with process := some p' } ∧
      p'.resolver = s.resolver ∧
      (s.stage = .window → s.traffic.reload = none ∧ p'.windowMs = s.windowMs ∧ Twin s.traffic.reg p'.registry) := by
  refine ⟨traffic_of_run done, run_projection (fun _ _ _ => health_view) done,
    run_projection (fun _ _ _ => sampling_view) done, ?_⟩
  obtain ⟨r', reached, p', rfl, certs, body⟩ := run_mirrors launched done
  refine ⟨p', reached, certs, fun stage => ?_⟩
  cases body with
  | window _ secs unlocked follows => exact ⟨unlocked, secs, follows.quiet unlocked⟩
  | _ => simp_all

theorem tasks_refine_busy : ∃ s,
    Reachable (step sampleFormats ⟨10, 1, 1⟩) (.start 0 sampleRoutes sampleProcess sampleWatch) s ∧
      s.stage = .window ∧ (s.traffic.reg.backend 0).healthy = false ∧
      Reachable Sampling.step (.start sampleRegistry sampleRoutes) s.sampling ∧
      ∃ p', Reachable (ReloadLoop.step sampleFormats) sampleWatch { s.watch with process := some p' } ∧
        Twin s.traffic.reg p'.registry := by
  have done : run (step sampleFormats ⟨10, 1, 1⟩) (sampleBefore ++ sampleAfter)
      (.start 0 sampleRoutes sampleProcess sampleWatch) = some _ := rfl
  obtain ⟨-, -, sampling, p', reached, -, window⟩ := tasks_refine (p := sampleProcess) rfl done
  exact ⟨_, ⟨_, done⟩, rfl, rfl, sampling, p', reached, (window rfl).2.2⟩

/-- In every state of every run, a reload that has begun can be finished by steps of its own, at most one
for each route and four more, and the other tasks need not move for it: whatever certificates there are,
it does not panic halfway and does not keep the lock on the table. -/
theorem reload_completes (launched : r.process = some p)
    (done : run (step formats config) actions (.start now routes p r) = some s)
    (here : s.watch.position = .applying c) :
    Finishes formats config disk c (c.routes.length + 4) s := by
  obtain ⟨r', -, p', -, -, body⟩ := run_mirrors launched done
  exact body.finishes here

theorem reload_completes_busy : ∃ s,
    Reachable (step sampleFormats ⟨10, 1, 1⟩) (.start 0 sampleRoutes sampleProcess sampleWatch) s ∧
      s.watch.position = .applying sampleConfig ∧ s.traffic.reload.isSome = true ∧
      Finishes sampleFormats ⟨10, 1, 1⟩ noFiles sampleConfig 6 s := by
  have done : run (step sampleFormats ⟨10, 1, 1⟩) sampleBefore
      (.start 0 sampleRoutes sampleProcess sampleWatch) = some _ := rfl
  have finishes : Finishes sampleFormats ⟨10, 1, 1⟩ noFiles sampleConfig 6 _ :=
    reload_completes (p := sampleProcess) rfl done rfl
  exact ⟨_, ⟨_, done⟩, rfl, rfl, finishes⟩

end Runs

end Model

end TinyLb.Tasks
