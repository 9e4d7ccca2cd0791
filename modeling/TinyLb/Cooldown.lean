import TinyLb.HealthChecks

/-! What the flags, the times and the rounds of the health checks say over whole runs. -/

namespace TinyLb.Cooldown
open Config Backends Merge ConnectionLedger Rounds HealthChecks Machine

variable {config : HealthConfig} {s t : State}

theorem probes_visit (s : State) (traffic : Traffic.System) (loop : Loop) (v : Visit) :
    State.probes { s with traffic := traffic, loop := loop, visits := s.visits ++ [v] } =
      s.probes ++ v.probe.toList := by
  rw [State.probes, State.probes, ← List.append_assoc, List.filterMap_append]
  cases here : v.probe <;> simp [here]

theorem probes_rest (s : State) (loop : Loop) (snapshot : List BackendId) :
    State.probes { s with loop := loop, past := s.past ++ [⟨snapshot, s.visits⟩], visits := [] } =
      s.probes := by
  simp [State.probes]

section Flags

/-- The flag of an object, and the flag it starts with before there is an object. -/
def flag (reg : BackendRegistry) (b : BackendId) : Bool :=
  if b < reg.backendAt.size then (reg.backend b).healthy else true

theorem flag_congr {reg next : BackendRegistry} {b : BackendId}
    (size : next.backendAt.size = reg.backendAt.size)
    (same : (next.backend b).healthy = (reg.backend b).healthy) : flag next b = flag reg b := by
  rw [flag, flag, size, same]

theorem flag_write (reg : BackendRegistry) (e : BackendId) (f : Backend → Backend)
    (kept : ∀ x, (f x).healthy = x.healthy) (b : BackendId) : flag (reg.write e f) b = flag reg b :=
  flag_congr (BackendRegistry.size_write ..) (Arena.get_modify_field Backend.healthy reg.backendAt kept e b)

theorem flag_merge (now : Instant) (old : List BackendId) (configs : List BackendConfig)
    (arena : Arena Backend) (groupAt : Arena BackendGroup) (groups : List GroupId) (b : BackendId) :
    flag ⟨(mergeBackends now old configs arena).2, groupAt, groups⟩ b = flag ⟨arena, groupAt, groups⟩ b := by
  induction configs generalizing arena with
  | nil => rfl
  | cons c rest ih =>
    rw [mergeBackends]
    split
    next e found =>
      rw [ih]
      exact flag_write ⟨arena, groupAt, groups⟩ e (Backend.update c) (fun _ => rfl) b
    next =>
      rw [ih, flag, flag]
      simp only [BackendRegistry.backend, Arena.size_alloc]
      rcases Nat.lt_trichotomy b arena.size with old | rfl | beyond
      · rw [if_pos (Nat.lt_succ_of_lt old), if_pos old, Arena.get_alloc_of_lt _ _ old]
      · rw [if_pos (Nat.lt_succ_self _), if_neg (Nat.lt_irrefl _), Arena.get_alloc_self]
        rfl
      · rw [if_neg (Nat.not_lt.mpr beyond), if_neg (Nat.not_lt_of_gt beyond)]

theorem flag_applyRoute {reg next : BackendRegistry} {now : Instant} {route : RouteConfig} {g : GroupId}
    (applied : reg.applyRoute now route = some (g, next)) (b : BackendId) : flag next b = flag reg b := by
  rcases applyRoute_cases applied with ⟨-, rfl⟩ | ⟨-, -, group, arena, built, rfl⟩
  · exact flag_merge now _ route.backends reg.backendAt _ _ b
  · obtain ⟨-, -, rfl⟩ := groupNew_ok built
    exact flag_merge now [] route.backends reg.backendAt _ _ b

theorem flag_pushGroups {now : Instant} {routes : List RouteConfig} {reg fresh : BackendRegistry}
    (built : pushGroups now routes reg = .ok fresh) (b : BackendId) : flag fresh b = flag reg b := by
  induction routes generalizing reg with
  | nil =>
    cases built
    rfl
  | cons route rest ih =>
    rw [pushGroups] at built
    split at built
    next => cases built
    next group arena new =>
      obtain ⟨-, -, rfl⟩ := groupNew_ok new
      exact (ih built).trans (flag_merge now [] route.backends reg.backendAt _ _ b)

theorem traffic_flag {s t : Traffic.System} {action : Traffic.Action}
    (outside : ∀ b now healthy, action ≠ .probe b now healthy)
    (taken : Traffic.step action s = some t) (b : BackendId) : flag t.reg b = flag s.reg b := by
  cases action with
  | arrive path host upgrade => cases taken; rfl
  | advance r move =>
    obtain ⟨q, q', reg, -, moved, rfl⟩ := advance_cases taken
    have change := Traffic.Request.step_change moved
    exact flag_congr change.table.2.2 (congrArg Prod.fst (change_field untouched_health change b))
  | probe e now healthy => exact absurd rfl (outside e now healthy)
  | sample e =>
    cases taken
    exact flag_write s.reg e Backend.takeErrors (fun _ => rfl) b
  | reloadStart now routes =>
    rcases (reloadStart_cases taken).2 with ⟨e, -, rfl⟩ | ⟨-, rfl⟩ <;> rfl
  | reloadRoute =>
    obtain ⟨now, routes, route, todo, newGroups, g, reg, -, applied, rfl⟩ := reloadRoute_cases taken
    exact flag_applyRoute applied b
  | reloadSwap =>
    obtain ⟨now, routes, newGroups, -, rfl⟩ := reloadSwap_cases taken
    rfl

def latest (b : BackendId) (probes : List Probe) : Bool :=
  match (probes.filter fun p => p.backend == b).getLast? with
  | some p => p.answer.isSuccess
  | none => true

theorem latest_append (b : BackendId) (probes : List Probe) (p : Probe) :
    latest b (probes ++ [p]) = if p.backend = b then p.answer.isSuccess else latest b probes := by
  rw [latest, List.filter_append]
  by_cases same : p.backend = b
  · rw [List.filter_cons_of_pos (by simpa using same), List.filter_nil, List.getLast?_concat, if_pos same]
  · rw [List.filter_cons_of_neg (by simpa using same), List.filter_nil, List.append_nil, if_neg same, latest]

def Flagged (s : State) : Prop := ∀ b, flag s.traffic.reg b = latest b s.probes

theorem step_flagged {action : Action} (taken : step config action s = some t)
    (placed : Placed s.traffic s.loop.walk s.loop.inHand) (flagged : Flagged s) : Flagged t := by
  intro b
  cases step_change taken with
  | traffic action next outside moved result =>
    subst result
    exact (traffic_flag outside moved b).trans (flagged b)
  | tick elapsed result => subst result; exact flagged b
  | wake here unlocked result => subst result; exact flagged b
  | enter walk after here entered result => subst result; exact flagged b
  | reach walk after e due stage here stepped found result => subst result; exact flagged b
  | skip walk e due here early result =>
    rw [(congrArg State.probes result).trans (probes_visit ..), Option.toList_none, List.append_nil]
    rw [result]
    exact flagged b
  | retry walk e due here elapsed result => subst result; exact flagged b
  | send walk e due here result => subst result; exact flagged b
  | receive walk e due started answer here result => subst result; exact flagged b
  | stamp walk e due started answer here result =>
    subst result
    exact (flag_write s.traffic.reg e (HealthChecks.stamp s.clock) (fun _ => rfl) b).trans (flagged b)
  | settle walk e due started ended answer here result =>
    have known := placed.inHand e (by rw [here]; rfl)
    rw [(congrArg State.probes result).trans (probes_visit ..), Option.toList_some, latest_append]
    rw [result]
    have written : flag (s.traffic.reg.write e (HealthChecks.settle answer.isSuccess)) b =
        if e = b then answer.isSuccess else flag s.traffic.reg b := by
      by_cases same : e = b
      · subst same
        rw [flag, BackendRegistry.size_write, if_pos known, if_pos rfl,
          s.traffic.reg.backend_write_self _ known]
        rfl
      · rw [if_neg same]
        refine flag_congr (BackendRegistry.size_write ..) ?_
        rw [s.traffic.reg.backend_write_of_ne _ same]
    rw [← flagged b]
    exact written
  | rest walk here finished result =>
    rw [(congrArg State.probes result).trans (probes_rest ..)]
    rw [result]
    exact flagged b

end Flags

section Times

def After (config : HealthConfig) (p : Probe) (b : BackendId) (time : Instant) : Prop :=
  p.ended ≤ time ∧ (p.backend = b → p.answer.isSuccess = false → p.ended + cooldown config ≤ time)

theorem After.later {p : Probe} {b : BackendId} {time later : Instant} (after : After config p b time)
    (passed : time ≤ later) : After config p b later :=
  ⟨Nat.le_trans after.1 passed, fun same failed => Nat.le_trans (after.2 same failed) passed⟩

/-- A probe starts after all earlier probes, and after the cooldown of those that failed on its
backend. -/
def Spaced (config : HealthConfig) (p q : Probe) : Prop := After config p q.backend q.started

def Cleared (config : HealthConfig) (s : State) (b : BackendId) (time : Instant) : Prop :=
  ∀ p ∈ s.probes, After config p b time

def lastCheck (s : State) (b : BackendId) : Instant := (s.traffic.reg.backend b).lastHealthCheck

def Stage.Holds (config : HealthConfig) (s : State) (b : BackendId) (due : Bool) : Stage → Prop
  | .checking => due = true → cooldown config ≤ s.clock - lastCheck s b
  | .sending => Cleared config s b s.clock
  | .waiting started | .answered started _ => started ≤ s.clock ∧ Cleared config s b started
  | .stamped started ended _ =>
      started ≤ ended ∧ ended ≤ s.clock ∧ ended ≤ lastCheck s b ∧ Cleared config s b started

theorem Stage.Holds.later {b : BackendId} {due : Bool} {stage : Stage}
    (holds : Stage.Holds config s b due stage) (probes : t.probes = s.probes) (clock : s.clock ≤ t.clock)
    (last : lastCheck t b = lastCheck s b) : Stage.Holds config t b due stage := by
  have cleared : ∀ time, Cleared config s b time → Cleared config t b time := by
    intro time before p member
    exact before p (probes ▸ member)
  cases stage with
  | checking =>
    intro waited
    rw [last]
    exact Nat.le_trans (holds waited) (Nat.sub_le_sub_right clock _)
  | sending => exact fun p member => (holds p (probes ▸ member)).later clock
  | waiting started => exact ⟨Nat.le_trans holds.1 clock, cleared _ holds.2⟩
  | answered started answer => exact ⟨Nat.le_trans holds.1 clock, cleared _ holds.2⟩
  | stamped started ended answer =>
    obtain ⟨order, before, stamped, clear⟩ := holds
    exact ⟨order, Nat.le_trans before clock, last ▸ stamped, cleared _ clear⟩

/-- The times of all probes are in the past, and a backend that is healthy is past the cooldowns of
its failed probes. -/
structure Timed (config : HealthConfig) (s : State) : Prop where
  past : ∀ p ∈ s.probes, p.ended ≤ s.clock ∧ p.ended ≤ lastCheck s p.backend
  cooled : ∀ b, (s.traffic.reg.backend b).healthy = true → Cleared config s b s.clock
  spaced : s.probes.Pairwise (Spaced config)
  stage : ∀ walk b due stage, s.loop = .visiting walk b due stage → Stage.Holds config s b due stage

theorem Timed.later (timed : Timed config s) (probes : t.probes = s.probes) (clock : s.clock ≤ t.clock)
    (last : ∀ p ∈ s.probes, p.ended ≤ lastCheck t p.backend)
    (healthy : ∀ b, (t.traffic.reg.backend b).healthy = true →
      (s.traffic.reg.backend b).healthy = true ∨ ∀ p ∈ s.probes, p.backend ≠ b)
    (stage : ∀ walk b due stage, t.loop = .visiting walk b due stage →
      Stage.Holds config t b due stage) : Timed config t := by
  refine ⟨fun p member => ?_, fun b up p member => ?_, probes ▸ timed.spaced, stage⟩
  · rw [probes] at member
    exact ⟨Nat.le_trans (timed.past p member).1 clock, last p member⟩
  · rw [probes] at member
    rcases healthy b up with old | unprobed
    · exact (timed.cooled b old p member).later clock
    · exact ⟨Nat.le_trans (timed.past p member).1 clock, fun same => absurd same (unprobed p member)⟩

theorem Timed.move (timed : Timed config s) (traffic : t.traffic = s.traffic) (clock : t.clock = s.clock)
    (probes : t.probes = s.probes)
    (stage : ∀ walk b due stage, t.loop = .visiting walk b due stage →
      Stage.Holds config t b due stage) : Timed config t := by
  refine timed.later probes (Nat.le_of_eq clock.symm) (fun p member => ?_) (fun b up => ?_) stage
  · rw [lastCheck, traffic]
    exact (timed.past p member).2
  · rw [traffic] at up
    exact Or.inl up

theorem step_probes {action : Action} (change : Change config s t action) :
    t.probes = s.probes ∨ ∃ walk b due started ended answer,
      s.loop = .visiting walk b due (.stamped started ended answer) ∧
        t.probes = s.probes ++ [⟨b, started, ended, answer⟩] := by
  cases change with
  | settle walk b due started ended answer here result =>
    exact Or.inr ⟨walk, b, due, started, ended, answer, here,
      (congrArg State.probes result).trans (probes_visit ..)⟩
  | skip walk b due here early result =>
    refine Or.inl ((congrArg State.probes result).trans ((probes_visit ..).trans ?_))
    exact List.append_nil _
  | rest walk here finished result =>
    exact Or.inl ((congrArg State.probes result).trans (probes_rest ..))
  | traffic action next outside moved result => rw [result]; exact Or.inl rfl
  | tick elapsed result => rw [result]; exact Or.inl rfl
  | wake here unlocked result => rw [result]; exact Or.inl rfl
  | enter walk after here entered result => rw [result]; exact Or.inl rfl
  | reach walk after b due stage here stepped found result => rw [result]; exact Or.inl rfl
  | retry walk b due here elapsed result => rw [result]; exact Or.inl rfl
  | send walk b due here result => rw [result]; exact Or.inl rfl
  | receive walk b due started answer here result => rw [result]; exact Or.inl rfl
  | stamp walk b due started answer here result => rw [result]; exact Or.inl rfl

structure Located (s : State) : Prop where
  placed : Placed s.traffic s.loop.walk s.loop.inHand
  probed : ∀ p ∈ s.probes, p.backend < s.traffic.reg.backendAt.size

theorem step_placed {action : Action} (taken : step config action s = some t)
    (placed : Placed s.traffic s.loop.walk s.loop.inHand) :
    Placed t.traffic t.loop.walk t.loop.inHand := by
  cases step_change taken with
  | traffic action next outside moved result => rw [result]; exact placed.traffic moved
  | tick elapsed result => rw [result]; exact placed
  | wake here unlocked result => rw [result]; exact .wake placed.wellFormed
  | enter walk after here entered result =>
    rw [here] at placed
    rw [result]
    exact placed.enter entered
  | reach walk after b due stage here stepped found result =>
    rw [here] at placed
    rw [result]
    exact placed.next stepped
  | skip walk b due here early result =>
    rw [here] at placed
    rw [result]
    exact placed.release
  | retry walk b due here elapsed result => rw [here] at placed; rw [result]; exact placed
  | send walk b due here result => rw [here] at placed; rw [result]; exact placed
  | receive walk b due started answer here result => rw [here] at placed; rw [result]; exact placed
  | stamp walk b due started answer here result =>
    rw [here] at placed
    rw [result]
    exact placed.write b _
  | settle walk b due started ended answer here result =>
    rw [here] at placed
    rw [result]
    exact placed.release.write b _
  | rest walk here finished result => rw [result]; exact .asleep placed.wellFormed

theorem step_size {action : Action} (taken : step config action s = some t)
    (placed : Placed s.traffic s.loop.walk s.loop.inHand) :
    s.traffic.reg.backendAt.size ≤ t.traffic.reg.backendAt.size := by
  cases step_change taken with
  | traffic action next outside moved result =>
    rw [result]
    exact (step_grows placed.wellFormed moved).1
  | stamp walk b due started answer here result =>
    rw [result]
    exact Nat.le_of_eq (BackendRegistry.size_write ..).symm
  | settle walk b due started ended answer here result =>
    rw [result]
    exact Nat.le_of_eq (BackendRegistry.size_write ..).symm
  | tick elapsed result => rw [result]
  | wake here unlocked result => rw [result]
  | enter walk after here entered result => rw [result]
  | reach walk after b due stage here stepped found result => rw [result]
  | skip walk b due here early result => rw [result]
  | retry walk b due here elapsed result => rw [result]
  | send walk b due here result => rw [result]
  | receive walk b due started answer here result => rw [result]
  | rest walk here finished result => rw [result]

theorem step_located {action : Action} (taken : step config action s = some t) (located : Located s) :
    Located t := by
  obtain ⟨placed, probed⟩ := located
  have grown := step_size taken placed
  refine ⟨step_placed taken placed, fun p member => ?_⟩
  rcases step_probes (step_change taken) with same | ⟨walk, b, due, started, ended, answer, here, more⟩
  · exact Nat.lt_of_lt_of_le (probed p (same ▸ member)) grown
  · rw [more] at member
    rcases List.mem_append.mp member with old | new
    · exact Nat.lt_of_lt_of_le (probed p old) grown
    · rw [List.mem_singleton.mp new]
      exact Nat.lt_of_lt_of_le (placed.inHand b (by rw [here]; rfl)) grown

theorem traffic_health {s t : Traffic.System} {action : Traffic.Action} (wellFormed : WellFormed s)
    (outside : ∀ b now healthy, action ≠ .probe b now healthy)
    (taken : Traffic.step action s = some t) {b : BackendId} (known : b < s.reg.backendAt.size) :
    (t.reg.backend b).healthy = (s.reg.backend b).healthy ∧
      (t.reg.backend b).lastHealthCheck = (s.reg.backend b).lastHealthCheck :=
  Prod.mk.inj (step_field untouched_health wellFormed taken
    (fun b now healthy probing => absurd probing (outside b now healthy)) (fun _ => rfl) known)

theorem cleared_of_elapsed (timed : Timed config s) {b : BackendId}
    (elapsed : cooldown config ≤ s.clock - lastCheck s b) : Cleared config s b s.clock := by
  intro p member
  obtain ⟨before, stamped⟩ := timed.past p member
  refine ⟨before, fun same _ => ?_⟩
  rw [same] at stamped
  have wait : ∀ ended last now wait : Nat, ended ≤ now → ended ≤ last → wait ≤ now - last →
      ended + wait ≤ now := by omega
  exact wait _ _ _ _ before stamped elapsed

theorem stamp_timed {walk : Walk} {b : BackendId} {due : Bool} {started : Instant} {answer : Answer}
    (known : b < s.traffic.reg.backendAt.size) (timed : Timed config s)
    (here : s.loop = .visiting walk b due (.answered started answer)) : Timed config { s with
      traffic := { s.traffic with reg := s.traffic.reg.write b (HealthChecks.stamp s.clock) }
      loop := .visiting walk b due (.stamped started s.clock answer) } := by
  have stamped : ((s.traffic.reg.write b (HealthChecks.stamp s.clock)).backend b).lastHealthCheck =
      s.clock := congrArg Backend.lastHealthCheck (s.traffic.reg.backend_write_self _ known)
  obtain ⟨order, clear⟩ := timed.stage walk b due _ here
  refine timed.later rfl (Nat.le_refl _) (fun p member => ?_) (fun e up => Or.inl ?_)
    fun walk' b' due' stage' there => ?_
  · obtain ⟨before, old⟩ := timed.past p member
    rw [lastCheck]
    by_cases same : b = p.backend
    · rw [← same, stamped]
      exact before
    · rw [s.traffic.reg.backend_write_of_ne _ same]
      exact old
  · rw [← up]
    exact (Arena.get_modify_field Backend.healthy s.traffic.reg.backendAt
      (fun x => (rfl : (HealthChecks.stamp s.clock x).healthy = x.healthy)) b e).symm
  · cases there
    exact ⟨order, Nat.le_refl _, Nat.le_of_eq stamped.symm, clear⟩

theorem settle_timed {walk : Walk} {b : BackendId} {due : Bool} {started ended : Instant}
    {answer : Answer} (known : b < s.traffic.reg.backendAt.size) (timed : Timed config s)
    (here : s.loop = .visiting walk b due (.stamped started ended answer)) : Timed config { s with
      traffic := { s.traffic with
        reg := s.traffic.reg.write b (HealthChecks.settle answer.isSuccess) }
      loop := .walking walk
      visits := s.visits ++ [⟨b, due, some ⟨b, started, ended, answer⟩⟩] } := by
  obtain ⟨order, before, stamped, clear⟩ := timed.stage walk b due _ here
  have last : ∀ e, ((s.traffic.reg.write b (HealthChecks.settle answer.isSuccess)).backend e).lastHealthCheck
      = lastCheck s e := fun e => Arena.get_modify_field Backend.lastHealthCheck
    s.traffic.reg.backendAt
    (fun x => (rfl : (HealthChecks.settle answer.isSuccess x).lastHealthCheck = x.lastHealthCheck)) b e
  have self : (s.traffic.reg.write b (HealthChecks.settle answer.isSuccess)).backend b =
      HealthChecks.settle answer.isSuccess (s.traffic.reg.backend b) :=
    s.traffic.reg.backend_write_self _ known
  refine ⟨fun p member => ?_, fun e up p member => ?_, ?_, fun _ _ _ _ there => (by cases there)⟩
  · rw [probes_visit] at member
    rw [lastCheck, last]
    rcases List.mem_append.mp member with old | new
    · exact timed.past p old
    · cases List.mem_singleton.mp new
      exact ⟨before, stamped⟩
  · rw [probes_visit] at member
    by_cases same : b = e
    · subst same
      rw [self] at up
      rcases List.mem_append.mp member with old | new
      · exact (clear p old).later (Nat.le_trans order before)
      · cases List.mem_singleton.mp new
        exact ⟨before, fun _ failed => absurd (up.symm.trans failed) (by decide)⟩
    · rw [s.traffic.reg.backend_write_of_ne _ same] at up
      rcases List.mem_append.mp member with old | new
      · exact timed.cooled e up p old
      · cases List.mem_singleton.mp new
        exact ⟨before, fun equal => absurd equal same⟩
  · rw [probes_visit]
    refine List.pairwise_append.mpr ⟨timed.spaced, List.pairwise_singleton .., fun p old q new => ?_⟩
    cases List.mem_singleton.mp new
    exact clear p old

theorem step_timed {action : Action} (taken : step config action s = some t) (located : Located s)
    (timed : Timed config s) : Timed config t := by
  have inHand : ∀ {walk b due stage}, s.loop = .visiting walk b due stage →
      b < s.traffic.reg.backendAt.size := fun here => located.placed.inHand _ (by rw [here]; rfl)
  cases step_change taken with
  | traffic action next outside moved result =>
    have health : ∀ b < s.traffic.reg.backendAt.size, _ := fun b known =>
      @traffic_health _ _ _ located.placed.wellFormed outside moved b known
    subst result
    refine timed.later rfl (Nat.le_refl _) (fun p member => ?_) (fun b up => ?_)
      fun walk b due stage here => ?_
    · rw [lastCheck, (health p.backend (located.probed p member)).2]
      exact (timed.past p member).2
    · by_cases known : b < s.traffic.reg.backendAt.size
      · rw [(health b known).1] at up
        exact Or.inl up
      · exact Or.inr fun p member same => known (same ▸ located.probed p member)
    · exact (timed.stage walk b due stage here).later rfl (Nat.le_refl _) (health b (inHand here)).2
  | tick elapsed result =>
    subst result
    have later : s.clock ≤ s.clock + elapsed := Nat.le_add_right ..
    exact timed.later rfl later (fun p member => (timed.past p member).2) (fun b up => Or.inl up)
      fun walk b due stage here => (timed.stage walk b due stage here).later rfl later rfl
  | wake here unlocked result =>
    subst result
    exact timed.move rfl rfl rfl fun _ _ _ _ there => by cases there
  | enter walk after here entered result =>
    subst result
    exact timed.move rfl rfl rfl fun _ _ _ _ there => by cases there
  | reach walk after b due stage here stepped found result =>
    subst result
    refine timed.move rfl rfl rfl fun _ _ _ _ there => ?_
    cases there
    rcases found with ⟨up, rfl, rfl⟩ | ⟨down, rfl, elapsed⟩
    · exact timed.cooled b up
    · exact elapsed.mp
  | skip walk b due here early result =>
    have probes := (congrArg State.probes result).trans ((probes_visit ..).trans (List.append_nil _))
    subst result
    exact timed.move rfl rfl probes fun _ _ _ _ there => by cases there
  | retry walk b due here elapsed result =>
    subst result
    refine timed.move rfl rfl rfl fun _ _ _ _ there => ?_
    cases there
    exact cleared_of_elapsed timed elapsed
  | send walk b due here result =>
    have clear := timed.stage walk b due _ here
    subst result
    refine timed.move rfl rfl rfl fun _ _ _ _ there => ?_
    cases there
    exact ⟨Nat.le_refl _, clear⟩
  | receive walk b due started answer here result =>
    have waited := timed.stage walk b due _ here
    subst result
    refine timed.move rfl rfl rfl fun _ _ _ _ there => ?_
    cases there
    exact waited
  | stamp walk b due started answer here result => rw [result]; exact stamp_timed (inHand here) timed here
  | settle walk b due started ended answer here result =>
    rw [result]
    exact settle_timed (inHand here) timed here
  | rest walk here finished result =>
    have probes := (congrArg State.probes result).trans (probes_rest ..)
    subst result
    exact timed.move rfl rfl probes fun _ _ _ _ there => by cases there

end Times

section Visits

/-- A visit that was due has probed its backend. -/
def Kept (v : Visit) : Prop :=
  (v.due = true → v.probe.isSome = true) ∧ ∀ p ∈ v.probe, p.backend = v.backend

structure Toured (s : State) : Prop where
  busy : ∀ walk, s.loop.walk = some walk →
    s.visits.map Visit.backend ++ (s.loop.inHand.toList ++ walk.backends) = walk.snapshot
  idle : s.loop = .asleep → s.visits = []
  kept : ∀ v ∈ s.visits, Kept v
  past : ∀ round ∈ s.past, round.visits.map Visit.backend = round.snapshot ∧ ∀ v ∈ round.visits, Kept v

theorem Toured.move (toured : Toured s) (visits : t.visits = s.visits) (past : t.past = s.past)
    (walk : t.loop.walk = s.loop.walk) (inHand : t.loop.inHand = s.loop.inHand)
    (idle : t.loop = .asleep → s.loop = .asleep) : Toured t where
  busy := by rw [visits, walk, inHand]; exact toured.busy
  idle sleeping := visits ▸ toured.idle (idle sleeping)
  kept := visits ▸ toured.kept
  past := past ▸ toured.past

theorem Toured.leave {walk : Walk} {b : BackendId} {due : Bool} {stage : Stage} {v : Visit}
    (toured : Toured s) (here : s.loop = .visiting walk b due stage) (same : v.backend = b)
    (kept : Kept v) (there : t.loop = .walking walk) (visits : t.visits = s.visits ++ [v])
    (past : t.past = s.past) : Toured t := by
  have busy := toured.busy walk (by rw [here]; rfl)
  rw [here] at busy
  refine ⟨fun w stays => ?_, fun sleeping => ?_, fun x member => ?_, past ▸ toured.past⟩
  · rw [there] at stays
    cases stays
    rw [there, visits, List.map_append, List.append_assoc, List.map_singleton, same]
    exact busy
  · rw [there] at sleeping
    cases sleeping
  · rw [visits] at member
    rcases List.mem_append.mp member with old | new
    · exact toured.kept x old
    · exact List.mem_singleton.mp new ▸ kept

theorem step_toured {action : Action} (taken : step config action s = some t) (timed : Timed config s)
    (toured : Toured s) : Toured t := by
  cases step_change taken with
  | traffic action next outside moved result => subst result; exact toured.move rfl rfl rfl rfl id
  | tick elapsed result => subst result; exact toured.move rfl rfl rfl rfl id
  | wake here unlocked result =>
    subst result
    refine ⟨fun w stays => ?_, fun sleeping => (by cases sleeping), toured.kept, toured.past⟩
    cases stays
    rw [toured.idle here]
    rfl
  | enter walk after here entered result =>
    have busy := toured.busy walk (by rw [here]; rfl)
    obtain ⟨g, groups, empty, more, same⟩ := Walk.enter_cases entered
    subst result
    refine ⟨fun w stays => ?_, fun sleeping => (by cases sleeping), toured.kept, toured.past⟩
    cases stays
    rw [here, empty] at busy
    rw [same, ← busy]
    exact congrArg (· ++ _) (List.append_nil _).symm
  | reach walk after b due stage here stepped found result =>
    have busy := toured.busy walk (by rw [here]; rfl)
    obtain ⟨first, -, snapshot⟩ := Walk.next_cases stepped
    subst result
    refine ⟨fun w stays => ?_, fun sleeping => (by cases sleeping), toured.kept, toured.past⟩
    cases stays
    rw [here, first] at busy
    rw [snapshot, ← busy]
    rfl
  | skip walk b due here early result =>
    have waited := timed.stage walk b due _ here
    subst result
    refine toured.leave (v := ⟨b, due, none⟩) here rfl
      ⟨fun wanted => ?_, fun p made => (by cases made)⟩ rfl rfl rfl
    exact absurd (waited wanted) (Nat.not_le.mpr early)
  | settle walk b due started ended answer here result =>
    subst result
    refine toured.leave here rfl ⟨fun _ => rfl, fun p made => ?_⟩ rfl rfl rfl
    cases made
    rfl
  | retry walk b due here elapsed result =>
    subst result
    exact toured.move rfl rfl (by rw [here]; rfl) (by rw [here]; rfl) fun there => by cases there
  | send walk b due here result =>
    subst result
    exact toured.move rfl rfl (by rw [here]; rfl) (by rw [here]; rfl) fun there => by cases there
  | receive walk b due started answer here result =>
    subst result
    exact toured.move rfl rfl (by rw [here]; rfl) (by rw [here]; rfl) fun there => by cases there
  | stamp walk b due started answer here result =>
    subst result
    exact toured.move rfl rfl (by rw [here]; rfl) (by rw [here]; rfl) fun there => by cases there
  | rest walk here finished result =>
    have busy := toured.busy walk (by rw [here]; rfl)
    have done : walk.backends = [] := by
      simp only [Walk.isOver, Bool.and_eq_true, List.isEmpty_iff] at finished
      exact finished.2
    subst result
    refine ⟨fun w stays => (by cases stays), fun _ => rfl, fun v member => (by cases member),
      fun round member => ?_⟩
    rcases List.mem_append.mp member with old | new
    · exact toured.past round old
    · rw [List.mem_singleton.mp new]
      rw [here, done] at busy
      exact ⟨(List.append_nil _).symm.trans busy, toured.kept⟩

end Visits

section Runs
variable {now : Instant} {routes : List RouteConfig} {reg : BackendRegistry} {actions : List Action}

structure Tended (config : HealthConfig) (s : State) : Prop where
  located : Located s
  flagged : Flagged s
  timed : Timed config s
  toured : Toured s

theorem tended_start (built : BackendRegistry.new now routes = .ok reg) :
    Tended config (.start now reg routes) := by
  refine ⟨⟨.asleep (wellFormed_start built), nofun⟩, fun b => ?_, ⟨nofun, fun _ _ => nofun, .nil, nofun⟩,
    ⟨nofun, fun _ => rfl, nofun, nofun⟩⟩
  exact (flag_pushGroups built b).trans rfl

theorem step_tended {action : Action} (taken : step config action s = some t) (tended : Tended config s) :
    Tended config t where
  located := step_located taken tended.located
  flagged := step_flagged taken tended.located.placed tended.flagged
  timed := step_timed taken tended.located tended.timed
  toured := step_toured taken tended.timed tended.toured

theorem run_tended (built : BackendRegistry.new now routes = .ok reg)
    (done : run (step config) actions (.start now reg routes) = some s) : Tended config s := by
  have keep : ∀ action (s t : State), Tended config s → step config action s = some t → Tended config t :=
    fun _ _ _ tended taken => step_tended taken tended
  exact run_invariant keep (tended_start built) done

def underWay : Loop → Option (BackendId × Instant)
  | .visiting _ b _ (.waiting started) | .visiting _ b _ (.answered started _)
  | .visiting _ b _ (.stamped started _ _) => some (b, started)
  | _ => none

theorem Timed.underWay (timed : Timed config s) {b : BackendId} {started : Instant}
    (sent : underWay s.loop = some (b, started)) : Cleared config s b started := by
  cases here : s.loop with
  | asleep => rw [here] at sent; cases sent
  | walking walk => rw [here] at sent; cases sent
  | visiting walk e due stage =>
    have holds := timed.stage walk e due stage here
    rw [here] at sent
    cases stage with
    | checking => cases sent
    | sending => cases sent
    | waiting time => cases sent; exact holds.2
    | answered time answer => cases sent; exact holds.2
    | stamped time ended answer => cases sent; exact holds.2.2.2

/-- In every run every flag is the answer of the latest probe of its backend, a probe starts no
earlier than the cooldown after a failed one of the same backend, every finished round has visited
its snapshot and has probed what was due, and requests and reloads leave the flags of existing objects
alone. -/
theorem health_state_machine (config : HealthConfig) (built : BackendRegistry.new now routes = .ok reg)
    (done : run (step config) actions (.start now reg routes) = some s) :
    (∀ b < s.traffic.reg.backendAt.size, (s.traffic.reg.backend b).healthy = latest b s.probes) ∧
    (s.probes.Pairwise (Spaced config) ∧
      ∀ b started, underWay s.loop = some (b, started) → Cleared config s b started) ∧
    ((∀ round ∈ s.past, round.visits.map Visit.backend = round.snapshot ∧ ∀ v ∈ round.visits, Kept v) ∧
      ∀ v ∈ s.visits, Kept v) ∧
    (∀ action t, step config (.traffic action) s = some t → ∀ b < s.traffic.reg.backendAt.size,
      (t.traffic.reg.backend b).healthy = (s.traffic.reg.backend b).healthy) := by
  obtain ⟨located, flagged, timed, toured⟩ := run_tended built done
  refine ⟨fun b known => ?_, ⟨timed.spaced, fun b started sent => timed.underWay sent⟩,
    ⟨toured.past, toured.kept⟩, fun action t taken b known => ?_⟩
  · have same := flagged b
    rwa [flag, if_pos known] at same
  · cases step_change taken with
    | traffic action next outside moved result =>
      subst result
      exact (traffic_health located.placed.wellFormed outside moved known).1

end Runs

/-- A reload makes one object occur twice; its first probe in the round succeeds and its second fails. -/
theorem health_state_machine_repeated : ∃ reg s,
    BackendRegistry.new 0 [⟨['a'], [⟨['u'], 5, false⟩]⟩] = .ok reg ∧
      Reachable (step ⟨10, 5, 1⟩) (.start 0 reg [⟨['a'], [⟨['u'], 5, false⟩]⟩]) s ∧
      s.past.map Round.snapshot = [[0, 0]] ∧ (s.traffic.reg.backend 0).healthy = false ∧
      (s.traffic.reg.backend 0).healthy = latest 0 s.probes := by
  let reg : BackendRegistry := ⟨⟨[⟨['u'], 5, false, true, 0, 0, 0⟩]⟩,
    ⟨[⟨['a'], .exact ['a'], [0], rfl⟩]⟩, [0]⟩
  let trace : List Action :=
    [.traffic (.reloadStart 1 [⟨['a'], [⟨['u'], 5, false⟩, ⟨['u'], 5, false⟩]⟩]), .traffic .reloadRoute,
      .traffic .reloadSwap, .wake, .enter, .reach, .send, .tick 3, .receive (.response 200), .stamp,
      .settle, .reach, .send, .receive .failed, .stamp, .settle, .rest]
  have built : BackendRegistry.new 0 [⟨['a'], [⟨['u'], 5, false⟩]⟩] = .ok reg := rfl
  have done : run (step ⟨10, 5, 1⟩) trace (.start 0 reg [⟨['a'], [⟨['u'], 5, false⟩]⟩]) = some _ := rfl
  have flags := (health_state_machine ⟨10, 5, 1⟩ built done).1
  exact ⟨_, _, built, ⟨trace, done⟩, rfl, rfl, flags 0 (by decide)⟩

end TinyLb.Cooldown
