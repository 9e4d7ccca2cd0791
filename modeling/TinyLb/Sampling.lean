import TinyLb.Rounds
import TinyLb.StatsStore

/-! The sampler of the statistics next to requests and reloads, one atomic step at a time. What it
records is what it read, and the error counts follow the failed requests. -/

namespace TinyLb.Sampling
open Config Backends Merge Traffic ConnectionLedger Rounds StatsStore Machine

/-- What the sampler read of one backend; `failures` is the number of requests that had failed on it
by then. -/
structure Reading where
  backend : BackendId
  connections : UInt64
  errors : UInt64
  failures : Nat
  deriving DecidableEq, Repr

structure Tick where
  readings : List Reading
  samples : List (Str × Sample)
  deriving DecidableEq, Repr

def Tick.empty : Tick := ⟨[], []⟩

/-- Where the sampler stands: between two rounds, between two backends, after the load of a
backend's `active_connections`, or after the swap of its `error_count`. -/
inductive Sampler where
  | asleep
  | walking (walk : Walk)
  | loaded (walk : Walk) (backend : BackendId) (connections : UInt64)
  | swapped (walk : Walk) (backend : BackendId) (connections errors : UInt64)
  deriving DecidableEq, Repr

structure State where
  traffic : System
  stats : Stats
  sampler : Sampler
  past : List Tick
  current : Tick

def State.start (reg : BackendRegistry) (routes : List RouteConfig) : State :=
  ⟨.start reg routes, .new, .asleep, [], .empty⟩

/-- The requests that failed on `b`: answered with a 502 of the proxy's own, or abandoned before the
WebSocket connection to the backend was established. -/
def failures (s : System) (b : BackendId) : Nat :=
  s.requests.countP fun q => q.phase == .finished (.proxied b .badGateway)

inductive Action where
  | traffic (action : Traffic.Action)
  | wake
  | enter
  | load
  | swap
  | record (t : UInt64)
  | rest

/-- A round of `sample_loop` begins when the timer ticks, and needs the read lock on the table. The
counters are swapped by the sampler's own steps only. -/
def step : Action → State → Option State
  | .traffic (.sample _), _ => none
  | .traffic action, s => (Traffic.step action s.traffic).map fun next => { s with traffic := next }
  | .wake, s =>
      match s.sampler with
      | .asleep =>
          if s.traffic.reload.isSome then none
          else some { s with sampler := .walking (.begin s.traffic.reg) }
      | _ => none
  | .enter, s =>
      match s.sampler with
      | .walking walk => (walk.enter s.traffic.reg).map fun walk => { s with sampler := .walking walk }
      | _ => none
  | .load, s =>
      match s.sampler with
      | .walking walk =>
          walk.next.map fun (b, walk) =>
            { s with sampler := .loaded walk b (s.traffic.reg.backend b).activeConnections }
      | _ => none
  | .swap, s =>
      match s.sampler with
      | .loaded walk b c =>
          let e := (s.traffic.reg.backend b).errorCount
          (Traffic.step (.sample b) s.traffic).map fun next =>
            { s with
              traffic := next
              sampler := .swapped walk b c e
              current := { s.current with
                readings := s.current.readings ++ [⟨b, c, e, failures s.traffic b⟩] } }
      | _ => none
  | .record t, s =>
      match s.sampler with
      | .swapped walk b c e =>
          let url := (s.traffic.reg.backend b).url
          some { s with
            stats := s.stats.record url ⟨t, c, e⟩
            sampler := .walking walk
            current := { s.current with samples := s.current.samples ++ [(url, ⟨t, c, e⟩)] } }
      | _ => none
  | .rest, s =>
      match s.sampler with
      | .walking walk =>
          if walk.isOver then
            some { s with sampler := .asleep, past := s.past ++ [s.current], current := .empty }
          else none
      | _ => none

def State.readings (s : State) : List Reading := s.past.flatMap Tick.readings ++ s.current.readings

def State.recorded (s : State) : List (Str × Sample) := s.past.flatMap Tick.samples ++ s.current.samples

def recordedFor (url : Str) (recorded : List (Str × Sample)) : List Sample :=
  (recorded.filter fun x => x.1 == url).map Prod.snd

section ErrorCounts
variable {q q' : Request} {reg reg' : BackendRegistry} {locked : Bool} {refs : BackendId → Nat}

def failed (b : BackendId) (phase : Phase) : Nat :=
  if phase = .finished (.proxied b .badGateway) then 1 else 0

def errors (reg : BackendRegistry) (b : BackendId) : UInt64 := (reg.backend b).errorCount

theorem errors_write (reg : BackendRegistry) (e : BackendId) (f : Backend → Backend)
    (kept : ∀ x, (f x).errorCount = x.errorCount) (b : BackendId) :
    errors (reg.write e f) b = errors reg b :=
  Arena.get_modify_field Backend.errorCount reg.backendAt kept e b

/-- What a move does to the errors of `b`: they grow by one if the request now has failed on `b`. -/
def Counted (b : BackendId) (reg : BackendRegistry) (q' : Request) (reg' : BackendRegistry) : Prop :=
  failed b q'.phase = 0 ∧ errors reg' b = errors reg b ∨
    failed b q'.phase = 1 ∧ errors reg' b = errors reg b + 1

theorem counted_quiet {b : BackendId} (unfailed : ∀ e, q'.phase ≠ .finished (.proxied e .badGateway))
    (same : errors reg' b = errors reg b) : Counted b reg q' reg' :=
  Or.inl ⟨if_neg (unfailed b), same⟩

theorem counted_enter {b : BackendId} {phase : Phase}
    (unfailed : ∀ e, phase ≠ .finished (.proxied e .badGateway))
    (taken : some (q.enter phase, reg) = some (q', reg')) : Counted b reg q' reg' := by
  cases taken
  exact counted_quiet unfailed rfl

theorem counted_openGuard {e b : BackendId} (taken : q.openGuard reg refs e = some (q', reg')) :
    Counted b reg q' reg' := by
  rw [Request.openGuard] at taken
  split at taken
  next =>
    cases taken
    exact counted_quiet (fun e => by simp) (errors_write reg e Backend.connect (fun _ => rfl) b)
  next => cases taken

theorem counted_dropGuard {b : BackendId} {guard : ConnectionGuard} {ending : Ending}
    (other : ending ≠ .badGateway) (taken : some (q.dropGuard reg guard ending) = some (q', reg')) :
    Counted b reg q' reg' := by
  cases taken
  refine counted_quiet (fun e => ?_) (errors_write reg guard.backend Backend.disconnect (fun _ => rfl) b)
  simp [other]

theorem counted_badGateway {b : BackendId} {guard : ConnectionGuard}
    (known : guard.backend < reg.backendAt.size)
    (taken : some (q.badGateway reg guard) = some (q', reg')) : Counted b reg q' reg' := by
  cases taken
  have dropped := errors_write (reg.write guard.backend Backend.countError) guard.backend
    Backend.disconnect (fun _ => rfl) b
  by_cases same : guard.backend = b
  · subst same
    refine Or.inr ⟨if_pos rfl, dropped.trans ?_⟩
    exact congrArg Backend.errorCount (reg.backend_write_self Backend.countError known)
  · refine Or.inl ⟨if_neg ?_, dropped.trans ?_⟩
    · simp [same]
    · exact congrArg Backend.errorCount (reg.backend_write_of_ne Backend.countError same)

theorem step_counted {move : Move} (taken : q.step reg locked refs move = some (q', reg'))
    (known : ∀ guard, q.phase.guard = some guard → guard.backend < reg.backendAt.size) (b : BackendId) :
    Counted b reg q' reg' := by
  unfold Request.step at taken
  split at taken
  next =>
    split at taken
    next => exact counted_enter (by simp) taken
    next =>
      split at taken
      next => exact counted_enter (by simp) taken
      next =>
        split at taken
        next => cases taken
        next =>
          split at taken
          next => exact counted_enter (by simp) taken
          next => exact counted_enter (by simp) taken
  next =>
    split at taken
    next =>
      split at taken
      next => exact counted_enter (by simp) taken
      next => cases taken
    next => exact counted_enter (by simp) taken
  next =>
    split at taken
    next => exact counted_enter (by simp) taken
    next => cases taken
  next => exact counted_enter (by simp) taken
  next => exact counted_enter (by simp) taken
  next => exact counted_enter (by simp) taken
  next =>
    split at taken
    next => cases taken
    next => exact counted_openGuard taken
  next => exact counted_openGuard taken
  next guard here => exact counted_badGateway (known guard (by rw [here]; rfl)) taken
  next => exact counted_enter (by simp) taken
  next =>
    refine counted_enter (fun e => ?_) taken
    cases q.upgrade <;> simp
  next guard here => exact counted_badGateway (known guard (by rw [here]; rfl)) taken
  next => exact counted_dropGuard (by decide) taken
  next => exact counted_dropGuard (by decide) taken
  next => exact counted_dropGuard (by decide) taken
  next => exact counted_dropGuard (by decide) taken
  next => exact counted_dropGuard (by decide) taken
  next => exact counted_dropGuard (by decide) taken
  next => exact counted_dropGuard (by decide) taken
  next => cases taken

theorem step_live {move : Move} (taken : q.step reg locked refs move = some (q', reg'))
    (outcome : Outcome) : q.phase ≠ .finished outcome := by
  intro ended
  unfold Request.step at taken
  rw [ended] at taken
  cases move with
  | upgrade accepted => cases accepted <;> cases taken
  | _ => cases taken

end ErrorCounts

theorem traffic_errors {s t : System} {action : Traffic.Action}
    (still : ∀ r move, action ≠ .advance r move) (outside : ∀ b, action ≠ .sample b)
    (taken : Traffic.step action s = some t) (b : BackendId) : errors t.reg b = errors s.reg b := by
  cases action with
  | arrive path host upgrade => cases taken; rfl
  | advance r move => exact absurd rfl (still r move)
  | probe e now healthy =>
    cases taken
    exact errors_write s.reg e (Backend.probed now healthy) (fun _ => rfl) b
  | sample e => exact absurd rfl (outside e)
  | reloadStart now routes =>
    rcases (reloadStart_cases taken).2 with ⟨e, -, rfl⟩ | ⟨-, rfl⟩ <;> rfl
  | reloadRoute =>
    obtain ⟨now, routes, route, todo, newGroups, g, reg, -, applied, rfl⟩ := reloadRoute_cases taken
    exact counter_applyRoute counter_errorCount applied b
  | reloadSwap =>
    obtain ⟨now, routes, newGroups, -, rfl⟩ := reloadSwap_cases taken
    rfl

/-- The failed requests of a backend and its error count move together. -/
theorem traffic_counts {s t : System} {action : Traffic.Action} (wellFormed : WellFormed s)
    (outside : ∀ b, action ≠ .sample b) (taken : Traffic.step action s = some t) (b : BackendId) :
    failures t b = failures s b ∧ errors t.reg b = errors s.reg b ∨
      failures t b = failures s b + 1 ∧ errors t.reg b = errors s.reg b + 1 := by
  by_cases moving : ∃ r move, action = .advance r move
  · obtain ⟨r, move, rfl⟩ := moving
    obtain ⟨q, q', reg, here, moved, rfl⟩ := advance_cases taken
    have guarded := (wellFormed.fits q (List.mem_of_getElem? here)).guarded
    have counts := countP_set_add
      (p := fun q : Request => q.phase == .finished (.proxied b .badGateway)) here q'
    simp only [beq_iff_eq] at counts
    rw [if_neg (step_live moved _)] at counts
    rcases step_counted moved guarded b with ⟨unfailed, same⟩ | ⟨fell, more⟩
    · rw [failed] at unfailed
      rw [unfailed] at counts
      exact Or.inl ⟨counts, same⟩
    · rw [failed] at fell
      rw [fell] at counts
      exact Or.inr ⟨counts, more⟩
  · have still : ∀ r move, action ≠ .advance r move := fun r move same => moving ⟨r, move, same⟩
    refine Or.inl ⟨?_, traffic_errors still outside taken b⟩
    cases action with
    | arrive path host upgrade =>
      cases taken
      rw [failures, List.countP_append]
      rfl
    | advance r move => exact absurd rfl (still r move)
    | probe e now healthy => cases taken; rfl
    | sample e => exact absurd rfl (outside e)
    | reloadStart now routes =>
      rcases (reloadStart_cases taken).2 with ⟨e, -, rfl⟩ | ⟨-, rfl⟩ <;> rfl
    | reloadRoute =>
      obtain ⟨now, routes, route, todo, newGroups, g, reg, -, -, rfl⟩ := reloadRoute_cases taken
      rfl
    | reloadSwap =>
      obtain ⟨now, routes, newGroups, -, rfl⟩ := reloadSwap_cases taken
      rfl

section Steps
variable {s t : State}

inductive Change (s t : State) : Action → Prop
  | traffic (action : Traffic.Action) (next : System) (outside : ∀ b, action ≠ .sample b)
      (moved : Traffic.step action s.traffic = some next) (result : t = { s with traffic := next }) :
      Change s t (.traffic action)
  | wake (here : s.sampler = .asleep) (unlocked : s.traffic.reload = none)
      (result : t = { s with sampler := .walking (.begin s.traffic.reg) }) : Change s t .wake
  | enter (walk after : Walk) (here : s.sampler = .walking walk)
      (entered : walk.enter s.traffic.reg = some after)
      (result : t = { s with sampler := .walking after }) : Change s t .enter
  | load (walk after : Walk) (b : BackendId) (here : s.sampler = .walking walk)
      (stepped : walk.next = some (b, after))
      (result : t = { s with sampler := .loaded after b (s.traffic.reg.backend b).activeConnections }) :
      Change s t .load
  | swap (walk : Walk) (b : BackendId) (c : UInt64) (here : s.sampler = .loaded walk b c)
      (result : t = { s with
        traffic := { s.traffic with reg := s.traffic.reg.write b Backend.takeErrors }
        sampler := .swapped walk b c (errors s.traffic.reg b)
        current := { s.current with
          readings := s.current.readings ++ [⟨b, c, errors s.traffic.reg b, failures s.traffic b⟩] } }) :
      Change s t .swap
  | record (time : UInt64) (walk : Walk) (b : BackendId) (c e : UInt64)
      (here : s.sampler = .swapped walk b c e)
      (result : t = { s with
        stats := s.stats.record (s.traffic.reg.backend b).url ⟨time, c, e⟩
        sampler := .walking walk
        current := { s.current with
          samples := s.current.samples ++ [((s.traffic.reg.backend b).url, ⟨time, c, e⟩)] } }) :
      Change s t (.record time)
  | rest (walk : Walk) (here : s.sampler = .walking walk) (finished : walk.isOver = true)
      (result : t = { s with sampler := .asleep, past := s.past ++ [s.current], current := .empty }) :
      Change s t .rest

theorem step_change {action : Action} (taken : step action s = some t) : Change s t action := by
  cases action with
  | traffic action =>
    have moved : (∀ b, action ≠ .sample b) ∧
        (Traffic.step action s.traffic).map (fun next => { s with traffic := next }) = some t := by
      cases action with
      | sample b => cases taken
      | _ => exact ⟨fun b => (by simp), taken⟩
    obtain ⟨outside, taken⟩ := moved
    obtain ⟨next, moved, same⟩ := Option.map_eq_some_iff.mp taken
    exact .traffic action next outside moved same.symm
  | wake =>
    rw [step] at taken
    split at taken
    next here =>
      split at taken
      next => cases taken
      next unlocked => exact .wake here (by simpa using unlocked) (Option.some.inj taken).symm
    next => cases taken
  | enter =>
    rw [step] at taken
    split at taken
    next walk here =>
      obtain ⟨after, entered, same⟩ := Option.map_eq_some_iff.mp taken
      exact .enter walk after here entered same.symm
    next => cases taken
  | load =>
    rw [step] at taken
    split at taken
    next walk here =>
      obtain ⟨⟨b, after⟩, stepped, same⟩ := Option.map_eq_some_iff.mp taken
      exact .load walk after b here stepped same.symm
    next => cases taken
  | swap =>
    rw [step] at taken
    split at taken
    next walk b c here => exact .swap walk b c here (Option.some.inj taken).symm
    next => cases taken
  | record time =>
    rw [step] at taken
    split at taken
    next walk b c e here => exact .record time walk b c e here (Option.some.inj taken).symm
    next => cases taken
  | rest =>
    rw [step] at taken
    split at taken
    next walk here =>
      split at taken
      next finished => exact .rest walk here finished (Option.some.inj taken).symm
      next => cases taken
    next => cases taken

def Sampler.walk : Sampler → Option Walk
  | .asleep => none
  | .walking walk | .loaded walk _ _ | .swapped walk _ _ _ => some walk

def Sampler.inHand : Sampler → Option BackendId
  | .loaded _ b _ | .swapped _ b _ _ => some b
  | _ => none

def entry (reg : BackendRegistry) (r : Reading) : Str × UInt64 × UInt64 :=
  ((reg.backend r.backend).url, r.connections, r.errors)

def content (x : Str × Sample) : Str × UInt64 × UInt64 := (x.1, x.2.c, x.2.e)

def Sampler.unrecorded (reg : BackendRegistry) : Sampler → List (Str × UInt64 × UInt64)
  | .swapped _ b c e => [((reg.backend b).url, c, e)]
  | _ => []

/-- Pointers are to objects, and what was recorded is what was read. -/
structure Recorded (s : State) : Prop where
  placed : Placed s.traffic s.sampler.walk s.sampler.inHand
  read : ∀ r ∈ s.readings, r.backend < s.traffic.reg.backendAt.size
  past : ∀ tick ∈ s.past, tick.samples.map content = tick.readings.map (entry s.traffic.reg)
  current : s.current.samples.map content ++ s.sampler.unrecorded s.traffic.reg =
    s.current.readings.map (entry s.traffic.reg)

theorem recorded_start {now : Instant} {routes : List RouteConfig} {reg : BackendRegistry}
    (built : BackendRegistry.new now routes = .ok reg) : Recorded (.start reg routes) where
  placed := .asleep (wellFormed_start built)
  read r member := by cases member
  past tick member := by cases member
  current := rfl

theorem mem_readings {r : Reading} {tick : Tick} (member : tick ∈ s.past) (there : r ∈ tick.readings) :
    r ∈ s.readings :=
  List.mem_append_left _ (List.mem_flatMap.mpr ⟨tick, member, there⟩)

theorem Recorded.keep (recorded : Recorded s) {traffic : System} {sampler : Sampler}
    (placed : Placed traffic sampler.walk sampler.inHand)
    (backends : s.traffic.reg.backendAt.size ≤ traffic.reg.backendAt.size)
    (urls : ∀ b < s.traffic.reg.backendAt.size,
      (traffic.reg.backend b).url = (s.traffic.reg.backend b).url)
    (unrecorded : sampler.unrecorded traffic.reg = s.sampler.unrecorded s.traffic.reg) :
    Recorded { s with traffic := traffic, sampler := sampler } := by
  have same : ∀ r ∈ s.readings, entry traffic.reg r = entry s.traffic.reg r := by
    intro r member
    rw [entry, entry, urls _ (recorded.read r member)]
  refine ⟨placed, fun r member => Nat.lt_of_lt_of_le (recorded.read r member) backends,
    fun tick member => ?_, ?_⟩
  · rw [recorded.past tick member]
    exact List.map_congr_left fun r there => (same r (mem_readings member there)).symm
  · rw [unrecorded, recorded.current]
    exact List.map_congr_left fun r there => (same r (List.mem_append_right _ there)).symm

theorem url_takeErrors (reg : BackendRegistry) (e b : BackendId) :
    ((reg.write e Backend.takeErrors).backend b).url = (reg.backend b).url :=
  Arena.get_modify_field Backend.url reg.backendAt (fun x => (rfl : x.takeErrors.url = x.url)) e b

theorem readings_swap (s : State) (traffic : System) (sampler : Sampler) (r : Reading) :
    State.readings { s with
      traffic := traffic
      sampler := sampler
      current := { s.current with readings := s.current.readings ++ [r] } } = s.readings ++ [r] :=
  (List.append_assoc ..).symm

theorem readings_rest (s : State) (sampler : Sampler) :
    State.readings { s with
      sampler := sampler, past := s.past ++ [s.current], current := .empty } = s.readings := by
  simp [State.readings, Tick.empty]

theorem recorded_record (s : State) (stats : Stats) (sampler : Sampler) (x : Str × Sample) :
    State.recorded { s with
      stats := stats
      sampler := sampler
      current := { s.current with samples := s.current.samples ++ [x] } } = s.recorded ++ [x] :=
  (List.append_assoc ..).symm

theorem recorded_rest (s : State) (sampler : Sampler) :
    State.recorded { s with
      sampler := sampler, past := s.past ++ [s.current], current := .empty } = s.recorded := by
  simp [State.recorded, Tick.empty]

theorem step_recorded {action : Action} (taken : step action s = some t) (recorded : Recorded s) :
    Recorded t := by
  have placed := recorded.placed
  cases step_change taken with
  | traffic action next outside moved result =>
    subst result
    have urls : ∀ b < s.traffic.reg.backendAt.size,
        (next.reg.backend b).url = (s.traffic.reg.backend b).url :=
      fun b known => step_url placed.wellFormed moved known
    refine recorded.keep (placed.traffic moved) (step_grows placed.wellFormed moved).1 urls ?_
    cases held : s.sampler with
    | swapped walk b c e =>
      have known := placed.inHand b (by rw [held]; rfl)
      simp only [Sampler.unrecorded, urls b known]
    | _ => rfl
  | wake here unlocked result =>
    subst result
    exact recorded.keep (.wake placed.wellFormed) (Nat.le_refl _) (fun _ _ => rfl) (by rw [here]; rfl)
  | enter walk after here entered result =>
    subst result
    rw [here] at placed
    exact recorded.keep (placed.enter entered) (Nat.le_refl _) (fun _ _ => rfl) (by rw [here]; rfl)
  | load walk after b here stepped result =>
    subst result
    rw [here] at placed
    exact recorded.keep (placed.next stepped) (Nat.le_refl _) (fun _ _ => rfl) (by rw [here]; rfl)
  | swap walk b c here result =>
    subst result
    rw [here] at placed
    have urls := url_takeErrors s.traffic.reg b
    have same : entry (s.traffic.reg.write b Backend.takeErrors) = entry s.traffic.reg := by
      funext r
      rw [entry, entry, urls]
    have current := recorded.current
    simp only [here, Sampler.unrecorded, List.append_nil] at current
    refine ⟨placed.write b _, fun r member => ?_, fun tick member => ?_, ?_⟩
    · rw [BackendRegistry.size_write]
      rw [readings_swap] at member
      rcases List.mem_append.mp member with old | new
      · exact recorded.read r old
      · rw [List.mem_singleton.mp new]
        exact placed.inHand b rfl
    · simp only [same]
      exact recorded.past tick member
    · simp only [same, Sampler.unrecorded, urls, List.map_append, current]
      rfl
  | record time walk b c e here result =>
    subst result
    rw [here] at placed
    have current := recorded.current
    rw [here, Sampler.unrecorded] at current
    refine ⟨placed.release, recorded.read, recorded.past, ?_⟩
    simp only [Sampler.unrecorded, List.append_nil, List.map_append, ← current]
    rfl
  | rest walk here finished result =>
    subst result
    have current := recorded.current
    simp only [here, Sampler.unrecorded, List.append_nil] at current
    refine ⟨.asleep placed.wellFormed, fun r member => recorded.read r (readings_rest s .asleep ▸ member),
      fun tick member => ?_, rfl⟩
    rcases List.mem_append.mp member with old | new
    · exact recorded.past tick old
    · rw [List.mem_singleton.mp new]
      exact current

theorem step_objectUrl {action : Action} (taken : step action s = some t) (recorded : Recorded s)
    {b : BackendId} (known : b < s.traffic.reg.backendAt.size) :
    (t.traffic.reg.backend b).url = (s.traffic.reg.backend b).url := by
  cases step_change taken with
  | traffic action next outside moved result =>
    rw [result]
    exact step_url recorded.placed.wellFormed moved known
  | swap walk e c here result =>
    rw [result]
    exact url_takeErrors s.traffic.reg e b
  | wake here unlocked result => rw [result]
  | enter walk after here entered result => rw [result]
  | load walk after e here stepped result => rw [result]
  | record time walk e c n here result => rw [result]
  | rest walk here finished result => rw [result]

/-- A series is the end of what was recorded under its URL. -/
def Published (s : State) : Prop := ∀ url, s.stats.series url = latest (recordedFor url s.recorded)

theorem recordedFor_append (url other : Str) (recorded : List (Str × Sample)) (sample : Sample) :
    recordedFor other (recorded ++ [(url, sample)]) =
      recordedFor other recorded ++ if url = other then [sample] else [] := by
  rw [recordedFor, List.filter_append, List.map_append]
  congr 1
  by_cases same : url = other <;> simp [same]

theorem published_start (reg : BackendRegistry) (routes : List RouteConfig) :
    Published (.start reg routes) := by
  intro url
  have none : recordedFor url (State.start reg routes).recorded = [] := rfl
  rw [none, latest, List.drop_nil]
  rfl

theorem step_published {action : Action} (taken : step action s = some t) (published : Published s) :
    Published t := by
  cases step_change taken with
  | record time walk b c e here result =>
    intro other
    have recorded := (congrArg State.recorded result).trans (recorded_record ..)
    rw [recorded, recordedFor_append]
    subst result
    by_cases same : (s.traffic.reg.backend b).url = other
    · rw [if_pos same, ← pushSample_latest, ← published other, ← same]
      exact Stats.series_record_self ..
    · rw [if_neg same, List.append_nil, ← published other]
      exact Stats.series_record_of_ne _ (Ne.symm same) _
  | rest walk here finished result =>
    intro url
    have recorded := (congrArg State.recorded result).trans (recorded_rest ..)
    rw [recorded, ← published url, result]
  | traffic action next outside moved result => rw [result]; exact published
  | wake here unlocked result => rw [result]; exact published
  | enter walk after here entered result => rw [result]; exact published
  | load walk after e here stepped result => rw [result]; exact published
  | swap walk e c here result => rw [result]; exact published

end Steps

section Runs
variable {now : Instant} {routes : List RouteConfig} {reg : BackendRegistry} {actions : List Action}
  {s : State}

theorem run_recorded (built : BackendRegistry.new now routes = .ok reg)
    (done : run step actions (.start reg routes) = some s) : Recorded s := by
  have keep : ∀ action (s t : State), Recorded s → step action s = some t → Recorded t :=
    fun _ _ _ recorded taken => step_recorded taken recorded
  exact run_invariant keep (recorded_start built) done

theorem run_published (done : run step actions (.start reg routes) = some s) : Published s := by
  have keep : ∀ action (s t : State), Published s → step action s = some t → Published t :=
    fun _ _ _ published taken => step_published taken published
  exact run_invariant keep (published_start reg routes) done

end Runs

end TinyLb.Sampling
