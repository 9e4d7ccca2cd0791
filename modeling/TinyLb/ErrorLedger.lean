import TinyLb.Meters
import TinyLb.Sampling

/-! Every failed request is in a sample or in the counter of its backend, and the series of a URL is
the end of what was recorded for it. -/

namespace TinyLb.ErrorLedger
open Config Backends Merge ConnectionLedger StatsStore Sampling Tally Machine
open Traffic (Request System)

variable {s t : State}

/-- The errors of `b` that the sampler has taken. -/
def takenErrors (b : BackendId) (readings : List Reading) : Nat :=
  total (fun r => if r.backend = b then r.errors.toNat else 0) readings

theorem takenErrors_append (b : BackendId) (readings : List Reading) (r : Reading) :
    takenErrors b (readings ++ [r]) =
      takenErrors b readings + if r.backend = b then r.errors.toNat else 0 := by
  rw [takenErrors, total_append, total_singleton, takenErrors]

def meterOf (s : State) (b : BackendId) : Meters.Meter :=
  ⟨errors s.traffic.reg b, failures s.traffic b, takenErrors b s.readings⟩

theorem step_meter {action : Action} (taken : step action s = some t) (recorded : Recorded s)
    (b : BackendId) : Meters.Step (meterOf s b) (meterOf t b) := by
  cases step_change taken with
  | traffic action next outside moved result =>
    subst result
    rcases traffic_counts recorded.placed.wellFormed outside moved b with ⟨calm, same⟩ | ⟨fell, more⟩
    · exact .keep (by simp only [meterOf, calm, same]; rfl)
    · exact .count (by simp only [meterOf, fell, more]; rfl)
  | wake here unlocked result => exact .keep (by rw [result]; rfl)
  | enter walk after here entered result => exact .keep (by rw [result]; rfl)
  | load walk after e here stepped result => exact .keep (by rw [result]; rfl)
  | swap walk e c here result =>
    have known := recorded.placed.inHand e (by rw [here]; rfl)
    have readings := (congrArg State.readings result).trans (readings_swap ..)
    have drawn := (congrArg (takenErrors b) readings).trans (takenErrors_append ..)
    subst result
    by_cases same : e = b
    · subst same
      rw [if_pos rfl] at drawn
      have reset := congrArg Backend.errorCount
        (s.traffic.reg.backend_write_self Backend.takeErrors known)
      exact .take ((Meters.Meter.mk.injEq ..).mpr ⟨reset, rfl, drawn⟩)
    · rw [if_neg same, Nat.add_zero] at drawn
      have kept := congrArg Backend.errorCount
        (s.traffic.reg.backend_write_of_ne Backend.takeErrors same)
      exact .keep ((Meters.Meter.mk.injEq ..).mpr ⟨kept, rfl, drawn⟩)
  | record time walk e c n here result => exact .keep (by rw [result]; rfl)
  | rest walk here finished result =>
    subst result
    exact .keep ((Meters.Meter.mk.injEq ..).mpr ⟨rfl, rfl, congrArg (takenErrors b) (readings_rest ..)⟩)

def Unwrapped (action : Action) (s : State) : Prop :=
  ∀ t b, step action s = some t → failures t.traffic b = failures s.traffic b + 1 →
    (errors s.traffic.reg b).toNat + 1 < UInt64.size

def objects (url : Str) (reg : BackendRegistry) : List BackendId :=
  (List.range reg.backendAt.size).filter fun b => (reg.backend b).url == url

def failuresOn (url : Str) (s : State) : Nat := total (failures s.traffic) (objects url s.traffic.reg)

def countedOn (url : Str) (s : State) : Nat :=
  total (fun b => (errors s.traffic.reg b).toNat) (objects url s.traffic.reg)

def sampledOn (url : Str) (s : State) : Nat :=
  total (fun x => x.e.toNat) (recordedFor url s.recorded)

theorem mem_objects {url : Str} {reg : BackendRegistry} {b : BackendId} :
    b ∈ objects url reg ↔ b < reg.backendAt.size ∧ (reg.backend b).url = url := by
  simp [objects]

theorem Recorded.content_eq (recorded : Recorded s)
    (between : ∀ walk b c e, s.sampler ≠ .swapped walk b c e) :
    s.recorded.map content = s.readings.map (entry s.traffic.reg) := by
  have none : s.sampler.unrecorded s.traffic.reg = [] := by
    cases here : s.sampler with
    | swapped walk b c e => exact absurd here (between walk b c e)
    | _ => rfl
  have current := recorded.current
  rw [none, List.append_nil] at current
  rw [State.recorded, State.readings, List.map_append, List.map_append, current, List.map_flatMap,
    List.map_flatMap]
  have past : s.past.flatMap (fun tick => tick.samples.map content) =
      s.past.flatMap fun tick => tick.readings.map (entry s.traffic.reg) :=
    List.flatMap_congr fun tick member => recorded.past tick member
  rw [past]

theorem total_takenErrors (recorded : Recorded s)
    (between : ∀ walk b c e, s.sampler ≠ .swapped walk b c e) (url : Str) :
    total (fun b => takenErrors b s.readings) (objects url s.traffic.reg) = sampledOn url s := by
  have distinct : (objects url s.traffic.reg).Nodup := List.nodup_range.filter _
  calc total (fun b => takenErrors b s.readings) (objects url s.traffic.reg)
    _ = total (fun r => total (fun b => if r.backend = b then r.errors.toNat else 0)
          (objects url s.traffic.reg)) s.readings := total_comm ..
    _ = total (fun r => if (entry s.traffic.reg r).1 == url then
          (entry s.traffic.reg r).2.2.toNat else 0) s.readings := by
        refine total_congr fun r member => ?_
        rw [total_single distinct]
        simp only [mem_objects, recorded.read r member, true_and, entry, beq_iff_eq]
    _ = total (fun x => if x.1 == url then x.2.2.toNat else 0)
          (s.readings.map (entry s.traffic.reg)) := by rw [total_map]
    _ = total (fun x => if x.1 == url then x.2.2.toNat else 0) (s.recorded.map content) := by
        rw [Recorded.content_eq recorded between]
    _ = total (fun x => if x.1 == url then x.2.e.toNat else 0) s.recorded := by rw [total_map]; rfl
    _ = sampledOn url s := by rw [sampledOn, recordedFor, total_map, total_filter]

/-- A move of a request adds one to the error count of a backend when it is the move in which the
request fails on it, which it does once, and nobody else but the swap of the sampler changes an error
count. -/
structure CountedOnce (s : State) : Prop where
  request : ∀ r move t, step (.traffic (.advance r move)) s = some t → ∃ q q',
    s.traffic.requests[r]? = some q ∧ t.traffic.requests = s.traffic.requests.set r q' ∧
      (∀ outcome, q.phase ≠ .finished outcome) ∧ ∀ b, Counted b s.traffic.reg q' t.traffic.reg
  others : ∀ action t, (∀ r move, action ≠ .traffic (.advance r move)) → action ≠ .swap →
    step action s = some t → ∀ b, errors t.traffic.reg b = errors s.traffic.reg b

theorem Recorded.countedOnce (recorded : Recorded s) : CountedOnce s where
  request r move t taken := by
    cases step_change taken with
    | traffic action next outside moved result =>
      subst result
      obtain ⟨q, q', reg, here, walked, rfl⟩ := advance_cases moved
      have guarded := (recorded.placed.wellFormed.fits q (List.mem_of_getElem? here)).guarded
      exact ⟨q, q', here, rfl, step_live walked, step_counted walked guarded⟩
  others action t still unswapped taken b := by
    cases step_change taken with
    | traffic action next outside moved result =>
      subst result
      refine traffic_errors (fun r move same => ?_) outside moved b
      exact still r move (congrArg Action.traffic same)
    | swap => exact absurd rfl unswapped
    | wake here unlocked result => rw [result]
    | enter walk after here entered result => rw [result]
    | load walk after e here stepped result => rw [result]
    | record time walk e c n here result => rw [result]
    | rest walk here finished result => rw [result]

theorem traffic_requests {s t : Traffic.System} {action : Traffic.Action}
    (taken : Traffic.step action s = some t) : s.requests.length ≤ t.requests.length := by
  cases action with
  | arrive path host upgrade =>
    cases taken
    simp
  | advance r move =>
    obtain ⟨q, q', reg, -, -, rfl⟩ := advance_cases taken
    exact Nat.le_of_eq List.length_set.symm
  | probe b now healthy => cases taken; exact Nat.le_refl _
  | sample b => cases taken; exact Nat.le_refl _
  | reloadStart now routes =>
    rcases (reloadStart_cases taken).2 with ⟨e, -, rfl⟩ | ⟨-, rfl⟩ <;> exact Nat.le_refl _
  | reloadRoute =>
    obtain ⟨now, routes, route, todo, newGroups, g, reg, -, -, rfl⟩ := reloadRoute_cases taken
    exact Nat.le_refl _
  | reloadSwap =>
    obtain ⟨now, routes, newGroups, -, rfl⟩ := reloadSwap_cases taken
    exact Nat.le_refl _

theorem step_requests {action : Action} (taken : step action s = some t) :
    s.traffic.requests.length ≤ t.traffic.requests.length := by
  cases step_change taken with
  | traffic action next outside moved result => rw [result]; exact traffic_requests moved
  | swap walk b c here result => rw [result]
  | wake here unlocked result => rw [result]
  | enter walk after here entered result => rw [result]
  | load walk after e here stepped result => rw [result]
  | record time walk e c n here result => rw [result]
  | rest walk here finished result => rw [result]

theorem metered : Meters.Metered step meterOf Recorded :=
  ⟨fun _ _ _ recorded taken => step_recorded taken recorded,
    fun _ _ _ recorded taken b => step_meter taken recorded b⟩

def Congruent (s : State) : Prop :=
  ∀ url, failuresOn url s ≡ sampledOn url s + countedOn url s [MOD UInt64.size]

def Conserved (s : State) : Prop := ∀ url, failuresOn url s = sampledOn url s + countedOn url s

theorem congruent_of_meters (recorded : Recorded s)
    (between : ∀ walk b c e, s.sampler ≠ .swapped walk b c e)
    (congruent : ∀ b, Meters.Congruent (meterOf s b)) : Congruent s := by
  intro url
  rw [← total_takenErrors recorded between]
  exact Meters.total_congruent congruent

theorem conserved_of_meters (recorded : Recorded s)
    (between : ∀ walk b c e, s.sampler ≠ .swapped walk b c e)
    (balanced : ∀ b, Meters.Balanced (meterOf s b)) : Conserved s := by
  intro url
  rw [← total_takenErrors recorded between]
  exact Meters.total_balanced balanced

section Runs
variable {now : Instant} {routes : List RouteConfig} {reg : BackendRegistry} {actions : List Action}

theorem meter_start (built : BackendRegistry.new now routes = .ok reg) (b : BackendId) :
    Meters.Balanced (meterOf (.start reg routes) b) := by
  have zero : errors reg b = 0 := counter_pushGroups counter_errorCount built b
  have reads : (meterOf (.start reg routes) b).counter = 0 := zero
  rw [Meters.Balanced, reads]
  rfl

theorem unwrapped_of_few (built : BackendRegistry.new now routes = .ok reg)
    (done : run step actions (.start reg routes) = some s)
    (few : s.traffic.requests.length < UInt64.size) : Conforms step Unwrapped actions (.start reg routes) :=
  metered.unwrapped_of_few (fun _ _ => List.countP_le_length) (fun _ _ _ taken => step_requests taken)
    (recorded_start built) (meter_start built) done few

/-- In every run a failed request adds one to the error count of its backend and nothing else does;
the failures on a URL are the errors in its samples and its counters, up to whole turns of a counter,
and exactly as long as none has wrapped; and a series is the end of what was recorded. -/
theorem error_counts_conserved (built : BackendRegistry.new now routes = .ok reg)
    (done : run step actions (.start reg routes) = some s) :
    CountedOnce s ∧
    ((∀ walk b c e, s.sampler ≠ .swapped walk b c e) →
      Congruent s ∧ (Conforms step Unwrapped actions (.start reg routes) → Conserved s)) ∧
    Published s := by
  have recorded := run_recorded built done
  have start := meter_start built
  refine ⟨Recorded.countedOnce recorded, fun between => ⟨?_, fun unwrapped => ?_⟩, run_published done⟩
  · exact congruent_of_meters recorded between
      (metered.congruent (recorded_start built) (fun b => (start b).congruent) done)
  · exact conserved_of_meters recorded between
      (metered.balanced (recorded_start built) start unwrapped done)

end Runs

section Wrapping

def single (active errors : UInt64) : BackendRegistry :=
  ⟨⟨[⟨['u'], 5, false, true, active, errors, 0⟩]⟩, ⟨[⟨['a'], .exact ['a'], [0], rfl⟩]⟩, [0]⟩

def singleRoute : List RouteConfig := [⟨['a'], [⟨['u'], 5, false⟩]⟩]

def request (phase : Traffic.Phase) (ops : List Traffic.CounterOp) : Request :=
  ⟨['/'], ['a'], false, phase, ops⟩

def failedRequest : Request := request (.finished (.proxied 0 .badGateway)) [.fetchAdd 0, .fetchSub 0]

def failing (n : Nat) (reg : BackendRegistry) (live : List Request) : State :=
  ⟨⟨reg, List.replicate n failedRequest ++ live, none, singleRoute⟩, .new, .asleep, [], .empty⟩

theorem failing_next (n : Nat) (reg : BackendRegistry) :
    failing n reg [failedRequest] = failing (n + 1) reg [] := by
  rw [failing, failing, List.replicate_succ', List.append_nil]

theorem refs_failing (n : Nat) (reg : BackendRegistry) (q : Request) :
    System.refs (failing n reg [q]).traffic = fun b => q.phase.refs b := by
  funext b
  simp only [System.refs, failing, List.foldr_append]
  induction n with
  | zero => rfl
  | succ n ih =>
    rw [List.replicate_succ, List.foldr_cons, ih]
    exact Nat.zero_add _

theorem failing_move {n : Nat} {reg reg' : BackendRegistry} {q q' : Request} {move : Traffic.Move}
    (moved : q.step reg false (fun b => q.phase.refs b) move = some (q', reg')) :
    step (.traffic (.advance n move)) (failing n reg [q]) = some (failing n reg' [q']) := by
  have here : (List.replicate n failedRequest ++ [q])[n]? = some q := by simp
  have there : (List.replicate n failedRequest ++ [q]).set n q' =
      List.replicate n failedRequest ++ [q'] := by simp
  rw [← refs_failing n reg] at moved
  unfold failing at moved ⊢
  simp only [step, Traffic.step, here, Option.isSome_none, moved, there, Option.map_some]

theorem failing_step (n : Nat) (e : UInt64) : run step
    [.traffic (.arrive ['/'] ['a'] false), .traffic (.advance n .findGroup),
      .traffic (.advance n .selectBackend), .traffic (.advance n .openGuard),
      .traffic (.advance n .reject)] (failing n (single 0 e) []) =
      some (failing (n + 1) (single 0 (e + 1)) []) := by
  have arrived : step (.traffic (.arrive ['/'] ['a'] false)) (failing n (single 0 e) []) =
      some (failing n (single 0 e) [request .received []]) := by
    rw [failing, List.append_nil]
    rfl
  have routed := @failing_move n (single 0 e) (single 0 e) (request .received [])
    (request (.routed 0) []) .findGroup rfl
  have chosen := @failing_move n (single 0 e) (single 0 e) (request (.routed 0) [])
    (request (.chosen 0) []) .selectBackend rfl
  have opened := @failing_move n (single 0 e) (single 1 e) (request (.chosen 0) [])
    (request (.proxying ⟨0⟩) [.fetchAdd 0]) .openGuard rfl
  have failed := @failing_move n (single 1 e) (single (1 - 1) (e + 1))
    (request (.proxying ⟨0⟩) [.fetchAdd 0]) failedRequest .reject rfl
  rw [failing_next] at failed
  exact run_cons_some.mpr ⟨_, arrived, run_cons_some.mpr ⟨_, routed, run_cons_some.mpr ⟨_, chosen,
    run_cons_some.mpr ⟨_, opened, run_single.mpr failed⟩⟩⟩⟩

theorem failing_run (n : Nat) :
    ∃ actions, run step actions (failing 0 (single 0 0) []) = some (failing n (single 0 (.ofNat n)) []) := by
  induction n with
  | zero => exact ⟨[], rfl⟩
  | succ n ih =>
    obtain ⟨actions, done⟩ := ih
    rw [UInt64.ofNat_add]
    exact ⟨_, run_trans done (failing_step n _)⟩

theorem failing_ledger (n : Nat) (e : UInt64) :
    failuresOn ['u'] (failing n (single 0 e) []) = n ∧
      sampledOn ['u'] (failing n (single 0 e) []) = 0 ∧
      countedOn ['u'] (failing n (single 0 e) []) = e.toNat := by
  have only : objects ['u'] (single 0 e) = [0] := rfl
  refine ⟨?_, rfl, ?_⟩
  · simp [failuresOn, failing, only, failures, List.countP_replicate, failedRequest, request]
  · simp only [countedOn, failing, only, total_singleton]
    rfl

/-- After 2^64 failed requests between two rounds the counter is zero again. -/
theorem error_counts_wrapped : ∃ routes reg actions s, BackendRegistry.new 0 routes = .ok reg ∧
    run step actions (.start reg routes) = some s ∧ s.sampler = .asleep ∧
    failuresOn ['u'] s = UInt64.size ∧ sampledOn ['u'] s + countedOn ['u'] s = 0 := by
  obtain ⟨actions, done⟩ := failing_run UInt64.size
  obtain ⟨fell, sampled, counted⟩ := failing_ledger UInt64.size (.ofNat UInt64.size)
  rw [UInt64.toNat_ofNat', Nat.mod_self] at counted
  refine ⟨singleRoute, single 0 0, actions, _, rfl, done, rfl, fell, ?_⟩
  rw [sampled, counted]

/-- One failure is sampled, the other one comes after the reload that removed the backend. -/
theorem error_counts_conserved_removed : ∃ reg s, BackendRegistry.new 0 singleRoute = .ok reg ∧
    Reachable step (.start reg singleRoute) s ∧ s.traffic.reg.config = [] ∧
    failuresOn ['u'] s = 2 ∧ sampledOn ['u'] s = 1 ∧ countedOn ['u'] s = 1 ∧
    failuresOn ['u'] s = sampledOn ['u'] s + countedOn ['u'] s ∧ s.stats.series ['u'] = [⟨7, 0, 1⟩] := by
  let trace : List Action :=
    [.traffic (.arrive ['/'] ['a'] false), .traffic (.advance 0 .findGroup),
      .traffic (.advance 0 .selectBackend), .traffic (.advance 0 .openGuard),
      .traffic (.advance 0 .reject), .traffic (.arrive ['/'] ['a'] false),
      .traffic (.advance 1 .findGroup), .traffic (.advance 1 .selectBackend), .wake, .enter,
      .traffic (.reloadStart 1 []), .traffic .reloadSwap, .load, .swap, .record 7,
      .traffic (.advance 1 .openGuard), .traffic (.advance 1 .reject), .rest]
  have built : BackendRegistry.new 0 singleRoute = .ok (single 0 0) := rfl
  have done : run step trace (.start (single 0 0) singleRoute) = some _ := rfl
  have few := unwrapped_of_few built done (by decide)
  have between := (error_counts_conserved built done).2.1 fun _ _ _ _ same => by cases same
  exact ⟨_, _, built, ⟨trace, done⟩, rfl, rfl, rfl, rfl, between.2 few ['u'], rfl⟩

end Wrapping

end TinyLb.ErrorLedger
