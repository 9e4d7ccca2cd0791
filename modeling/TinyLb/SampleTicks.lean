import TinyLb.Meters
import TinyLb.Sampling

/-! The rounds of the sampler while nobody reloads. A round reads every occurrence of a backend once,
and the store knows URLs only, so its samples are complete when no URL occurs twice. -/

namespace TinyLb.SampleTicks
open Config Backends Merge ConnectionLedger Rounds StatsStore Sampling Tally Machine Meters

variable {s t : State}

def occurrences (reg : BackendRegistry) : List BackendId :=
  reg.groups.flatMap fun g => (reg.group g).backends

def urls (routes : List RouteConfig) : List Str :=
  routes.flatMap fun route => route.backends.map BackendConfig.url

theorem urls_config (reg : BackendRegistry) :
    urls reg.config = (occurrences reg).map fun b => (reg.backend b).url := by
  simp only [urls, BackendRegistry.config, BackendRegistry.route, occurrences, List.flatMap_map,
    List.map_flatMap, List.map_map]
  rfl

def Steady : Action → Prop
  | .traffic action => ¬ IsReload action
  | _ => True

theorem steady_groups {s t : Traffic.System} {action : Traffic.Action} (steady : ¬ IsReload action)
    (taken : Traffic.step action s = some t) :
    t.reg.groupAt = s.reg.groupAt ∧ t.reg.groups = s.reg.groups := by
  cases action with
  | arrive path host upgrade => cases taken; exact ⟨rfl, rfl⟩
  | advance r move =>
    obtain ⟨q, q', reg, -, moved, rfl⟩ := advance_cases taken
    obtain ⟨groupAt, groups, -⟩ := (Traffic.Request.step_change moved).table
    exact ⟨groupAt, groups⟩
  | probe b now healthy => cases taken; exact ⟨rfl, rfl⟩
  | sample b => cases taken; exact ⟨rfl, rfl⟩
  | reloadStart now routes => exact absurd trivial steady
  | reloadRoute => exact absurd trivial steady
  | reloadSwap => exact absurd trivial steady

/-- The occurrences that a round has not read yet. -/
def unread (reg : BackendRegistry) : Sampler → List BackendId
  | .asleep => []
  | .walking walk | .swapped walk _ _ _ => walk.rest reg
  | .loaded walk b _ => b :: walk.rest reg

theorem table_of_groups {reg next : BackendRegistry} (groupAt : next.groupAt = reg.groupAt)
    (groups : next.groups = reg.groups) :
    occurrences next = occurrences reg ∧ unread next = unread reg := by
  have group : next.group = reg.group := funext fun g => by
    rw [BackendRegistry.group, BackendRegistry.group, groupAt]
  have rest : Walk.rest next = Walk.rest reg := funext fun walk => by rw [Walk.rest, Walk.rest, group]
  refine ⟨by rw [occurrences, occurrences, groups, group], funext fun sampler => ?_⟩
  cases sampler <;> simp only [unread, rest]

structure Walked (table : List BackendId) (s : State) : Prop where
  stays : occurrences s.traffic.reg = table
  idle : s.sampler = .asleep → s.current.readings = []
  busy : s.sampler ≠ .asleep →
    s.current.readings.map Reading.backend ++ unread s.traffic.reg s.sampler = table
  past : ∀ tick ∈ s.past, tick.readings.map Reading.backend = table

theorem step_walked {table : List BackendId} {action : Action} (steady : Steady action)
    (taken : step action s = some t) (walked : Walked table s) : Walked table t := by
  cases step_change taken with
  | traffic action next outside moved result =>
    obtain ⟨groupAt, groups⟩ := steady_groups steady moved
    obtain ⟨same, left⟩ := table_of_groups groupAt groups
    subst result
    exact ⟨same.trans walked.stays, walked.idle, by simpa only [left] using walked.busy, walked.past⟩
  | wake here unlocked result =>
    subst result
    refine ⟨walked.stays, fun none => (by cases none), fun _ => ?_, walked.past⟩
    rw [walked.idle here]
    exact walked.stays
  | enter walk after here entered result =>
    have busy := walked.busy (by rw [here]; simp)
    subst result
    refine ⟨walked.stays, fun none => (by cases none), fun _ => ?_, walked.past⟩
    rw [here] at busy
    simpa only [unread, Walk.rest_enter entered] using busy
  | load walk after b here stepped result =>
    have busy := walked.busy (by rw [here]; simp)
    subst result
    refine ⟨walked.stays, fun none => (by cases none), fun _ => ?_, walked.past⟩
    rw [here] at busy
    simpa only [unread, Walk.rest_next stepped] using busy
  | swap walk b c here result =>
    have busy := walked.busy (by rw [here]; simp)
    obtain ⟨same, left⟩ := @table_of_groups s.traffic.reg
      (s.traffic.reg.write b Backend.takeErrors) rfl rfl
    subst result
    refine ⟨same.trans walked.stays, fun none => (by cases none), fun _ => ?_, walked.past⟩
    rw [here] at busy
    dsimp only
    rw [left, List.map_append, List.append_assoc]
    exact busy
  | record time walk b c e here result =>
    have busy := walked.busy (by rw [here]; simp)
    subst result
    refine ⟨walked.stays, fun none => (by cases none), fun _ => ?_, walked.past⟩
    rw [here] at busy
    exact busy
  | rest walk here finished result =>
    have busy := walked.busy (by rw [here]; simp)
    subst result
    refine ⟨walked.stays, fun _ => rfl, fun awake => absurd rfl awake, fun tick member => ?_⟩
    rcases List.mem_append.mp member with old | new
    · exact walked.past tick old
    · rw [here, unread, Walk.rest_over finished, List.append_nil] at busy
      rw [List.mem_singleton.mp new]
      exact busy

def failuresOf (b : BackendId) (tick : Tick) : Nat :=
  total (fun r => if r.backend = b then r.failures else 0) tick.readings

def lastTick (past : List Tick) : Tick := past.getLastD .empty

/-- The failures on a backend when it was last read. -/
def seen (s : State) (b : BackendId) : Nat :=
  if b ∈ s.current.readings.map Reading.backend then failuresOf b s.current
  else failuresOf b (lastTick s.past)

/-- The errors in every reading are those since the round before. -/
structure Explained (s : State) : Prop where
  current : ∀ r ∈ s.current.readings,
    Due (failuresOf r.backend (lastTick s.past)) r.failures r.errors
  past : ∀ before tick after, s.past = before ++ tick :: after → ∀ r ∈ tick.readings,
    Due (failuresOf r.backend (lastTick before)) r.failures r.errors
  due : ∀ b, Due (seen s b) (failures s.traffic b) (errors s.traffic.reg b)

theorem failuresOf_unread {b : BackendId} {tick : Tick} (unread : b ∉ tick.readings.map Reading.backend) :
    failuresOf b tick = 0 :=
  total_eq_zero fun r member => if_neg fun same => unread (List.mem_map.mpr ⟨r, member, same⟩)

theorem lastTick_append (past : List Tick) (tick : Tick) : lastTick (past ++ [tick]) = tick := by
  rw [lastTick, List.getLastD_eq_getLast?, List.getLast?_concat]
  rfl

theorem lastTick_listed {table : List BackendId} {past : List Tick}
    (whole : ∀ tick ∈ past, tick.readings.map Reading.backend = table) {r : Reading}
    (member : r ∈ (lastTick past).readings) : r.backend ∈ table := by
  rcases List.eq_nil_or_concat past with rfl | ⟨before, tick, rfl⟩
  · cases member
  · rw [List.concat_eq_append, lastTick_append] at member
    rw [← whole tick (by simp)]
    exact List.mem_map_of_mem member

theorem seen_congr {next : State} (past : next.past = s.past)
    (current : next.current.readings = s.current.readings) (b : BackendId) : seen next b = seen s b := by
  simp only [seen, failuresOf, past, current]

theorem Explained.keep (explained : Explained s) {next : State} (past : next.past = s.past)
    (current : next.current.readings = s.current.readings)
    (due : ∀ b, Due (seen s b) (failures next.traffic b) (errors next.traffic.reg b)) :
    Explained next := by
  refine ⟨by rw [past, current]; exact explained.current, by rw [past]; exact explained.past,
    fun b => ?_⟩
  rw [seen_congr past current]
  exact due b

theorem seen_swap_self {next : State} {r : Reading}
    (current : next.current.readings = s.current.readings ++ [r])
    (fresh : r.backend ∉ s.current.readings.map Reading.backend) :
    seen next r.backend = r.failures := by
  have read : r.backend ∈ next.current.readings.map Reading.backend := by
    rw [current]
    exact List.mem_map.mpr ⟨r, by simp, rfl⟩
  rw [seen, if_pos read, failuresOf, current, total_append, total_singleton, if_pos rfl]
  exact (congrArg (· + r.failures) (failuresOf_unread fresh)).trans (Nat.zero_add _)

theorem seen_swap_of_ne {next : State} {r : Reading} {b : BackendId} (past : next.past = s.past)
    (current : next.current.readings = s.current.readings ++ [r]) (other : r.backend ≠ b) :
    seen next b = seen s b := by
  have same : b ∈ (s.current.readings ++ [r]).map Reading.backend ↔
      b ∈ s.current.readings.map Reading.backend := by
    rw [List.map_append, List.mem_append, List.map_singleton, List.mem_singleton]
    exact or_iff_left (Ne.symm other)
  simp only [seen, failuresOf, past, current, same, total_append, total_singleton,
    if_neg other, Nat.add_zero]

/-- At the end of a round the round is the last one. -/
theorem seen_rest {table : List BackendId} (walked : Walked table s)
    (whole : s.current.readings.map Reading.backend = table) (b : BackendId) :
    failuresOf b s.current = seen s b := by
  by_cases read : b ∈ s.current.readings.map Reading.backend
  · rw [seen, if_pos read]
  · rw [seen, if_neg read, failuresOf_unread read]
    refine (failuresOf_unread fun old => read ?_).symm
    obtain ⟨r, member, rfl⟩ := List.mem_map.mp old
    exact whole ▸ lastTick_listed walked.past member

theorem step_explained {table : List BackendId} {action : Action} (distinct : table.Nodup)
    (taken : step action s = some t) (recorded : Recorded s) (walked : Walked table s)
    (explained : Explained s) : Explained t := by
  cases step_change taken with
  | traffic action next outside moved result =>
    rw [result]
    refine explained.keep rfl rfl fun b => ?_
    rcases traffic_counts recorded.placed.wellFormed outside moved b with ⟨calm, same⟩ | ⟨fell, more⟩
    · rw [calm, same]
      exact explained.due b
    · rw [fell, more]
      exact (explained.due b).count
  | wake here unlocked result => rw [result]; exact explained.keep rfl rfl explained.due
  | enter walk after here entered result => rw [result]; exact explained.keep rfl rfl explained.due
  | load walk after b here stepped result => rw [result]; exact explained.keep rfl rfl explained.due
  | record time walk b c e here result => rw [result]; exact explained.keep rfl rfl explained.due
  | swap walk b c here result =>
    have known := recorded.placed.inHand b (by rw [here]; rfl)
    have busy := walked.busy (by rw [here]; simp)
    have fresh : b ∉ s.current.readings.map Reading.backend := by
      intro member
      rw [← busy, here] at distinct
      exact (List.nodup_append.mp distinct).2.2 b member b (List.mem_cons_self ..) rfl
    have due := explained.due b
    rw [seen, if_neg fresh] at due
    have past : t.past = s.past := by rw [result]
    have current : t.current.readings =
        s.current.readings ++ [⟨b, c, errors s.traffic.reg b, failures s.traffic b⟩] := by rw [result]
    have written : t.traffic.reg = s.traffic.reg.write b Backend.takeErrors := by rw [result]
    have calm : failures t.traffic = failures s.traffic := by rw [result]; rfl
    refine ⟨fun r member => ?_, past ▸ explained.past, fun x => ?_⟩
    · rw [current] at member
      rw [past]
      rcases List.mem_append.mp member with old | new
      · exact explained.current r old
      · rw [List.mem_singleton.mp new]
        exact due
    · rw [calm, written]
      by_cases same : b = x
      · subst same
        rw [errors, s.traffic.reg.backend_write_self _ known, seen_swap_self current fresh]
        exact Due.taken _
      · rw [errors, s.traffic.reg.backend_write_of_ne _ same, seen_swap_of_ne past current same]
        exact explained.due x
  | rest walk here finished result =>
    have busy := walked.busy (by rw [here]; simp)
    rw [here, unread, Walk.rest_over finished, List.append_nil] at busy
    have past : t.past = s.past ++ [s.current] := by rw [result]
    have current : t.current.readings = [] := by rw [result]; rfl
    have traffic : t.traffic = s.traffic := by rw [result]
    refine ⟨by rw [current]; simp, fun before tick after split => ?_, fun b => ?_⟩
    · rw [past] at split
      rcases List.eq_nil_or_concat after with rfl | ⟨after, last, rfl⟩
      · obtain ⟨rfl, same⟩ := List.append_inj' split rfl
        cases same
        exact explained.current
      · rw [List.concat_eq_append, ← List.cons_append, ← List.append_assoc] at split
        exact explained.past before tick after (List.append_inj' split rfl).1
    · have last : seen t b = failuresOf b s.current := by
        rw [seen, current, past, lastTick_append]
        exact if_neg (by simp)
      rw [last, seen_rest walked busy, traffic]
      exact explained.due b

def readingsOf (reg : BackendRegistry) (url : Str) (tick : Tick) : List Reading :=
  tick.readings.filter fun r => (reg.backend r.backend).url == url

def connectionsRead (reg : BackendRegistry) (url : Str) (tick : Tick) : Nat :=
  total (fun r => r.connections.toNat) (readingsOf reg url tick)

/-- The failures under one URL when the round read them. -/
def failuresRead (reg : BackendRegistry) (url : Str) (tick : Tick) : Nat :=
  total (fun r => r.failures) (readingsOf reg url tick)

/-- The round `tick` added one sample for every configured URL, with the connections of all its
backends and the errors since the round before. -/
def Complete (reg : BackendRegistry) (routes : List RouteConfig) (before : List Tick) (tick : Tick) :
    Prop :=
  ∀ url ∈ urls routes, ∃ x, recordedFor url tick.samples = [x] ∧
    x.c.toNat = connectionsRead reg url tick ∧
    x.e.toNat + failuresRead reg url (lastTick before) = failuresRead reg url tick

theorem recordedFor_contents {tick : Tick} (recorded : Recorded s) (member : tick ∈ s.past) (url : Str) :
    (recordedFor url tick.samples).map (fun x => (x.c, x.e)) =
      (readingsOf s.traffic.reg url tick).map fun r => (r.connections, r.errors) := by
  have same := congrArg (fun l => (l.filter fun x => x.1 == url).map Prod.snd) (recorded.past tick member)
  simp only [List.filter_map, List.map_map] at same
  rw [recordedFor, List.map_map, readingsOf]
  exact same

theorem length_readingsOf {table : List BackendId} {tick : Tick} (reg : BackendRegistry) (url : Str)
    (whole : tick.readings.map Reading.backend = table) :
    (readingsOf reg url tick).length = (table.map fun b => (reg.backend b).url).count url := by
  rw [readingsOf, ← List.countP_eq_length_filter, ← whole, List.map_map, List.count, List.countP_map]
  rfl

theorem length_recordedFor {tick : Tick} (recorded : Recorded s) (member : tick ∈ s.past) (url : Str) :
    (recordedFor url tick.samples).length = (readingsOf s.traffic.reg url tick).length := by
  have same := congrArg List.length (recordedFor_contents recorded member url)
  rwa [List.length_map, List.length_map] at same

theorem reading_of_distinct {table : List BackendId} {before after : List Tick} {tick : Tick} {url : Str}
    (walked : Walked table s) (split : s.past = before ++ tick :: after)
    (distinct : (table.map fun b => (s.traffic.reg.backend b).url).Nodup)
    (configured : url ∈ table.map fun b => (s.traffic.reg.backend b).url) :
    ∃ r ∈ tick.readings, readingsOf s.traffic.reg url tick = [r] ∧
      failuresRead s.traffic.reg url (lastTick before) = failuresOf r.backend (lastTick before) := by
  have whole : tick.readings.map Reading.backend = table := walked.past tick (by rw [split]; simp)
  have one := length_readingsOf s.traffic.reg url whole
  rw [List.nodup_iff_count_eq_one.mp distinct url configured] at one
  obtain ⟨r, only⟩ := List.length_eq_one_iff.mp one
  have there : r ∈ readingsOf s.traffic.reg url tick := only ▸ List.mem_singleton_self r
  obtain ⟨member, named⟩ := List.mem_filter.mp there
  refine ⟨r, member, only, ?_⟩
  rw [failuresRead, readingsOf, total_filter, failuresOf]
  refine total_congr fun x there => ?_
  have old : x.backend ∈ table :=
    lastTick_listed (fun tick earlier => walked.past tick (by rw [split]; simp [earlier])) there
  have read : r.backend ∈ table := whole ▸ List.mem_map_of_mem member
  have same : (s.traffic.reg.backend x.backend).url = url ↔ x.backend = r.backend := by
    rw [← beq_iff_eq.mp named]
    refine ⟨fun equal => ?_, fun equal => by rw [equal]⟩
    exact List.inj_on_of_nodup_map distinct old read equal
  simp only [beq_iff_eq, same]

/-- Where no URL occurs twice, only a counter that has turned over makes a sample wrong. -/
theorem complete_of_distinct {table : List BackendId} {before after : List Tick} {tick : Tick} {url : Str}
    (recorded : Recorded s) (walked : Walked table s) (explained : Explained s)
    (split : s.past = before ++ tick :: after)
    (distinct : (table.map fun b => (s.traffic.reg.backend b).url).Nodup)
    (configured : url ∈ table.map fun b => (s.traffic.reg.backend b).url) :
    (∃ x, recordedFor url tick.samples = [x] ∧ x.c.toNat = connectionsRead s.traffic.reg url tick ∧
      x.e.toNat + failuresRead s.traffic.reg url (lastTick before) =
        failuresRead s.traffic.reg url tick) ↔
    failuresRead s.traffic.reg url tick <
      failuresRead s.traffic.reg url (lastTick before) + UInt64.size := by
  obtain ⟨r, member, only, last⟩ := reading_of_distinct walked split distinct configured
  have finished : tick ∈ s.past := by rw [split]; simp
  have contents := recordedFor_contents recorded finished url
  rw [only, List.map_singleton] at contents
  obtain ⟨x, single, same⟩ := List.map_eq_singleton_iff.mp contents
  obtain ⟨c, e⟩ := Prod.mk.inj same
  have due := explained.past before tick after split r member
  rw [connectionsRead, last, failuresRead, only, total_singleton, total_singleton, ← due.exact_iff]
  refine ⟨fun ⟨y, here, _, exact⟩ => ?_, fun exact => ⟨x, single, by rw [c], by rw [e, exact]⟩⟩
  rw [single] at here
  cases here
  rw [← e, exact]

theorem recordedFor_flatMap {url : Str} {ticks : List Tick}
    (one : ∀ tick ∈ ticks, ∃ x, recordedFor url tick.samples = [x]) : ∃ samples,
    List.Forall₂ (fun tick x => recordedFor url tick.samples = [x]) ticks samples ∧
      recordedFor url (ticks.flatMap Tick.samples) = samples := by
  induction ticks with
  | nil => exact ⟨[], .nil, rfl⟩
  | cons tick rest ih =>
    obtain ⟨⟨x, here⟩, tail⟩ := List.forall_mem_cons.mp one
    obtain ⟨samples, matched, whole⟩ := ih tail
    refine ⟨x :: samples, .cons here matched, ?_⟩
    rw [recordedFor] at here whole ⊢
    rw [List.flatMap_cons, List.filter_append, List.map_append, here, whole]
    rfl

section Runs
variable {now : Instant} {routes : List RouteConfig} {reg : BackendRegistry} {actions : List Action}

structure Settled (routes : List RouteConfig) (table : List BackendId) (s : State) : Prop where
  recorded : Recorded s
  walked : Walked table s
  named : (table.map fun b => (s.traffic.reg.backend b).url) = urls routes
  explained : table.Nodup → Explained s

theorem settled_start (built : BackendRegistry.new now routes = .ok reg) :
    Settled routes (occurrences reg) (.start reg routes) := by
  refine ⟨recorded_start built, ⟨rfl, fun _ => rfl, fun awake => absurd rfl awake, nofun⟩, ?_, fun _ => ?_⟩
  · rw [← (Reload.new_spec built).2]
    exact (urls_config reg).symm
  · refine ⟨nofun, fun before tick after split => ?_, fun b => ?_⟩
    · exact absurd split (by simp [State.start])
    · have zero : errors reg b = 0 := counter_pushGroups counter_errorCount built b
      exact zero ▸ Due.taken 0

theorem step_settled {table : List BackendId} {action : Action} (steady : Steady action)
    (taken : step action s = some t) (settled : Settled routes table s) : Settled routes table t := by
  obtain ⟨recorded, walked, named, explained⟩ := settled
  refine ⟨step_recorded taken recorded, step_walked steady taken walked, ?_,
    fun distinct => step_explained distinct taken recorded walked (explained distinct)⟩
  rw [← named]
  refine List.map_congr_left fun b member => step_objectUrl taken recorded ?_
  rw [← walked.stays] at member
  obtain ⟨g, -, inside⟩ := List.mem_flatMap.mp member
  exact recorded.placed.wellFormed.valid.owned g b inside

theorem run_settled (built : BackendRegistry.new now routes = .ok reg)
    (steady : ∀ action ∈ actions, Steady action)
    (done : run step actions (.start reg routes) = some s) : Settled routes (occurrences reg) s := by
  have keep : ∀ action (s t : State), Settled routes (occurrences reg) s → Steady action →
      step action s = some t → Settled routes (occurrences reg) t :=
    fun _ _ _ settled steady taken => step_settled steady taken settled
  exact run_invariant_of_forall keep (settled_start built) steady done

/-- In a run without reloads a round is complete exactly if no URL occurs twice in the configuration
and no counter has turned over since the round before. Then a series covers as many rounds as it has
samples. -/
theorem ticks_complete_iff (built : BackendRegistry.new now routes = .ok reg)
    (steady : ∀ action ∈ actions, Steady action)
    (done : run step actions (.start reg routes) = some s) :
    (∀ before tick after, s.past = before ++ tick :: after →
      (Complete s.traffic.reg routes before tick ↔ (urls routes).Nodup ∧
        ∀ url ∈ urls routes, failuresRead s.traffic.reg url tick <
          failuresRead s.traffic.reg url (lastTick before) + UInt64.size)) ∧
    ((urls routes).Nodup → s.sampler = .asleep → ∀ url ∈ urls routes, ∃ samples,
      List.Forall₂ (fun tick x => recordedFor url tick.samples = [x]) s.past samples ∧
        s.stats.series url = latest samples) := by
  obtain ⟨recorded, walked, named, explained⟩ := run_settled built steady done
  have one : ∀ tick ∈ s.past, ∀ url, (recordedFor url tick.samples).length = (urls routes).count url := by
    intro tick member url
    rw [length_recordedFor recorded member, length_readingsOf _ _ (walked.past tick member), named]
  refine ⟨fun before tick after split => ?_, fun distinct asleep url configured => ?_⟩
  · have member : tick ∈ s.past := by rw [split]; simp
    have exact_iff : (urls routes).Nodup → ∀ url ∈ urls routes, _ := fun distinct url configured =>
      @complete_of_distinct s _ before after tick url recorded walked
        (explained (List.Nodup.of_map _ (named ▸ distinct))) split (named ▸ distinct)
        (named ▸ configured)
    constructor
    · intro complete
      have distinct : (urls routes).Nodup := by
        refine List.nodup_iff_count_eq_one.mpr fun url configured => ?_
        obtain ⟨x, single, -⟩ := complete url configured
        rw [← one tick member url, single]
        rfl
      exact ⟨distinct, fun url configured => (exact_iff distinct url configured).mp (complete url configured)⟩
    · rintro ⟨distinct, few⟩ url configured
      exact (exact_iff distinct url configured).mpr (few url configured)
  · have single : ∀ tick ∈ s.past, ∃ x, recordedFor url tick.samples = [x] := by
      intro tick member
      refine List.length_eq_one_iff.mp ?_
      rw [one tick member url, List.nodup_iff_count_eq_one.mp distinct url configured]
    obtain ⟨samples, matched, whole⟩ := recordedFor_flatMap single
    refine ⟨samples, matched, ?_⟩
    have none : s.current.samples = [] := by
      have current := recorded.current
      rw [walked.idle asleep, asleep] at current
      simpa [Sampler.unrecorded] using current
    rw [run_published done url, State.recorded, none, List.append_nil, whole]

end Runs

/-- Two backends, and one failed request before the first round. -/
theorem ticks_complete_iff_failed : ∃ reg s tick,
    BackendRegistry.new 0 [⟨['a'], [⟨['u'], 5, false⟩, ⟨['v'], 5, false⟩]⟩] = .ok reg ∧
      Reachable step (.start reg [⟨['a'], [⟨['u'], 5, false⟩, ⟨['v'], 5, false⟩]⟩]) s ∧
      s.past = [tick] ∧ recordedFor ['u'] tick.samples = [⟨60, 0, 1⟩] ∧
      Complete s.traffic.reg [⟨['a'], [⟨['u'], 5, false⟩, ⟨['v'], 5, false⟩]⟩] [] tick := by
  let reg : BackendRegistry :=
    ⟨⟨[⟨['u'], 5, false, true, 0, 0, 0⟩, ⟨['v'], 5, false, true, 0, 0, 0⟩]⟩,
      ⟨[⟨['a'], .exact ['a'], [0, 1], rfl⟩]⟩, [0]⟩
  let routes : List RouteConfig := [⟨['a'], [⟨['u'], 5, false⟩, ⟨['v'], 5, false⟩]⟩]
  let trace : List Action :=
    [.traffic (.arrive ['/'] ['a'] false), .traffic (.advance 0 .findGroup),
      .traffic (.advance 0 .selectBackend), .traffic (.advance 0 .openGuard),
      .traffic (.advance 0 .reject), .wake, .enter, .load, .swap, .record 60, .load, .swap,
      .record 60, .rest]
  have built : BackendRegistry.new 0 routes = .ok reg := rfl
  have done : run step trace (.start reg routes) = some _ := rfl
  have steady : ∀ action ∈ trace, Steady action := by simp [trace, Steady, IsReload]
  have complete := ((ticks_complete_iff built steady done).1 [] _ [] rfl).mpr ⟨by decide, by decide⟩
  exact ⟨_, _, _, built, ⟨trace, done⟩, rfl, rfl, complete⟩

/-- One URL in two routes: a round adds two samples for it. -/
theorem shared_url_sampled_twice : ∃ reg s tick,
    BackendRegistry.new 0 [⟨['a'], [⟨['u'], 5, false⟩]⟩, ⟨['b'], [⟨['u'], 5, false⟩]⟩] = .ok reg ∧
      Reachable step (.start reg [⟨['a'], [⟨['u'], 5, false⟩]⟩, ⟨['b'], [⟨['u'], 5, false⟩]⟩]) s ∧
      s.past = [tick] ∧ recordedFor ['u'] tick.samples = [⟨60, 0, 0⟩, ⟨60, 0, 0⟩] ∧
      ¬ Complete s.traffic.reg [⟨['a'], [⟨['u'], 5, false⟩]⟩, ⟨['b'], [⟨['u'], 5, false⟩]⟩] [] tick := by
  let trace : List Action :=
    [.wake, .enter, .load, .swap, .record 60, .enter, .load, .swap, .record 60, .rest]
  refine ⟨_, _, _, rfl, ⟨trace, rfl⟩, rfl, rfl, fun complete => ?_⟩
  obtain ⟨x, single, -⟩ := complete ['u'] (by decide)
  cases single

end TinyLb.SampleTicks
