import TinyLb.Cooldown

/-! How long a flag can be wrong. The times are those of a loop that is scheduled promptly: it sleeps no
longer than `pause`, and the visit of a backend, with its probe, takes no longer than `patience`. -/

namespace TinyLb.HealthDeadlines
open Config Backends Merge ConnectionLedger Rounds HealthChecks Machine
open Cooldown hiding Timed

/-- The health checks, with the time at which the loop went to sleep or came to the backend. -/
structure Watch where
  state : State
  since : Instant

structure Pace where
  pause : Nat
  patience : Nat

/-- `Duration::from_secs(config.interval_secs)`, in nanoseconds. -/
def interval (config : HealthConfig) : Nat := config.intervalSecs.toNat * 1000000000

/-- How far the clock may go before the loop has to move. -/
def limit (pace : Pace) (w : Watch) : Instant :=
  match w.state.loop with
  | .asleep => w.since + pace.pause
  | .walking _ => w.state.clock
  | .visiting _ _ _ _ => w.since + pace.patience

/-- The loop is prompt, and it does not wake before the interval is over. -/
def timely (config : HealthConfig) (pace : Pace) (action : Action) (w : Watch) : Bool :=
  match action with
  | .tick elapsed => w.state.clock + elapsed ≤ limit pace w
  | .wake => w.since + interval config ≤ w.state.clock
  | _ => true

def mark (action : Action) (now since : Instant) : Instant :=
  match action with
  | .reach | .rest => now
  | _ => since

def step (config : HealthConfig) (pace : Pace) (action : Action) (w : Watch) : Option Watch :=
  if timely config pace action w then
    (HealthChecks.step config action w.state).map fun next => ⟨next, mark action next.clock w.since⟩
  else none

def entries (reg : BackendRegistry) : List BackendId := (Walk.begin reg).rest reg

def Quiet : Action → Prop
  | .traffic (.reloadStart _ _) | .traffic .reloadRoute | .traffic .reloadSwap => False
  | _ => True

/-- No reload, and every answer of `b` is as `v` says. -/
def Steady (b : BackendId) (v : Bool) (action : Action) (s : State) : Prop :=
  Quiet action ∧ ∀ walk due started answer, s.loop = .visiting walk b due (.waiting started) →
    action = .receive answer → answer.isSuccess = v

structure Within (n : Nat) (s : State) : Prop where
  table : (entries s.traffic.reg).length ≤ n
  round : ∀ walk, s.loop.walk = some walk →
    (walk.rest s.traffic.reg).length + s.loop.inHand.toList.length ≤ n

def load (s : State) : Nat :=
  match s.loop.walk with
  | none => (entries s.traffic.reg).length
  | some walk => max (entries s.traffic.reg).length
      ((walk.rest s.traffic.reg).length + s.loop.inHand.toList.length)

def fresh (v : Bool) : Stage → Bool
  | .answered _ answer | .stamped _ _ answer => answer.isSuccess == v
  | _ => true

/-- The flag says `v`, and no visit under way will change that. -/
structure Settled (b : BackendId) (v : Bool) (s : State) : Prop where
  flag : (s.traffic.reg.backend b).healthy = v
  visit : ∀ walk due stage, s.loop = .visiting walk b due stage → fresh v stage = true

/-- The time until `b` has been visited, for a walk that is under way or the next one. -/
def walkBudget (pace : Pace) (n : Nat) (b : BackendId) (reg : BackendRegistry) (walk : Walk) : Nat :=
  (walk.rest reg).length * pace.patience +
    if b ∈ walk.rest reg then 0 else pace.pause + n * pace.patience

/-- The time until `b` has been visited. A visit that has another answer already does not count. -/
def budget (pace : Pace) (n : Nat) (b : BackendId) (v : Bool) (w : Watch) : Nat :=
  match w.state.loop with
  | .asleep => w.since + pace.pause - w.state.clock + n * pace.patience
  | .walking walk => walkBudget pace n b w.state.traffic.reg walk
  | .visiting walk e _ stage =>
      w.since + pace.patience - w.state.clock +
        if e = b ∧ fresh v stage = true then 0 else walkBudget pace n b w.state.traffic.reg walk

/-- While `b` is unhealthy its cooldown is over by `time`, also after a visit that fails. -/
structure Cooled (config : HealthConfig) (pace : Pace) (b : BackendId) (time : Instant) (w : Watch) :
    Prop where
  down : (∀ walk due started ended answer,
      w.state.loop ≠ .visiting walk b due (.stamped started ended answer)) →
    (w.state.traffic.reg.backend b).healthy = false → lastCheck w.state b + cooldown config ≤ time
  answered : ∀ walk due started answer, w.state.loop = .visiting walk b due (.answered started answer) →
    answer.isSuccess = false → w.since + pace.patience + cooldown config ≤ time
  stamped : ∀ walk due started ended answer,
    w.state.loop = .visiting walk b due (.stamped started ended answer) →
    answer.isSuccess = false → lastCheck w.state b + cooldown config ≤ time

section Steps
variable {config : HealthConfig} {pace : Pace} {action : Action} {w w' : Watch}

theorem step_cases (taken : step config pace action w = some w') :
    timely config pace action w = true ∧ HealthChecks.step config action w.state = some w'.state ∧
      w'.since = mark action w'.state.clock w.since := by
  rw [step] at taken
  split at taken
  next prompt =>
    obtain ⟨next, moved, rfl⟩ := Option.map_eq_some_iff.mp taken
    exact ⟨prompt, moved, rfl⟩
  next => cases taken

theorem traffic_groups {s t : Traffic.System} {action : Traffic.Action} (quiet : Quiet (.traffic action))
    (taken : Traffic.step action s = some t) :
    t.reg.groupAt = s.reg.groupAt ∧ t.reg.groups = s.reg.groups := by
  cases action with
  | arrive path host upgrade => cases taken; exact ⟨rfl, rfl⟩
  | advance r move =>
    obtain ⟨q, q', reg, -, moved, rfl⟩ := advance_cases taken
    obtain ⟨groupAt, groups, -⟩ := (Traffic.Request.step_change moved).table
    exact ⟨groupAt, groups⟩
  | probe b now healthy => cases taken; exact ⟨rfl, rfl⟩
  | sample b => cases taken; exact ⟨rfl, rfl⟩
  | reloadStart now routes => exact absurd quiet id
  | reloadRoute => exact absurd quiet id
  | reloadSwap => exact absurd quiet id

theorem rest_congr {reg next : BackendRegistry} (groupAt : next.groupAt = reg.groupAt) (walk : Walk) :
    walk.rest next = walk.rest reg := by
  simp only [Walk.rest, BackendRegistry.group, groupAt]

theorem entries_congr {reg next : BackendRegistry} (groupAt : next.groupAt = reg.groupAt)
    (groups : next.groups = reg.groups) : entries next = entries reg := by
  simp only [entries, Walk.begin, Walk.rest, BackendRegistry.group, groupAt, groups]

/-- What holds at all times: the loop is on time, it checks cooldowns of unhealthy backends only, and
the last check of an unhealthy backend is over. -/
structure Ready (pace : Pace) (w : Watch) : Prop where
  located : Located w.state
  since : w.since ≤ w.state.clock
  onTime : w.state.clock ≤ limit pace w
  checks : ∀ walk b due, w.state.loop = .visiting walk b due .checking →
    (w.state.traffic.reg.backend b).healthy = false
  past : ∀ b, flag w.state.traffic.reg b = false → lastCheck w.state b ≤ w.state.clock
  stamped : ∀ walk b due started ended answer,
    w.state.loop = .visiting walk b due (.stamped started ended answer) →
      lastCheck w.state b ≤ w.state.clock

theorem known_of_flag {reg : BackendRegistry} {b : BackendId} (down : flag reg b = false) :
    b < reg.backendAt.size := by
  by_contra unknown
  rw [flag, if_neg unknown] at down
  cases down

theorem lastCheck_write {s : State} {e b : BackendId} {f : Backend → Backend}
    (kept : ∀ x, (f x).lastHealthCheck = x.lastHealthCheck) :
    ((s.traffic.reg.write e f).backend b).lastHealthCheck = lastCheck s b :=
  Arena.get_modify_field Backend.lastHealthCheck s.traffic.reg.backendAt kept e b

theorem healthy_write {s : State} {e b : BackendId} {f : Backend → Backend}
    (kept : ∀ x, (f x).healthy = x.healthy) :
    ((s.traffic.reg.write e f).backend b).healthy = (s.traffic.reg.backend b).healthy :=
  Arena.get_modify_field Backend.healthy s.traffic.reg.backendAt kept e b

theorem lastCheck_stamp {s : State} {e : BackendId} (known : e < s.traffic.reg.backendAt.size)
    (b : BackendId) :
    ((s.traffic.reg.write e (HealthChecks.stamp s.clock)).backend b).lastHealthCheck =
      if e = b then s.clock else lastCheck s b := by
  split
  next same =>
    subst same
    exact congrArg Backend.lastHealthCheck (s.traffic.reg.backend_write_self _ known)
  next other =>
    rw [s.traffic.reg.backend_write_of_ne _ other]
    rfl

theorem healthy_settle {s : State} {e : BackendId} (known : e < s.traffic.reg.backendAt.size)
    (answer : Answer) (b : BackendId) :
    ((s.traffic.reg.write e (HealthChecks.settle answer.isSuccess)).backend b).healthy =
      if e = b then answer.isSuccess else (s.traffic.reg.backend b).healthy := by
  split
  next same =>
    subst same
    exact congrArg Backend.healthy (s.traffic.reg.backend_write_self _ known)
  next other => rw [s.traffic.reg.backend_write_of_ne _ other]

theorem Ready.move (ready : Ready pace w) (located : Located w'.state)
    (traffic : w'.state.traffic = w.state.traffic) (clock : w'.state.clock = w.state.clock)
    (since : w'.since ≤ w'.state.clock) (onTime : w'.state.clock ≤ limit pace w')
    (checks : ∀ walk b due, w'.state.loop = .visiting walk b due .checking →
      (w.state.traffic.reg.backend b).healthy = false)
    (unstamped : ∀ walk b due started ended answer,
      w'.state.loop ≠ .visiting walk b due (.stamped started ended answer)) : Ready pace w' where
  located := located
  since := since
  onTime := onTime
  checks walk b due here := by
    rw [traffic]
    exact checks walk b due here
  past b down := by
    rw [lastCheck, traffic, clock]
    rw [traffic] at down
    exact ready.past b down
  stamped walk b due started ended answer here := absurd here (unstamped walk b due started ended answer)

theorem step_ready (taken : step config pace action w = some w') (ready : Ready pace w) :
    Ready pace w' := by
  obtain ⟨prompt, moved, marked⟩ := step_cases taken
  have located := step_located moved ready.located
  obtain ⟨s, since⟩ := w
  obtain ⟨t, since'⟩ := w'
  dsimp only at moved marked located
  have inHand : ∀ {walk b due stage}, s.loop = .visiting walk b due stage →
      b < s.traffic.reg.backendAt.size := fun here => ready.located.placed.inHand _ (by rw [here]; rfl)
  have before : since ≤ s.clock := ready.since
  have onTime := ready.onTime
  cases step_change moved with
  | traffic action next outside went result =>
    have health : ∀ b < s.traffic.reg.backendAt.size, _ := fun b known =>
      @traffic_health _ _ _ ready.located.placed.wellFormed outside went b known
    subst result marked
    refine ⟨located, before, onTime, fun walk b due here => ?_, fun b down => ?_,
      fun walk b due started ended answer here => ?_⟩
    · exact (health b (inHand here)).1.trans (ready.checks walk b due here)
    · have old : flag s.traffic.reg b = false := (traffic_flag outside went b).symm.trans down
      rw [lastCheck, (health b (known_of_flag old)).2]
      exact ready.past b old
    · rw [lastCheck, (health b (inHand here)).2]
      exact ready.stamped walk b due started ended answer here
  | tick elapsed result =>
    subst result marked
    have later : s.clock ≤ s.clock + elapsed := Nat.le_add_right ..
    refine ⟨located, Nat.le_trans before later, ?_, ready.checks,
      fun b down => Nat.le_trans (ready.past b down) later,
      fun walk b due started ended answer here => Nat.le_trans (ready.stamped _ _ _ _ _ _ here) later⟩
    rw [timely, decide_eq_true_eq] at prompt
    cases loop : s.loop with
    | asleep =>
      simp only [limit, loop] at prompt ⊢
      exact prompt
    | walking walk =>
      simp only [limit]
      exact Nat.le_refl _
    | visiting walk b due stage =>
      simp only [limit, loop] at prompt ⊢
      exact prompt
  | wake here unlocked result =>
    subst result marked
    exact ready.move located rfl rfl before (Nat.le_refl _) (by simp) (by simp)
  | enter walk after here entered result =>
    subst result marked
    exact ready.move located rfl rfl before (Nat.le_refl _) (by simp) (by simp)
  | reach walk after b due stage here stepped found result =>
    subst result marked
    refine ready.move located rfl rfl (Nat.le_refl _) (Nat.le_add_right ..) ?_ ?_
    · intro walk' b' due' there
      cases there
      rcases found with ⟨-, -, wrong⟩ | ⟨down, -, -⟩
      · cases wrong
      · exact down
    · intro walk' b' due' started ended answer there
      cases there
      rcases found with ⟨-, -, wrong⟩ | ⟨-, wrong, -⟩ <;> cases wrong
  | skip walk b due here early result =>
    subst result marked
    exact ready.move located rfl rfl before (Nat.le_refl _) (by simp) (by simp)
  | retry walk b due here elapsed result =>
    subst result marked
    simp only [limit, here] at onTime
    exact ready.move located rfl rfl before onTime (by simp) (by simp)
  | send walk b due here result =>
    subst result marked
    simp only [limit, here] at onTime
    exact ready.move located rfl rfl before onTime (by simp) (by simp)
  | receive walk b due started answer here result =>
    subst result marked
    simp only [limit, here] at onTime
    exact ready.move located rfl rfl before onTime (by simp) (by simp)
  | stamp walk e due started answer here result =>
    subst result marked
    simp only [limit, here] at onTime
    have known := inHand here
    refine ⟨located, before, onTime, (by simp), fun b down => ?_, fun walk' b due' st en an there => ?_⟩
    · rw [lastCheck, lastCheck_stamp known]
      split
      · exact Nat.le_refl _
      · exact ready.past b ((flag_write _ e (HealthChecks.stamp s.clock) (fun _ => rfl) b).symm.trans down)
    · cases there
      rw [lastCheck, lastCheck_stamp known, if_pos rfl]
  | settle walk e due started ended answer here result =>
    subst result marked
    have known := inHand here
    refine ⟨located, before, Nat.le_refl _, (by simp), fun b down => ?_, (by simp)⟩
    have last := @lastCheck_write s e b (HealthChecks.settle answer.isSuccess) fun _ => rfl
    rw [lastCheck, last]
    by_cases same : e = b
    · subst same
      exact ready.stamped walk e due started ended answer here
    · refine ready.past b ?_
      have kept := s.traffic.reg.backend_write_of_ne (HealthChecks.settle answer.isSuccess) same
      exact (flag_congr (BackendRegistry.size_write ..) (by rw [kept])).symm.trans down
  | rest walk here finished result =>
    subst result marked
    exact ready.move located rfl rfl (Nat.le_refl _) (Nat.le_add_right ..) (by simp) (by simp)

theorem Within.move {n : Nat} {s t : State} (within : Within n s)
    (groupAt : t.traffic.reg.groupAt = s.traffic.reg.groupAt)
    (groups : t.traffic.reg.groups = s.traffic.reg.groups) (walk : t.loop.walk = s.loop.walk)
    (inHand : t.loop.inHand.toList.length ≤ s.loop.inHand.toList.length) : Within n t := by
  refine ⟨?_, fun w here => ?_⟩
  · rw [entries_congr groupAt groups]
    exact within.table
  · rw [rest_congr groupAt]
    have left := within.round w (walk ▸ here)
    omega

theorem step_within {n : Nat} {s t : State} (taken : HealthChecks.step config action s = some t)
    (quiet : Quiet action) (within : Within n s) : Within n t := by
  cases step_change taken with
  | traffic action next outside went result =>
    obtain ⟨groupAt, groups⟩ := traffic_groups quiet went
    subst result
    exact within.move groupAt groups rfl (Nat.le_refl _)
  | tick elapsed result => subst result; exact within.move rfl rfl rfl (Nat.le_refl _)
  | wake here unlocked result =>
    subst result
    refine ⟨within.table, fun walk there => ?_⟩
    cases there
    exact within.table
  | enter walk after here entered result =>
    have left := within.round walk (by rw [here]; rfl)
    rw [here, ← Walk.rest_enter entered] at left
    subst result
    refine ⟨within.table, fun walk' there => ?_⟩
    cases there
    exact left
  | reach walk after b due stage here stepped found result =>
    have left := within.round walk (by rw [here]; rfl)
    rw [here, Walk.rest_next stepped] at left
    subst result
    refine ⟨within.table, fun walk' there => ?_⟩
    cases there
    exact left
  | skip walk b due here early result =>
    subst result
    exact within.move rfl rfl (by rw [here]; rfl) (Nat.zero_le _)
  | retry walk b due here elapsed result =>
    subst result
    exact within.move rfl rfl (by rw [here]; rfl) (by rw [here]; exact Nat.le_refl _)
  | send walk b due here result =>
    subst result
    exact within.move rfl rfl (by rw [here]; rfl) (by rw [here]; exact Nat.le_refl _)
  | receive walk b due started answer here result =>
    subst result
    exact within.move rfl rfl (by rw [here]; rfl) (by rw [here]; exact Nat.le_refl _)
  | stamp walk b due started answer here result =>
    subst result
    exact within.move rfl rfl (by rw [here]; rfl) (by rw [here]; exact Nat.le_refl _)
  | settle walk b due started ended answer here result =>
    subst result
    exact within.move rfl rfl (by rw [here]; rfl) (Nat.zero_le _)
  | rest walk here finished result => subst result; exact ⟨within.table, fun _ there => by cases there⟩

end Steps

section Deadline
variable {config : HealthConfig} {pace : Pace} {action : Action} {w w' : Watch} {s t : State}
  {b : BackendId} {v : Bool} {n : Nat} {time : Instant}

theorem known_of_entry {reg : BackendRegistry} (valid : Valid reg) (listed : b ∈ entries reg) :
    b < reg.backendAt.size := by
  obtain ⟨g, -, member⟩ := List.mem_flatMap.mp listed
  exact valid.owned g b member

theorem step_settled (taken : HealthChecks.step config action s = some t) (located : Located s)
    (known : b < s.traffic.reg.backendAt.size) (steady : Steady b v action s)
    (settled : Settled b v s) : Settled b v t := by
  obtain ⟨flag, visit⟩ := settled
  cases step_change taken with
  | traffic action next outside went result =>
    have kept := (traffic_health located.placed.wellFormed outside went known).1
    subst result
    exact ⟨kept.trans flag, visit⟩
  | tick elapsed result => subst result; exact ⟨flag, visit⟩
  | wake here unlocked result => subst result; exact ⟨flag, (by simp)⟩
  | enter walk after here entered result => subst result; exact ⟨flag, (by simp)⟩
  | reach walk after e due stage here stepped found result =>
    subst result
    refine ⟨flag, fun walk' due' stage' there => ?_⟩
    cases there
    rcases found with ⟨-, -, rfl⟩ | ⟨-, rfl, -⟩ <;> rfl
  | skip walk e due here early result => subst result; exact ⟨flag, (by simp)⟩
  | retry walk e due here elapsed result =>
    subst result
    refine ⟨flag, fun walk' due' stage' there => ?_⟩
    cases there
    rfl
  | send walk e due here result =>
    subst result
    refine ⟨flag, fun walk' due' stage' there => ?_⟩
    cases there
    rfl
  | receive walk e due started answer here result =>
    subst result
    refine ⟨flag, fun walk' due' stage' there => ?_⟩
    cases there
    exact beq_iff_eq.mpr (steady.2 walk due started answer here rfl)
  | stamp walk e due started answer here result =>
    subst result
    have kept := @healthy_write s e b (HealthChecks.stamp s.clock) fun _ => rfl
    refine ⟨kept.trans flag, fun walk' due' stage' there => ?_⟩
    cases there
    exact visit walk due (.answered started answer) here
  | settle walk e due started ended answer here result =>
    subst result
    refine ⟨?_, (by simp)⟩
    rw [healthy_settle (located.placed.inHand e (by rw [here]; rfl))]
    split
    next same =>
      subst same
      exact beq_iff_eq.mp (visit walk due (.stamped started ended answer) here)
    next => exact flag
  | rest walk here finished result => subst result; exact ⟨flag, (by simp)⟩

theorem remaining_le {since clock : Nat} (passed : since ≤ clock) (wait : Nat) :
    since + wait - clock ≤ wait := by
  omega

theorem budget_le (ready : Ready pace w) (within : Within n w.state) :
    budget pace n b v w ≤ pace.pause + 2 * (n * pace.patience) := by
  have pause := remaining_le ready.since pace.pause
  have visit := remaining_le ready.since pace.patience
  have walks : ∀ walk : Walk, walkBudget pace n b w.state.traffic.reg walk ≤
      (walk.rest w.state.traffic.reg).length * pace.patience + (pace.pause + n * pace.patience) := by
    intro walk
    rw [walkBudget]
    split <;> omega
  unfold budget
  split
  next here => omega
  next walk here =>
    have left := within.round walk (by rw [here]; rfl)
    have few := Nat.mul_le_mul_right pace.patience (Nat.le_of_add_right_le left)
    have bound := walks walk
    omega
  next walk e due stage here =>
    have left := within.round walk (by rw [here]; rfl)
    rw [here] at left
    have few := Nat.mul_le_mul_right pace.patience left
    rw [show (Loop.visiting walk e due stage).inHand.toList.length = 1 from rfl, Nat.succ_mul] at few
    have bound := walks walk
    split <;> omega

theorem Cooled.move (cooled : Cooled config pace b time w) (traffic : w'.state.traffic = w.state.traffic)
    (before : ∀ walk due started ended answer,
      w.state.loop ≠ .visiting walk b due (.stamped started ended answer))
    (after : ∀ walk due started ended answer,
      w'.state.loop ≠ .visiting walk b due (.stamped started ended answer))
    (answered : ∀ walk due started answer,
      w'.state.loop = .visiting walk b due (.answered started answer) → answer.isSuccess = true) :
    Cooled config pace b time w' where
  down _ unhealthy := by
    rw [lastCheck, traffic]
    rw [traffic] at unhealthy
    exact cooled.down before unhealthy
  answered walk due started answer here failed := by
    rw [answered walk due started answer here] at failed
    cases failed
  stamped walk due started ended answer here := absurd here (after walk due started ended answer)

theorem step_cooled (taken : step config pace action w = some w') (ready : Ready pace w)
    (steady : Steady b true action w.state) (known : b < w.state.traffic.reg.backendAt.size)
    (cooled : Cooled config pace b time w) : Cooled config pace b time w' := by
  obtain ⟨-, moved, marked⟩ := step_cases taken
  obtain ⟨s, since⟩ := w
  obtain ⟨t, since'⟩ := w'
  dsimp only at moved marked steady known
  have onTime := ready.onTime
  have unstamped : ∀ {loop : Loop}, s.loop = loop → loop.inHand = none →
      ∀ walk due started ended answer, s.loop ≠ .visiting walk b due (.stamped started ended answer) := by
    intro loop here empty walk due started ended answer there
    rw [here.symm.trans there] at empty
    cases empty
  cases step_change moved with
  | traffic action next outside went result =>
    obtain ⟨flag, last⟩ := traffic_health ready.located.placed.wellFormed outside went known
    subst result marked
    refine ⟨fun idle unhealthy => ?_, cooled.answered, fun walk due started ended answer here failed => ?_⟩
    · rw [lastCheck, last]
      exact cooled.down idle (flag.symm.trans unhealthy)
    · rw [lastCheck, last]
      exact cooled.stamped walk due started ended answer here failed
  | tick elapsed result => subst result marked; exact ⟨cooled.down, cooled.answered, cooled.stamped⟩
  | wake here unlocked result =>
    subst result marked
    exact cooled.move rfl (unstamped here rfl) (by simp) (by simp)
  | enter walk after here entered result =>
    subst result marked
    exact cooled.move rfl (unstamped here rfl) (by simp) (by simp)
  | reach walk after e due stage here stepped found result =>
    subst result marked
    have waiting : stage = .sending ∨ stage = .checking :=
      found.imp (fun up => up.2.2) fun down => down.2.1
    refine cooled.move rfl (unstamped here rfl) ?_ ?_
    · intro walk' due' started ended answer there
      cases there
      rcases waiting with wrong | wrong <;> cases wrong
    · intro walk' due' started answer there
      cases there
      rcases waiting with wrong | wrong <;> cases wrong
  | skip walk e due here early result =>
    subst result marked
    exact cooled.move rfl (by simp [here]) (by simp) (by simp)
  | retry walk e due here elapsed result =>
    subst result marked
    exact cooled.move rfl (by simp [here]) (by simp) (by simp)
  | send walk e due here result =>
    subst result marked
    exact cooled.move rfl (by simp [here]) (by simp) (by simp)
  | receive walk e due started answer here result =>
    subst result marked
    refine cooled.move rfl (by simp [here]) (by simp) fun walk' due' started' answer' there => ?_
    cases there
    exact steady.2 walk due started answer here rfl
  | stamp walk e due started answer here result =>
    subst result marked
    have located := ready.located.placed.inHand e (by rw [here]; rfl)
    refine ⟨fun idle unhealthy => ?_, (by simp), fun walk' due' st en an there failed => ?_⟩
    · have other : e ≠ b := fun same => idle walk due started s.clock answer (same ▸ rfl)
      rw [lastCheck, lastCheck_stamp located, if_neg other]
      have kept := @healthy_write s e b (HealthChecks.stamp s.clock) fun _ => rfl
      exact cooled.down (by simp [here]) (kept.symm.trans unhealthy)
    · cases there
      rw [lastCheck, lastCheck_stamp located, if_pos rfl]
      simp only [limit, here] at onTime
      have bound := cooled.answered walk due started answer here failed
      exact Nat.le_trans (Nat.add_le_add_right onTime _) bound
  | settle walk e due started ended answer here result =>
    subst result marked
    have located := ready.located.placed.inHand e (by rw [here]; rfl)
    have last := @lastCheck_write s e b (HealthChecks.settle answer.isSuccess) fun _ => rfl
    refine ⟨fun _ unhealthy => ?_, (by simp), (by simp)⟩
    rw [lastCheck, last]
    rw [healthy_settle located] at unhealthy
    split at unhealthy
    next same =>
      subst same
      exact cooled.stamped walk due started ended answer here unhealthy
    next other =>
      refine cooled.down ?_ unhealthy
      intro walk' due' started' ended' answer' there
      rw [here] at there
      cases there
      exact other rfl
  | rest walk here finished result =>
    subst result marked
    exact cooled.move rfl (unstamped here rfl) (by simp) (by simp)

theorem budget_asleep (here : w.state.loop = .asleep) :
    budget pace n b v w = w.since + pace.pause - w.state.clock + n * pace.patience := by
  simp only [budget, here]

theorem budget_walking {walk : Walk} (here : w.state.loop = .walking walk) :
    budget pace n b v w = walkBudget pace n b w.state.traffic.reg walk := by
  simp only [budget, here]

theorem budget_visiting {walk : Walk} {e : BackendId} {due : Bool} {stage : Stage}
    (here : w.state.loop = .visiting walk e due stage) : budget pace n b v w =
      w.since + pace.patience - w.state.clock +
        if e = b ∧ fresh v stage = true then 0 else walkBudget pace n b w.state.traffic.reg walk := by
  simp only [budget, here]

theorem budget_rested (here : w.state.loop = .asleep) (since : w.since = w.state.clock) :
    budget pace n b v w = pace.pause + n * pace.patience := by
  rw [budget_asleep here, since, Nat.add_sub_cancel_left]

theorem budget_reached {walk : Walk} {e : BackendId} {due : Bool} {stage : Stage}
    (here : w.state.loop = .visiting walk e due stage) (since : w.since = w.state.clock)
    (counted : fresh v stage = true) : budget pace n b v w =
      pace.patience + if e = b then 0 else walkBudget pace n b w.state.traffic.reg walk := by
  rw [budget_visiting here, since, Nat.add_sub_cancel_left]
  simp only [counted, and_true]

theorem walkBudget_congr {reg next : BackendRegistry} (groupAt : next.groupAt = reg.groupAt) (walk : Walk) :
    walkBudget pace n b next walk = walkBudget pace n b reg walk := by
  rw [walkBudget, walkBudget, rest_congr groupAt]

theorem walkBudget_begin {reg : BackendRegistry} (table : (entries reg).length ≤ n)
    (listed : b ∈ entries reg) : walkBudget pace n b reg (.begin reg) ≤ n * pace.patience := by
  rw [walkBudget, if_pos (show b ∈ (Walk.begin reg).rest reg from listed)]
  exact Nat.mul_le_mul_right pace.patience table

theorem walkBudget_next {reg : BackendRegistry} {walk after : Walk} {e : BackendId}
    (stepped : walk.next = some (e, after)) :
    pace.patience + (if e = b then 0 else walkBudget pace n b reg after) ≤ walkBudget pace n b reg walk := by
  simp only [walkBudget, Walk.rest_next stepped, List.length_cons, Nat.succ_mul, List.mem_cons]
  by_cases same : e = b
  · rw [if_pos same, if_pos (Or.inl same.symm)]
    omega
  · simp only [if_neg same, Ne.symm same, false_or]
    omega

theorem walkBudget_over {reg : BackendRegistry} {walk : Walk} (finished : walk.isOver = true) :
    walkBudget pace n b reg walk = pace.pause + n * pace.patience := by
  rw [walkBudget, Walk.rest_over finished, if_neg List.not_mem_nil]
  simp

theorem budget_stage {walk : Walk} {e : BackendId} {due : Bool} {stage stage' : Stage}
    (here : w.state.loop = .visiting walk e due stage) (there : w'.state.loop = .visiting walk e due stage')
    (clock : w'.state.clock = w.state.clock) (since : w'.since = w.since)
    (groupAt : w'.state.traffic.reg.groupAt = w.state.traffic.reg.groupAt)
    (same : e = b → fresh v stage = true → fresh v stage' = true) :
    budget pace n b v w' ≤ budget pace n b v w := by
  rw [budget_visiting here, budget_visiting there, clock, since, walkBudget_congr groupAt]
  refine Nat.add_le_add_left ?_ _
  split
  next => exact Nat.zero_le _
  next stale =>
    rw [if_neg fun counted => stale ⟨counted.1, same counted.1 counted.2⟩]

def Due (pace : Pace) (n : Nat) (b : BackendId) (v : Bool) (time : Instant) (w : Watch) : Prop :=
  Settled b v w.state ∨ w.state.clock + budget pace n b v w ≤ time

theorem within_budget {old new : Nat} {now late : Instant} (less : new ≤ old) (due : now + old ≤ late) :
    now + new ≤ late :=
  Nat.le_trans (Nat.add_le_add_left less now) due

theorem wait_le {since pause now elapsed rest late : Nat} (prompt : now + elapsed ≤ since + pause)
    (due : now + (since + pause - now + rest) ≤ late) :
    now + elapsed + (since + pause - (now + elapsed) + rest) ≤ late := by
  omega

theorem soon_of_early {now last wait time : Nat} (early : now - last < wait) (done : last + wait ≤ time) :
    now ≤ time := by
  omega

theorem step_due (taken : step config pace action w = some w') (ready : Ready pace w)
    (within : Within n w.state) (listed : b ∈ entries w.state.traffic.reg)
    (steady : Steady b v action w.state) (cooled : v = true → Cooled config pace b time w)
    (pending : w.state.clock + budget pace n b v w ≤ time + (pace.pause + 2 * (n * pace.patience))) :
    Due pace n b v (time + (pace.pause + 2 * (n * pace.patience))) w' := by
  have readyAfter := step_ready taken ready
  obtain ⟨prompt, moved, marked⟩ := step_cases taken
  have withinAfter := step_within moved steady.1 within
  obtain ⟨s, since⟩ := w
  obtain ⟨t, since'⟩ := w'
  dsimp only at moved marked listed steady pending withinAfter
  have known := known_of_entry ready.located.placed.wellFormed.valid listed
  cases step_change moved with
  | traffic action next outside went result =>
    obtain ⟨groupAt, -⟩ := traffic_groups steady.1 went
    subst result marked
    refine Or.inr (within_budget (Nat.le_of_eq ?_) pending)
    cases here : s.loop with
    | asleep => rw [budget_asleep rfl, budget_asleep here]
    | walking walk => rw [budget_walking rfl, budget_walking here, walkBudget_congr groupAt]
    | visiting walk e due stage => rw [budget_visiting rfl, budget_visiting here, walkBudget_congr groupAt]
  | tick elapsed result =>
    subst result marked
    rw [timely, decide_eq_true_eq] at prompt
    refine Or.inr ?_
    cases here : s.loop with
    | asleep =>
      rw [budget_asleep here] at pending
      rw [budget_asleep rfl]
      simp only [limit, here] at prompt
      exact wait_le prompt pending
    | walking walk =>
      rw [budget_walking here] at pending
      rw [budget_walking rfl]
      simp only [limit, here] at prompt
      exact Nat.le_trans (Nat.add_le_add_right prompt _) pending
    | visiting walk e due stage =>
      rw [budget_visiting here] at pending
      rw [budget_visiting rfl]
      simp only [limit, here] at prompt
      exact wait_le prompt pending
  | wake here unlocked result =>
    subst result marked
    rw [budget_asleep here] at pending
    refine Or.inr (within_budget ?_ pending)
    rw [budget_walking rfl]
    exact Nat.le_trans (walkBudget_begin within.table listed) (Nat.le_add_left ..)
  | enter walk after here entered result =>
    subst result marked
    rw [budget_walking here] at pending
    refine Or.inr (within_budget (Nat.le_of_eq ?_) pending)
    rw [budget_walking rfl, walkBudget, walkBudget, Walk.rest_enter entered]
  | reach walk after e due stage here stepped found result =>
    have counted : fresh v stage = true := by
      rcases found with ⟨-, -, rfl⟩ | ⟨-, rfl, -⟩ <;> rfl
    subst result marked
    rw [budget_walking here] at pending
    refine Or.inr (within_budget (Nat.le_trans ?_ (walkBudget_next stepped)) pending)
    exact Nat.le_of_eq (budget_reached rfl rfl counted)
  | skip walk e due here early result =>
    by_cases same : e = b
    · subst same
      have unhealthy := ready.checks walk e due here
      cases v with
      | false =>
        subst result
        exact Or.inl ⟨unhealthy, (by simp)⟩
      | true =>
        have done := (cooled rfl).down (by simp [here]) unhealthy
        have soon : s.clock ≤ time := (soon_of_early early done)
        subst result marked
        exact Or.inr (Nat.add_le_add soon (budget_le readyAfter withinAfter))
    · subst result marked
      rw [budget_visiting here, if_neg fun counted => same counted.1] at pending
      refine Or.inr (within_budget ?_ pending)
      rw [budget_walking rfl]
      exact Nat.le_add_left ..
  | retry walk e due here elapsed result =>
    subst result marked
    refine Or.inr (within_budget ?_ pending)
    exact budget_stage here rfl rfl rfl rfl fun _ _ => rfl
  | send walk e due here result =>
    subst result marked
    refine Or.inr (within_budget ?_ pending)
    exact budget_stage here rfl rfl rfl rfl fun _ _ => rfl
  | receive walk e due started answer here result =>
    subst result marked
    refine Or.inr (within_budget ?_ pending)
    refine budget_stage here rfl rfl rfl rfl fun same _ => ?_
    subst same
    exact beq_iff_eq.mpr (steady.2 walk due started answer here rfl)
  | stamp walk e due started answer here result =>
    subst result marked
    refine Or.inr (within_budget ?_ pending)
    exact budget_stage here rfl rfl rfl rfl fun _ => id
  | settle walk e due started ended answer here result =>
    by_cases counted : e = b ∧ fresh v (.stamped started ended answer) = true
    · obtain ⟨rfl, same⟩ := counted
      subst result
      refine Or.inl ⟨?_, (by simp)⟩
      rw [healthy_settle known, if_pos rfl]
      exact beq_iff_eq.mp same
    · subst result marked
      rw [budget_visiting here, if_neg counted] at pending
      refine Or.inr (within_budget ?_ pending)
      rw [budget_walking rfl]
      refine Nat.le_trans (Nat.le_of_eq ?_) (Nat.le_add_left ..)
      exact walkBudget_congr rfl walk
  | rest walk here finished result =>
    subst result marked
    rw [budget_walking here, walkBudget_over finished] at pending
    exact Or.inr (within_budget (Nat.le_of_eq (budget_rested rfl rfl)) pending)

structure Bound (config : HealthConfig) (pace : Pace) (n : Nat) (b : BackendId) (v : Bool) (time : Instant)
    (w : Watch) : Prop where
  ready : Ready pace w
  within : Within n w.state
  listed : b ∈ entries w.state.traffic.reg
  cooled : v = true → Cooled config pace b time w
  due : Due pace n b v (time + (pace.pause + 2 * (n * pace.patience))) w

theorem entries_step (taken : HealthChecks.step config action s = some t) (quiet : Quiet action) :
    entries t.traffic.reg = entries s.traffic.reg := by
  cases step_change taken with
  | traffic action next outside went result =>
    obtain ⟨groupAt, groups⟩ := traffic_groups quiet went
    subst result
    exact entries_congr groupAt groups
  | _ => subst_vars; exact entries_congr rfl rfl

theorem step_bound (taken : step config pace action w = some w') (steady : Steady b v action w.state)
    (bound : Bound config pace n b v time w) : Bound config pace n b v time w' := by
  obtain ⟨-, moved, -⟩ := step_cases taken
  have located := bound.ready.located
  have known := known_of_entry located.placed.wellFormed.valid bound.listed
  refine ⟨step_ready taken bound.ready, step_within moved steady.1 bound.within, ?_, fun up => ?_, ?_⟩
  · rw [entries_step moved steady.1]
    exact bound.listed
  · subst up
    exact step_cooled taken bound.ready steady known (bound.cooled rfl)
  · rcases bound.due with settled | pending
    · exact Or.inl (step_settled moved located known steady settled)
    · exact step_due taken bound.ready bound.within bound.listed steady bound.cooled pending

theorem within_load (s : State) : Within (load s) s := by
  unfold load
  constructor
  · split
    · exact Nat.le_refl _
    · exact Nat.le_max_left ..
  · intro walk here
    rw [here]
    exact Nat.le_max_right ..

theorem cooled_now (ready : Ready pace w) (known : b < w.state.traffic.reg.backendAt.size) :
    Cooled config pace b (w.state.clock + (pace.patience + cooldown config)) w where
  down _ unhealthy := by
    have past := ready.past b (by rw [flag, if_pos known]; exact unhealthy)
    exact Nat.add_le_add past (Nat.le_add_left ..)
  answered walk due started answer here failed := by
    rw [Nat.add_assoc]
    exact Nat.add_le_add_right ready.since _
  stamped walk due started ended answer here failed :=
    Nat.add_le_add (ready.stamped walk b due started ended answer here) (Nat.le_add_left ..)

end Deadline

section Runs
variable {now : Instant} {routes : List RouteConfig} {reg : BackendRegistry} {config : HealthConfig}
  {pace : Pace} {before after : List Action} {w t : Watch} {b : BackendId} {v : Bool}

theorem ready_start (built : BackendRegistry.new now routes = .ok reg) :
    Ready pace ⟨.start now reg routes, now⟩ where
  located := (@tended_start ⟨0, 0, 0⟩ _ _ _ built).located
  since := Nat.le_refl _
  onTime := Nat.le_add_right ..
  checks := by simp [State.start]
  past b down := by
    have up : flag reg b = true := (flag_pushGroups built b).trans rfl
    exact absurd (up.symm.trans down) (by decide)
  stamped := by simp [State.start]

theorem run_ready (built : BackendRegistry.new now routes = .ok reg)
    (reached : run (step config pace) before ⟨.start now reg routes, now⟩ = some w) : Ready pace w := by
  have keep : ∀ action (w w' : Watch), Ready pace w → step config pace action w = some w' → Ready pace w' :=
    fun _ _ _ ready taken => step_ready taken ready
  exact run_invariant keep (ready_start built) reached

/-- The wait of a backend that has to become healthy: a probe that has failed already, and its
cooldown. -/
def recovery (config : HealthConfig) (pace : Pace) (v : Bool) : Nat :=
  if v then pace.patience + cooldown config else 0

/-- From any state of any run: while every answer of a backend of the table says the same and no reload
comes in between, its flag says so too after at most one sleep and two rounds, and the cooldown where
it has to become healthy. A backend that does not answer gets no requests from then on. -/
theorem flag_settles (built : BackendRegistry.new now routes = .ok reg)
    (reached : run (step config pace) before ⟨.start now reg routes, now⟩ = some w)
    (listed : b ∈ entries w.state.traffic.reg)
    (steady : Conforms (step config pace) (fun action w => Steady b v action w.state) after w)
    (done : run (step config pace) after w = some t)
    (late : w.state.clock + recovery config pace v + (pace.pause + 2 * (load w.state * pace.patience)) <
      t.state.clock) :
    (t.state.traffic.reg.backend b).healthy = v ∧
      (v = false → ∀ g, t.state.traffic.reg.selectBackend g ≠ some b) := by
  have ready := run_ready built reached
  have known := known_of_entry ready.located.placed.wellFormed.valid listed
  have within := within_load w.state
  have bound : Bound config pace (load w.state) b v (w.state.clock + recovery config pace v) w := by
    refine ⟨ready, within, listed, fun up => ?_, Or.inr ?_⟩
    · subst up
      exact cooled_now ready known
    · exact Nat.add_le_add (Nat.le_add_right ..) (budget_le ready within)
  have last := run_invariant_of_conforms (fun action w w' bound steady taken => step_bound taken steady bound)
    bound steady done
  have flag : (t.state.traffic.reg.backend b).healthy = v := by
    rcases last.due with settled | pending
    · exact settled.flag
    · exact absurd (Nat.le_trans (Nat.le_add_right ..) pending) (Nat.not_le.mpr late)
  refine ⟨flag, fun down g chosen => ?_⟩
  obtain ⟨-, -, healthy, -⟩ := selectBackend_some chosen
  rw [flag, down] at healthy
  cases healthy

/-- A backend is down from the start, and three seconds after the first round its flag says so. -/
theorem flag_settles_down : ∃ reg t,
    BackendRegistry.new 0 [⟨['a'], [⟨['u'], 5, false⟩]⟩] = .ok reg ∧
      Reachable (step ⟨10, 1, 1⟩ ⟨10000000000, 1000000000⟩)
        ⟨.start 0 reg [⟨['a'], [⟨['u'], 5, false⟩]⟩], 0⟩ t ∧
      t.state.clock = 14000000000 ∧ (t.state.traffic.reg.backend 0).healthy = false ∧
      t.state.traffic.reg.selectBackend 0 ≠ some 0 := by
  let reg : BackendRegistry := ⟨⟨[⟨['u'], 5, false, true, 0, 0, 0⟩]⟩,
    ⟨[⟨['a'], .exact ['a'], [0], rfl⟩]⟩, [0]⟩
  let trace : List Action := [.tick 10000000000, .wake, .enter, .reach, .send, .tick 1000000000,
    .receive .failed, .stamp, .settle, .rest, .tick 3000000000]
  have built : BackendRegistry.new 0 [⟨['a'], [⟨['u'], 5, false⟩]⟩] = .ok reg := rfl
  have clock : (run (step ⟨10, 1, 1⟩ ⟨10000000000, 1000000000⟩) trace
      ⟨.start 0 reg [⟨['a'], [⟨['u'], 5, false⟩]⟩], 0⟩).map (fun t => t.state.clock) = some 14000000000 := by
    decide +kernel
  obtain ⟨t, done, fourteen⟩ := Option.map_eq_some_iff.mp clock
  have steady : ∀ action ∈ trace, ∀ w : Watch, Steady 0 false action w.state := by
    intro action listed w
    simp only [trace, List.mem_cons, List.not_mem_nil, or_false] at listed
    rcases listed with rfl | rfl | rfl | rfl | rfl | rfl | rfl | rfl | rfl | rfl | rfl <;>
      refine ⟨trivial, fun _ _ _ _ _ same => ?_⟩ <;> cases same
    rfl
  have late : 0 + recovery ⟨10, 1, 1⟩ ⟨10000000000, 1000000000⟩ false +
      (10000000000 + 2 * (1 * 1000000000)) < t.state.clock := by
    rw [fourteen]
    decide
  have reached : run (step ⟨10, 1, 1⟩ ⟨10000000000, 1000000000⟩) []
      ⟨.start 0 reg [⟨['a'], [⟨['u'], 5, false⟩]⟩], 0⟩ = some _ := rfl
  obtain ⟨down, shut⟩ := flag_settles built reached (List.mem_singleton.mpr rfl) (.of_forall steady _) done late
  exact ⟨reg, t, built, ⟨trace, done⟩, fourteen, down, shut rfl 0⟩

end Runs

end TinyLb.HealthDeadlines
