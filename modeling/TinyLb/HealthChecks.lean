import TinyLb.Rounds

/-! The health checks next to requests and reloads, one atomic step at a time. A probe takes as long
as its answer takes; the time of the last check and the flag are written after it, one by one. -/

namespace TinyLb.HealthChecks
open Config Backends Merge Traffic ConnectionLedger Rounds

/-- What came back for a probe: a response with a status code, or an error of the client. -/
inductive Answer where
  | response (status : Nat)
  | failed
  deriving DecidableEq, Repr

/-- `Ok(resp) if resp.status().is_success()`. -/
def Answer.isSuccess : Answer → Bool
  | .response status => 200 ≤ status && status < 300
  | .failed => false

/-- A probe whose answer is in the flag; `ended` is the time that was taken after the answer. -/
structure Probe where
  backend : BackendId
  started : Instant
  ended : Instant
  answer : Answer
  deriving DecidableEq, Repr

/-- One occurrence of a backend in a round. `due` says that, when the round came to it, the backend
was healthy or its cooldown had elapsed. -/
structure Visit where
  backend : BackendId
  due : Bool
  probe : Option Probe
  deriving DecidableEq, Repr

structure Round where
  snapshot : List BackendId
  visits : List Visit
  deriving DecidableEq, Repr

inductive Stage where
  | checking
  | sending
  | waiting (started : Instant)
  | answered (started : Instant) (answer : Answer)
  | stamped (started ended : Instant) (answer : Answer)
  deriving DecidableEq, Repr

inductive Loop where
  | asleep
  | walking (walk : Walk)
  | visiting (walk : Walk) (backend : BackendId) (due : Bool) (stage : Stage)
  deriving DecidableEq, Repr

structure State where
  traffic : System
  clock : Instant
  loop : Loop
  past : List Round
  visits : List Visit

def State.start (now : Instant) (reg : BackendRegistry) (routes : List RouteConfig) : State :=
  ⟨.start reg routes, now, .asleep, [], []⟩

/-- Instants count nanoseconds. -/
def cooldown (config : HealthConfig) : Nat := config.unhealthyCooldownSecs.toNat * 1000000000

/-- `*backend.last_health_check.lock().unwrap() = now`. -/
def stamp (now : Instant) (b : Backend) : Backend := { b with lastHealthCheck := now }

/-- The store into `healthy` after a probe. -/
def settle (healthy : Bool) (b : Backend) : Backend := { b with healthy := healthy }

theorem settle_stamp (now : Instant) (healthy : Bool) (b : Backend) :
    settle healthy (stamp now b) = b.probed now healthy := rfl

inductive Action where
  | traffic (action : Traffic.Action)
  | tick (elapsed : Nat)
  | wake
  | enter
  | reach
  | check
  | send
  | receive (answer : Answer)
  | stamp
  | settle
  | rest

/-- A round of `health_check_loop` begins after a sleep, and needs the read lock on the table. Probes
are the loop's own steps only. -/
def step (config : HealthConfig) : Action → State → Option State
  | .traffic (.probe _ _ _), _ => none
  | .traffic action, s => (Traffic.step action s.traffic).map fun next => { s with traffic := next }
  | .tick elapsed, s => some { s with clock := s.clock + elapsed }
  | .wake, s =>
      match s.loop with
      | .asleep =>
          if s.traffic.reload.isSome then none
          else some { s with loop := .walking (.begin s.traffic.reg) }
      | _ => none
  | .enter, s =>
      match s.loop with
      | .walking walk => (walk.enter s.traffic.reg).map fun walk => { s with loop := .walking walk }
      | _ => none
  | .reach, s =>
      match s.loop with
      | .walking walk =>
          walk.next.map fun (b, walk) =>
            let backend := s.traffic.reg.backend b
            if backend.healthy then { s with loop := .visiting walk b true .sending }
            else
              let elapsed := s.clock - backend.lastHealthCheck
              { s with loop := .visiting walk b (cooldown config ≤ elapsed) .checking }
      | _ => none
  | .check, s =>
      match s.loop with
      | .visiting walk b due .checking =>
          if s.clock - (s.traffic.reg.backend b).lastHealthCheck < cooldown config then
            some { s with loop := .walking walk, visits := s.visits ++ [⟨b, due, none⟩] }
          else some { s with loop := .visiting walk b due .sending }
      | _ => none
  | .send, s =>
      match s.loop with
      | .visiting walk b due .sending => some { s with loop := .visiting walk b due (.waiting s.clock) }
      | _ => none
  | .receive answer, s =>
      match s.loop with
      | .visiting walk b due (.waiting started) =>
          some { s with loop := .visiting walk b due (.answered started answer) }
      | _ => none
  | .stamp, s =>
      match s.loop with
      | .visiting walk b due (.answered started answer) =>
          some { s with
            traffic := { s.traffic with reg := s.traffic.reg.write b (HealthChecks.stamp s.clock) }
            loop := .visiting walk b due (.stamped started s.clock answer) }
      | _ => none
  | .settle, s =>
      match s.loop with
      | .visiting walk b due (.stamped started ended answer) =>
          some { s with
            traffic := { s.traffic with
              reg := s.traffic.reg.write b (HealthChecks.settle answer.isSuccess) }
            loop := .walking walk
            visits := s.visits ++ [⟨b, due, some ⟨b, started, ended, answer⟩⟩] }
      | _ => none
  | .rest, s =>
      match s.loop with
      | .walking walk =>
          if walk.isOver then
            some { s with
              loop := .asleep
              past := s.past ++ [⟨walk.snapshot, s.visits⟩]
              visits := [] }
          else none
      | _ => none

def State.probes (s : State) : List Probe :=
  (s.past.flatMap Round.visits ++ s.visits).filterMap Visit.probe

def Loop.walk : Loop → Option Walk
  | .asleep => none
  | .walking walk | .visiting walk _ _ _ => some walk

def Loop.inHand : Loop → Option BackendId
  | .visiting _ b _ _ => some b
  | _ => none

variable {config : HealthConfig} {s t : State}

inductive Change (config : HealthConfig) (s t : State) : Action → Prop
  | traffic (action : Traffic.Action) (next : System)
      (outside : ∀ b now healthy, action ≠ .probe b now healthy)
      (moved : Traffic.step action s.traffic = some next) (result : t = { s with traffic := next }) :
      Change config s t (.traffic action)
  | tick (elapsed : Nat) (result : t = { s with clock := s.clock + elapsed }) :
      Change config s t (.tick elapsed)
  | wake (here : s.loop = .asleep) (unlocked : s.traffic.reload = none)
      (result : t = { s with loop := .walking (.begin s.traffic.reg) }) : Change config s t .wake
  | enter (walk after : Walk) (here : s.loop = .walking walk)
      (entered : walk.enter s.traffic.reg = some after)
      (result : t = { s with loop := .walking after }) : Change config s t .enter
  | reach (walk after : Walk) (b : BackendId) (due : Bool) (stage : Stage)
      (here : s.loop = .walking walk) (stepped : walk.next = some (b, after))
      (found : (s.traffic.reg.backend b).healthy = true ∧ due = true ∧ stage = .sending ∨
        (s.traffic.reg.backend b).healthy = false ∧ stage = .checking ∧
          (due = true ↔ cooldown config ≤ s.clock - (s.traffic.reg.backend b).lastHealthCheck))
      (result : t = { s with loop := .visiting after b due stage }) : Change config s t .reach
  | skip (walk : Walk) (b : BackendId) (due : Bool) (here : s.loop = .visiting walk b due .checking)
      (early : s.clock - (s.traffic.reg.backend b).lastHealthCheck < cooldown config)
      (result : t = { s with loop := .walking walk, visits := s.visits ++ [⟨b, due, none⟩] }) :
      Change config s t .check
  | retry (walk : Walk) (b : BackendId) (due : Bool) (here : s.loop = .visiting walk b due .checking)
      (elapsed : cooldown config ≤ s.clock - (s.traffic.reg.backend b).lastHealthCheck)
      (result : t = { s with loop := .visiting walk b due .sending }) : Change config s t .check
  | send (walk : Walk) (b : BackendId) (due : Bool) (here : s.loop = .visiting walk b due .sending)
      (result : t = { s with loop := .visiting walk b due (.waiting s.clock) }) :
      Change config s t .send
  | receive (walk : Walk) (b : BackendId) (due : Bool) (started : Instant) (answer : Answer)
      (here : s.loop = .visiting walk b due (.waiting started))
      (result : t = { s with loop := .visiting walk b due (.answered started answer) }) :
      Change config s t (.receive answer)
  | stamp (walk : Walk) (b : BackendId) (due : Bool) (started : Instant) (answer : Answer)
      (here : s.loop = .visiting walk b due (.answered started answer))
      (result : t = { s with
        traffic := { s.traffic with reg := s.traffic.reg.write b (HealthChecks.stamp s.clock) }
        loop := .visiting walk b due (.stamped started s.clock answer) }) :
      Change config s t .stamp
  | settle (walk : Walk) (b : BackendId) (due : Bool) (started ended : Instant) (answer : Answer)
      (here : s.loop = .visiting walk b due (.stamped started ended answer))
      (result : t = { s with
        traffic := { s.traffic with reg := s.traffic.reg.write b (HealthChecks.settle answer.isSuccess) }
        loop := .walking walk
        visits := s.visits ++ [⟨b, due, some ⟨b, started, ended, answer⟩⟩] }) :
      Change config s t .settle
  | rest (walk : Walk) (here : s.loop = .walking walk) (finished : walk.isOver = true)
      (result : t = { s with
        loop := .asleep, past := s.past ++ [⟨walk.snapshot, s.visits⟩], visits := [] }) :
      Change config s t .rest

theorem step_change {action : Action} (taken : step config action s = some t) :
    Change config s t action := by
  cases action with
  | traffic action =>
    have moved : (∀ b now healthy, action ≠ .probe b now healthy) ∧
        (Traffic.step action s.traffic).map (fun next => { s with traffic := next }) = some t := by
      cases action with
      | probe b now healthy => cases taken
      | _ => exact ⟨fun _ _ _ => (by simp), taken⟩
    obtain ⟨outside, taken⟩ := moved
    obtain ⟨next, moved, same⟩ := Option.map_eq_some_iff.mp taken
    exact .traffic action next outside moved same.symm
  | tick elapsed => exact .tick elapsed (Option.some.inj taken).symm
  | wake =>
    rw [step] at taken
    split at taken
    next here =>
      split at taken
      next => cases taken
      next unlocked => exact .wake here (by simpa using unlocked) (Option.some.inj taken).symm
    next => cases taken
  | enter =>
    rw [step] at taken
    split at taken
    next walk here =>
      obtain ⟨after, entered, same⟩ := Option.map_eq_some_iff.mp taken
      exact .enter walk after here entered same.symm
    next => cases taken
  | reach =>
    rw [step] at taken
    split at taken
    next walk here =>
      obtain ⟨⟨b, after⟩, stepped, same⟩ := Option.map_eq_some_iff.mp taken
      dsimp only at same
      split at same
      next up => exact .reach walk after b true .sending here stepped (Or.inl ⟨up, rfl, rfl⟩) same.symm
      next down =>
        refine .reach walk after b _ .checking here stepped (Or.inr ⟨by simpa using down, rfl, ?_⟩) same.symm
        exact decide_eq_true_iff
    next => cases taken
  | check =>
    rw [step] at taken
    split at taken
    next walk b due here =>
      split at taken
      next early => exact .skip walk b due here early (Option.some.inj taken).symm
      next elapsed => exact .retry walk b due here (Nat.le_of_not_lt elapsed) (Option.some.inj taken).symm
    next => cases taken
  | send =>
    rw [step] at taken
    split at taken
    next walk b due here => exact .send walk b due here (Option.some.inj taken).symm
    next => cases taken
  | receive answer =>
    rw [step] at taken
    split at taken
    next walk b due started here =>
      exact .receive walk b due started answer here (Option.some.inj taken).symm
    next => cases taken
  | stamp =>
    rw [step] at taken
    split at taken
    next walk b due started answer here =>
      exact .stamp walk b due started answer here (Option.some.inj taken).symm
    next => cases taken
  | settle =>
    rw [step] at taken
    split at taken
    next walk b due started ended answer here =>
      exact .settle walk b due started ended answer here (Option.some.inj taken).symm
    next => cases taken
  | rest =>
    rw [step] at taken
    split at taken
    next walk here =>
      split at taken
      next finished => exact .rest walk here finished (Option.some.inj taken).symm
      next => cases taken
    next => cases taken

end TinyLb.HealthChecks
