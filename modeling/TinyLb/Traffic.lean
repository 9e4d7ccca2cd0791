import TinyLb.Backends
import TinyLb.Machine

/-! Requests, reloads, health probes and stats samples, one atomic step at a time.

A request is one call of `handle_request` with what it starts: the future of
`proxy_http` and the streamed body it returns, or the spawned task that runs
`proxy_websocket`. A reload holds the write lock on the table from its first round to
the swap, and the write lock on one group during each round. A call of `select_backend`
is one step here; `LoadSteps` takes it apart into its loads. -/

namespace TinyLb.Traffic
open Config Hosts Backends

structure ConnectionGuard where
  backend : BackendId
  deriving DecidableEq, Repr

structure GuardedBody where
  guard : ConnectionGuard
  deriving DecidableEq, Repr

inductive Ending where
  | badGateway
  | dropped
  | panicked
  | closed
  deriving DecidableEq, Repr

inductive Outcome where
  | stats
  | dashboard
  | notFound
  | serviceUnavailable
  | upgradeFailed
  | upgradeDropped
  | proxied (backend : BackendId) (ending : Ending)
  deriving DecidableEq, Repr

/-- Where a request stands. In `proxying` it is between the guard and the first await,
in `awaiting` it waits for `client.request` or `connect_async`. -/
inductive Phase where
  | received
  | routed (group : GroupId)
  | chosen (backend : BackendId)
  | upgrading (backend : BackendId)
  | upgraded (backend : BackendId)
  | proxying (guard : ConnectionGuard)
  | awaiting (guard : ConnectionGuard)
  | session (guard : ConnectionGuard)
  | streaming (body : GuardedBody)
  | finished (outcome : Outcome)
  deriving DecidableEq, Repr

/-- One atomic operation on an `active_connections`. -/
inductive CounterOp where
  | fetchAdd (backend : BackendId)
  | fetchSub (backend : BackendId)
  deriving DecidableEq, Repr

/-- `host` is the Host header, or empty; `upgrade` is what `is_websocket_upgrade` says;
`ops` records the operations on counters the request has made. -/
structure Request where
  path : Str
  host : Str
  upgrade : Bool
  phase : Phase
  ops : List CounterOp
  deriving DecidableEq, Repr

inductive Move where
  | findGroup
  | selectBackend
  | spawn
  | upgrade (accepted : Bool)
  | openGuard
  | reject
  | send
  | answer
  | refuse
  | unwind
  | drop
  | close
  deriving DecidableEq, Repr

/-- `Arc::clone` aborts the process on a count above `isize::MAX`. -/
def isizeMax : Nat := 0x7FFFFFFFFFFFFFFF

/-- The clones of a backend's `Arc` that a request holds; next to its guard the proxy
functions keep the argument they were called with. -/
def Phase.refs (b : BackendId) : Phase → Nat
  | .chosen backend | .upgrading backend | .upgraded backend => if backend = b then 1 else 0
  | .proxying guard | .awaiting guard | .session guard => if guard.backend = b then 2 else 0
  | .streaming body => if body.guard.backend = b then 1 else 0
  | .received | .routed _ | .finished _ => 0

def Phase.guard : Phase → Option ConnectionGuard
  | .proxying guard | .awaiting guard | .session guard => some guard
  | .streaming body => some body.guard
  | _ => none

/-- The backend that has been selected for a request that has no guard yet. -/
def Phase.pending : Phase → Option BackendId
  | .chosen backend | .upgrading backend | .upgraded backend => some backend
  | _ => none

namespace Request

def enter (q : Request) (phase : Phase) : Request := { q with phase := phase }

/-- `ConnectionGuard::new(Arc::clone(&backend))`. -/
def openGuard (q : Request) (reg : BackendRegistry) (refs : BackendId → Nat) (b : BackendId) :
    Option (Request × BackendRegistry) :=
  if refs b ≤ isizeMax then
    some ({ q with phase := .proxying ⟨b⟩, ops := q.ops ++ [.fetchAdd b] }, reg.write b Backend.connect)
  else none

/-- The drop of a guard, with which the request ends. -/
def dropGuard (q : Request) (reg : BackendRegistry) (guard : ConnectionGuard) (ending : Ending) :
    Request × BackendRegistry :=
  ({ q with
      phase := .finished (.proxied guard.backend ending)
      ops := q.ops ++ [.fetchSub guard.backend] },
    reg.write guard.backend Backend.disconnect)

/-- An early return after an error is counted; the guard is dropped on the way out. -/
def badGateway (q : Request) (reg : BackendRegistry) (guard : ConnectionGuard) :
    Request × BackendRegistry :=
  q.dropGuard (reg.write guard.backend Backend.countError) guard .badGateway

/-- One move of a request. `locked` says that a reload holds the lock on the table, and
`refs` counts the clones of each backend's `Arc`. -/
def step (q : Request) (reg : BackendRegistry) (locked : Bool) (refs : BackendId → Nat)
    (move : Move) : Option (Request × BackendRegistry) :=
  match move, q.phase with
  | .findGroup, .received =>
      if q.path = "/_lb/stats".toList then some (q.enter (.finished .stats), reg)
      else if q.path = "/_lb/".toList ∨ q.path = "/_lb".toList then
        some (q.enter (.finished .dashboard), reg)
      else if locked then none
      else
        match reg.findGroup q.host with
        | some g => some (q.enter (.routed g), reg)
        | none => some (q.enter (.finished .notFound), reg)
  | .selectBackend, .routed g =>
      match reg.selectBackend g with
      | some b => if refs b ≤ isizeMax then some (q.enter (.chosen b), reg) else none
      | none => some (q.enter (.finished .serviceUnavailable), reg)
  | .spawn, .chosen b => if q.upgrade then some (q.enter (.upgrading b), reg) else none
  | .upgrade true, .upgrading b => some (q.enter (.upgraded b), reg)
  | .upgrade false, .upgrading _ => some (q.enter (.finished .upgradeFailed), reg)
  | .drop, .upgrading _ => some (q.enter (.finished .upgradeDropped), reg)
  | .openGuard, .chosen b => if q.upgrade then none else q.openGuard reg refs b
  | .openGuard, .upgraded b => q.openGuard reg refs b
  | .reject, .proxying guard => some (q.badGateway reg guard)
  | .send, .proxying guard => some (q.enter (.awaiting guard), reg)
  | .answer, .awaiting guard =>
      some (q.enter (if q.upgrade then .session guard else .streaming ⟨guard⟩), reg)
  | .refuse, .awaiting guard => some (q.badGateway reg guard)
  | .unwind, .proxying guard => some (q.dropGuard reg guard .panicked)
  | .unwind, .awaiting guard => some (q.dropGuard reg guard .panicked)
  | .unwind, .session guard => some (q.dropGuard reg guard .panicked)
  | .drop, .awaiting guard => some (q.dropGuard reg guard .dropped)
  | .drop, .session guard => some (q.dropGuard reg guard .dropped)
  | .close, .session guard => some (q.dropGuard reg guard .closed)
  | .close, .streaming body => some (q.dropGuard reg body.guard .closed)
  | _, _ => none

end Request

/-- A reload between its validation and its swap: the rounds still to do and the table
built so far. -/
structure ReloadState where
  now : Instant
  routes : List RouteConfig
  todo : List RouteConfig
  newGroups : List GroupId
  deriving DecidableEq, Repr

/-- `inForce` is the configuration last put in place as a whole. -/
structure System where
  reg : BackendRegistry
  requests : List Request
  reload : Option ReloadState
  inForce : List RouteConfig

def System.start (reg : BackendRegistry) (routes : List RouteConfig) : System := ⟨reg, [], none, routes⟩

def System.refs (s : System) (b : BackendId) : Nat :=
  s.requests.foldr (fun q total => q.phase.refs b + total) 0

def System.guards (s : System) (b : BackendId) : Nat :=
  s.requests.countP fun q => q.phase.guard == some ⟨b⟩

/-- The requests that have been given `b` and have not opened a connection yet. -/
def System.pending (s : System) (b : BackendId) : Nat :=
  s.requests.countP fun q => q.phase.pending == some b

inductive Action where
  | arrive (path host : Str) (upgrade : Bool)
  | advance (r : Nat) (move : Move)
  | probe (b : BackendId) (now : Instant) (healthy : Bool)
  | sample (b : BackendId)
  | reloadStart (now : Instant) (routes : List RouteConfig)
  | reloadRoute
  | reloadSwap

def step : Action → System → Option System
  | .arrive path host upgrade, s =>
      some { s with requests := s.requests ++ [⟨path, host, upgrade, .received, []⟩] }
  | .advance r move, s =>
      match s.requests[r]? with
      | none => none
      | some q =>
          match q.step s.reg s.reload.isSome s.refs move with
          | none => none
          | some (q', reg) => some { s with reg := reg, requests := s.requests.set r q' }
  | .probe b now healthy, s => some { s with reg := s.reg.write b (Backend.probed now healthy) }
  | .sample b, s => some { s with reg := s.reg.write b Backend.takeErrors }
  | .reloadStart now routes, s =>
      match s.reload, validate routes with
      | some _, _ => none
      | none, .error _ => some s
      | none, .ok () => some { s with reload := some ⟨now, routes, routes, []⟩ }
  | .reloadRoute, s =>
      match s.reload with
      | some ⟨now, routes, route :: todo, newGroups⟩ =>
          match s.reg.applyRoute now route with
          | none => none
          | some (g, reg) =>
              some { s with reg := reg, reload := some ⟨now, routes, todo, newGroups ++ [g]⟩ }
      | _ => none
  | .reloadSwap, s =>
      match s.reload with
      | some ⟨_, routes, [], newGroups⟩ =>
          some { s with reg := { s.reg with groups := newGroups }, reload := none, inForce := routes }
      | _ => none

def Phase.counted : Phase → List CounterOp
  | .proxying guard | .awaiting guard | .session guard => [.fetchAdd guard.backend]
  | .streaming body => [.fetchAdd body.guard.backend]
  | .finished (.proxied backend _) => [.fetchAdd backend, .fetchSub backend]
  | _ => []

theorem Phase.of_guard {phase : Phase} {guard : ConnectionGuard} (held : phase.guard = some guard) :
    phase.pending = none ∧ phase.counted = [.fetchAdd guard.backend] := by
  cases phase <;> cases held <;> exact ⟨rfl, rfl⟩

theorem Phase.of_pending {phase : Phase} {b : BackendId} (waiting : phase.pending = some b) :
    phase.guard = none ∧ phase.counted = [] := by
  cases phase <;> cases waiting <;> exact ⟨rfl, rfl⟩

inductive Request.Change (q : Request) (reg : BackendRegistry) (locked : Bool) (refs : BackendId → Nat)
    (q' : Request) (reg' : BackendRegistry) : Prop
  | idle (phase : Phase) (next : q' = q.enter phase) (same : reg' = reg)
      (guard : phase.guard = q.phase.guard) (before : q.phase.pending = none)
      (after : phase.pending = none) (counted : phase.counted = q.phase.counted)
      (routed : ∀ g, phase = .routed g →
        q.phase = .received ∧ locked = false ∧ reg.findGroup q.host = some g)
      (left : phase ≠ .received)
  | select (g : GroupId) (b : BackendId) (here : q.phase = .routed g)
      (found : reg.selectBackend g = some b) (next : q' = q.enter (.chosen b)) (same : reg' = reg)
  | wait (b : BackendId) (phase : Phase) (here : q.phase.pending = some b)
      (there : phase.pending = some b) (next : q' = q.enter phase) (same : reg' = reg)
  | abandon (b : BackendId) (outcome : Outcome) (here : q.phase.pending = some b)
      (failed : outcome = .upgradeFailed ∨ outcome = .upgradeDropped)
      (next : q' = q.enter (.finished outcome)) (same : reg' = reg)
  | opened (b : BackendId) (here : q.phase.pending = some b) (few : refs b ≤ isizeMax)
      (next : q' = { q with phase := .proxying ⟨b⟩, ops := q.ops ++ [.fetchAdd b] })
      (written : reg' = reg.write b Backend.connect)
  | closed (guard : ConnectionGuard) (ending : Ending) (errors : BackendRegistry)
      (here : q.phase.guard = some guard)
      (counted : errors = reg ∨ errors = reg.write guard.backend Backend.countError)
      (next : (q', reg') = q.dropGuard errors guard ending)

section StepChange
variable {q q' : Request} {reg reg' : BackendRegistry} {locked : Bool} {refs : BackendId → Nat}

theorem openGuard_change {b : BackendId} (here : q.phase.pending = some b)
    (taken : q.openGuard reg refs b = some (q', reg')) : q.Change reg locked refs q' reg' := by
  rw [Request.openGuard] at taken
  split at taken
  next few =>
    cases taken
    exact .opened b here few rfl rfl
  next => cases taken

theorem dropGuard_change {guard : ConnectionGuard} {ending : Ending} (here : q.phase.guard = some guard)
    (taken : some (q.dropGuard reg guard ending) = some (q', reg')) :
    q.Change reg locked refs q' reg' :=
  .closed guard ending reg here (Or.inl rfl) (Option.some.inj taken).symm

theorem badGateway_change {guard : ConnectionGuard} (here : q.phase.guard = some guard)
    (taken : some (q.badGateway reg guard) = some (q', reg')) : q.Change reg locked refs q' reg' :=
  .closed guard .badGateway _ here (Or.inr rfl) (Option.some.inj taken).symm

theorem findGroup_change (here : q.phase = .received)
    (taken : q.step reg locked refs .findGroup = some (q', reg')) :
    q.Change reg locked refs q' reg' := by
  have quiet : ∀ outcome : Outcome, (∀ b ending, outcome ≠ .proxied b ending) →
      q.Change reg locked refs (q.enter (.finished outcome)) reg := by
    intro outcome unproxied
    refine .idle _ rfl rfl (by rw [here]; rfl) (by rw [here]; rfl) rfl ?_ nofun nofun
    rw [here]
    cases outcome with
    | proxied b ending => exact absurd rfl (unproxied b ending)
    | _ => rfl
  simp only [Request.step, here] at taken
  split at taken
  next =>
    cases taken
    exact quiet .stats (by simp)
  next =>
    split at taken
    next =>
      cases taken
      exact quiet .dashboard (by simp)
    next =>
      split at taken
      next => cases taken
      next unlocked =>
        split at taken
        next g found =>
          cases taken
          refine .idle _ rfl rfl (by rw [here]; rfl) (by rw [here]; rfl) rfl (by rw [here]; rfl) ?_ nofun
          intro g' same
          cases same
          exact ⟨here, by simpa using unlocked, found⟩
        next =>
          cases taken
          exact quiet .notFound (by simp)

theorem selectBackend_change {g : GroupId} (here : q.phase = .routed g)
    (taken : q.step reg locked refs .selectBackend = some (q', reg')) :
    q.Change reg locked refs q' reg' := by
  simp only [Request.step, here] at taken
  split at taken
  next b found =>
    split at taken
    next =>
      cases taken
      exact .select g b here found rfl rfl
    next => cases taken
  next =>
    cases taken
    exact .idle _ rfl rfl (by rw [here]; rfl) (by rw [here]; rfl) rfl (by rw [here]; rfl) nofun nofun

theorem Request.step_change {move : Move}
    (taken : q.step reg locked refs move = some (q', reg')) : q.Change reg locked refs q' reg' := by
  have whole := taken
  unfold Request.step at taken
  split at taken
  next here => exact findGroup_change here whole
  next here => exact selectBackend_change here whole
  next b here =>
    split at taken
    next =>
      cases taken
      exact .wait b _ (by rw [here]; rfl) rfl rfl rfl
    next => cases taken
  next b here =>
    cases taken
    exact .wait b _ (by rw [here]; rfl) rfl rfl rfl
  next b here =>
    cases taken
    exact .abandon b _ (by rw [here]; rfl) (Or.inl rfl) rfl rfl
  next b here =>
    cases taken
    exact .abandon b _ (by rw [here]; rfl) (Or.inr rfl) rfl rfl
  next b here =>
    split at taken
    next => cases taken
    next => exact openGuard_change (by rw [here]; rfl) taken
  next b here => exact openGuard_change (by rw [here]; rfl) taken
  next guard here => exact badGateway_change (by rw [here]; rfl) taken
  next guard here =>
    cases taken
    exact .idle _ rfl rfl (by rw [here]; rfl) (by rw [here]; rfl) rfl (by rw [here]; rfl) nofun nofun
  next guard here =>
    cases taken
    cases q.upgrade with
    | true =>
      exact .idle _ rfl rfl (by rw [here]; rfl) (by rw [here]; rfl) rfl (by rw [here]; rfl) nofun nofun
    | false =>
      exact .idle _ rfl rfl (by rw [here]; rfl) (by rw [here]; rfl) rfl (by rw [here]; rfl) nofun nofun
  next guard here => exact badGateway_change (by rw [here]; rfl) taken
  next guard here => exact dropGuard_change (by rw [here]; rfl) taken
  next guard here => exact dropGuard_change (by rw [here]; rfl) taken
  next guard here => exact dropGuard_change (by rw [here]; rfl) taken
  next guard here => exact dropGuard_change (by rw [here]; rfl) taken
  next guard here => exact dropGuard_change (by rw [here]; rfl) taken
  next guard here => exact dropGuard_change (by rw [here]; rfl) taken
  next body here => exact dropGuard_change (by rw [here]; rfl) taken
  next => cases taken

/-- A request writes into backends and nothing else. -/
theorem Request.Change.table (change : q.Change reg locked refs q' reg') :
    reg'.groupAt = reg.groupAt ∧ reg'.groups = reg.groups ∧
      reg'.backendAt.size = reg.backendAt.size := by
  cases change with
  | idle phase next same => subst same; exact ⟨rfl, rfl, rfl⟩
  | select g b here found next same => subst same; exact ⟨rfl, rfl, rfl⟩
  | wait b phase here there next same => subst same; exact ⟨rfl, rfl, rfl⟩
  | abandon b outcome here failed next same => subst same; exact ⟨rfl, rfl, rfl⟩
  | opened b here few next written =>
    subst written
    exact ⟨rfl, rfl, BackendRegistry.size_write ..⟩
  | closed guard ending errors here counted next =>
    obtain ⟨-, rfl⟩ := Prod.mk.inj next
    rcases counted with rfl | rfl
    · exact ⟨rfl, rfl, BackendRegistry.size_write ..⟩
    · exact ⟨rfl, rfl, (BackendRegistry.size_write ..).trans (BackendRegistry.size_write ..)⟩

end StepChange

end TinyLb.Traffic
