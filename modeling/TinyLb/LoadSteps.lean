import TinyLb.Admission
import TinyLb.Balancing

/-! `select_backend` one load at a time. The call holds the read lock on its group from the first load
to the return; connections are opened and closed in between, and backends of other groups are updated. -/

namespace TinyLb.LoadSteps
open Config Backends Merge Traffic ConnectionLedger Machine

/-- What is loaded next of the backend at hand; `max_connections` is loaded after `active`. -/
inductive Field where
  | drain
  | healthy
  | activeConnections
  | maxConnections (active : UInt64)
  deriving DecidableEq, Repr

/-- A call of `select_backend`: the request that makes it, the backends it has still to visit, `best` and
`best_count`. -/
structure Call where
  request : Nat
  group : GroupId
  todo : List BackendId
  field : Field
  best : Option BackendId
  bestCount : UInt64
  deriving DecidableEq, Repr

namespace Call

def enter (reg : BackendRegistry) (r : Nat) (g : GroupId) : Call :=
  ⟨r, g, (reg.group g).backends, .drain, none, usizeMax⟩

/-- One load, and where it takes the loop. -/
def load (reg : BackendRegistry) (c : Call) : Option Call :=
  match c.todo with
  | [] => none
  | b :: rest =>
      let next := { c with todo := rest, field := .drain }
      match c.field with
      | .drain => some (if (reg.backend b).drain then next else { c with field := .healthy })
      | .healthy => some (if (reg.backend b).healthy then { c with field := .activeConnections } else next)
      | .activeConnections => some { c with field := .maxConnections (reg.backend b).activeConnections }
      | .maxConnections active =>
          some (if active ≥ (reg.backend b).maxConnections then next
            else if active < c.bestCount then { next with best := some b, bestCount := active }
            else next)

/-- The call may still return the backend. -/
def considers (b : BackendId) (c : Call) : Bool := c.todo.contains b || c.best == some b

/-- The call has loaded fewer than `limit` connections of the backend. -/
def hasRead (b : BackendId) (limit : Nat) (c : Call) : Bool :=
  (c.best == some b && c.bestCount.toNat < limit) ||
    match c.todo, c.field with
    | e :: _, .maxConnections active => e == b && active.toNat < limit
    | _, _ => false

end Call

structure State where
  system : System
  calls : List Call

def State.start (reg : BackendRegistry) (routes : List RouteConfig) : State := ⟨.start reg routes, []⟩

/-- The requests that may be given `b`, or have been given it and have not opened a connection. -/
def State.considering (s : State) (b : BackendId) : Nat :=
  s.calls.countP (Call.considers b) + s.system.pending b

inductive Action where
  | traffic (action : Traffic.Action)
  | enter (r : Nat)
  | load (k : Nat)
  | leave (k : Nat)

/-- Selections are made of loads here, and a reload waits for the lock on the group it is about to write. -/
def State.bars (s : State) : Traffic.Action → Bool
  | .advance _ .selectBackend => true
  | .reloadRoute =>
      match s.system.reload with
      | some ⟨_, _, route :: _, _⟩ => s.calls.any fun c => s.system.reg.locateGroup route.host == some c.group
      | _ => false
  | _ => false

def answer : Option BackendId → Phase
  | some b => .chosen b
  | none => .finished .serviceUnavailable

/-- The call returns; `best.cloned()` counts a clone of the `Arc`. -/
def State.leave (s : State) (k : Nat) (c : Call) (q : Request) : Option State :=
  if c.best.all fun b => s.system.refs b ≤ isizeMax then
    some ⟨{ s.system with requests := s.system.requests.set c.request (q.enter (answer c.best)) },
      s.calls.eraseIdx k⟩
  else none

def step : Action → State → Option State
  | .traffic action, s =>
      if s.bars action then none else (Traffic.step action s.system).map fun system => { s with system := system }
  | .enter r, s =>
      match s.system.requests[r]? with
      | none => none
      | some q =>
          match q.phase with
          | .routed g =>
              if s.calls.any fun c => c.request == r then none
              else some { s with calls := s.calls ++ [.enter s.system.reg r g] }
          | _ => none
  | .load k, s =>
      match s.calls[k]? with
      | none => none
      | some c => (c.load s.system.reg).map fun c' => { s with calls := s.calls.set k c' }
  | .leave k, s =>
      match s.calls[k]? with
      | none => none
      | some c =>
          match c.todo, s.system.requests[c.request]? with
          | [], some q =>
              match q.phase with
              | .routed _ => s.leave k c q
              | _ => none
          | _, _ => none

inductive Change (s t : State) : Prop
  | traffic (action : Traffic.Action) (free : s.bars action = false)
      (taken : Traffic.step action s.system = some t.system) (same : t.calls = s.calls)
  | enter (r : Nat) (q : Request) (g : GroupId) (here : s.system.requests[r]? = some q)
      (routed : q.phase = .routed g) (next : t = { s with calls := s.calls ++ [.enter s.system.reg r g] })
  | load (front back : List Call) (c c' : Call) (here : s.calls = front ++ c :: back)
      (loaded : c.load s.system.reg = some c') (next : t = { s with calls := front ++ c' :: back })
  | leave (front back : List Call) (c : Call) (q : Request) (g : GroupId) (here : s.calls = front ++ c :: back)
      (done : c.todo = []) (found : s.system.requests[c.request]? = some q) (routed : q.phase = .routed g)
      (system : t.system =
        { s.system with requests := s.system.requests.set c.request (q.enter (answer c.best)) })
      (calls : t.calls = front ++ back)

/-- What one load decides about the backend at hand. -/
inductive Visit (reg : BackendRegistry) (c c' : Call) : Prop
  | onward (e : BackendId) (rest : List BackendId) (field : Field) (here : c.todo = e :: rest)
      (next : c' = { c with field := field })
      (read : ∀ active, field = .maxConnections active → active = (reg.backend e).activeConnections)
  | skip (e : BackendId) (rest : List BackendId) (here : c.todo = e :: rest)
      (next : c' = { c with todo := rest, field := .drain })
      (reason : (reg.backend e).drain = true ∨ (reg.backend e).healthy = false ∨
        ∃ active, c.field = .maxConnections active ∧
          ((reg.backend e).maxConnections ≤ active ∨ c.bestCount ≤ active))
  | pick (e : BackendId) (rest : List BackendId) (active : UInt64) (here : c.todo = e :: rest)
      (read : c.field = .maxConnections active) (room : active < (reg.backend e).maxConnections)
      (fewer : active < c.bestCount)
      (next : c' = { c with todo := rest, field := .drain, best := some e, bestCount := active })

section Steps
variable {s t : State} {c c' : Call} {b : BackendId}

theorem split_at {α : Type} {l : List α} {k : Nat} {x : α} (here : l[k]? = some x) :
    ∃ front back, l = front ++ x :: back ∧ front.length = k := by
  obtain ⟨below, rfl⟩ := List.getElem?_eq_some_iff.mp here
  refine ⟨l.take k, l.drop (k + 1), ?_, List.length_take_of_le (Nat.le_of_lt below)⟩
  rw [← List.drop_eq_getElem_cons below, List.take_append_drop]

theorem step_change {action : Action} (taken : step action s = some t) : Change s t := by
  cases action with
  | traffic action =>
    rw [step] at taken
    split at taken
    next => cases taken
    next free =>
      obtain ⟨system, moved, rfl⟩ := Option.map_eq_some_iff.mp taken
      exact .traffic action (Bool.eq_false_iff.mpr free) moved rfl
  | enter r =>
    simp only [step] at taken
    split at taken
    next => cases taken
    next q here =>
      split at taken
      next g routed =>
        split at taken
        next => cases taken
        next =>
          cases taken
          exact .enter r q g here routed rfl
      next => cases taken
  | load k =>
    simp only [step] at taken
    split at taken
    next => cases taken
    next c here =>
      obtain ⟨front, back, whole, rfl⟩ := split_at here
      obtain ⟨c', loaded, rfl⟩ := Option.map_eq_some_iff.mp taken
      refine .load front back c c' whole loaded ?_
      rw [whole, List.set_append_right _ _ (Nat.le_refl _), Nat.sub_self, List.set_cons_zero]
  | leave k =>
    simp only [step] at taken
    split at taken
    next => cases taken
    next c here =>
      obtain ⟨front, back, whole, rfl⟩ := split_at here
      split at taken
      next q done found =>
        split at taken
        next g routed =>
          rw [State.leave] at taken
          split at taken
          next =>
            cases taken
            refine .leave front back c q g whole done found routed rfl ?_
            rw [whole, List.eraseIdx_append_of_length_le (Nat.le_refl _), Nat.sub_self, List.eraseIdx_cons_zero]
          next => cases taken
        next => cases taken
      next => cases taken

theorem considers_iff : c.considers b = true ↔ b ∈ c.todo ∨ c.best = some b := by
  rw [Call.considers, Bool.or_eq_true, List.contains_iff_mem, beq_iff_eq]

theorem load_visit {reg : BackendRegistry} (loaded : c.load reg = some c') : Visit reg c c' := by
  unfold Call.load at loaded
  split at loaded
  next => cases loaded
  next e rest todo =>
    split at loaded
    next field =>
      split at loaded
      next drained => cases loaded; exact .skip e rest todo rfl (Or.inl drained)
      next => cases loaded; exact .onward e rest .healthy todo rfl nofun
    next field =>
      split at loaded
      next => cases loaded; exact .onward e rest .activeConnections todo rfl nofun
      next down => cases loaded; exact .skip e rest todo rfl (Or.inr (Or.inl (Bool.eq_false_iff.mpr down)))
    next field =>
      cases loaded
      exact .onward e rest (.maxConnections (reg.backend e).activeConnections) todo rfl
        fun active same => (Field.maxConnections.inj same).symm
    next active field =>
      split at loaded
      next full => cases loaded; exact .skip e rest todo rfl (Or.inr (Or.inr ⟨active, field, Or.inl full⟩))
      next room =>
        split at loaded
        next fewer => cases loaded; exact .pick e rest active todo field (UInt64.not_le.mp room) fewer rfl
        next more =>
          cases loaded
          exact .skip e rest todo rfl (Or.inr (Or.inr ⟨active, field, Or.inr (UInt64.not_lt.mp more)⟩))

theorem visit_considers {reg : BackendRegistry} (visit : Visit reg c c') (may : c'.considers b = true) :
    c.considers b = true := by
  rw [considers_iff] at may ⊢
  cases visit with
  | onward e rest field here next read =>
    subst next
    exact may
  | skip e rest here next reason =>
    subst next
    exact may.imp_left fun later => here ▸ List.mem_cons_of_mem e later
  | pick e rest active here read room fewer next =>
    subst next
    refine Or.inl (here ▸ ?_)
    rcases may with later | best
    · exact List.mem_cons_of_mem e later
    · exact Option.some.inj best ▸ List.mem_cons_self ..

theorem hasRead_iff {limit : Nat} : c.hasRead b limit = true ↔ (c.best = some b ∧ c.bestCount.toNat < limit) ∨
    ∃ rest active, c.todo = b :: rest ∧ c.field = .maxConnections active ∧ active.toNat < limit := by
  unfold Call.hasRead
  rw [Bool.or_eq_true, Bool.and_eq_true, beq_iff_eq, decide_eq_true_eq]
  refine or_congr_right ?_
  split
  next e rest active todo field =>
    rw [Bool.and_eq_true, beq_iff_eq, decide_eq_true_eq, todo, field]
    constructor
    · rintro ⟨rfl, below⟩
      exact ⟨rest, active, rfl, rfl, below⟩
    · rintro ⟨_, _, head, same, below⟩
      cases head
      cases same
      exact ⟨rfl, below⟩
  next other =>
    refine ⟨nofun, ?_⟩
    rintro ⟨rest, active, todo, field, -⟩
    exact absurd field (other b rest active todo)

theorem considers_of_hasRead {limit : Nat} (read : c.hasRead b limit = true) : c.considers b = true := by
  rw [considers_iff]
  rcases hasRead_iff.mp read with ⟨best, -⟩ | ⟨rest, active, todo, -⟩
  · exact Or.inr best
  · exact Or.inl (todo ▸ List.mem_cons_self ..)

/-- A call that comes to have read `b` below a limit loads its counter then. -/
theorem visit_hasRead {reg : BackendRegistry} {limit : Nat} (visit : Visit reg c c')
    (reads : c'.hasRead b limit = true) :
    c.hasRead b limit = true ∨ (reg.backend b).activeConnections.toNat < limit := by
  rw [hasRead_iff] at reads ⊢
  cases visit with
  | onward e rest field here next read =>
    subst next
    rcases reads with best | ⟨rest', active, todo, loaded, below⟩
    · exact Or.inl (Or.inl best)
    · cases here.symm.trans todo
      exact Or.inr (read active loaded ▸ below)
  | skip e rest here next reason =>
    subst next
    rcases reads with best | ⟨rest', active, todo, loaded, below⟩
    · exact Or.inl (Or.inl best)
    · cases loaded
  | pick e rest active here read room fewer next =>
    subst next
    rcases reads with ⟨best, below⟩ | ⟨rest', active', todo, loaded, below⟩
    · cases best
      exact Or.inl (Or.inr ⟨rest, active, here, read, below⟩)
    · cases loaded

end Steps

/-- Every call is on a group of the table it was routed with, and what it may return is in the list of the
group, which cannot be written meanwhile. -/
structure Sound (s : State) : Prop where
  ledger : Ledger s.system
  known : ∀ c ∈ s.calls, c.group < s.system.reg.groupAt.size
  listed : ∀ c ∈ s.calls, ∀ b, c.considers b = true → b ∈ (s.system.reg.group c.group).backends

theorem sound_start {now : Instant} {routes : List RouteConfig} {reg : BackendRegistry}
    (built : BackendRegistry.new now routes = .ok reg) : Sound (.start reg routes) :=
  ⟨ledger_start built, nofun, nofun⟩

section Kept
variable {s t : State}

theorem cap_write (reg : BackendRegistry) (e b : BackendId) {f : Backend → Backend}
    (same : ∀ x, (f x).maxConnections = x.maxConnections) :
    ((reg.write e f).backend b).maxConnections = (reg.backend b).maxConnections :=
  Arena.get_modify_field Backend.maxConnections reg.backendAt same e b

theorem traffic_locked {action : Traffic.Action} {system : System} (sound : Sound s) (free : s.bars action = false)
    (taken : Traffic.step action s.system = some system) {c : Call} (member : c ∈ s.calls) :
    c.group < system.reg.groupAt.size ∧
      (system.reg.group c.group).backends = (s.system.reg.group c.group).backends ∧
      ∀ b ∈ (s.system.reg.group c.group).backends,
        (system.reg.backend b).maxConnections = (s.system.reg.backend b).maxConnections := by
  have known := sound.known c member
  cases action with
  | arrive path host upgrade => cases taken; exact ⟨known, rfl, fun _ _ => rfl⟩
  | advance r move =>
    obtain ⟨q, q', reg, here, moved, rfl⟩ := advance_cases taken
    have change := Request.step_change moved
    have table := change.table.1
    refine ⟨table ▸ known, by simp only [BackendRegistry.group, table], fun b _ => ?_⟩
    cases change with
    | opened e here few next written =>
      exact written ▸ cap_write s.system.reg e b (f := Backend.connect) fun _ => rfl
    | closed guard ending errors held counted next =>
      obtain ⟨-, rfl⟩ := Prod.mk.inj next
      refine (cap_write errors guard.backend b (f := Backend.disconnect) fun _ => rfl).trans ?_
      rcases counted with rfl | rfl
      · rfl
      · exact cap_write s.system.reg guard.backend b (f := Backend.countError) fun _ => rfl
    | idle phase next same | select g e here found next same | wait e phase here there next same
    | abandon e outcome here failed next same => rw [same]
  | probe e now healthy =>
    cases taken
    exact ⟨known, rfl, fun b _ => cap_write s.system.reg e b (f := Backend.probed now healthy) fun _ => rfl⟩
  | sample e =>
    cases taken
    exact ⟨known, rfl, fun b _ => cap_write s.system.reg e b (f := Backend.takeErrors) fun _ => rfl⟩
  | reloadStart now routes =>
    rcases (reloadStart_cases taken).2 with ⟨e, -, rfl⟩ | ⟨-, rfl⟩ <;> exact ⟨known, rfl, fun _ _ => rfl⟩
  | reloadRoute =>
    obtain ⟨now, routes, route, todo, newGroups, g, reg, installing, applied, rfl⟩ := reloadRoute_cases taken
    have valid := sound.ledger.valid
    have other : g ≠ c.group := by
      rcases applyRoute_cases applied with ⟨found, -⟩ | ⟨-, fresh, -⟩
      · rintro rfl
        simp only [State.bars, installing, found, List.any_eq_false, beq_iff_eq] at free
        exact free c member rfl
      · exact fresh ▸ (Nat.ne_of_lt known).symm
    have group := Reload.group_applyRoute_of_ne applied known other
    have configs := congrArg RouteConfig.backends (route_applyRoute_of_ne valid applied other known)
    refine ⟨Nat.lt_of_lt_of_le known (applyRoute_kept valid applied).groups, congrArg _ group, fun b listed => ?_⟩
    simp only [BackendRegistry.route, group] at configs
    exact congrArg BackendConfig.maxConnections (List.map_inj_left.mp configs b listed)
  | reloadSwap =>
    obtain ⟨now, routes, newGroups, installing, rfl⟩ := reloadSwap_cases taken
    exact ⟨known, rfl, fun _ _ => rfl⟩

theorem answer_phase (best : Option BackendId) :
    (answer best).guard = none ∧ (answer best).pending = best ∧ (answer best).counted = [] ∧
      ∀ g, answer best ≠ .routed g := by
  cases best <;> exact ⟨rfl, rfl, rfl, nofun⟩

section Leave
variable {r : Nat} {q : Request} {g : GroupId} {best : Option BackendId} {system : System}

theorem leave_counts (found : s.system.requests[r]? = some q) (routed : q.phase = .routed g)
    (left : system = { s.system with requests := s.system.requests.set r (q.enter (answer best)) })
    (b : BackendId) : system.guards b = s.system.guards b ∧
      system.pending b = s.system.pending b + if best = some b then 1 else 0 := by
  have guards := guards_set (s := s.system) found s.system.reg b (by rw [routed])
    (show (q.enter (answer best)).phase.guard = none from (answer_phase best).1)
  have pending := pending_set (s := s.system) found s.system.reg b (by rw [routed])
    (show (q.enter (answer best)).phase.pending = best from (answer_phase best).2.1)
  rw [left]
  exact ⟨Nat.add_right_cancel guards, pending⟩

theorem leave_ledger (ledger : Ledger s.system) (found : s.system.requests[r]? = some q)
    (routed : q.phase = .routed g) (known : ∀ b, best = some b → b < s.system.reg.backendAt.size)
    (left : system = { s.system with requests := s.system.requests.set r (q.enter (answer best)) }) :
    Ledger system := by
  obtain ⟨unheld, pending, counted, unrouted⟩ := answer_phase best
  have balanced : ∀ b, Slots.Balanced (slotOf system b) := by
    intro b
    have guards := (leave_counts found routed left b).1
    simp only [Slots.Balanced, slotOf, guards]
    rw [left]
    exact ledger.balanced b
  refine ⟨?_, balanced⟩
  subst left
  refine ⟨ledger.valid, fun x member => ?_, ledger.installing⟩
  rcases List.mem_or_eq_of_mem_set member with old | rfl
  · exact ledger.fits x old
  · have fits := ledger.fits q (List.mem_of_getElem? found)
    refine ⟨fun g here => absurd here (unrouted g), fun b here => known b (pending.symm.trans here),
      fun held here => ?_, ?_⟩
    · have wrong : none = some held := unheld.symm.trans here
      cases wrong
    · exact fits.counted.trans (routed ▸ counted.symm)

end Leave

theorem change_sound (sound : Sound s) (change : Change s t) : Sound t := by
  cases change with
  | traffic action free taken same =>
    refine ⟨step_ledger action _ _ sound.ledger taken, ?_, ?_⟩ <;> rw [same] <;> intro c member
    · exact (traffic_locked sound free taken member).1
    · intro b may
      rw [(traffic_locked sound free taken member).2.1]
      exact sound.listed c member b may
  | enter r q g here routed next =>
    subst next
    have fits := sound.ledger.fits q (List.mem_of_getElem? here)
    refine ⟨sound.ledger, fun c member => ?_, fun c member b may => ?_⟩
    · rcases List.mem_append.mp member with old | new
      · exact sound.known c old
      · rw [List.mem_singleton.mp new]
        exact fits.routed g routed
    · rcases List.mem_append.mp member with old | new
      · exact sound.listed c old b may
      · cases List.mem_singleton.mp new
        rcases considers_iff.mp may with listed | wrong
        · exact listed
        · cases wrong
  | load front back c c' here loaded next =>
    subst next
    have visit := load_visit loaded
    have group : c'.group = c.group := by
      cases visit with
      | onward e rest field here next read => rw [next]
      | skip e rest here next reason => rw [next]
      | pick e rest active here read room fewer next => rw [next]
    have inside : c ∈ s.calls := here ▸ List.mem_append_right _ (List.mem_cons_self ..)
    have others : ∀ x ∈ front ++ c' :: back, x ∈ s.calls ∨ x = c' := by
      intro x member
      rw [here]
      rcases List.mem_append.mp member with before | after
      · exact Or.inl (List.mem_append_left _ before)
      · rcases List.mem_cons.mp after with same | later
        · exact Or.inr same
        · exact Or.inl (List.mem_append_right _ (List.mem_cons_of_mem _ later))
    refine ⟨sound.ledger, fun x member => ?_, fun x member b may => ?_⟩
    · rcases others x member with old | rfl
      · exact sound.known x old
      · exact group ▸ sound.known c inside
    · rcases others x member with old | rfl
      · exact sound.listed x old b may
      · exact group ▸ sound.listed c inside b (visit_considers visit may)
  | leave front back c q g here done found routed system calls =>
    have inside : c ∈ s.calls := here ▸ List.mem_append_right _ (List.mem_cons_self ..)
    have subset : ∀ x ∈ t.calls, x ∈ s.calls := by
      intro x member
      rw [calls] at member
      rw [here]
      exact (List.sublist_append_right [c] back).append_left front |>.subset member
    have known : ∀ b, c.best = some b → b < s.system.reg.backendAt.size := fun b best =>
      sound.ledger.valid.owned _ b (sound.listed c inside b (considers_iff.mpr (Or.inr best)))
    have same : t.system.reg = s.system.reg := by rw [system]
    have ledger := leave_ledger sound.ledger found routed known system
    refine ⟨ledger, fun x member => ?_, fun x member => ?_⟩ <;> rw [same]
    · exact sound.known x (subset x member)
    · exact sound.listed x (subset x member)

theorem step_sound (action : Action) (s t : State) (sound : Sound s) (taken : step action s = some t) : Sound t :=
  change_sound sound (step_change taken)

end Kept

section Crowd
variable {s t : State} {I I' : Call → Prop} {b : BackendId} {n d low low' : Nat}

/-- The connections of `b`, the requests that have been given it and the calls that have read its counter
below a limit stay within `d` of the limit, less one. Calls that were under way at first count whatever they
have read; `I` is what is known of the others. -/
def Crowded (I : Call → Prop) (b : BackendId) (d low : Nat) (s : State) : Prop :=
  ∃ olds news, s.calls = olds ++ news ∧ (∀ c ∈ news, I c) ∧
    ∀ limit, low ≤ limit → s.system.guards b + s.system.pending b + olds.countP (Call.considers b) +
      news.countP (Call.hasRead b limit) ≤ limit + d - 1

theorem Crowded.bound (crowded : Crowded I b d low s) : s.system.guards b + s.system.pending b ≤ low + d - 1 := by
  obtain ⟨olds, news, -, -, within⟩ := crowded
  have here := within low (Nat.le_refl low)
  omega

theorem append_eq_split {α : Type} {olds news front back : List α} {x : α}
    (same : olds ++ news = front ++ x :: back) :
    (∃ mid, olds = front ++ x :: mid ∧ back = mid ++ news) ∨
      ∃ mid, front = olds ++ mid ∧ news = mid ++ x :: back := by
  rcases List.append_eq_append_iff.mp same with ⟨mid, first, second⟩ | ⟨mid, first, second⟩
  · exact Or.inr ⟨mid, first, second⟩
  · cases mid with
    | nil =>
      rw [List.append_nil] at first
      exact Or.inr ⟨[], by rw [first, List.append_nil], second.symm⟩
    | cons y mid =>
      cases second
      exact Or.inl ⟨mid, first, rfl⟩

theorem traffic_committed {action : Traffic.Action} {system : System} (sound : Sound s) (free : s.bars action = false)
    (taken : Traffic.step action s.system = some system) (b : BackendId) :
    system.guards b + system.pending b ≤ s.system.guards b + s.system.pending b := by
  rcases (step_slot sound.ledger.toWellFormed taken b).committed with fewer | ⟨-, more⟩
  · exact fewer
  · obtain ⟨r, q, g, rfl, -⟩ := Admission.pending_grows taken more
    cases free

theorem considers_visit_le {reg : BackendRegistry} {c c' : Call} (visit : Visit reg c c') :
    (if c'.considers b = true then 1 else 0) ≤ if c.considers b = true then 1 else 0 := by
  split
  next may => rw [if_pos (visit_considers visit may)]
  next => exact Nat.zero_le _

/-- A call that loads the counter of `b` below the limit finds room for all that consider it. -/
theorem hasRead_visit_le {limit : Nat} {olds front back : List Call} {c c' : Call} (sound : Sound s)
    (visit : Visit s.system.reg c c') (few : State.considering ⟨s.system, olds ++ (front ++ c' :: back)⟩ b ≤ d)
    (before : s.system.guards b + s.system.pending b + olds.countP (Call.considers b) +
      (front ++ c :: back).countP (Call.hasRead b limit) ≤ limit + d - 1) :
    s.system.guards b + s.system.pending b + olds.countP (Call.considers b) +
      (front ++ c' :: back).countP (Call.hasRead b limit) ≤ limit + d - 1 := by
  by_cases reads : c'.hasRead b limit = true
  · rcases visit_hasRead visit reads with earlier | below
    · simp only [List.countP_append, List.countP_cons, earlier, reads, if_true] at before ⊢
      exact before
    · have reading : (front ++ c' :: back).countP (Call.hasRead b limit) ≤
          (front ++ c' :: back).countP (Call.considers b) :=
        List.countP_mono_left fun x _ read => considers_of_hasRead read
      have counter : (s.system.reg.backend b).activeConnections.toNat = s.system.guards b := sound.ledger.balanced b
      rw [State.considering, List.countP_append] at few
      change _ + s.system.pending b ≤ d at few
      rw [counter] at below
      omega
  · simp only [List.countP_append, List.countP_cons, if_neg reads] at before ⊢
    omega

theorem crowded_load {front back : List Call} {c c' : Call} (sound : Sound s) (here : s.calls = front ++ c :: back)
    (visit : Visit s.system.reg c c') (few : State.considering ⟨s.system, front ++ c' :: back⟩ b ≤ d)
    (raised : low ≤ low') (kept : ∀ x ∈ s.calls, I x → I' x) (moved : I c → I' c') (crowded : Crowded I b d low s) :
    Crowded I' b d low' { s with calls := front ++ c' :: back } := by
  obtain ⟨olds, news, whole, known, within⟩ := crowded
  have inside : ∀ x ∈ news, x ∈ s.calls := fun x member => whole ▸ List.mem_append_right _ member
  rcases append_eq_split (whole.symm.trans here) with ⟨mid, rfl, rfl⟩ | ⟨mid, rfl, rfl⟩
  · refine ⟨front ++ c' :: mid, news, by simp, fun x member => kept x (inside x member) (known x member),
      fun limit above => ?_⟩
    have before := within limit (Nat.le_trans raised above)
    have fewer := considers_visit_le (b := b) visit
    simp only [List.countP_append, List.countP_cons] at before ⊢
    omega
  · rw [List.append_assoc] at few
    refine ⟨olds, mid ++ c' :: back, List.append_assoc .., fun x member => ?_, fun limit above => ?_⟩
    · rcases List.mem_append.mp member with before | after
      · exact kept x (inside x (List.mem_append_left _ before)) (known x (List.mem_append_left _ before))
      · rcases List.mem_cons.mp after with rfl | later
        · exact moved (known c (List.mem_append_right _ (List.mem_cons_self ..)))
        · have behind : x ∈ mid ++ c :: back := List.mem_append_right _ (List.mem_cons_of_mem _ later)
          exact kept x (inside x behind) (known x behind)
    · exact hasRead_visit_le (s := s) sound visit few (within limit (Nat.le_trans raised above))

theorem crowded_leave {front back : List Call} {c : Call} (here : s.calls = front ++ c :: back)
    (calls : t.calls = front ++ back) (guards : t.system.guards b = s.system.guards b)
    (pending : t.system.pending b = s.system.pending b + if c.best = some b then 1 else 0)
    (raised : low ≤ low') (kept : ∀ x ∈ s.calls, I x → I' x)
    (chosen : I c → c.best = some b → c.bestCount.toNat < low) (crowded : Crowded I b d low s) :
    Crowded I' b d low' t := by
  obtain ⟨olds, news, whole, known, within⟩ := crowded
  have inside : ∀ x ∈ news, x ∈ s.calls := fun x member => whole ▸ List.mem_append_right _ member
  rcases append_eq_split (whole.symm.trans here) with ⟨mid, rfl, rfl⟩ | ⟨mid, rfl, rfl⟩
  · refine ⟨front ++ mid, news, by rw [calls, List.append_assoc],
      fun x member => kept x (inside x member) (known x member), fun limit above => ?_⟩
    have before := within limit (Nat.le_trans raised above)
    have counted : (if c.best = some b then 1 else 0) ≤ if c.considers b = true then 1 else 0 := by
      split
      next best => rw [if_pos (considers_iff.mpr (Or.inr best))]
      next => exact Nat.zero_le _
    simp only [List.countP_append, List.countP_cons] at before ⊢
    omega
  · refine ⟨olds, mid ++ back, by rw [calls, List.append_assoc], fun x member => ?_, fun limit above => ?_⟩
    · have behind : x ∈ mid ++ c :: back :=
        (List.sublist_append_right [c] back).append_left mid |>.subset member
      exact kept x (inside x behind) (known x behind)
    · have before := within limit (Nat.le_trans raised above)
      have counted : (if c.best = some b then 1 else 0) ≤ if c.hasRead b limit = true then 1 else 0 := by
        split
        next best =>
          have below := chosen (known c (List.mem_append_right _ (List.mem_cons_self ..))) best
          rw [if_pos (hasRead_iff.mpr (Or.inl ⟨best, by omega⟩))]
        next => exact Nat.zero_le _
      simp only [List.countP_append, List.countP_cons] at before ⊢
      omega

theorem change_crowded (sound : Sound s) (change : Change s t) (few : t.considering b ≤ n) (le : n ≤ d)
    (raised : low ≤ low') (kept : ∀ c ∈ s.calls, I c → I' c) (entered : ∀ r g, I' (.enter s.system.reg r g))
    (moved : ∀ c ∈ s.calls, ∀ c', I c → Visit s.system.reg c c' → I' c')
    (chosen : ∀ c, I c → c.todo = [] → c.best = some b → c.bestCount.toNat < low)
    (crowded : Crowded I b d low s) : Crowded I' b d low' t := by
  cases change with
  | traffic action free taken same =>
    obtain ⟨olds, news, whole, known, within⟩ := crowded
    have inside : ∀ c ∈ news, c ∈ s.calls := fun c member => whole ▸ List.mem_append_right _ member
    refine ⟨olds, news, same.trans whole, fun c member => kept c (inside c member) (known c member),
      fun limit above => ?_⟩
    have fewer := traffic_committed sound free taken b
    have before := within limit (Nat.le_trans raised above)
    omega
  | enter r q g here routed next =>
    subst next
    obtain ⟨olds, news, whole, known, within⟩ := crowded
    have inside : ∀ c ∈ news, c ∈ s.calls := fun c member => whole ▸ List.mem_append_right _ member
    refine ⟨olds, news ++ [.enter s.system.reg r g], ?_, fun c member => ?_, fun limit above => ?_⟩
    · rw [whole, List.append_assoc]
    · rcases List.mem_append.mp member with old | new
      · exact kept c (inside c old) (known c old)
      · exact List.mem_singleton.mp new ▸ entered r g
    · have unread : Call.hasRead b limit (.enter s.system.reg r g) = false := by
        rw [Bool.eq_false_iff, Ne, hasRead_iff]
        rintro (⟨best, -⟩ | ⟨rest, active, -, field, -⟩)
        · cases best
        · cases field
      rw [List.countP_append, List.countP_singleton, unread]
      exact within limit (Nat.le_trans raised above)
  | load front back c c' here loaded next =>
    subst next
    have visit := load_visit loaded
    have member : c ∈ s.calls := here ▸ List.mem_append_right _ (List.mem_cons_self ..)
    exact crowded_load sound here visit (Nat.le_trans few le) raised kept
      (fun known => moved c member c' known visit) crowded
  | leave front back c q g here done found routed system calls =>
    obtain ⟨guards, pending⟩ := leave_counts found routed system b
    exact crowded_leave here calls guards pending raised kept (fun known => chosen c known done) crowded

end Crowd

/-- The requests that are about to select a backend or to connect to `b`. -/
def mayConnect (b : BackendId) : Phase → Bool
  | .routed _ => true
  | phase => phase.pending == some b

def booked (s : System) (b : BackendId) : Nat := s.requests.countP fun q => mayConnect b q.phase

section Alone
variable {P : System → Prop} {P' : State → Prop} {s t : System} {r : Nat} {g : GroupId} {q : Request}

theorem mayConnect_of_pending {b : BackendId} {phase : Phase} (waiting : (phase.pending == some b) = true) :
    mayConnect b phase = true := by
  cases phase with
  | routed g => rfl
  | _ => exact waiting

theorem considering_idle (s : System) (b : BackendId) : State.considering ⟨s, []⟩ b ≤ booked s b := by
  rw [State.considering, List.countP_nil, Nat.zero_add]
  exact List.countP_mono_left fun q _ waiting => mayConnect_of_pending waiting

theorem considering_calling {c : Call} (here : s.requests[c.request]? = some q) (routed : q.phase = .routed g)
    (b : BackendId) : State.considering ⟨s, [c]⟩ b ≤ booked s b := by
  obtain ⟨front, back, whole, -⟩ := split_at here
  have others (l : List Request) : (l.countP fun q => q.phase.pending == some b) ≤
      l.countP fun q => mayConnect b q.phase :=
    List.countP_mono_left fun q _ waiting => mayConnect_of_pending waiting
  have before := others front
  have after := others back
  have self : mayConnect b q.phase = true := by rw [routed]; rfl
  have unheld : (q.phase.pending == some b) = false := by rw [routed]; rfl
  have one : [c].countP (Call.considers b) ≤ 1 := List.countP_le_length
  rw [State.considering, System.pending, booked, whole]
  simp only [List.countP_append, List.countP_cons, self, unheld, Bool.false_eq_true, if_false, if_true] at one ⊢
  omega

theorem load_along {c : Call} (next : Call) {last : State} (here : P' ⟨s, [c]⟩) (loaded : c.load s.reg = some next)
    (later : Along step P' ⟨s, [next]⟩ last) : Along step P' ⟨s, [c]⟩ last :=
  .cons here (show step (.load 0) ⟨s, [c]⟩ = some ⟨s, [next]⟩ by simp [step, loaded]) later

/-- The loads of one backend, when nothing else happens. -/
theorem visit_along (during : ∀ c : Call, c.request = r → c.group = g → P' ⟨s, [c]⟩) (b : BackendId)
    (rest : List BackendId) (best : Option BackendId) (bestCount : UInt64) :
    Along step P' ⟨s, [⟨r, g, b :: rest, .drain, best, bestCount⟩]⟩
      ⟨s, [if Balancing.fits s.reg.backendAt b && decide ((s.reg.backend b).activeConnections < bestCount) then
        ⟨r, g, rest, .drain, some b, (s.reg.backend b).activeConnections⟩
        else ⟨r, g, rest, .drain, best, bestCount⟩]⟩ := by
  let visiting (field : Field) : Call := ⟨r, g, b :: rest, field, best, bestCount⟩
  let skipped : Call := ⟨r, g, rest, .drain, best, bestCount⟩
  have fits : Balancing.fits s.reg.backendAt b = (!(s.reg.backend b).drain && (s.reg.backend b).healthy &&
    decide ((s.reg.backend b).activeConnections < (s.reg.backend b).maxConnections)) := rfl
  rw [fits]
  cases drained : (s.reg.backend b).drain with
  | true =>
    have loaded : (visiting .drain).load s.reg = some skipped := by simp [visiting, skipped, Call.load, drained]
    exact load_along skipped (during _ rfl rfl) loaded (.refl (during _ rfl rfl))
  | false =>
    have first : (visiting .drain).load s.reg = some (visiting .healthy) := by simp [visiting, Call.load, drained]
    apply load_along (visiting .healthy) (during _ rfl rfl) first
    cases healthy : (s.reg.backend b).healthy with
    | false =>
      have loaded : (visiting .healthy).load s.reg = some skipped := by
        simp [visiting, skipped, Call.load, healthy]
      exact load_along skipped (during _ rfl rfl) loaded (.refl (during _ rfl rfl))
    | true =>
      have second : (visiting .healthy).load s.reg = some (visiting .activeConnections) := by
        simp [visiting, Call.load, healthy]
      apply load_along (visiting .activeConnections) (during _ rfl rfl) second
      apply load_along (visiting (.maxConnections (s.reg.backend b).activeConnections)) (during _ rfl rfl) rfl
      have third : (visiting (.maxConnections (s.reg.backend b).activeConnections)).load s.reg =
          some (if !false && true &&
              decide ((s.reg.backend b).activeConnections < (s.reg.backend b).maxConnections) &&
              decide ((s.reg.backend b).activeConnections < bestCount) then
            ⟨r, g, rest, .drain, some b, (s.reg.backend b).activeConnections⟩ else skipped) := by
        by_cases room : (s.reg.backend b).activeConnections < (s.reg.backend b).maxConnections
        · by_cases fewer : (s.reg.backend b).activeConnections < bestCount <;>
            simp [visiting, skipped, Call.load, room, UInt64.not_le.mpr room, fewer]
        · simp [visiting, skipped, Call.load, room, UInt64.not_lt.mp room]
      apply load_along _ (during _ rfl rfl) third
      exact .refl (during _ (by split <;> rfl) (by split <;> rfl))

theorem scan_along (during : ∀ c : Call, c.request = r → c.group = g → P' ⟨s, [c]⟩) (todo : List BackendId)
    (best : Option BackendId) (bestCount : UInt64) :
    ∃ last, Along step P' ⟨s, [⟨r, g, todo, .drain, best, bestCount⟩]⟩
      ⟨s, [⟨r, g, [], .drain, scan s.reg.backendAt todo best bestCount, last⟩]⟩ := by
  induction todo generalizing best bestCount with
  | nil => exact ⟨bestCount, .refl (during _ rfl rfl)⟩
  | cons b rest ih =>
    have visited := visit_along during b rest best bestCount
    rw [Balancing.scan_cons]
    change ∃ last, Along step P' _ ⟨s, [⟨r, g, [], .drain, if Balancing.fits s.reg.backendAt b &&
      decide ((s.reg.backend b).activeConnections < bestCount) then _ else _, last⟩]⟩
    split at visited
    next picked =>
      obtain ⟨last, along⟩ := ih (some b) (s.reg.backend b).activeConnections
      rw [if_pos picked]
      exact ⟨last, visited.trans along⟩
    next passed =>
      obtain ⟨last, along⟩ := ih best bestCount
      rw [if_neg passed]
      exact ⟨last, visited.trans along⟩

/-- And so it does what the selection in one step does. -/
theorem select_along (taken : Traffic.step (.advance r .selectBackend) s = some t)
    (during : ∀ c q, s.requests[c.request]? = some q → q.phase = .routed c.group → P' ⟨s, [c]⟩)
    (before : P' ⟨s, []⟩) (after : P' ⟨t, []⟩) : Along step P' ⟨s, []⟩ ⟨t, []⟩ := by
  obtain ⟨q, q', reg, here, moved, rfl⟩ := advance_cases taken
  cases routed : q.phase with
  | routed g =>
    have calling : ∀ c : Call, c.request = r → c.group = g → P' ⟨s, [c]⟩ := by
      rintro c rfl rfl
      exact during c q here routed
    have entered : step (.enter r) ⟨s, []⟩ = some ⟨s, [.enter s.reg r g]⟩ := by simp [step, here, routed]
    obtain ⟨last, scanned⟩ := scan_along calling (s.reg.group g).backends none usizeMax
    apply Along.cons before entered
    apply scanned.trans
    have left : step (.leave 0) ⟨s, [⟨r, g, [], .drain, s.reg.selectBackend g, last⟩]⟩ =
        some ⟨{ s with reg := reg, requests := s.requests.set r q' }, []⟩ := by
      simp only [Request.step, routed] at moved
      simp only [step, List.getElem?_cons_zero, here, routed, State.leave]
      split at moved
      next b found =>
        split at moved
        next few =>
          cases moved
          rw [found]
          simp [few, answer]
        next => cases moved
      next none =>
        cases moved
        rw [none]
        simp [answer]
    exact .cons (calling _ rfl rfl) left (.refl after)
  | _ => simp [Request.step, routed] at moved

theorem along_of_traffic (idle : ∀ v, P v → P' ⟨v, []⟩)
    (during : ∀ v c q, P v → v.requests[c.request]? = some q → q.phase = .routed c.group → P' ⟨v, [c]⟩)
    (along : Along Traffic.step P s t) : Along step P' ⟨s, []⟩ ⟨t, []⟩ := by
  obtain ⟨actions, done, sound⟩ := along
  induction actions generalizing s with
  | nil =>
    cases done
    exact .refl (idle t (sound t (.start ..)))
  | cons action rest ih =>
    obtain ⟨mid, taken, later⟩ := run_cons_some.mp done
    have here : P s := sound s (.start ..)
    have others := ih later fun v seen => sound v (visits_cons.mpr (Or.inr ⟨mid, taken, seen⟩))
    have there : P mid := sound mid (visits_cons.mpr (Or.inr ⟨mid, taken, .start ..⟩))
    by_cases free : State.bars ⟨s, []⟩ action = false
    · have moved : step (.traffic action) ⟨s, []⟩ = some ⟨mid, []⟩ := by simp [step, free, taken]
      exact .cons (idle s here) moved others
    · have selecting : ∃ r, action = .advance r .selectBackend := by
        cases action with
        | advance r move => cases move with
          | selectBackend => exact ⟨r, rfl⟩
          | _ => exact absurd rfl free
        | reloadRoute =>
          refine absurd ?_ free
          simp only [State.bars]
          split <;> rfl
        | _ => exact absurd rfl free
      obtain ⟨r, rfl⟩ := selecting
      exact (select_along taken (fun c q => during s c q here) (idle s here) (idle mid there)).trans others

end Alone

end TinyLb.LoadSteps
