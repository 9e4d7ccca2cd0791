import TinyLb.HostRouting
import TinyLb.Slots
import TinyLb.Traffic

/-! The counter of every backend is the number of guards that are alive on it, whatever
the requests, reloads and probes do, and in whatever order. Each backend is a slot: a
selection reserves it, a guard holds it. -/

namespace TinyLb.ConnectionLedger
open Config Hosts Backends Merge Traffic
open Reload hiding step

def slotOf (s : System) (b : BackendId) : Slots.Slot where
  counter := (s.reg.backend b).activeConnections
  held := s.guards b
  reserved := s.pending b
  cap := (s.reg.backend b).maxConnections
  shut := (s.reg.backend b).drain

section Counting
variable {α : Type} {p : α → Bool} {l : List α}

theorem countP_set_add {r : Nat} {x : α} (here : l[r]? = some x) (y : α) :
    (l.set r y).countP p + (if p x then 1 else 0) = l.countP p + (if p y then 1 else 0) := by
  induction l generalizing r with
  | nil => cases here
  | cons z rest ih =>
    cases r with
    | zero =>
      cases here
      simp only [List.set_cons_zero, List.countP_cons]
      omega
    | succ r =>
      have tail := ih here
      simp only [List.set_cons_succ, List.countP_cons]
      omega

theorem countP_le_foldr {f : α → Nat} (counted : ∀ x, p x = true → 1 ≤ f x) (l : List α) :
    l.countP p ≤ l.foldr (fun x total => f x + total) 0 := by
  induction l with
  | nil => exact Nat.le_refl _
  | cons x rest ih =>
    rw [List.countP_cons, List.foldr_cons]
    split
    next here => have one := counted x here; omega
    next => omega

end Counting

theorem guards_le_refs (s : System) (b : BackendId) : s.guards b ≤ s.refs b := by
  refine countP_le_foldr (fun q held => ?_) s.requests
  have guard : q.phase.guard = some ⟨b⟩ := by simpa using held
  cases phase : q.phase <;> simp only [phase, Phase.guard, reduceCtorEq, Option.some.injEq] at guard <;>
    simp [Phase.refs, guard]

/-- The pointers of a request are to allocated objects, and it has made the operations on
counters that its phase asks for. -/
structure Fits (reg : BackendRegistry) (q : Request) : Prop where
  routed : ∀ g, q.phase = .routed g → g < reg.groupAt.size
  pending : ∀ b, q.phase.pending = some b → b < reg.backendAt.size
  guarded : ∀ guard, q.phase.guard = some guard → guard.backend < reg.backendAt.size
  counted : q.ops = q.phase.counted

theorem Fits.grow {reg next : BackendRegistry} {q : Request} (fits : Fits reg q)
    (backends : reg.backendAt.size ≤ next.backendAt.size)
    (groups : reg.groupAt.size ≤ next.groupAt.size) : Fits next q where
  routed g here := Nat.lt_of_lt_of_le (fits.routed g here) groups
  pending b here := Nat.lt_of_lt_of_le (fits.pending b here) backends
  guarded guard here := Nat.lt_of_lt_of_le (fits.guarded guard here) backends
  counted := fits.counted

structure WellFormed (s : System) : Prop where
  valid : Valid s.reg
  fits : ∀ q ∈ s.requests, Fits s.reg q
  installing : ∀ reload, s.reload = some reload → ∀ g ∈ reload.newGroups, g < s.reg.groupAt.size

theorem wellFormed_start {now : Instant} {routes : List RouteConfig} {reg : BackendRegistry}
    (built : BackendRegistry.new now routes = .ok reg) : WellFormed (.start reg routes) := by
  refine ⟨(new_spec built).1, ?_, ?_⟩ <;> simp [System.start]

theorem valid_of_table {reg next : BackendRegistry} (valid : Valid reg)
    (groupAt : next.groupAt = reg.groupAt) (groups : next.groups = reg.groups)
    (size : next.backendAt.size = reg.backendAt.size) : Valid next := by
  obtain ⟨table, owned, apart⟩ := valid
  refine ⟨?_, ?_, ?_⟩
  · rw [groups, groupAt]
    exact table
  · simp only [BackendRegistry.group, groupAt, size]
    exact owned
  · simp only [BackendRegistry.group, groupAt]
    exact apart

theorem change_fits {q q' : Request} {reg reg' : BackendRegistry} {locked : Bool}
    {refs : BackendId → Nat} (valid : Valid reg) (fits : Fits reg q)
    (change : q.Change reg locked refs q' reg') : Fits reg q' := by
  cases change with
  | idle phase next same guard before after counted routed =>
    subst next
    refine ⟨fun g here => ?_, fun b here => ?_, fun held here => ?_, fits.counted.trans counted.symm⟩
    · obtain ⟨i, member, -⟩ := HostRouting.findGroup_eq_some.mp (routed g here).2.2
      exact valid.table g (List.mem_of_getElem? member)
    · exact nomatch after.symm.trans here
    · exact fits.guarded held (guard.symm.trans here)
  | select g b here found next same =>
    subst next
    refine ⟨nofun, fun b' same => ?_, nofun, ?_⟩
    · cases same
      exact valid.owned g b (selectBackend_some found).1
    · exact fits.counted.trans (by rw [here]; rfl)
  | wait b phase here there next same =>
    subst next
    refine ⟨fun g wrong => ?_, fun b' found => ?_, fun guard wrong => ?_, ?_⟩
    · have routed : phase = .routed g := wrong
      rw [routed] at there
      cases there
    · exact fits.pending b' (here.trans (there.symm.trans found))
    · exact nomatch (Phase.of_pending there).1.symm.trans wrong
    · exact fits.counted.trans ((Phase.of_pending here).2.trans (Phase.of_pending there).2.symm)
  | abandon b outcome here failed next same =>
    subst next
    refine ⟨nofun, nofun, nofun, fits.counted.trans ((Phase.of_pending here).2.trans ?_)⟩
    rcases failed with rfl | rfl <;> rfl
  | opened b here few next written =>
    subst next
    refine ⟨nofun, nofun, fun guard same => ?_, ?_⟩
    · cases same
      exact fits.pending b here
    · exact congrArg (· ++ [CounterOp.fetchAdd b]) (fits.counted.trans (Phase.of_pending here).2)
  | closed guard ending errors here counted next =>
    obtain ⟨rfl, -⟩ := Prod.mk.inj next
    refine ⟨nofun, nofun, nofun, ?_⟩
    exact congrArg (· ++ [CounterOp.fetchSub guard.backend])
      (fits.counted.trans (Phase.of_guard here).2)

section Steps
variable {s t : System}

theorem advance_cases {r : Nat} {move : Move} (taken : step (.advance r move) s = some t) :
    ∃ q q' reg, s.requests[r]? = some q ∧
      q.step s.reg s.reload.isSome s.refs move = some (q', reg) ∧
      t = { s with reg := reg, requests := s.requests.set r q' } := by
  simp only [step] at taken
  split at taken
  next => cases taken
  next q here =>
    split at taken
    next => cases taken
    next q' reg moved =>
      cases taken
      exact ⟨q, q', reg, here, moved, rfl⟩

theorem reloadRoute_cases (taken : step .reloadRoute s = some t) :
    ∃ now routes route todo newGroups g reg, s.reload = some ⟨now, routes, route :: todo, newGroups⟩ ∧
      s.reg.applyRoute now route = some (g, reg) ∧
      t = { s with reg := reg, reload := some ⟨now, routes, todo, newGroups ++ [g]⟩ } := by
  simp only [step] at taken
  split at taken
  next now routes route todo newGroups installing =>
    split at taken
    next => cases taken
    next g reg applied =>
      cases taken
      exact ⟨now, routes, route, todo, newGroups, g, reg, installing, applied, rfl⟩
  next => cases taken

theorem reloadSwap_cases (taken : step .reloadSwap s = some t) :
    ∃ now routes newGroups, s.reload = some ⟨now, routes, [], newGroups⟩ ∧
      t = { s with reg := { s.reg with groups := newGroups }, reload := none, inForce := routes } := by
  simp only [step] at taken
  split at taken
  next now routes newGroups installing =>
    cases taken
    exact ⟨now, routes, newGroups, installing, rfl⟩
  next => cases taken

theorem reloadStart_cases {now : Instant} {routes : List RouteConfig}
    (taken : step (.reloadStart now routes) s = some t) :
    s.reload = none ∧ ((∃ e, validate routes = .error e ∧ t = s) ∨
      validate routes = .ok () ∧ t = { s with reload := some ⟨now, routes, routes, []⟩ }) := by
  simp only [step] at taken
  split at taken
  next => cases taken
  next e idle refused =>
    cases taken
    exact ⟨idle, Or.inl ⟨e, refused, rfl⟩⟩
  next idle accepted =>
    cases taken
    exact ⟨idle, Or.inr ⟨accepted, rfl⟩⟩

theorem advance_wellFormed {q q' : Request} {reg : BackendRegistry} {r : Nat}
    (wellFormed : WellFormed s) (here : s.requests[r]? = some q)
    (change : q.Change s.reg s.reload.isSome s.refs q' reg) :
    WellFormed { s with reg := reg, requests := s.requests.set r q' } := by
  obtain ⟨groupAt, groups, size⟩ := change.table
  have same : reg.groupAt.size = s.reg.groupAt.size := by rw [groupAt]
  refine ⟨valid_of_table wellFormed.valid groupAt groups size, fun x member => ?_,
    fun reload installing g member => ?_⟩
  · have fits : Fits s.reg x := by
      rcases List.mem_or_eq_of_mem_set member with old | rfl
      · exact wellFormed.fits x old
      · exact change_fits wellFormed.valid (wellFormed.fits q (List.mem_of_getElem? here)) change
    exact fits.grow (Nat.le_of_eq size.symm) (Nat.le_of_eq same.symm)
  · exact same ▸ wellFormed.installing reload installing g member

theorem write_wellFormed (wellFormed : WellFormed s) (b : BackendId) (f : Backend → Backend) :
    WellFormed { s with reg := s.reg.write b f } :=
  ⟨valid_write wellFormed.valid b f,
    fun q member => (wellFormed.fits q member).grow (by simp) (Nat.le_refl _), wellFormed.installing⟩

theorem step_wellFormed (action : Action) (s t : System) (wellFormed : WellFormed s)
    (taken : step action s = some t) : WellFormed t := by
  cases action with
  | arrive path host upgrade =>
    cases taken
    refine ⟨wellFormed.valid, fun q member => ?_, wellFormed.installing⟩
    rcases List.mem_append.mp member with old | new
    · exact wellFormed.fits q old
    · rw [List.mem_singleton.mp new]
      exact ⟨nofun, nofun, nofun, rfl⟩
  | advance r move =>
    obtain ⟨q, q', reg, here, moved, rfl⟩ := advance_cases taken
    exact advance_wellFormed wellFormed here (Request.step_change moved)
  | probe b now healthy =>
    cases taken
    exact write_wellFormed wellFormed b _
  | sample b =>
    cases taken
    exact write_wellFormed wellFormed b _
  | reloadStart now routes =>
    rcases (reloadStart_cases taken).2 with ⟨e, -, rfl⟩ | ⟨-, rfl⟩
    · exact wellFormed
    · refine ⟨wellFormed.valid, wellFormed.fits, fun reload same g member => ?_⟩
      cases same
      cases member
  | reloadRoute =>
    obtain ⟨now, routes, route, todo, newGroups, g, reg, installing, applied, rfl⟩ :=
      reloadRoute_cases taken
    have kept := applyRoute_kept wellFormed.valid applied
    refine ⟨applyRoute_valid wellFormed.valid applied,
      fun q member => (wellFormed.fits q member).grow kept.backends kept.groups,
      fun reload same g' member => ?_⟩
    cases same
    rcases List.mem_append.mp member with old | new
    · exact Nat.lt_of_lt_of_le (wellFormed.installing _ installing g' old) kept.groups
    · rw [List.mem_singleton.mp new]
      exact applyRoute_lt wellFormed.valid applied
  | reloadSwap =>
    obtain ⟨now, routes, newGroups, installing, rfl⟩ := reloadSwap_cases taken
    exact ⟨valid_withGroups wellFormed.valid (wellFormed.installing _ installing),
      fun q member => (wellFormed.fits q member).grow (Nat.le_refl _) (Nat.le_refl _), nofun⟩

theorem guards_set {q q' : Request} {r : Nat} (here : s.requests[r]? = some q) (reg : BackendRegistry)
    (b : BackendId) {before after : Option ConnectionGuard} (old : q.phase.guard = before)
    (new : q'.phase.guard = after) :
    System.guards { s with reg := reg, requests := s.requests.set r q' } b +
        (if before = some ⟨b⟩ then 1 else 0) =
      s.guards b + (if after = some ⟨b⟩ then 1 else 0) := by
  subst old new
  have counts := countP_set_add (p := fun q : Request => q.phase.guard == some ⟨b⟩) here q'
  simp only [beq_iff_eq] at counts
  exact counts

theorem pending_set {q q' : Request} {r : Nat} (here : s.requests[r]? = some q) (reg : BackendRegistry)
    (b : BackendId) {before after : Option BackendId} (old : q.phase.pending = before)
    (new : q'.phase.pending = after) :
    System.pending { s with reg := reg, requests := s.requests.set r q' } b +
        (if before = some b then 1 else 0) =
      s.pending b + (if after = some b then 1 else 0) := by
  subst old new
  have counts := countP_set_add (p := fun q : Request => q.phase.pending == some b) here q'
  simp only [beq_iff_eq] at counts
  exact counts

structure SameSlot (x y : Backend) : Prop where
  active : x.activeConnections = y.activeConnections
  cap : x.maxConnections = y.maxConnections
  drain : x.drain = y.drain

theorem SameSlot.of_eq {x y : Backend} (same : x = y) : SameSlot x y := same ▸ ⟨rfl, rfl, rfl⟩

theorem sameSlot_write (reg : BackendRegistry) (e b : BackendId) {f : Backend → Backend}
    (kept : ∀ x, SameSlot (f x) x) : SameSlot ((reg.write e f).backend b) (reg.backend b) where
  active := Arena.get_modify_field Backend.activeConnections reg.backendAt (fun x => (kept x).active) e b
  cap := Arena.get_modify_field Backend.maxConnections reg.backendAt (fun x => (kept x).cap) e b
  drain := Arena.get_modify_field Backend.drain reg.backendAt (fun x => (kept x).drain) e b

theorem slotOf_keep {b : BackendId} (fields : SameSlot (t.reg.backend b) (s.reg.backend b))
    (guards : t.guards b = s.guards b) (pending : t.pending b = s.pending b) :
    Slots.Step (slotOf s b) (slotOf t b) :=
  .keep (by simp only [slotOf, fields.active, fields.cap, fields.drain, guards, pending])

theorem advance_slot {q q' : Request} {reg : BackendRegistry} {r : Nat} (wellFormed : WellFormed s)
    (here : s.requests[r]? = some q) (change : q.Change s.reg s.reload.isSome s.refs q' reg)
    (b : BackendId) :
    Slots.Step (slotOf s b) (slotOf { s with reg := reg, requests := s.requests.set r q' } b) := by
  have fits := wellFormed.fits q (List.mem_of_getElem? here)
  cases change with
  | idle phase next same guard before after counted routed =>
    have guards := guards_set here reg b guard.symm (next ▸ rfl : q'.phase.guard = phase.guard)
    have pending := pending_set here reg b before (next.symm ▸ after : q'.phase.pending = none)
    exact slotOf_keep (.of_eq (by rw [same])) (Nat.add_right_cancel guards) (Nat.add_right_cancel pending)
  | select g e phase found next same =>
    have unheld : q.phase.guard = none := by rw [phase]; rfl
    have unreserved : q.phase.pending = none := by rw [phase]; rfl
    have guards := guards_set here reg b unheld (next ▸ rfl : q'.phase.guard = none)
    have pending := pending_set here reg b unreserved (next ▸ rfl : q'.phase.pending = some e)
    simp only [reduceCtorEq, if_false, Option.some.injEq, Nat.add_zero] at guards pending
    subst same
    by_cases same : e = b
    · subst same
      obtain ⟨-, isOpen, -, room⟩ := selectBackend_some found
      rw [if_pos rfl] at pending
      refine .reserve isOpen room ?_
      simp only [slotOf, guards, pending]
    · rw [if_neg same] at pending
      exact slotOf_keep (.of_eq rfl) guards pending
  | wait e phase waiting there next same =>
    have guards := guards_set here reg b (Phase.of_pending waiting).1
      (next.symm ▸ (Phase.of_pending there).1 : q'.phase.guard = none)
    have pending := pending_set here reg b waiting (next.symm ▸ there : q'.phase.pending = some e)
    exact slotOf_keep (.of_eq (by rw [same])) guards (Nat.add_right_cancel pending)
  | abandon e outcome waiting failed next same =>
    have guards := guards_set here reg b (Phase.of_pending waiting).1 (next ▸ rfl : q'.phase.guard = none)
    have pending := pending_set here reg b waiting (next ▸ rfl : q'.phase.pending = none)
    simp only [reduceCtorEq, if_false, Option.some.injEq, Nat.add_zero] at guards pending
    subst same
    by_cases same : e = b
    · rw [if_pos same] at pending
      refine .abandon (by rw [slotOf, ← pending]; exact Nat.succ_pos _) ?_
      simp only [slotOf, guards, ← pending, Nat.add_sub_cancel]
    · rw [if_neg same] at pending
      exact slotOf_keep (.of_eq rfl) guards pending
  | opened e waiting few next written =>
    have guards := guards_set here reg b (Phase.of_pending waiting).1
      (next ▸ rfl : q'.phase.guard = some ⟨e⟩)
    have pending := pending_set here reg b waiting (next ▸ rfl : q'.phase.pending = none)
    simp only [reduceCtorEq, if_false, Option.some.injEq, ConnectionGuard.mk.injEq,
      Nat.add_zero] at guards pending
    subst written
    by_cases same : e = b
    · subst same
      rw [if_pos rfl] at guards pending
      have room : s.guards e + 1 < UInt64.size := by
        have bound := guards_le_refs s e
        rw [isizeMax] at few
        rw [UInt64.size]
        omega
      refine .acquire (by rw [slotOf, ← pending]; exact Nat.succ_pos _) room ?_
      simp only [slotOf, s.reg.backend_write_self Backend.connect (fits.pending e waiting),
        Backend.connect, guards, ← pending, Nat.add_sub_cancel]
    · rw [if_neg same] at guards pending
      exact slotOf_keep (.of_eq (s.reg.backend_write_of_ne _ same)) guards pending
  | closed guard ending errors held counted next =>
    obtain ⟨e⟩ := guard
    obtain ⟨moved, written⟩ := Prod.mk.inj next
    have guards := guards_set here reg b held (moved ▸ rfl : q'.phase.guard = none)
    have pending := pending_set here reg b (Phase.of_guard held).1 (moved ▸ rfl : q'.phase.pending = none)
    simp only [reduceCtorEq, if_false, Option.some.injEq, ConnectionGuard.mk.injEq,
      Nat.add_zero] at guards pending
    have errorFields : SameSlot (errors.backend b) (s.reg.backend b) := by
      rcases counted with rfl | rfl
      · exact .of_eq rfl
      · exact sameSlot_write s.reg e b fun x => ⟨rfl, rfl, rfl⟩
    have size : errors.backendAt.size = s.reg.backendAt.size := by
      rcases counted with rfl | rfl
      · rfl
      · exact BackendRegistry.size_write ..
    subst written
    by_cases same : e = b
    · subst same
      rw [if_pos rfl] at guards
      have known : e < errors.backendAt.size := Nat.lt_of_lt_of_eq (fits.guarded _ held) size.symm
      refine .release (by rw [slotOf, ← guards]; exact Nat.succ_pos _) ?_
      simp only [slotOf, errors.backend_write_self Backend.disconnect known, Backend.disconnect,
        errorFields.active, errorFields.cap, errorFields.drain, ← guards, pending, Nat.add_sub_cancel]
    · rw [if_neg same] at guards
      refine slotOf_keep ?_ guards pending
      change SameSlot ((errors.write e Backend.disconnect).backend b) (s.reg.backend b)
      rw [errors.backend_write_of_ne _ same]
      exact errorFields

/-- A field that no store of a reload goes to, and that is 0 in a new backend. -/
structure Counter (field : Backend → UInt64) : Prop where
  update : ∀ c b, field (Backend.update c b) = field b
  fresh : ∀ now c, field (Backend.new now c) = field default

theorem counter_activeConnections : Counter Backend.activeConnections := ⟨fun _ _ => rfl, fun _ _ => rfl⟩

theorem counter_errorCount : Counter Backend.errorCount := ⟨fun _ _ => rfl, fun _ _ => rfl⟩

section Counters
variable {field : Backend → UInt64} (counter : Counter field)
include counter

theorem counter_merge (now : Instant) (old : List BackendId) (configs : List BackendConfig)
    (arena : Arena Backend) (b : BackendId) :
    field ((mergeBackends now old configs arena).2.get b) = field (arena.get b) := by
  induction configs generalizing arena with
  | nil => rfl
  | cons c rest ih =>
    rw [mergeBackends]
    split
    next e found =>
      rw [ih]
      exact Arena.get_modify_field field arena (counter.update c) e b
    next =>
      rw [ih]
      by_cases new : b = arena.size
      · rw [new, Arena.get_alloc_self, Arena.get_of_size_le _ (Nat.le_refl _)]
        exact counter.fresh now c
      · rw [Arena.get_alloc_of_ne _ _ new]

theorem counter_applyRoute {reg next : BackendRegistry} {now : Instant} {route : RouteConfig}
    {g : GroupId} (applied : reg.applyRoute now route = some (g, next)) (b : BackendId) :
    field (next.backend b) = field (reg.backend b) := by
  rcases applyRoute_cases applied with ⟨-, rfl⟩ | ⟨-, -, group, arena, built, rfl⟩
  · exact counter_merge counter now _ route.backends reg.backendAt b
  · obtain ⟨-, -, rfl⟩ := groupNew_ok built
    exact counter_merge counter now [] route.backends reg.backendAt b

theorem counter_pushGroups {now : Instant} {routes : List RouteConfig}
    {reg fresh : BackendRegistry} (built : pushGroups now routes reg = .ok fresh) (b : BackendId) :
    field (fresh.backend b) = field (reg.backend b) := by
  induction routes generalizing reg with
  | nil =>
    cases built
    rfl
  | cons route rest ih =>
    rw [pushGroups] at built
    split at built
    next => cases built
    next group arena new =>
      obtain ⟨-, -, rfl⟩ := groupNew_ok new
      exact (ih built).trans (counter_merge counter now [] route.backends reg.backendAt b)

end Counters

theorem step_slot {action : Action} (wellFormed : WellFormed s) (taken : step action s = some t)
    (b : BackendId) : Slots.Step (slotOf s b) (slotOf t b) := by
  cases action with
  | arrive path host upgrade =>
    cases taken
    refine slotOf_keep (.of_eq rfl) ?_ ?_
    · rw [System.guards, List.countP_append]
      rfl
    · rw [System.pending, List.countP_append]
      rfl
  | advance r move =>
    obtain ⟨q, q', reg, here, moved, rfl⟩ := advance_cases taken
    exact advance_slot wellFormed here (Request.step_change moved) b
  | probe e now healthy =>
    cases taken
    exact slotOf_keep (sameSlot_write s.reg e b fun x => ⟨rfl, rfl, rfl⟩) rfl rfl
  | sample e =>
    cases taken
    exact slotOf_keep (sameSlot_write s.reg e b fun x => ⟨rfl, rfl, rfl⟩) rfl rfl
  | reloadStart now routes =>
    rcases (reloadStart_cases taken).2 with ⟨e, -, rfl⟩ | ⟨-, rfl⟩
    · exact .keep rfl
    · exact .keep rfl
  | reloadRoute =>
    obtain ⟨now, routes, route, todo, newGroups, g, reg, -, applied, rfl⟩ := reloadRoute_cases taken
    refine .retune (reg.backend b).maxConnections (reg.backend b).drain ?_
    simp only [slotOf, counter_applyRoute counter_activeConnections applied b]
    rfl
  | reloadSwap =>
    obtain ⟨now, routes, newGroups, -, rfl⟩ := reloadSwap_cases taken
    exact .keep rfl

/-- What a run keeps: pointers and counts. -/
structure Ledger (s : System) : Prop extends WellFormed s where
  balanced : ∀ b, Slots.Balanced (slotOf s b)

theorem ledger_start {now : Instant} {routes : List RouteConfig} {reg : BackendRegistry}
    (built : BackendRegistry.new now routes = .ok reg) : Ledger (.start reg routes) := by
  refine ⟨wellFormed_start built, fun b => ?_⟩
  have zero : (reg.backend b).activeConnections = 0 := counter_pushGroups counter_activeConnections built b
  simp only [Slots.Balanced, slotOf, System.start, zero]
  rfl

theorem step_ledger (action : Action) (s t : System) (ledger : Ledger s)
    (taken : step action s = some t) : Ledger t :=
  ⟨step_wellFormed action s t ledger.toWellFormed taken, fun b =>
    (step_slot ledger.toWellFormed taken b).balanced (ledger.balanced b)⟩

theorem ops_prefix {action : Action} (taken : step action s = some t) {r : Nat} {q q' : Request}
    (before : s.requests[r]? = some q) (after : t.requests[r]? = some q') : q.ops <+: q'.ops := by
  have unmoved : t.requests = s.requests → q.ops <+: q'.ops := by
    intro same
    rw [same, before] at after
    cases after
    exact List.prefix_rfl
  cases action with
  | arrive path host upgrade =>
    cases taken
    obtain ⟨inside, -⟩ := List.getElem?_eq_some_iff.mp before
    rw [List.getElem?_append_left inside, before] at after
    cases after
    exact List.prefix_rfl
  | advance r' move =>
    obtain ⟨x, x', reg, here, moved, rfl⟩ := advance_cases taken
    rw [List.getElem?_set] at after
    split at after
    next same =>
      subst same
      rw [before] at here
      cases here
      split at after
      next =>
        cases after
        cases Request.step_change moved with
        | idle phase next same => exact next ▸ List.prefix_rfl
        | select g b here found next same => exact next ▸ List.prefix_rfl
        | wait b phase here there next same => exact next ▸ List.prefix_rfl
        | abandon b outcome here failed next same => exact next ▸ List.prefix_rfl
        | opened b here few next written => exact next ▸ List.prefix_append ..
        | closed guard ending errors here counted next =>
          exact (Prod.mk.inj next).1 ▸ List.prefix_append ..
      next => cases after
    next =>
      rw [before] at after
      cases after
      exact List.prefix_rfl
  | probe b now healthy => cases taken; exact unmoved rfl
  | sample b => cases taken; exact unmoved rfl
  | reloadStart now routes =>
    rcases (reloadStart_cases taken).2 with ⟨e, -, rfl⟩ | ⟨-, rfl⟩ <;> exact unmoved rfl
  | reloadRoute =>
    obtain ⟨now, routes, route, todo, newGroups, g, reg, -, -, rfl⟩ := reloadRoute_cases taken
    exact unmoved rfl
  | reloadSwap =>
    obtain ⟨now, routes, newGroups, -, rfl⟩ := reloadSwap_cases taken
    exact unmoved rfl

end Steps

def IsReload : Action → Prop
  | .reloadStart _ _ | .reloadRoute | .reloadSwap => True
  | _ => False

theorem reload_activeConnections {action : Action} {s t : System} (reload : IsReload action)
    (taken : step action s = some t) (b : BackendId) :
    (t.reg.backend b).activeConnections = (s.reg.backend b).activeConnections := by
  cases action with
  | reloadStart now routes => rcases (reloadStart_cases taken).2 with ⟨e, -, rfl⟩ | ⟨-, rfl⟩ <;> rfl
  | reloadRoute =>
    obtain ⟨now, routes, route, todo, newGroups, g, reg, -, applied, rfl⟩ := reloadRoute_cases taken
    exact counter_applyRoute counter_activeConnections applied b
  | reloadSwap =>
    obtain ⟨now, routes, newGroups, -, rfl⟩ := reloadSwap_cases taken
    rfl
  | _ => cases reload

/-- In every reachable state each counter is the number of guards alive on its backend, so
that no decrement wraps; every request has added one for the guard it has or had and
subtracted one if it has given it up; and a reload changes no counter. -/
theorem active_connections_eq_guards {now : Instant} {routes : List RouteConfig}
    {reg : BackendRegistry} (built : BackendRegistry.new now routes = .ok reg) {s : System}
    (reached : Machine.Reachable step (.start reg routes) s) :
    (∀ b, (s.reg.backend b).activeConnections.toNat = s.guards b) ∧
    (∀ q ∈ s.requests, ∀ guard, q.phase.guard = some guard →
      0 < (s.reg.backend guard.backend).activeConnections.toNat) ∧
    (∀ q ∈ s.requests, q.ops = q.phase.counted) ∧
    (∀ action (t : System), step action s = some t →
      (∀ (r : Nat) (q q' : Request), s.requests[r]? = some q → t.requests[r]? = some q' →
        q.ops <+: q'.ops) ∧
      (IsReload action → ∀ b,
        (t.reg.backend b).activeConnections = (s.reg.backend b).activeConnections)) := by
  have ledger := reached.invariant step_ledger (ledger_start built)
  refine ⟨ledger.balanced, fun q member guard held => ?_, fun q member => (ledger.fits q member).counted,
    fun action t taken =>
      ⟨fun r q q' => ops_prefix taken, fun reload => reload_activeConnections reload taken⟩⟩
  have live : 0 < s.guards guard.backend := by
    rw [System.guards, List.countP_pos_iff]
    exact ⟨q, member, by rw [held]; exact beq_self_eq_true _⟩
  exact (ledger.balanced guard.backend).symm ▸ live

/-- A reload removes the backend while a response is still streamed from it. -/
theorem active_connections_eq_guards_removed :
    ∃ reg s, BackendRegistry.new 0 [⟨['a'], [⟨['u'], 5, false⟩]⟩] = .ok reg ∧
      Machine.Reachable step (.start reg [⟨['a'], [⟨['u'], 5, false⟩]⟩]) s ∧ s.reg.config = [] ∧
      s.guards 0 = 1 ∧ (s.reg.backend 0).activeConnections.toNat = s.guards 0 := by
  let trace : List Action :=
    [.arrive ['/'] ['a'] false, .advance 0 .findGroup, .advance 0 .selectBackend, .reloadStart 1 [],
      .advance 0 .openGuard, .advance 0 .send, .reloadSwap, .advance 0 .answer]
  have built : BackendRegistry.new 0 [⟨['a'], [⟨['u'], 5, false⟩]⟩] = .ok _ := rfl
  exact ⟨_, _, built, ⟨trace, rfl⟩, rfl, rfl, (active_connections_eq_guards built ⟨trace, rfl⟩).1 0⟩

end TinyLb.ConnectionLedger
