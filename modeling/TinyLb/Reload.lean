import TinyLb.Machine
import TinyLb.Merge

/-! `apply_config` compared with `BackendRegistry::new` on the same routes: the
table it leaves shows the same configuration, and only what a backend has learned
while running is carried over. -/

namespace TinyLb.Reload
open Config Hosts Backends Merge

def kinds (reg : BackendRegistry) : List HostMatch := reg.groups.map fun g => (reg.group g).matchKind

theorem matchKind_congr {first second : BackendGroup} (same : first.host = second.host) :
    first.matchKind = second.matchKind := by
  have parsed := first.parsed
  rw [same, second.parsed] at parsed
  exact (Except.ok.inj parsed).symm

/-- Registries that show the same hosts match in the same way. -/
theorem kinds_congr {reg reg' : BackendRegistry}
    (same : reg.config.map (·.host) = reg'.config.map (·.host)) : kinds reg = kinds reg' := by
  simp only [BackendRegistry.config, List.map_map] at same
  have length := congrArg List.length same
  simp only [List.length_map] at length
  apply List.ext_getElem (by simpa [kinds] using length)
  intro i h h'
  simp only [kinds, List.length_map] at h h'
  have hosts := List.getElem_of_eq same (by simpa using h)
  simp only [List.getElem_map, Function.comp_apply] at hosts
  simp only [kinds, List.getElem_map]
  exact matchKind_congr hosts

theorem valid_withGroups {reg : BackendRegistry} (valid : Valid reg) {ids : List GroupId}
    (inside : ∀ g ∈ ids, g < reg.groupAt.size) : Valid { reg with groups := ids } :=
  ⟨inside, valid.owned, valid.apart⟩

section Restart
variable {now : Instant}

theorem pushGroups_ok {routes : List RouteConfig} {reg fresh : BackendRegistry} (valid : Valid reg)
    (built : pushGroups now routes reg = .ok fresh) :
    Valid fresh ∧ fresh.config = reg.config ++ routes := by
  induction routes generalizing reg with
  | nil =>
    cases built
    exact ⟨valid, (List.append_nil _).symm⟩
  | cons route rest ih =>
    rw [pushGroups] at built
    split at built
    next => cases built
    next group arena new =>
      have grown := addGroup_valid valid new
      have next : Valid { addGroup reg group arena with groups := reg.groups ++ [reg.groupAt.size] } := by
        refine valid_withGroups grown fun g member => ?_
        rw [addGroup, Arena.size_alloc]
        rcases List.mem_append.mp member with old | last
        · exact Nat.lt_succ_of_lt (valid.table g old)
        · rw [List.mem_singleton.mp last]
          exact Nat.lt_succ_self _
      obtain ⟨final, shown⟩ := ih next built
      refine ⟨final, shown.trans ?_⟩
      have old : reg.groups.map (addGroup reg group arena).route = reg.groups.map reg.route :=
        List.map_congr_left fun g member => route_addGroup_of_lt valid new (valid.table g member)
      have step : BackendRegistry.config
          { addGroup reg group arena with groups := reg.groups ++ [reg.groupAt.size] } =
            reg.config ++ [route] := by
        change (reg.groups ++ [reg.groupAt.size]).map (addGroup reg group arena).route = _
        rw [List.map_append, old, List.map_singleton, route_addGroup_self new]
        rfl
      rw [step, List.append_assoc, List.singleton_append]

theorem pushGroups_error {routes : List RouteConfig} {reg : BackendRegistry} {e : HostError} :
    pushGroups now routes reg = .error e ↔ validate routes = .error e := by
  induction routes generalizing reg with
  | nil => simp [pushGroups, validate]
  | cons route rest ih =>
    rw [pushGroups, validate]
    cases accepted : parse route.host with
    | error e' => rw [groupNew_error.mpr accepted, Except.error.injEq, Except.error.injEq]
    | ok kind =>
      cases built : BackendGroup.new now route reg.backendAt with
      | error e' =>
        rw [groupNew_error, accepted] at built
        cases built
      | ok pair => exact ih

theorem new_error_iff {routes : List RouteConfig} {e : HostError} :
    BackendRegistry.new now routes = .error e ↔ validate routes = .error e :=
  pushGroups_error

theorem new_ok_iff {routes : List RouteConfig} :
    (∃ fresh, BackendRegistry.new now routes = .ok fresh) ↔ validate routes = .ok () := by
  cases built : BackendRegistry.new now routes with
  | error e =>
    rw [new_error_iff.mp built]
    constructor
    · rintro ⟨_, wrong⟩
      cases wrong
    · intro wrong
      cases wrong
  | ok fresh =>
    refine ⟨fun _ => ?_, fun _ => ⟨fresh, rfl⟩⟩
    cases checked : validate routes with
    | error e =>
      rw [new_error_iff.mpr checked] at built
      cases built
    | ok => rfl

theorem new_spec {routes : List RouteConfig} {fresh : BackendRegistry}
    (built : BackendRegistry.new now routes = .ok fresh) : Valid fresh ∧ fresh.config = routes := by
  obtain ⟨valid, shown⟩ := pushGroups_ok valid_empty built
  exact ⟨valid, shown⟩

theorem pushGroups_groups {routes : List RouteConfig} {reg fresh : BackendRegistry}
    (built : pushGroups now routes reg = .ok fresh) :
    fresh.groups = reg.groups ++ List.range' reg.groupAt.size routes.length := by
  induction routes generalizing reg with
  | nil =>
    cases built
    simp
  | cons route rest ih =>
    rw [pushGroups] at built
    split at built
    next => cases built
    next => simp [ih built, List.range'_succ]

theorem new_groups {routes : List RouteConfig} {fresh : BackendRegistry}
    (built : BackendRegistry.new now routes = .ok fresh) :
    fresh.groups = List.range routes.length := by
  rw [pushGroups_groups built, List.range_eq_range']
  rfl

end Restart

theorem validate_ok_iff {routes : List RouteConfig} : validate routes = .ok () ↔
    ∀ route ∈ routes, ∃ kind, parse route.host = .ok kind := by
  induction routes with
  | nil => simp [validate]
  | cons route rest ih =>
    rw [validate, List.forall_mem_cons, ← ih]
    cases parse route.host <;> simp

section ApplyRoutes
variable {now : Instant} {reg last : BackendRegistry} {routes : List RouteConfig}
  {ids : List GroupId}

theorem applyRoutes_cons_some {route : RouteConfig} :
    BackendRegistry.applyRoutes now (route :: routes) reg = some (ids, last) ↔
      ∃ g next more, reg.applyRoute now route = some (g, next) ∧
        BackendRegistry.applyRoutes now routes next = some (more, last) ∧ ids = g :: more := by
  rw [BackendRegistry.applyRoutes]
  constructor
  · intro applied
    split at applied
    next => cases applied
    next g next first =>
      split at applied
      next => cases applied
      next more final later =>
        cases applied
        exact ⟨g, next, more, first, later, rfl⟩
  · rintro ⟨g, next, more, first, later, rfl⟩
    rw [first]
    simp only [later]

theorem applyRoutes_isSome (checked : ∀ route ∈ routes, ∃ kind, parse route.host = .ok kind) :
    ∃ ids last, BackendRegistry.applyRoutes now routes reg = some (ids, last) := by
  induction routes generalizing reg with
  | nil => exact ⟨[], reg, rfl⟩
  | cons route rest ih =>
    obtain ⟨kind, accepted⟩ := checked route (List.mem_cons_self ..)
    obtain ⟨g, next, first⟩ := applyRoute_of_parse reg now accepted
    obtain ⟨ids, last, later⟩ : ∃ ids last, BackendRegistry.applyRoutes now rest next = some (ids, last) :=
      ih fun r member => checked r (List.mem_cons_of_mem _ member)
    exact ⟨g :: ids, last, applyRoutes_cons_some.mpr ⟨g, next, ids, first, later, rfl⟩⟩

/-- What the loop keeps, whatever the routes. -/
theorem applyRoutes_spec (valid : Valid reg)
    (applied : BackendRegistry.applyRoutes now routes reg = some (ids, last)) :
    Valid last ∧ Kept reg last ∧ last.groups = reg.groups ∧ (∀ g ∈ ids, g < last.groupAt.size) ∧
      ids.map (fun g => (last.group g).host) = routes.map (·.host) := by
  induction routes generalizing reg ids with
  | nil =>
    cases applied
    exact ⟨valid, Kept.refl _, rfl, by simp, rfl⟩
  | cons route rest ih =>
    obtain ⟨g, next, more, first, later, rfl⟩ := applyRoutes_cons_some.mp applied
    obtain ⟨final, kept, table, inside, hosts⟩ := ih (applyRoute_valid valid first) later
    have bound := applyRoute_lt valid first
    refine ⟨final, (applyRoute_kept valid first).trans kept, table.trans (applyRoute_groups first),
      fun id member => ?_, ?_⟩
    · rcases List.mem_cons.mp member with rfl | member
      · exact Nat.lt_of_lt_of_le bound kept.groups
      · exact inside id member
    · rw [List.map_cons, List.map_cons, hosts, kept.host g bound, applyRoute_host first]

theorem applyRoute_ne_of_host {route : RouteConfig} {g g' : GroupId} {next : BackendRegistry}
    (applied : reg.applyRoute now route = some (g, next)) (known : g' < reg.groupAt.size)
    (other : (reg.group g').host ≠ route.host) : g ≠ g' := by
  rintro rfl
  rcases applyRoute_cases applied with ⟨found, -⟩ | ⟨-, new, -⟩
  · exact other (locateGroup_some found).2
  · exact absurd known (by rw [new]; exact Nat.lt_irrefl _)

theorem group_applyRoute_of_ne {route : RouteConfig} {g g' : GroupId} {next : BackendRegistry}
    (applied : reg.applyRoute now route = some (g, next)) (known : g' < reg.groupAt.size)
    (other : g ≠ g') : next.group g' = reg.group g' := by
  rcases applyRoute_cases applied with ⟨-, rfl⟩ | ⟨-, -, group, arena, -, rfl⟩
  · exact group_applyBackends_of_ne other
  · exact group_addGroup_of_ne (Nat.ne_of_lt known)

theorem applyRoutes_frame (valid : Valid reg)
    (applied : BackendRegistry.applyRoutes now routes reg = some (ids, last)) {g : GroupId}
    (known : g < reg.groupAt.size) (absent : (reg.group g).host ∉ routes.map (·.host)) :
    last.group g = reg.group g ∧ last.route g = reg.route g := by
  induction routes generalizing reg ids with
  | nil =>
    cases applied
    exact ⟨rfl, rfl⟩
  | cons route rest ih =>
    obtain ⟨g', next, more, first, later, rfl⟩ := applyRoutes_cons_some.mp applied
    rw [List.map_cons, List.mem_cons, not_or] at absent
    have other := applyRoute_ne_of_host first known absent.1
    have kept := applyRoute_kept valid first
    obtain ⟨group, route⟩ := ih (applyRoute_valid valid first) later
      (Nat.lt_of_lt_of_le known kept.groups) (by rw [kept.host g known]; exact absent.2)
    exact ⟨group.trans (group_applyRoute_of_ne first known other),
      route.trans (route_applyRoute_of_ne valid first other known)⟩

end ApplyRoutes

/-- No host is routed twice, and no route lists a URL twice. -/
structure Distinct (routes : List RouteConfig) : Prop where
  hosts : (routes.map (·.host)).Nodup
  urls : ∀ route ∈ routes, (route.backends.map (·.url)).Nodup

theorem Distinct.tail {route : RouteConfig} {rest : List RouteConfig}
    (distinct : Distinct (route :: rest)) : Distinct rest :=
  ⟨(List.nodup_cons.mp distinct.hosts).2, fun r member =>
    distinct.urls r (List.mem_cons_of_mem _ member)⟩

theorem Distinct.head_host {route : RouteConfig} {rest : List RouteConfig}
    (distinct : Distinct (route :: rest)) : route.host ∉ rest.map (·.host) :=
  (List.nodup_cons.mp distinct.hosts).1

theorem applyRoutes_config {now : Instant} {reg last : BackendRegistry} {routes : List RouteConfig}
    {ids : List GroupId} (valid : Valid reg) (distinct : Distinct routes)
    (applied : BackendRegistry.applyRoutes now routes reg = some (ids, last)) :
    ids.map last.route = routes := by
  induction routes generalizing reg ids with
  | nil =>
    cases applied
    rfl
  | cons route rest ih =>
    obtain ⟨g, next, more, first, later, rfl⟩ := applyRoutes_cons_some.mp applied
    have nextValid := applyRoute_valid valid first
    have shown := route_applyRoute_of_nodup valid first (distinct.urls route (List.mem_cons_self ..))
    have untouched := applyRoutes_frame nextValid later (applyRoute_lt valid first)
      (by rw [applyRoute_host first]; exact distinct.head_host)
    rw [List.map_cons, untouched.2, shown, ih nextValid distinct.tail later]

/-- The object that stands for `url` under `host`: the first with that URL in the first
group with that host. -/
def pairObject (reg : BackendRegistry) (host url : Str) : Option BackendId :=
  (reg.locateGroup host).bind fun g => locate reg.backendAt (reg.group g).backends url

theorem pairObject_lt {reg : BackendRegistry} (valid : Valid reg) {host url : Str} {e : BackendId}
    (found : pairObject reg host url = some e) : e < reg.backendAt.size := by
  obtain ⟨g, -, located⟩ := Option.bind_eq_some_iff.mp found
  exact valid.owned g e (locate_some located).1

theorem locateGroup_congr {reg next : BackendRegistry} (table : next.groups = reg.groups)
    (hosts : ∀ g ∈ reg.groups, (next.group g).host = (reg.group g).host) (host : Str) :
    next.locateGroup host = reg.locateGroup host := by
  rw [BackendRegistry.locateGroup, BackendRegistry.locateGroup, table]
  generalize reg.groups = ids at hosts
  induction ids with
  | nil => rfl
  | cons g rest ih =>
    rw [List.find?_cons, List.find?_cons, hosts g (List.mem_cons_self ..),
      ih fun g' member => hosts g' (List.mem_cons_of_mem _ member)]

theorem pairObject_applyRoute {reg next : BackendRegistry} {now : Instant} {route : RouteConfig}
    {g : GroupId} (valid : Valid reg) (applied : reg.applyRoute now route = some (g, next))
    {host : Str} (other : host ≠ route.host) (url : Str) :
    pairObject next host url = pairObject reg host url := by
  have kept := applyRoute_kept valid applied
  rw [pairObject, pairObject, locateGroup_congr (applyRoute_groups applied)
    fun g member => kept.host g (valid.table g member)]
  cases found : reg.locateGroup host with
  | none => rfl
  | some g' =>
    have member := List.mem_of_find?_eq_some found
    have named : (reg.group g').host = host := by simpa using List.find?_some found
    have known := valid.table g' member
    have untouched := group_applyRoute_of_ne applied known
      (applyRoute_ne_of_host applied known (named ▸ other))
    rw [Option.bind_some, Option.bind_some, untouched]
    exact locate_congr (fun b present => kept.url b (valid.owned g' b present)) url

/-- How the object `b` for the entry `c` under `host` relates to the registry before. -/
def Carried (reg last : BackendRegistry) (now : Instant) (host : Str) (c : BackendConfig)
    (b : BackendId) : Prop :=
  match pairObject reg host c.url with
  | some e => b = e ∧ (last.backend b).live = (reg.backend e).live
  | none => reg.backendAt.size ≤ b ∧ b < last.backendAt.size ∧
      (last.backend b).live = LiveState.fresh now

theorem applyRoute_carried {reg next : BackendRegistry} {now : Instant} {route : RouteConfig}
    {g : GroupId} (valid : Valid reg) (applied : reg.applyRoute now route = some (g, next)) :
    List.Forall₂ (Carried reg next now route.host) route.backends (next.group g).backends := by
  have kept := applyRoute_kept valid applied
  rcases applyRoute_cases applied with ⟨found, rfl⟩ | ⟨absent, rfl, group, arena, built, rfl⟩
  · rw [backends_applyBackends (valid.table g (locateGroup_some found).1)]
    refine (merge_placed route.backends (valid.owned g)).imp fun c b placed => ?_
    rw [Placed] at placed
    rw [Carried, pairObject, found, Option.bind_some]
    cases located : locate reg.backendAt (reg.group g).backends c.url with
    | some e =>
      rw [located] at placed
      subst placed
      exact ⟨rfl, kept.live b (valid.owned g b (locate_some located).1)⟩
    | none =>
      rw [located] at placed
      exact ⟨placed.1, placed.2.1, congrArg Backend.live placed.2.2⟩
  · obtain ⟨-, ids, rfl⟩ := groupNew_ok built
    rw [group_addGroup_self, ids]
    have inside : ∀ b ∈ ([] : List BackendId), b < reg.backendAt.size := by simp
    refine (merge_placed route.backends inside).imp fun c b placed => ?_
    rw [Carried, pairObject, absent]
    exact ⟨placed.1, placed.2.1, congrArg Backend.live placed.2.2⟩

theorem Carried.keep {reg next last : BackendRegistry} {now : Instant} {host : Str}
    {c : BackendConfig} {b : BackendId} (valid : Valid reg) (first : Kept reg next)
    (later : Kept next last) (carried : Carried reg next now host c b) :
    Carried reg last now host c b := by
  rw [Carried] at carried ⊢
  cases found : pairObject reg host c.url with
  | some e =>
    rw [found] at carried
    obtain ⟨rfl, live⟩ := carried
    exact ⟨rfl, (later.live b (Nat.lt_of_lt_of_le (pairObject_lt valid found) first.backends)).trans
      live⟩
  | none =>
    rw [found] at carried
    exact ⟨carried.1, Nat.lt_of_lt_of_le carried.2.1 later.backends,
      (later.live b carried.2.1).trans carried.2.2⟩

/-- What a later round carries over from the registry between is carried over from
before the first, for hosts that the first round does not serve. -/
theorem Carried.prepend {reg next last : BackendRegistry} {now : Instant} {route : RouteConfig}
    {g : GroupId} (valid : Valid reg) (applied : reg.applyRoute now route = some (g, next))
    {host : Str} (other : host ≠ route.host) {c : BackendConfig} {b : BackendId}
    (carried : Carried next last now host c b) : Carried reg last now host c b := by
  have kept := applyRoute_kept valid applied
  rw [Carried, pairObject_applyRoute valid applied other] at carried
  rw [Carried]
  cases found : pairObject reg host c.url with
  | some e =>
    rw [found] at carried
    exact ⟨carried.1, carried.2.trans (kept.live e (pairObject_lt valid found))⟩
  | none =>
    rw [found] at carried
    exact ⟨kept.backends.trans carried.1, carried.2⟩

theorem applyRoutes_carried {now : Instant} {reg last : BackendRegistry} {routes : List RouteConfig}
    {ids : List GroupId} (valid : Valid reg) (distinct : Distinct routes)
    (applied : BackendRegistry.applyRoutes now routes reg = some (ids, last)) :
    List.Forall₂ (fun route g => List.Forall₂ (Carried reg last now route.host) route.backends
      (last.group g).backends) routes ids := by
  induction routes generalizing reg ids with
  | nil =>
    cases applied
    exact .nil
  | cons route rest ih =>
    obtain ⟨g, next, more, first, later, rfl⟩ := applyRoutes_cons_some.mp applied
    have nextValid := applyRoute_valid valid first
    have untouched := applyRoutes_frame nextValid later (applyRoute_lt valid first)
      (by rw [applyRoute_host first]; exact distinct.head_host)
    refine .cons ?_ (forall₂_imp_mem (ih nextValid distinct.tail later) fun r member g' tail => ?_)
    · rw [untouched.1]
      exact (applyRoute_carried valid first).imp fun c b carried =>
        carried.keep valid (applyRoute_kept valid first) (applyRoutes_spec nextValid later).2.1
    · refine tail.imp fun c b carried => carried.prepend valid first fun same => ?_
      exact distinct.head_host (List.mem_map.mpr ⟨r, member, same⟩)

/-- Whatever may happen to a registry while the proxy runs. -/
inductive Event where
  | applyConfig (now : Instant) (routes : List RouteConfig)
  | connect (b : BackendId)
  | disconnect (b : BackendId)
  | countError (b : BackendId)
  | takeErrors (b : BackendId)
  | probed (b : BackendId) (now : Instant) (healthy : Bool)

def step : Event → BackendRegistry → Option BackendRegistry
  | .applyConfig now routes, reg => (reg.applyConfig now routes).map Prod.snd
  | .connect b, reg => some (reg.write b Backend.connect)
  | .disconnect b, reg => some (reg.write b Backend.disconnect)
  | .countError b, reg => some (reg.write b Backend.countError)
  | .takeErrors b, reg => some (reg.write b Backend.takeErrors)
  | .probed b now healthy, reg => some (reg.write b (Backend.probed now healthy))

theorem applyConfig_cases {reg after : BackendRegistry} {now : Instant} {routes : List RouteConfig}
    {answer : Except HostError Unit}
    (applied : reg.applyConfig now routes = some (answer, after)) :
    (∃ e, validate routes = .error e ∧ answer = .error e ∧ after = reg) ∨
      ∃ ids last, validate routes = .ok () ∧ answer = .ok () ∧
        BackendRegistry.applyRoutes now routes reg = some (ids, last) ∧
        after = { last with groups := ids } := by
  rw [BackendRegistry.applyConfig] at applied
  split at applied
  next e refused =>
    cases applied
    exact Or.inl ⟨e, refused, rfl, rfl⟩
  next accepted =>
    split at applied
    next => cases applied
    next ids last done =>
      cases applied
      exact Or.inr ⟨ids, last, accepted, rfl, done, rfl⟩

theorem applyConfig_isSome (reg : BackendRegistry) (now : Instant) (routes : List RouteConfig) :
    ∃ answer after, reg.applyConfig now routes = some (answer, after) := by
  rw [BackendRegistry.applyConfig]
  cases checked : validate routes with
  | error e => exact ⟨_, _, rfl⟩
  | ok =>
    obtain ⟨ids, last, done⟩ := @applyRoutes_isSome now reg routes (validate_ok_iff.mp checked)
    rw [done]
    exact ⟨_, _, rfl⟩

theorem applyConfig_valid {reg after : BackendRegistry} {now : Instant} {routes : List RouteConfig}
    {answer : Except HostError Unit} (valid : Valid reg)
    (applied : reg.applyConfig now routes = some (answer, after)) : Valid after := by
  rcases applyConfig_cases applied with ⟨e, -, -, rfl⟩ | ⟨ids, last, -, -, done, rfl⟩
  · exact valid
  · obtain ⟨final, -, -, inside, -⟩ := applyRoutes_spec valid done
    exact valid_withGroups final inside

theorem step_valid (event : Event) (reg next : BackendRegistry) (valid : Valid reg)
    (taken : step event reg = some next) : Valid next := by
  cases event with
  | applyConfig now routes =>
    obtain ⟨⟨answer, after⟩, applied, rfl⟩ := Option.map_eq_some_iff.mp taken
    exact applyConfig_valid valid applied
  | connect b => cases taken; exact valid_write valid b _
  | disconnect b => cases taken; exact valid_write valid b _
  | countError b => cases taken; exact valid_write valid b _
  | takeErrors b => cases taken; exact valid_write valid b _
  | probed b now healthy => cases taken; exact valid_write valid b _

/-- A reload answers as a restart with the same routes would. Where the restart fails the
registry is untouched; otherwise the two tables show the same configuration, and every
pair of host and URL that had an object keeps it with all it has learned. -/
theorem apply_config_eq_restart {start : Instant} {initial : List RouteConfig}
    {first reg : BackendRegistry} (built : BackendRegistry.new start initial = .ok first)
    (reached : Machine.Reachable step first reg) (now : Instant) (routes : List RouteConfig)
    (distinct : Distinct routes) :
    (∀ e after, reg.applyConfig now routes = some (.error e, after) ↔
      BackendRegistry.new now routes = .error e ∧ after = reg) ∧
    ∀ fresh, BackendRegistry.new now routes = .ok fresh →
      ∃ last, reg.applyConfig now routes = some (.ok (), last) ∧
        last.config = fresh.config ∧ kinds last = kinds fresh ∧
        List.Forall₂ (fun route g => List.Forall₂ (Carried reg last now route.host) route.backends
          (last.group g).backends) routes last.groups := by
  have valid := reached.invariant step_valid (new_spec built).1
  refine ⟨fun e after => ?_, fun fresh restarted => ?_⟩
  · rw [new_error_iff]
    constructor
    · intro applied
      rcases applyConfig_cases applied with ⟨e', refused, same, rfl⟩ | ⟨-, -, -, wrong, -⟩
      · cases same
        exact ⟨refused, rfl⟩
      · cases wrong
    · rintro ⟨refused, rfl⟩
      rw [BackendRegistry.applyConfig, refused]
  · have accepted := new_ok_iff.mp ⟨fresh, restarted⟩
    obtain ⟨ids, last, done⟩ : ∃ ids last, BackendRegistry.applyRoutes now routes reg = some (ids, last) :=
      applyRoutes_isSome (validate_ok_iff.mp accepted)
    have shown : ids.map last.route = fresh.config :=
      (applyRoutes_config valid distinct done).trans (new_spec restarted).2.symm
    have carried := applyRoutes_carried valid distinct done
    refine ⟨{ last with groups := ids }, ?_, shown, kinds_congr (congrArg _ shown), carried⟩
    rw [BackendRegistry.applyConfig, accepted]
    simp only [done]

/-- One backend is open and is drained by the reload, which also adds a backend. -/
theorem apply_config_eq_restart_drained :
    ∃ first reg, BackendRegistry.new 0 [⟨['a'], [⟨['u'], 5, false⟩]⟩] = .ok first ∧
      Machine.Reachable step first reg ∧ (reg.backend 0).activeConnections = 1 ∧
      ∀ fresh, BackendRegistry.new 7 [⟨['a'], [⟨['u'], 5, true⟩, ⟨['v'], 9, false⟩]⟩] = .ok fresh →
        ∃ last, reg.applyConfig 7 [⟨['a'], [⟨['u'], 5, true⟩, ⟨['v'], 9, false⟩]⟩] =
            some (.ok (), last) ∧
          last.config = fresh.config := by
  refine ⟨_, _, rfl, ⟨[.connect 0], rfl⟩, rfl, fun fresh restarted => ?_⟩
  have spec := @apply_config_eq_restart 0 [⟨['a'], [⟨['u'], 5, false⟩]⟩] _ _ rfl
    ⟨[.connect 0], rfl⟩ 7 [⟨['a'], [⟨['u'], 5, true⟩, ⟨['v'], 9, false⟩]⟩] ⟨by decide, by decide⟩
  obtain ⟨last, done, shown, -⟩ := spec.2 fresh restarted
  exact ⟨last, done, shown⟩

end TinyLb.Reload
