import TinyLb.HostRouting

/-! Reloading the routes a registry was built from. A restart makes one group for each
route and one backend for each entry; a reload looks up the first group by host and the
first backend by URL, so entries that share a key end up sharing an object. -/

namespace TinyLb.UnchangedReload
open Text Config Hosts Backends Merge Reload HostRouting

/-- Some Host header reaches route `i`: its host has no port separator, and no route that
takes precedence has the same host up to ASCII case. -/
def Selectable (routes : List RouteConfig) (i : Nat) : Prop :=
  ∃ route, routes[i]? = some route ∧ ':' ∉ route.host ∧
    ((¬IsWildcard route.host ∧ ∀ j < i, ∀ other, routes[j]? = some other →
        toAsciiLowercase other.host ≠ toAsciiLowercase route.host) ∨
      (IsWildcard route.host ∧ ∀ j, i < j → ∀ other, routes[j]? = some other →
        toAsciiLowercase other.host ≠ toAsciiLowercase route.host))

theorem isWildcard_congr {host host' : Str} (same : toAsciiLowercase host = toAsciiLowercase host') :
    IsWildcard host → IsWildcard host' := by
  rintro ⟨suffix, rfl⟩
  cases host' with
  | nil => exact absurd same (List.cons_ne_nil _ _)
  | cons c rest =>
    cases rest with
    | nil => exact absurd (List.cons.inj same).2 (List.cons_ne_nil _ _)
    | cons d rest =>
      simp only [toAsciiLowercase_cons, List.cons.injEq] at same
      have star : c = '*' := (toLower_eq_iff (by decide)).mp same.1.symm
      have dot : d = '.' := (toLower_eq_iff (by decide)).mp same.2.1.symm
      subst star dot
      exact ⟨rest, rfl⟩

section Header
variable {reg : BackendRegistry}

/-- Two entries that match exactly the same texts. -/
theorem exactMatch_congr {host host' h : Str}
    (same : toAsciiLowercase host = toAsciiLowercase host') (matched : ExactMatch host' h) :
    ExactMatch host h :=
  ⟨fun wild => matched.1 (isWildcard_congr same wild), same.trans matched.2⟩

theorem wildcardMatch_congr {host host' h suffix : Str}
    (same : toAsciiLowercase host = toAsciiLowercase host') (matched : WildcardMatch host' h suffix) :
    ∃ suffix', WildcardMatch host h suffix' ∧
      toAsciiLowercase ('.' :: suffix') = toAsciiLowercase ('.' :: suffix) := by
  obtain ⟨rfl, ends⟩ := matched
  obtain ⟨suffix', rfl⟩ := isWildcard_congr same.symm ⟨suffix, rfl⟩
  simp only [toAsciiLowercase_cons, List.cons.injEq, true_and] at same
  have tails : toAsciiLowercase ('.' :: suffix') = toAsciiLowercase ('.' :: suffix) := by
    rw [toAsciiLowercase_cons, toAsciiLowercase_cons, same]
  exact ⟨suffix', ⟨rfl, tails ▸ ends⟩, tails⟩

theorem selectable_of_chosen {header : Str} {i : Nat}
    (chosen : Chosen (kinds reg) (hostKey header) i) : Selectable reg.config i := by
  obtain ⟨kind, here, rule⟩ := chosen
  obtain ⟨route, there, parsed⟩ := route_of_kind here
  have portless : ':' ∉ toAsciiLowercase (splitFirst ':' header) := by
    rw [mem_toAsciiLowercase (by decide)]
    exact not_mem_splitFirst ':' header
  rcases rule with ⟨matched, earlier⟩ | ⟨-, length, matched, -, high⟩
  · have named := (isExactly_iff parsed).mp matched
    refine ⟨route, there, ?_, Or.inl ⟨named.1, fun j below other at_j same => ?_⟩⟩
    · rw [← mem_toAsciiLowercase (by decide), named.2]
      exact portless
    · obtain ⟨kind', at_kind, parsed'⟩ := kind_of_route at_j
      have missed := earlier j below kind' at_kind
      rw [hostKey, (isExactly_iff parsed').mpr (exactMatch_congr same named)] at missed
      cases missed
  · obtain ⟨suffix, wild, rfl⟩ := (suffixLen_iff parsed).mp matched
    refine ⟨route, there, ?_, Or.inr ⟨⟨suffix, wild.1⟩, fun j above other at_j same => ?_⟩⟩
    · have absent : ':' ∉ toAsciiLowercase ('.' :: suffix) := fun present =>
        portless (wild.2.subset present)
      rw [mem_toAsciiLowercase (by decide)] at absent
      rw [wild.1, List.mem_cons, not_or]
      exact ⟨by decide, absent⟩
    · obtain ⟨kind', at_kind, parsed'⟩ := kind_of_route at_j
      obtain ⟨suffix', wild', tails⟩ := wildcardMatch_congr same wild
      have shorter := high j above kind' _ at_kind ((suffixLen_iff parsed').mpr ⟨suffix', wild', rfl⟩)
      rw [tails] at shorter
      exact absurd shorter (Nat.lt_irrefl _)

/-- A row of letters in front of a text adds no suffix that starts with a dot. -/
theorem suffix_of_padded {n : Nat} {t u : Str} (ends : '.' :: t <:+ List.replicate n 'a' ++ u) :
    '.' :: t <:+ u := by
  induction n with
  | zero => exact ends
  | succ n ih =>
    rw [List.replicate_succ, List.cons_append, List.suffix_cons_iff] at ends
    rcases ends with whole | inside
    · exact absurd (List.cons.inj whole).1 (by decide)
    · exact ih inside

/-- A header longer than every host, so that only wildcards can match it. -/
def paddedHeader (routes : List RouteConfig) (suffix : Str) : Str :=
  List.replicate (routes.map (·.host)).flatten.length 'a' ++ '.' :: suffix

theorem toAsciiLowercase_paddedHeader (routes : List RouteConfig) (suffix : Str) :
    toAsciiLowercase (paddedHeader routes suffix) =
      List.replicate (routes.map (·.host)).flatten.length 'a' ++
        toAsciiLowercase ('.' :: suffix) := by
  rw [paddedHeader, toAsciiLowercase_append]
  congr 1
  simp [toAsciiLowercase]

theorem not_exactMatch_padded {routes : List RouteConfig} {route : RouteConfig}
    (member : route ∈ routes) (suffix : Str) : ¬ExactMatch route.host (paddedHeader routes suffix) := by
  rintro ⟨-, same⟩
  have lengths := congrArg List.length same
  have listed : route.host ∈ routes.map (·.host) := List.mem_map_of_mem member
  have bound := (List.sublist_flatten_of_mem listed).length_le
  simp only [toAsciiLowercase_length, paddedHeader, List.length_append, List.length_replicate,
    List.length_cons] at lengths
  omega

theorem wildcardMatch_padded {routes : List RouteConfig} {host suffix suffix' : Str}
    (wild : WildcardMatch host (paddedHeader routes suffix) suffix') :
    toAsciiLowercase ('.' :: suffix') <:+ toAsciiLowercase ('.' :: suffix) := by
  have ends := wild.2
  rw [toAsciiLowercase_paddedHeader] at ends
  exact suffix_of_padded ends

theorem chosen_of_named {i : Nat} {route : RouteConfig} (here : reg.config[i]? = some route)
    (named : ¬IsWildcard route.host) (earlier : ∀ j < i, ∀ other, reg.config[j]? = some other →
      toAsciiLowercase other.host ≠ toAsciiLowercase route.host) :
    Chosen (kinds reg) (toAsciiLowercase route.host) i := by
  obtain ⟨kind, at_kind, parsed⟩ := kind_of_route here
  refine ⟨kind, at_kind, Or.inl ⟨(isExactly_iff parsed).mpr ⟨named, rfl⟩, fun j below other at_other => ?_⟩⟩
  obtain ⟨route', at_j, parsed'⟩ := route_of_kind at_other
  rw [← Bool.not_eq_true, isExactly_iff parsed']
  exact fun matched => earlier j below route' at_j matched.2

theorem chosen_of_selectable {i : Nat} (selectable : Selectable reg.config i) :
    ∃ header, Chosen (kinds reg) (hostKey header) i := by
  obtain ⟨route, here, portless, ⟨named, earlier⟩ | ⟨⟨suffix, wild⟩, later⟩⟩ := selectable
  · refine ⟨route.host, ?_⟩
    rw [hostKey, splitFirst_eq_self portless]
    exact chosen_of_named here named earlier
  · obtain ⟨kind, at_kind, parsed⟩ := kind_of_route here
    have clean : ':' ∉ paddedHeader reg.config suffix := by
      rw [wild] at portless
      simp only [List.mem_cons, not_or] at portless
      simp [paddedHeader, portless.2.2]
    refine ⟨paddedHeader reg.config suffix, kind, at_kind, Or.inr ?_⟩
    rw [hostKey, splitFirst_eq_self clean]
    have matched : WildcardMatch route.host (paddedHeader reg.config suffix) suffix :=
      ⟨wild, toAsciiLowercase_paddedHeader reg.config suffix ▸ List.suffix_append ..⟩
    refine ⟨fun other at_other => ?_, _, (suffixLen_iff parsed).mpr ⟨suffix, matched, rfl⟩,
      fun j _ other m at_other found => ?_, fun j above other m at_other found => ?_⟩
    · obtain ⟨j, at_j⟩ := List.mem_iff_getElem?.mp at_other
      obtain ⟨route', there, parsed'⟩ := route_of_kind at_j
      rw [← Bool.not_eq_true, isExactly_iff parsed']
      exact not_exactMatch_padded (List.mem_of_getElem? there) suffix
    · obtain ⟨route', at_j, parsed'⟩ := route_of_kind at_other
      obtain ⟨suffix', wild', rfl⟩ := (suffixLen_iff parsed').mp found
      exact len_le_of_isSuffix (wildcardMatch_padded wild')
    · obtain ⟨route', at_j, parsed'⟩ := route_of_kind at_other
      obtain ⟨suffix', wild', rfl⟩ := (suffixLen_iff parsed').mp found
      have inside := wildcardMatch_padded wild'
      by_contra longer
      have lengths := len_le_of_suffix (List.suffix_refl _) inside (Nat.le_of_not_lt longer)
      have tails := inside.eq_of_length_le lengths
      refine later j above route' at_j ?_
      rw [wild'.1, wild, toAsciiLowercase_cons, tails, ← toAsciiLowercase_cons]

end Header

def entriesFor (host : Str) (routes : List RouteConfig) : List RouteConfig :=
  routes.filter fun route => route.host == host

/-- The list a group shows once `entries` have been applied to it one after the other. -/
def mergeAll (entries : List RouteConfig) (shown : List BackendConfig) : List BackendConfig :=
  entries.foldl (fun shown route => settle (shown.map (·.url)) route.backends) shown

/-- What reloads leave for `host`: the list of its last route, where the entries for a URL
that the route before it has too (or that route itself, if there is no other) all read as
the last of them. -/
def leftover (routes : List RouteConfig) (host : Str) : List BackendConfig :=
  match (entriesFor host routes).reverse with
  | [] => []
  | [only] => settle (only.backends.map (·.url)) only.backends
  | final :: previous :: _ => settle (previous.backends.map (·.url)) final.backends

theorem leftover_of_single {routes : List RouteConfig} {host : Str} {only : RouteConfig}
    (single : entriesFor host routes = [only]) :
    leftover routes host = settle (only.backends.map (·.url)) only.backends := by
  rw [leftover, single]
  rfl

/-- Only the last two routes of a host matter, and a single one only for its URLs. -/
theorem mergeAll_eq_leftover {routes : List RouteConfig} {host : Str} {shown : List BackendConfig}
    (present : entriesFor host routes ≠ [])
    (known : ∀ only, entriesFor host routes = [only] →
      shown.map (·.url) = only.backends.map (·.url)) :
    mergeAll (entriesFor host routes) shown = leftover routes host := by
  rw [leftover]
  generalize entriesFor host routes = entries at present known
  cases backwards : entries.reverse with
  | nil => exact absurd (List.reverse_eq_nil_iff.mp backwards) present
  | cons final rest =>
    rw [List.reverse_eq_iff, List.reverse_cons] at backwards
    subst backwards
    cases rest with
    | nil => rw [List.reverse_nil, List.nil_append, mergeAll, List.foldl_cons, List.foldl_nil,
        known final rfl]
    | cons previous rest =>
      simp only [mergeAll, List.reverse_cons, List.append_assoc, List.foldl_append, List.foldl_cons,
        List.foldl_nil, settle_urls]

section ApplyRoutes
variable {now : Instant} {reg last : BackendRegistry} {routes : List RouteConfig}
  {ids : List GroupId}

theorem locateGroup_applyRoute {next : BackendRegistry} {route : RouteConfig} {g : GroupId}
    (valid : Valid reg) (applied : reg.applyRoute now route = some (g, next)) (host : Str) :
    next.locateGroup host = reg.locateGroup host :=
  locateGroup_congr (applyRoute_groups applied)
    (fun g member => (applyRoute_kept valid applied).host g (valid.table g member)) host

theorem applyRoutes_mergeAll (valid : Valid reg)
    (applied : BackendRegistry.applyRoutes now routes reg = some (ids, last)) {host : Str}
    {g : GroupId} (found : reg.locateGroup host = some g) :
    (last.route g).backends = mergeAll (entriesFor host routes) (reg.route g).backends := by
  induction routes generalizing reg ids with
  | nil =>
    cases applied
    rfl
  | cons route rest ih =>
    obtain ⟨g', next, more, first, later, rfl⟩ := applyRoutes_cons_some.mp applied
    have tail := ih (applyRoute_valid valid first) later
      ((locateGroup_applyRoute valid first host).trans found)
    simp only [tail, entriesFor, List.filter_cons]
    by_cases same : route.host = host
    · subst same
      have shown := route_applyRoute_self valid first
      rcases applyRoute_cases first with ⟨again, -⟩ | ⟨absent, -⟩
      · rw [found] at again
        cases again
        rw [oldUrls, found] at shown
        rw [if_pos (beq_self_eq_true _), shown]
        rfl
      · rw [found] at absent
        cases absent
    · obtain ⟨member, named⟩ : g ∈ reg.groups ∧ (reg.group g).host = host := by
        refine ⟨List.mem_of_find?_eq_some found, ?_⟩
        simpa using List.find?_some found
      have known := valid.table g member
      have other := applyRoute_ne_of_host first known (named ▸ Ne.symm same)
      rw [if_neg (by simpa using same), route_applyRoute_of_ne valid first other known]

/-- Where every host is known already, the new table lists the groups found by host. -/
theorem applyRoutes_located (valid : Valid reg)
    (applied : BackendRegistry.applyRoutes now routes reg = some (ids, last))
    (known : ∀ route ∈ routes, reg.locateGroup route.host ≠ none) :
    ∀ g ∈ ids, ∃ route ∈ routes, reg.locateGroup route.host = some g := by
  induction routes generalizing reg ids with
  | nil =>
    cases applied
    simp
  | cons route rest ih =>
    obtain ⟨g', next, more, first, later, rfl⟩ := applyRoutes_cons_some.mp applied
    rw [List.forall_mem_cons] at known
    have stay := locateGroup_applyRoute valid first
    have tail := ih (applyRoute_valid valid first) later fun r member => by
      rw [stay]
      exact known.2 r member
    intro g member
    rcases List.mem_cons.mp member with rfl | member
    · rcases applyRoute_cases first with ⟨found, -⟩ | ⟨absent, -⟩
      · exact ⟨route, List.mem_cons_self .., found⟩
      · exact absurd absent known.1
    · obtain ⟨r, listed, found⟩ := tail g member
      exact ⟨r, List.mem_cons_of_mem _ listed, stay r.host ▸ found⟩

end ApplyRoutes

/-- What holds before a reload with the routes the registry was built from. -/
structure Routed (routes : List RouteConfig) (reg : BackendRegistry) : Prop where
  valid : Valid reg
  hosts : reg.config.map (·.host) = routes.map (·.host)
  urls : ∀ g only, reg.locateGroup only.host = some g → entriesFor only.host routes = [only] →
    (reg.route g).backends.map (·.url) = only.backends.map (·.url)

/-- What holds after it, however often it is repeated. -/
structure Reloaded (routes : List RouteConfig) (reg : BackendRegistry) : Prop where
  valid : Valid reg
  hosts : reg.config.map (·.host) = routes.map (·.host)
  shown : ∀ g ∈ reg.groups, (reg.route g).backends = leftover routes (reg.group g).host

theorem routed_of_new {now : Instant} {routes : List RouteConfig} {fresh : BackendRegistry}
    (built : BackendRegistry.new now routes = .ok fresh) : Routed routes fresh := by
  obtain ⟨valid, shown⟩ := new_spec built
  refine ⟨valid, by rw [shown], fun g only found single => ?_⟩
  obtain ⟨member, named⟩ := locateGroup_some found
  have listed : fresh.route g ∈ routes := by
    rw [← shown]
    exact List.mem_map_of_mem member
  have entry : fresh.route g ∈ entriesFor only.host routes :=
    List.mem_filter.mpr ⟨listed, beq_iff_eq.mpr named⟩
  rw [single, List.mem_singleton] at entry
  rw [entry]

theorem Reloaded.routed {routes : List RouteConfig} {reg : BackendRegistry}
    (reloaded : Reloaded routes reg) : Routed routes reg := by
  refine ⟨reloaded.valid, reloaded.hosts, fun g only found single => ?_⟩
  obtain ⟨member, named⟩ := locateGroup_some found
  rw [reloaded.shown g member, named, leftover_of_single single, settle_urls]

/-- One reload with the same routes succeeds, and leaves what `leftover` says. -/
theorem Routed.reload {routes : List RouteConfig} {reg : BackendRegistry} (routed : Routed routes reg)
    (accepted : validate routes = .ok ()) (now : Instant) :
    ∃ after, reg.applyConfig now routes = some (.ok (), after) ∧ Reloaded routes after := by
  obtain ⟨ids, last, done⟩ : ∃ ids last, BackendRegistry.applyRoutes now routes reg = some (ids, last) :=
    applyRoutes_isSome (validate_ok_iff.mp accepted)
  obtain ⟨final, kept, -, inside, hosts⟩ := applyRoutes_spec routed.valid done
  have known : ∀ route ∈ routes, reg.locateGroup route.host ≠ none := by
    intro route member absent
    have listed : route.host ∈ reg.config.map (·.host) := by
      rw [routed.hosts]
      exact List.mem_map_of_mem member
    simp only [BackendRegistry.config, List.map_map, List.mem_map, Function.comp_apply] at listed
    obtain ⟨g, present, named⟩ := listed
    have missed := List.find?_eq_none.mp absent g present
    exact missed (beq_iff_eq.mpr named)
  refine ⟨{ last with groups := ids }, ?_, valid_withGroups final inside, ?_, fun g member => ?_⟩
  · rw [BackendRegistry.applyConfig, accepted]
    simp only [done]
  · rw [← hosts, BackendRegistry.config, List.map_map]
    rfl
  · obtain ⟨route, listed, found⟩ := applyRoutes_located routed.valid done known g member
    obtain ⟨old, named⟩ := locateGroup_some found
    have host : (last.group g).host = route.host :=
      (kept.host g (routed.valid.table g old)).trans named
    have entry : entriesFor route.host routes ≠ [] :=
      List.ne_nil_of_mem (List.mem_filter.mpr ⟨listed, beq_self_eq_true route.host⟩)
    have urls : ∀ only, entriesFor route.host routes = [only] →
        (reg.route g).backends.map (·.url) = only.backends.map (·.url) := by
      intro only single
      have self : only ∈ entriesFor route.host routes := by simp [single]
      have same : only.host = route.host := by simpa using (List.mem_filter.mp self).2
      exact routed.urls g only (same ▸ found) (same ▸ single)
    calc (last.route g).backends
      _ = mergeAll (entriesFor route.host routes) (reg.route g).backends :=
        applyRoutes_mergeAll routed.valid done found
      _ = leftover routes (last.group g).host := by rw [mergeAll_eq_leftover entry urls, host]

section Unchanged
variable {now : Instant} {routes : List RouteConfig} {fresh : BackendRegistry}

def reloads (routes : List RouteConfig) (times : List Instant) : List Event :=
  times.map fun now => .applyConfig now routes

theorem reloads_reloaded (accepted : validate routes = .ok ()) {reg : BackendRegistry}
    (routed : Routed routes reg) (time : Instant) (times : List Instant) :
    ∃ after, Machine.run step (reloads routes (time :: times)) reg = some after ∧
      Reloaded routes after := by
  induction times generalizing reg time with
  | nil =>
    obtain ⟨after, applied, reloaded⟩ := routed.reload accepted time
    exact ⟨after, by simp [reloads, Machine.run, step, applied], reloaded⟩
  | cons later times ih =>
    obtain ⟨mid, applied, reloaded⟩ := routed.reload accepted time
    obtain ⟨after, done, final⟩ := ih reloaded.routed later
    have taken : step (.applyConfig time routes) reg = some mid := by simp [step, applied]
    exact ⟨after, Machine.run_cons_some.mpr ⟨mid, taken, done⟩, final⟩

/-- Tables with the same match kinds answer every header at the same position. -/
theorem findGroup_position {reg reg' : BackendRegistry} (same : kinds reg = kinds reg') (header : Str) :
    (reg.findGroup header = none ∧ reg'.findGroup header = none) ∨
      ∃ i g g', reg.groups[i]? = some g ∧ reg'.groups[i]? = some g' ∧
        reg.findGroup header = some g ∧ reg'.findGroup header = some g' ∧
        Chosen (kinds reg) (hostKey header) i := by
  cases found : reg.findGroup header with
  | some g =>
    obtain ⟨i, here, chosen⟩ := findGroup_eq_some.mp found
    have there := chosen
    obtain ⟨kind, at_i, -⟩ := there
    rw [same] at at_i
    obtain ⟨g', here', -⟩ := getElem?_kinds.mp at_i
    exact Or.inr ⟨i, g, g', here, here', rfl, findGroup_eq_some.mpr ⟨i, here', same ▸ chosen⟩, chosen⟩
  | none =>
    cases found' : reg'.findGroup header with
    | none => exact Or.inl ⟨rfl, rfl⟩
    | some g' =>
      obtain ⟨i, -, chosen⟩ := findGroup_eq_some.mp found'
      have there := chosen
      obtain ⟨kind, at_i, -⟩ := there
      rw [← same] at at_i
      obtain ⟨g, here, -⟩ := getElem?_kinds.mp at_i
      rw [findGroup_eq_some.mpr ⟨i, here, same ▸ chosen⟩] at found
      cases found

/-- `header` reaches a group with the same host and the same list in both registries. -/
def SameRouting (fresh reg : BackendRegistry) (header : Str) : Prop :=
  (reg.findGroup header).map reg.route = (fresh.findGroup header).map fresh.route

theorem Reloaded.route {reg : BackendRegistry} (reloaded : Reloaded routes reg) {i : Nat} {g : GroupId}
    {route : RouteConfig} (here : reg.groups[i]? = some g) (listed : routes[i]? = some route) :
    reg.route g = ⟨route.host, leftover routes route.host⟩ := by
  have hosts : (reg.config.map (·.host))[i]? = some (reg.group g).host := by
    simp [BackendRegistry.config, here, BackendRegistry.route]
  rw [reloaded.hosts, List.getElem?_map, listed, Option.map_some, Option.some.injEq] at hosts
  rw [hosts, ← reloaded.shown g (List.mem_of_getElem? here)]
  rfl

theorem new_route (built : BackendRegistry.new now routes = .ok fresh) {i : Nat} {g : GroupId}
    {route : RouteConfig} (here : fresh.groups[i]? = some g) (listed : routes[i]? = some route) :
    fresh.route g = route := by
  have shown := getElem?_config.mpr ⟨g, here, rfl⟩
  rw [(new_spec built).2, listed] at shown
  exact (Option.some.inj shown).symm

/-- After reloads with the same routes every header is routed as it was at the start,
exactly where every selectable route shows the list that the reloads leave for its host. -/
theorem unchanged_reload_iff (built : BackendRegistry.new now routes = .ok fresh) :
    (∀ times, ∃ reg, Machine.run step (reloads routes times) fresh = some reg ∧
      ∀ header, SameRouting fresh reg header) ↔
    ∀ i route, routes[i]? = some route → Selectable routes i →
      leftover routes route.host = route.backends := by
  have accepted := new_ok_iff.mp ⟨fresh, built⟩
  have shown := (new_spec built).2
  have routed := routed_of_new built
  constructor
  · intro unchanged i route listed selectable
    obtain ⟨after, done, reloaded⟩ := reloads_reloaded accepted routed 0 []
    obtain ⟨reg, again, same⟩ := unchanged [0]
    rw [done] at again
    cases again
    obtain ⟨header, chosen⟩ := @chosen_of_selectable fresh i (shown.symm ▸ selectable)
    have positions := kinds_congr (reloaded.hosts.trans (congrArg _ shown.symm))
    obtain ⟨kind, at_i, -⟩ := id chosen
    obtain ⟨g, here, -⟩ := getElem?_kinds.mp at_i
    obtain ⟨g', here', -⟩ := getElem?_kinds.mp (positions.symm ▸ at_i)
    have first := findGroup_eq_some.mpr ⟨i, here, chosen⟩
    have second := findGroup_eq_some.mpr ⟨i, here', positions.symm ▸ chosen⟩
    have routes_eq := same header
    rw [SameRouting, first, second, Option.map_some, Option.map_some, Option.some.injEq,
      reloaded.route here' listed, new_route built here listed] at routes_eq
    exact congrArg RouteConfig.backends routes_eq
  · intro stable times
    cases times with
    | nil => exact ⟨fresh, rfl, fun header => rfl⟩
    | cons time times =>
      obtain ⟨reg, done, reloaded⟩ := reloads_reloaded accepted routed time times
      refine ⟨reg, done, fun header => ?_⟩
      have positions := kinds_congr (reloaded.hosts.trans (congrArg _ shown.symm))
      rw [SameRouting]
      rcases findGroup_position positions header with
        ⟨none, none'⟩ | ⟨i, g, g', here, here', found, found', chosen⟩
      · rw [none, none']
        rfl
      · obtain ⟨route, listed⟩ : ∃ route, routes[i]? = some route := by
          rw [← shown]
          exact ⟨_, getElem?_config.mpr ⟨g', here', rfl⟩⟩
        have selectable : Selectable routes i :=
          shown ▸ @selectable_of_chosen fresh header i (positions ▸ chosen)
        rw [found, found', Option.map_some, Option.map_some, reloaded.route here listed,
          stable i route listed selectable, new_route built here' listed]

/-- A backend that is listed twice with the same settings. -/
theorem unchanged_reload_iff_repeated_url :
    ∃ fresh, BackendRegistry.new 0 [⟨['a'], [⟨['u'], 5, false⟩, ⟨['u'], 5, false⟩]⟩] = .ok fresh ∧
      ∀ times, ∃ reg, Machine.run step
        (reloads [⟨['a'], [⟨['u'], 5, false⟩, ⟨['u'], 5, false⟩]⟩] times) fresh = some reg ∧
          ∀ header, SameRouting fresh reg header := by
  refine ⟨_, rfl, (@unchanged_reload_iff 0 _ _ rfl).mpr fun i route listed _ => ?_⟩
  have first := List.mem_of_getElem? listed
  rw [List.mem_singleton] at first
  subst first
  rfl

/-- Two routes for one host: at the start the first serves it, after a reload both show
the backends of the second. -/
theorem unchanged_reload_fails_for_repeated_host :
    ∃ fresh reg,
      BackendRegistry.new 0 [⟨['a'], [⟨['u'], 5, false⟩]⟩, ⟨['a'], [⟨['v'], 5, false⟩]⟩] = .ok fresh ∧
      Machine.run step (reloads [⟨['a'], [⟨['u'], 5, false⟩]⟩, ⟨['a'], [⟨['v'], 5, false⟩]⟩] [1]) fresh =
        some reg ∧
      (fresh.findGroup ['a']).map fresh.route = some ⟨['a'], [⟨['u'], 5, false⟩]⟩ ∧
      (reg.findGroup ['a']).map reg.route = some ⟨['a'], [⟨['v'], 5, false⟩]⟩ ∧
      ¬SameRouting fresh reg ['a'] := by
  refine ⟨_, _, rfl, rfl, rfl, rfl, ?_⟩
  unfold SameRouting
  decide

end Unchanged

end TinyLb.UnchangedReload
