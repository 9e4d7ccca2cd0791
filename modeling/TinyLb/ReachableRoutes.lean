import TinyLb.UnchangedReload

/-! Which accepted routes a request can reach. A Host header is cut at its first colon, and the host
of a route is not. -/

namespace TinyLb.ReachableRoutes
open Text Config Hosts Backends Reload HostRouting UnchangedReload

/-- The host of a route leads to its group, with a port or without, and some host under a wildcard
leads to that of the wildcard. -/
structure Reaches (reg : BackendRegistry) (g : GroupId) (host : Str) : Prop where
  named : ¬IsWildcard host → reg.findGroup host = some g ∧
    ∀ port : Nat, reg.findGroup (host ++ ':' :: Nat.toDigits 10 port) = some g
  wild : IsWildcard host → ∃ header, reg.findGroup header = some g

section Registry
variable {now : Instant} {routes : List RouteConfig} {reg : BackendRegistry} {i : Nat}
  {route : RouteConfig}

/-- In a registry as it was built, the group of a route has its position. -/
theorem findGroup_iff_chosen (built : BackendRegistry.new now routes = .ok reg) {header : Str} :
    reg.findGroup header = some i ↔ i < routes.length ∧ Chosen (kinds reg) (hostKey header) i := by
  rw [findGroup_eq_some, new_groups built]
  constructor
  · rintro ⟨j, here, chosen⟩
    obtain ⟨bound, rfl⟩ := List.getElem?_eq_some_iff.mp here
    rw [List.getElem_range]
    rw [List.length_range] at bound
    exact ⟨bound, chosen⟩
  · rintro ⟨bound, chosen⟩
    exact ⟨i, by rw [List.getElem?_range bound], chosen⟩

/-- A route whose host no other has is reached exactly if there is no colon in its host. -/
theorem reaches_iff_portless (built : BackendRegistry.new now routes = .ok reg)
    (here : routes[i]? = some route)
    (unique : ∀ j other, j ≠ i → routes[j]? = some other →
      toAsciiLowercase other.host ≠ toAsciiLowercase route.host) :
    Reaches reg i route.host ↔ ':' ∉ route.host := by
  obtain ⟨-, shown⟩ := new_spec built
  obtain ⟨bound, -⟩ := List.getElem?_eq_some_iff.mp here
  rw [← shown] at here
  constructor
  · intro reaches
    have found : ∃ header, reg.findGroup header = some i := by
      by_cases wild : IsWildcard route.host
      · exact reaches.wild wild
      · exact ⟨route.host, (reaches.named wild).1⟩
    obtain ⟨header, found⟩ := found
    obtain ⟨other, there, portless, -⟩ := selectable_of_chosen ((findGroup_iff_chosen built).mp found).2
    rw [here] at there
    cases there
    exact portless
  · intro portless
    have apart : ∀ j, j ≠ i → ∀ other, reg.config[j]? = some other →
        toAsciiLowercase other.host ≠ toAsciiLowercase route.host := by
      intro j distinct other there
      exact unique j other distinct (shown ▸ there)
    refine ⟨fun named => ?_, fun wild => ?_⟩
    · have chosen := chosen_of_named here named fun j below => apart j (Nat.ne_of_lt below)
      refine ⟨?_, fun port => ?_⟩
      · rw [findGroup_iff_chosen built, hostKey, splitFirst_eq_self portless]
        exact ⟨bound, chosen⟩
      · rw [findGroup_iff_chosen built, hostKey, splitFirst_append portless]
        exact ⟨bound, chosen⟩
    · have later : ∀ j, i < j → ∀ other, reg.config[j]? = some other →
          toAsciiLowercase other.host ≠ toAsciiLowercase route.host :=
        fun j above => apart j (Nat.ne_of_gt above)
      obtain ⟨header, chosen⟩ := chosen_of_selectable ⟨route, here, portless, Or.inr ⟨wild, later⟩⟩
      exact ⟨header, (findGroup_iff_chosen built).mpr ⟨bound, chosen⟩⟩

/-- A wildcard and a name below it. -/
theorem reaches_iff_portless_nested : ∃ reg,
    BackendRegistry.new 0 [⟨"*.b.c".toList, []⟩, ⟨"A.b.c".toList, []⟩] = .ok reg ∧
      (∃ header, reg.findGroup header = some 0) ∧ reg.findGroup "A.b.c:443".toList = some 1 := by
  let routes : List RouteConfig := [⟨"*.b.c".toList, []⟩, ⟨"A.b.c".toList, []⟩]
  have built : BackendRegistry.new 0 routes = .ok _ := rfl
  have first : ∀ j other, j ≠ 0 → routes[j]? = some other →
      toAsciiLowercase other.host ≠ toAsciiLowercase "*.b.c".toList := by
    intro j other apart there
    match j with
    | 0 => exact absurd rfl apart
    | 1 => cases there; decide
    | j + 2 => cases there
  have second : ∀ j other, j ≠ 1 → routes[j]? = some other →
      toAsciiLowercase other.host ≠ toAsciiLowercase "A.b.c".toList := by
    intro j other apart there
    match j with
    | 0 => cases there; decide
    | 1 => exact absurd rfl apart
    | j + 2 => cases there
  have wild := (reaches_iff_portless built (show routes[0]? = some _ from rfl) first).mpr (by decide)
  have named := (reaches_iff_portless built (show routes[1]? = some _ from rfl) second).mpr (by decide)
  have plain : ¬IsWildcard "A.b.c".toList := by
    rintro ⟨suffix, same⟩
    cases same
  exact ⟨_, built, wild.wild ⟨_, rfl⟩, (named.named plain).2 443⟩

/-- `[::1]` is accepted, but its own host string does not lead to it. -/
theorem reaches_ipv6 : ¬ ∀ now routes reg i route, BackendRegistry.new now routes = .ok reg →
    routes[i]? = some route →
    (∀ j other, j ≠ i → routes[j]? = some other →
      toAsciiLowercase other.host ≠ toAsciiLowercase route.host) →
    Reaches reg i route.host := by
  intro claimed
  let routes : List RouteConfig := [⟨"[::1]".toList, []⟩]
  have built : BackendRegistry.new 0 routes = .ok _ := rfl
  have alone : ∀ j other, j ≠ 0 → routes[j]? = some other →
      toAsciiLowercase other.host ≠ toAsciiLowercase "[::1]".toList := by
    intro j other apart there
    match j with
    | 0 => exact absurd rfl apart
    | j + 1 => cases there
  have plain : ¬IsWildcard "[::1]".toList := by
    rintro ⟨suffix, same⟩
    cases same
  have reaches := claimed 0 routes _ 0 _ built rfl alone
  exact absurd (reaches.named plain).1 (by decide)

end Registry

end TinyLb.ReachableRoutes
