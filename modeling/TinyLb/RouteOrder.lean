import TinyLb.HostRouting

/-! `find_group` when the routes are listed in another order. The search depends on positions in two
places: the first exact match, and the last of the longest suffixes. -/

namespace TinyLb.RouteOrder
open Text Config Hosts Backends Reload HostRouting

def foundHost (reg : BackendRegistry) (header : Str) : Option Str :=
  (reg.findGroup header).map fun g => (reg.group g).host

/-- The routing rule for the host of the group, without positions. -/
def BestHost (routes : List RouteConfig) (h host : Str) : Prop :=
  ∃ route ∈ routes, route.host = host ∧
    (ExactMatch host h ∨
      (∀ other ∈ routes, ¬ExactMatch other.host h) ∧ ∃ suffix, WildcardMatch host h suffix ∧
        ∀ other ∈ routes, ∀ suffix', WildcardMatch other.host h suffix' → suffix'.length ≤ suffix.length)

/-- No two routes have the same host up to ASCII case. -/
def Apart (routes : List RouteConfig) : Prop :=
  (routes.map fun route => toAsciiLowercase route.host).Nodup

section Rule
variable {routes permuted : List RouteConfig} {h host other : Str}

theorem bestHost_congr (permutes : permuted.Perm routes) :
    BestHost permuted h host ↔ BestHost routes h host := by
  simp only [BestHost, permutes.mem_iff]

theorem BestRoute.bestHost {i : Nat} (best : BestRoute routes h i) :
    ∃ route, routes[i]? = some route ∧ BestHost routes h route.host := by
  obtain ⟨route, here, ⟨exact, -⟩ | longest⟩ := best
  · exact ⟨route, here, route, List.mem_of_getElem? here, rfl, Or.inl exact⟩
  · exact ⟨route, here, route, List.mem_of_getElem? here, rfl, Or.inr longest⟩

/-- Two suffixes of one host that are equally long are the same. -/
theorem wildcards_tie {suffix suffix' : Str} (first : WildcardMatch host h suffix)
    (second : WildcardMatch other h suffix') (equal : suffix.length = suffix'.length) :
    toAsciiLowercase host = toAsciiLowercase other := by
  obtain ⟨rfl, ends⟩ := first
  obtain ⟨rfl, ends'⟩ := second
  have lengths : (toAsciiLowercase ('.' :: suffix)).length =
      (toAsciiLowercase ('.' :: suffix')).length := by
    simp [equal]
  have same := List.IsSuffix.eq_of_length (List.suffix_of_suffix_length_le ends ends' lengths.le) lengths
  rw [toAsciiLowercase_cons, toAsciiLowercase_cons '*', same]

theorem BestHost.unique (apart : Apart routes) (first : BestHost routes h host)
    (second : BestHost routes h other) : host = other := by
  obtain ⟨route, member, rfl, rule⟩ := first
  obtain ⟨route', member', rfl, rule'⟩ := second
  apply congrArg RouteConfig.host
  apply List.inj_on_of_nodup_map apart member member'
  rcases rule with exact | ⟨absent, suffix, wild, longest⟩
  · rcases rule' with exact' | ⟨absent', -⟩
    · exact exact.2.trans exact'.2.symm
    · exact absurd exact (absent' route member)
  · rcases rule' with exact' | ⟨-, suffix', wild', longest'⟩
    · exact absurd exact' (absent route' member')
    · apply wildcards_tie wild wild'
      exact Nat.le_antisymm (longest' route member suffix wild) (longest route' member' suffix' wild')

end Rule

section Registry
variable {reg : BackendRegistry} {header host : Str}

theorem foundHost_best (found : foundHost reg header = some host) :
    BestHost reg.config (splitFirst ':' header) host := by
  obtain ⟨g, chosen, rfl⟩ := Option.map_eq_some_iff.mp found
  obtain ⟨i, here, rule⟩ := findGroup_eq_some.mp chosen
  obtain ⟨route, there, best⟩ := BestRoute.bestHost rule.bestRoute
  obtain ⟨g', here', rfl⟩ := getElem?_config.mp there
  rw [here] at here'
  cases here'
  exact best

theorem foundHost_some (best : BestHost reg.config (splitFirst ':' header) host) :
    ∃ found, foundHost reg header = some found := by
  cases chosen : reg.findGroup header with
  | some g => exact ⟨(reg.group g).host, by rw [foundHost, chosen, Option.map_some]⟩
  | none =>
    obtain ⟨route, member, rfl, rule⟩ := best
    obtain ⟨notExact, notWild⟩ := findGroup_eq_none.mp chosen route member
    rcases rule with exact | ⟨-, suffix, wild, -⟩
    · exact absurd exact notExact
    · exact absurd wild (notWild suffix)

theorem foundHost_iff (apart : Apart reg.config) :
    foundHost reg header = some host ↔ BestHost reg.config (splitFirst ':' header) host := by
  refine ⟨foundHost_best, fun best => ?_⟩
  obtain ⟨found, here⟩ := foundHost_some best
  rw [here, BestHost.unique apart (foundHost_best here) best]

/-- Every order of the routes is accepted, and every header leads to the same host in all of them. -/
theorem find_group_permuted {now later : Instant} {routes permuted : List RouteConfig}
    (built : BackendRegistry.new now routes = .ok reg) (apart : Apart routes)
    (permutes : permuted.Perm routes) : ∃ reordered,
      BackendRegistry.new later permuted = .ok reordered ∧
      ∀ header, foundHost reordered header = foundHost reg header := by
  obtain ⟨-, shown⟩ := new_spec built
  have accepted : ∃ reordered, BackendRegistry.new later permuted = .ok reordered := by
    have valid := validate_ok_iff.mp (new_ok_iff.mp ⟨reg, built⟩)
    apply new_ok_iff.mpr
    apply validate_ok_iff.mpr
    intro route member
    exact valid route (permutes.mem_iff.mp member)
  obtain ⟨reordered, rebuilt⟩ := accepted
  obtain ⟨-, shown'⟩ := new_spec rebuilt
  have apart' : Apart permuted := (permutes.map _).nodup_iff.mpr apart
  refine ⟨reordered, rebuilt, fun header => Option.ext fun host => ?_⟩
  rw [foundHost_iff (shown'.symm ▸ apart'), foundHost_iff (shown.symm ▸ apart), shown, shown']
  exact bestHost_congr permutes

/-- Two wildcards and a name, listed backwards. -/
theorem find_group_permuted_backwards : ∃ reg reordered,
    BackendRegistry.new 0 [⟨"*.b.c".toList, []⟩, ⟨"*.c".toList, []⟩, ⟨"b.c".toList, []⟩] = .ok reg ∧
      BackendRegistry.new 0 [⟨"b.c".toList, []⟩, ⟨"*.c".toList, []⟩, ⟨"*.b.c".toList, []⟩] =
        .ok reordered ∧
      foundHost reordered "a.B.c:443".toList = foundHost reg "a.B.c:443".toList ∧
      foundHost reg "a.B.c:443".toList = some "*.b.c".toList := by
  let routes : List RouteConfig := [⟨"*.b.c".toList, []⟩, ⟨"*.c".toList, []⟩, ⟨"b.c".toList, []⟩]
  have built : BackendRegistry.new 0 routes = .ok _ := rfl
  have apart : Apart routes := by
    unfold Apart
    decide
  obtain ⟨reordered, rebuilt, same⟩ :=
    @find_group_permuted _ 0 0 routes _ built apart (List.reverse_perm routes)
  exact ⟨_, reordered, built, rebuilt, same _, by decide⟩

end Registry

end TinyLb.RouteOrder
