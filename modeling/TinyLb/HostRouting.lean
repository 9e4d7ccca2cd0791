import TinyLb.Reload

/-! `find_group` against the routing rules: the first exact route wins, otherwise
the wildcard route with the longest suffix. -/

namespace TinyLb.HostRouting
open Text Config Hosts Backends Reload

/-- The rule over match kinds: entry `i` is the one the two searches of `find_group`
settle on for the lowercased host `key`. -/
def Chosen (kinds : List HostMatch) (key : Str) (i : Nat) : Prop :=
  ∃ kind, kinds[i]? = some kind ∧
    ((kind.isExactly key = true ∧
        ∀ j < i, ∀ other, kinds[j]? = some other → other.isExactly key = false) ∨
      ((∀ other ∈ kinds, other.isExactly key = false) ∧ ∃ length, kind.suffixLen key = some length ∧
        (∀ j < i, ∀ other m, kinds[j]? = some other → other.suffixLen key = some m → m ≤ length) ∧
        ∀ j, i < j → ∀ other m, kinds[j]? = some other → other.suffixLen key = some m → m < length))

theorem split_at {α : Type} {l : List α} {i : Nat} {x : α} (here : l[i]? = some x) :
    l = l.take i ++ x :: l.drop (i + 1) := by
  obtain ⟨inside, rfl⟩ := List.getElem?_eq_some_iff.mp here
  simp

theorem getElem?_of_mem_take {α : Type} {l : List α} {i : Nat} {x : α} (early : x ∈ l.take i) :
    ∃ j < i, l[j]? = some x := by
  obtain ⟨j, bound, rfl⟩ := List.mem_take_iff_getElem.mp early
  exact ⟨j, by omega, List.getElem?_eq_getElem _⟩

theorem getElem?_of_mem_drop {α : Type} {l : List α} {i : Nat} {x : α}
    (late : x ∈ l.drop (i + 1)) : ∃ j, i < j ∧ l[j]? = some x := by
  obtain ⟨j, bound, rfl⟩ := List.mem_drop_iff_getElem.mp late
  exact ⟨i + 1 + j, by omega, List.getElem?_eq_getElem _⟩

theorem mem_before {α : Type} {before after : List α} {x y : α} {j : Nat} (early : j < before.length)
    (here : (before ++ x :: after)[j]? = some y) : y ∈ before := by
  rw [List.getElem?_append_left early] at here
  exact List.mem_of_getElem? here

theorem mem_after {α : Type} {before after : List α} {x y : α} {j : Nat} (late : before.length < j)
    (here : (before ++ x :: after)[j]? = some y) : y ∈ after := by
  rw [List.getElem?_append_right (Nat.le_of_lt late)] at here
  obtain ⟨k, gap⟩ : ∃ k, j - before.length = k + 1 := ⟨j - before.length - 1, by omega⟩
  rw [gap, List.getElem?_cons_succ] at here
  exact List.mem_of_getElem? here

section FindMatch
variable {γ : Type} {kind : γ → HostMatch} {entries : List γ} {key : Str}

def suffixes (kind : γ → HostMatch) (entries : List γ) (key : Str) : List (Nat × γ) :=
  entries.filterMap fun entry => ((kind entry).suffixLen key).map fun length => (length, entry)

theorem mem_suffixes {length : Nat} {x : γ} :
    (length, x) ∈ suffixes kind entries key ↔ x ∈ entries ∧ (kind x).suffixLen key = some length := by
  simp only [suffixes, List.mem_filterMap, Option.map_eq_some_iff, Prod.mk.injEq]
  constructor
  · rintro ⟨y, present, n, matched, rfl, rfl⟩
    exact ⟨present, matched⟩
  · rintro ⟨present, matched⟩
    exact ⟨x, present, length, matched, rfl, rfl⟩

theorem findMatch_of_exact {x : γ}
    (found : entries.find? (fun entry => (kind entry).isExactly key) = some x) :
    findMatch kind entries key = some x := by
  rw [findMatch, found]

theorem findMatch_of_no_exact (absent : ∀ entry ∈ entries, (kind entry).isExactly key = false) :
    findMatch kind entries key = (maxByKey Prod.fst (suffixes kind entries key)).map Prod.snd := by
  have none : entries.find? (fun entry => (kind entry).isExactly key) = none := by
    rw [List.find?_eq_none]
    intro entry present
    simp [absent entry present]
  rw [findMatch, none, suffixes]

theorem chosen_of_isLastMax {length : Nat} {x : γ}
    (absent : ∀ entry ∈ entries, (kind entry).isExactly key = false)
    (max : IsLastMax Prod.fst (suffixes kind entries key) (length, x)) :
    ∃ i, entries[i]? = some x ∧ Chosen (entries.map kind) key i := by
  obtain ⟨before, after, split, low, high⟩ := max
  obtain ⟨early, rest, rfl, rfl, rest_eq⟩ := List.filterMap_eq_append_iff.mp split
  obtain ⟨gap, y, late, rfl, silent, here, rfl⟩ := List.filterMap_eq_cons_iff.mp rest_eq
  obtain ⟨n, matched, same⟩ := Option.map_eq_some_iff.mp here
  cases same
  refine ⟨(early ++ gap).length, by simp [← List.append_assoc], kind x, by simp [← List.append_assoc],
    Or.inr ⟨fun other member => ?_, length, matched, fun j below other m there matched' => ?_,
      fun j above other m there matched' => ?_⟩⟩
  · obtain ⟨z, present, rfl⟩ := List.mem_map.mp member
    exact absent z present
  · rw [List.getElem?_map, Option.map_eq_some_iff] at there
    obtain ⟨z, there, rfl⟩ := there
    rw [← List.append_assoc] at there
    rcases List.mem_append.mp (mem_before below there) with present | present
    · exact low (m, z) (mem_suffixes.mpr ⟨present, matched'⟩)
    · have gone := silent z present
      rw [matched'] at gone
      cases gone
  · rw [List.getElem?_map, Option.map_eq_some_iff] at there
    obtain ⟨z, there, rfl⟩ := there
    rw [← List.append_assoc] at there
    exact high (m, z) (mem_suffixes.mpr ⟨mem_after above there, matched'⟩)

theorem findMatch_eq_some {x : γ} : findMatch kind entries key = some x ↔
    ∃ i, entries[i]? = some x ∧ Chosen (entries.map kind) key i := by
  constructor
  · intro found
    cases exact : entries.find? (fun entry => (kind entry).isExactly key) with
    | some y =>
      rw [findMatch_of_exact exact] at found
      cases found
      obtain ⟨matched, before, after, rfl, earlier⟩ := List.find?_eq_some_iff_append.mp exact
      refine ⟨before.length, by simp, kind x, by simp, Or.inl ⟨matched, fun j below other there => ?_⟩⟩
      rw [List.getElem?_map, Option.map_eq_some_iff] at there
      obtain ⟨y, there, rfl⟩ := there
      simpa using earlier y (mem_before below there)
    | none =>
      have absent : ∀ entry ∈ entries, (kind entry).isExactly key = false := by
        simpa [List.find?_eq_none] using exact
      rw [findMatch_of_no_exact absent] at found
      obtain ⟨⟨length, y⟩, max, rfl⟩ := Option.map_eq_some_iff.mp found
      exact chosen_of_isLastMax absent (maxByKey_eq_some.mp max)
  · rintro ⟨i, here, kind', there, rule⟩
    rw [List.getElem?_map, here, Option.map_some, Option.some.injEq] at there
    subst there
    have kinds : ∀ {j : Nat} {y : γ}, entries[j]? = some y →
        (entries.map kind)[j]? = some (kind y) := by
      intro j y at_j
      rw [List.getElem?_map, at_j, Option.map_some]
    rcases rule with ⟨matched, earlier⟩ | ⟨absent, length, matched, low, high⟩
    · refine findMatch_of_exact (List.find?_eq_some_iff_append.mpr
        ⟨matched, entries.take i, entries.drop (i + 1), split_at here, fun y early => ?_⟩)
      obtain ⟨j, below, at_j⟩ := getElem?_of_mem_take early
      simpa using earlier j below (kind y) (kinds at_j)
    · have absent' : ∀ entry ∈ entries, (kind entry).isExactly key = false := fun entry present =>
        absent _ (List.mem_map_of_mem present)
      have max : IsLastMax Prod.fst (suffixes kind entries key) (length, x) := by
        refine ⟨suffixes kind (entries.take i) key, suffixes kind (entries.drop (i + 1)) key, ?_,
          fun y early => ?_, fun y late => ?_⟩
        · conv_lhs => rw [split_at here]
          simp [suffixes, matched]
        · obtain ⟨present, matched'⟩ := mem_suffixes.mp early
          obtain ⟨j, below, at_j⟩ := getElem?_of_mem_take present
          exact low j below _ _ (kinds at_j) matched'
        · obtain ⟨present, matched'⟩ := mem_suffixes.mp late
          obtain ⟨j, above, at_j⟩ := getElem?_of_mem_drop present
          exact high j above _ _ (kinds at_j) matched'
      rw [findMatch_of_no_exact absent', maxByKey_eq_some.mpr max, Option.map_some]

theorem findMatch_eq_none : findMatch kind entries key = none ↔
    ∀ entry ∈ entries, (kind entry).isExactly key = false ∧ (kind entry).suffixLen key = none := by
  cases exact : entries.find? (fun entry => (kind entry).isExactly key) with
  | some y =>
    rw [findMatch_of_exact exact]
    have matched := List.find?_some exact
    refine ⟨fun wrong => (nomatch wrong), fun all => ?_⟩
    simp [(all y (List.mem_of_find?_eq_some exact)).1] at matched
  | none =>
    have absent : ∀ entry ∈ entries, (kind entry).isExactly key = false := by
      simpa [List.find?_eq_none] using exact
    rw [findMatch_of_no_exact absent, Option.map_eq_none_iff, maxByKey_eq_none, suffixes,
      List.filterMap_eq_nil_iff]
    simp only [Option.map_eq_none_iff]
    exact ⟨fun all entry present => ⟨absent entry present, all entry present⟩,
      fun all entry present => (all entry present).2⟩

end FindMatch

theorem findGroup_eq_some {reg : BackendRegistry} {header : Str} {g : GroupId} :
    reg.findGroup header = some g ↔
      ∃ i, reg.groups[i]? = some g ∧ Chosen (kinds reg) (hostKey header) i :=
  findMatch_eq_some

def IsWildcard (host : Str) : Prop := ∃ suffix, host = '*' :: '.' :: suffix

/-- The route host `host` is not a wildcard and equals `h` up to ASCII case. -/
def ExactMatch (host h : Str) : Prop :=
  ¬IsWildcard host ∧ toAsciiLowercase host = toAsciiLowercase h

/-- The route host is the wildcard `*.S`, and `h` ends in `.S` up to ASCII case. -/
def WildcardMatch (host h suffix : Str) : Prop :=
  host = '*' :: '.' :: suffix ∧ toAsciiLowercase ('.' :: suffix) <:+ toAsciiLowercase h

section Parsed
variable {host h : Str} {kind : HostMatch}

theorem isExactly_iff (parsed : parse host = .ok kind) :
    kind.isExactly (toAsciiLowercase h) = true ↔ ExactMatch host h := by
  rcases parse_ok_cases parsed with ⟨plain, rfl⟩ | ⟨suffix, rfl, nonempty, plain, rfl⟩
  · have named : ¬IsWildcard host := by
      rintro ⟨suffix, rfl⟩
      exact plain (List.mem_cons_self ..)
    simp [HostMatch.isExactly, ExactMatch, named]
  · have wild : IsWildcard ('*' :: '.' :: suffix) := ⟨suffix, rfl⟩
    simp [HostMatch.isExactly, ExactMatch, wild]

theorem suffixLen_iff (parsed : parse host = .ok kind) {length : Nat} :
    kind.suffixLen (toAsciiLowercase h) = some length ↔
      ∃ suffix, WildcardMatch host h suffix ∧ length = len (toAsciiLowercase ('.' :: suffix)) := by
  rcases parse_ok_cases parsed with ⟨plain, rfl⟩ | ⟨suffix, rfl, nonempty, plain, rfl⟩
  · refine ⟨fun wrong => (nomatch wrong), ?_⟩
    rintro ⟨suffix, ⟨rfl, -⟩, -⟩
    exact absurd (List.mem_cons_self ..) plain
  · simp only [HostMatch.suffixLen, endsWith_iff, WildcardMatch, List.cons.injEq, true_and]
    constructor
    · intro matched
      split at matched
      next ends => exact ⟨suffix, ⟨rfl, ends⟩, (Option.some.inj matched).symm⟩
      next => cases matched
    · rintro ⟨other, ⟨rfl, ends⟩, rfl⟩
      rw [if_pos ends]

end Parsed

def BestRoute (routes : List RouteConfig) (h : Str) (i : Nat) : Prop :=
  ∃ route, routes[i]? = some route ∧
    ((ExactMatch route.host h ∧ ∀ j < i, ∀ other, routes[j]? = some other →
        ¬ExactMatch other.host h) ∨
      ((∀ other ∈ routes, ¬ExactMatch other.host h) ∧ ∃ suffix, WildcardMatch route.host h suffix ∧
        ∀ other ∈ routes, ∀ suffix', WildcardMatch other.host h suffix' →
          suffix'.length ≤ suffix.length))

section Config
variable {reg : BackendRegistry}

theorem getElem?_kinds {i : Nat} {kind : HostMatch} : (kinds reg)[i]? = some kind ↔
    ∃ g, reg.groups[i]? = some g ∧ (reg.group g).matchKind = kind := by
  rw [kinds, List.getElem?_map, Option.map_eq_some_iff]

theorem getElem?_config {i : Nat} {route : RouteConfig} : reg.config[i]? = some route ↔
    ∃ g, reg.groups[i]? = some g ∧ reg.route g = route := by
  rw [BackendRegistry.config, List.getElem?_map, Option.map_eq_some_iff]

theorem kind_of_route {i : Nat} {route : RouteConfig} (here : reg.config[i]? = some route) :
    ∃ kind, (kinds reg)[i]? = some kind ∧ parse route.host = .ok kind := by
  obtain ⟨g, at_i, rfl⟩ := getElem?_config.mp here
  exact ⟨_, getElem?_kinds.mpr ⟨g, at_i, rfl⟩, (reg.group g).parsed⟩

theorem route_of_kind {i : Nat} {kind : HostMatch} (here : (kinds reg)[i]? = some kind) :
    ∃ route, reg.config[i]? = some route ∧ parse route.host = .ok kind := by
  obtain ⟨g, at_i, rfl⟩ := getElem?_kinds.mp here
  exact ⟨_, getElem?_config.mpr ⟨g, at_i, rfl⟩, (reg.group g).parsed⟩

theorem Chosen.bestRoute {h : Str} {i : Nat} (chosen : Chosen (kinds reg) (toAsciiLowercase h) i) :
    BestRoute reg.config h i := by
  obtain ⟨kind, here, rule⟩ := chosen
  obtain ⟨route, there, parsed⟩ := route_of_kind here
  refine ⟨route, there, ?_⟩
  rcases rule with ⟨matched, earlier⟩ | ⟨absent, length, matched, low, high⟩
  · refine Or.inl ⟨(isExactly_iff parsed).mp matched, fun j below other at_j again => ?_⟩
    obtain ⟨kind', at_kind, parsed'⟩ := kind_of_route at_j
    have missed := earlier j below kind' at_kind
    rw [(isExactly_iff parsed').mpr again] at missed
    cases missed
  · obtain ⟨suffix, wild, rfl⟩ := (suffixLen_iff parsed).mp matched
    refine Or.inr ⟨fun other member again => ?_, suffix, wild, fun other member suffix' wild' => ?_⟩
    · obtain ⟨j, at_j⟩ := List.mem_iff_getElem?.mp member
      obtain ⟨kind', at_kind, parsed'⟩ := kind_of_route at_j
      have missed := absent kind' (List.mem_of_getElem? at_kind)
      rw [(isExactly_iff parsed').mpr again] at missed
      cases missed
    · obtain ⟨j, at_j⟩ := List.mem_iff_getElem?.mp member
      obtain ⟨kind', at_kind, parsed'⟩ := kind_of_route at_j
      have matched' := (suffixLen_iff parsed').mpr ⟨suffix', wild', rfl⟩
      have bytes : len (toAsciiLowercase ('.' :: suffix')) ≤ len (toAsciiLowercase ('.' :: suffix)) := by
        rcases Nat.lt_trichotomy j i with below | rfl | above
        · exact low j below kind' _ at_kind matched'
        · rw [here] at at_kind
          cases at_kind
          rw [matched] at matched'
          exact (Option.some.inj matched').ge
        · exact Nat.le_of_lt (high j above kind' _ at_kind matched')
      have characters := len_le_of_suffix wild'.2 wild.2 bytes
      simpa using characters

theorem findGroup_eq_none {header : Str} : reg.findGroup header = none ↔
    ∀ route ∈ reg.config, ¬ExactMatch route.host (splitFirst ':' header) ∧
      ∀ suffix, ¬WildcardMatch route.host (splitFirst ':' header) suffix := by
  rw [BackendRegistry.findGroup, findMatch_eq_none]
  have entry : ∀ g, ((reg.group g).matchKind.isExactly (hostKey header) = false ∧
      (reg.group g).matchKind.suffixLen (hostKey header) = none) ↔
        (¬ExactMatch (reg.route g).host (splitFirst ':' header) ∧
          ∀ suffix, ¬WildcardMatch (reg.route g).host (splitFirst ':' header) suffix) := by
    intro g
    have parsed := (reg.group g).parsed
    refine and_congr ?_ ?_
    · rw [← Bool.not_eq_true, hostKey, isExactly_iff parsed]
      rfl
    · rw [Option.eq_none_iff_forall_ne_some]
      constructor
      · intro silent suffix wild
        exact silent _ ((suffixLen_iff parsed).mpr ⟨suffix, wild, rfl⟩)
      · intro silent length matched
        obtain ⟨suffix, wild, -⟩ := (suffixLen_iff parsed).mp matched
        exact silent suffix wild
  simp only [entry, BackendRegistry.config, List.mem_map, forall_exists_index, and_imp,
    forall_apply_eq_imp_iff₂]

end Config

/-- Which routes are accepted, and which of them a Host header reaches. The group of
route `i` is the one with index `i`. -/
theorem find_group_best_route (now : Instant) (routes : List RouteConfig) :
    ((∃ reg, BackendRegistry.new now routes = .ok reg) ↔
      ∀ route ∈ routes, WellFormed route.host) ∧
    ∀ reg, BackendRegistry.new now routes = .ok reg →
      reg.config = routes ∧ reg.groups = List.range routes.length ∧
      ∀ header,
        (∀ i, reg.findGroup header = some i → BestRoute routes (splitFirst ':' header) i) ∧
        (reg.findGroup header = none ↔
          ∀ route ∈ routes, ¬ExactMatch route.host (splitFirst ':' header) ∧
            ∀ suffix, ¬WildcardMatch route.host (splitFirst ':' header) suffix) := by
  refine ⟨?_, fun reg built => ?_⟩
  · rw [new_ok_iff, validate_ok_iff]
    exact forall₂_congr fun route _ => parse_ok_iff route.host
  · obtain ⟨-, shown⟩ := new_spec built
    have table := new_groups built
    refine ⟨shown, table, fun header => ⟨fun g found => ?_, shown ▸ findGroup_eq_none⟩⟩
    obtain ⟨i, here, chosen⟩ := findGroup_eq_some.mp found
    rw [table] at here
    obtain ⟨bound, rfl⟩ := List.getElem?_eq_some_iff.mp here
    rw [List.getElem_range]
    exact shown ▸ chosen.bestRoute

/-- The exact route wins over the wildcard, with a port and in another case. -/
theorem find_group_best_route_with_port :
    ∃ reg, BackendRegistry.new 0 [⟨"*.b.c".toList, []⟩, ⟨"a.b.c".toList, []⟩] = .ok reg ∧
      reg.findGroup "A.b.C:443".toList = some 1 ∧
      BestRoute [⟨"*.b.c".toList, []⟩, ⟨"a.b.c".toList, []⟩] "A.b.C".toList 1 :=
  ⟨_, rfl, by decide, ((find_group_best_route 0 _).2 _ rfl).2.2 "A.b.C:443".toList |>.1 1 (by decide)⟩

end TinyLb.HostRouting
