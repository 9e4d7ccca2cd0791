import TinyLb.Backends
import Mathlib.Data.List.Forall2
import Mathlib.Data.List.Nodup

/-! What `apply_backends` and one round of `apply_config` do: which objects end up
in which list, what is written into the objects that stay, and what is left alone. -/

namespace TinyLb.Merge
open Config Hosts Backends

/-- All the entries of one reload that reach the same backend, in order. -/
def updateAll (configs : List BackendConfig) (b : Backend) : Backend :=
  configs.foldl (fun b c => b.update c) b

@[simp] theorem updateAll_nil (b : Backend) : updateAll [] b = b := rfl

@[simp] theorem updateAll_cons (c : BackendConfig) (configs : List BackendConfig) (b : Backend) :
    updateAll (c :: configs) b = updateAll configs (b.update c) := rfl

@[simp] theorem url_updateAll (configs : List BackendConfig) (b : Backend) :
    (updateAll configs b).url = b.url := by
  induction configs generalizing b with
  | nil => rfl
  | cons c rest ih => rw [updateAll_cons, ih, Backend.url_update]

@[simp] theorem live_updateAll (configs : List BackendConfig) (b : Backend) :
    (updateAll configs b).live = b.live := by
  induction configs generalizing b with
  | nil => rfl
  | cons c rest ih => rw [updateAll_cons, ih, Backend.live_update]

theorem updateAll_eq_last (configs : List BackendConfig) (b : Backend) :
    updateAll configs b = match configs.getLast? with
      | none => b
      | some c => b.update c := by
  induction configs generalizing b with
  | nil => rfl
  | cons c rest ih =>
    rw [updateAll_cons, ih]
    cases rest with
    | nil => rfl
    | cons d rest => simp [List.getLast?_cons]

theorem locate_some {arena : Arena Backend} {old : List BackendId} {url : Str} {b : BackendId}
    (found : locate arena old url = some b) : b ∈ old ∧ (arena.get b).url = url := by
  refine ⟨List.mem_of_find?_eq_some found, ?_⟩
  simpa using List.find?_some found

theorem locate_none {arena : Arena Backend} {old : List BackendId} {url : Str} :
    locate arena old url = none ↔ url ∉ old.map fun b => (arena.get b).url := by
  simp [locate, List.find?_eq_none]

theorem locate_congr {arena arena' : Arena Backend} {old : List BackendId}
    (same : ∀ b ∈ old, (arena'.get b).url = (arena.get b).url) (url : Str) :
    locate arena' old url = locate arena old url := by
  induction old with
  | nil => rfl
  | cons b rest ih =>
    have tail := ih fun b present => same b (List.mem_cons_of_mem _ present)
    simp only [locate, List.find?_cons, same b (List.mem_cons_self ..)] at tail ⊢
    rw [tail]

theorem locate_modify (arena : Arena Backend) (old : List BackendId) (e : BackendId)
    (c : BackendConfig) (url : Str) :
    locate (arena.modify e (Backend.update c)) old url = locate arena old url :=
  locate_congr (fun b _ => Arena.get_modify_field Backend.url arena (Backend.url_update c) e b) url

theorem locate_alloc {arena : Arena Backend} {old : List BackendId}
    (inside : ∀ b ∈ old, b < arena.size) (b : Backend) (url : Str) :
    locate (arena.alloc b) old url = locate arena old url :=
  locate_congr (fun i present => by rw [arena.get_alloc_of_lt b (inside i present)]) url

section MergeBackends
variable {now : Instant} {old : List BackendId}

theorem merge_size_le (now : Instant) (old : List BackendId) (configs : List BackendConfig)
    (arena : Arena Backend) : arena.size ≤ (mergeBackends now old configs arena).2.size := by
  induction configs generalizing arena with
  | nil => exact Nat.le_refl _
  | cons c rest ih =>
    rw [mergeBackends]
    split
    next e _ => simpa using ih (arena.modify e (Backend.update c))
    next =>
      have grown := ih (arena.alloc (Backend.new now c))
      rw [Arena.size_alloc] at grown
      exact Nat.le_of_succ_le grown

theorem merge_mem (configs : List BackendConfig) (arena : Arena Backend) {b : BackendId}
    (present : b ∈ (mergeBackends now old configs arena).1) :
    b ∈ old ∨ arena.size ≤ b ∧ b < (mergeBackends now old configs arena).2.size := by
  induction configs generalizing arena with
  | nil => cases present
  | cons c rest ih =>
    rw [mergeBackends] at present ⊢
    split at present
    next e found =>
      rcases List.mem_cons.mp present with rfl | later
      · exact Or.inl (locate_some found).1
      · simpa using ih _ later
    next =>
      have grown := merge_size_le now old rest (arena.alloc (Backend.new now c))
      rw [Arena.size_alloc] at grown
      rcases List.mem_cons.mp present with rfl | later
      · exact Or.inr ⟨Nat.le_refl _, grown⟩
      · refine (ih _ later).imp id fun ⟨fresh, inside⟩ => ⟨?_, inside⟩
        rw [Arena.size_alloc] at fresh
        exact Nat.le_of_succ_le fresh

/-- An object that existed before the call receives the entries whose URL finds it,
and nothing else. -/
theorem merge_get (configs : List BackendConfig) {arena : Arena Backend}
    (inside : ∀ b ∈ old, b < arena.size) {b : BackendId} (known : b < arena.size) :
    (mergeBackends now old configs arena).2.get b =
      updateAll (configs.filter fun c => locate arena old c.url == some b) (arena.get b) := by
  induction configs generalizing arena with
  | nil => rfl
  | cons c rest ih =>
    rw [mergeBackends, List.filter_cons]
    split
    next e found =>
      rw [ih (by simpa using inside) (by simpa using known), found]
      simp only [locate_modify]
      by_cases same : e = b
      · subst same
        rw [if_pos (by simp), updateAll_cons, Arena.get_modify_self _ _ known]
      · rw [if_neg (by simpa using same), Arena.get_modify_of_ne _ _ same]
    next absent =>
      rw [ih (fun i present => by rw [Arena.size_alloc]; exact Nat.lt_succ_of_lt (inside i present))
        (by rw [Arena.size_alloc]; exact Nat.lt_succ_of_lt known), absent]
      simp only [locate_alloc inside]
      rw [Arena.get_alloc_of_lt _ _ known, if_neg (by simp)]

theorem merge_get_of_not_mem (configs : List BackendConfig) {arena : Arena Backend}
    (inside : ∀ b ∈ old, b < arena.size) {b : BackendId} (known : b < arena.size)
    (outside : b ∉ old) : (mergeBackends now old configs arena).2.get b = arena.get b := by
  have none : (configs.filter fun c => locate arena old c.url == some b) = [] := by
    rw [List.filter_eq_nil_iff]
    intro c _ found
    exact outside (locate_some (by simpa using found)).1
  rw [merge_get configs inside known, none, updateAll_nil]

/-- Where an entry's object comes from: the first old one with its URL, or a new one. -/
def Placed (now : Instant) (old : List BackendId) (before after : Arena Backend)
    (c : BackendConfig) (b : BackendId) : Prop :=
  match locate before old c.url with
  | some e => b = e
  | none => before.size ≤ b ∧ b < after.size ∧ after.get b = Backend.new now c

theorem merge_placed (configs : List BackendConfig) {arena : Arena Backend}
    (inside : ∀ b ∈ old, b < arena.size) :
    List.Forall₂ (Placed now old arena (mergeBackends now old configs arena).2) configs
      (mergeBackends now old configs arena).1 := by
  induction configs generalizing arena with
  | nil => exact .nil
  | cons c rest ih =>
    rw [mergeBackends]
    split
    next e found =>
      have sameInside : ∀ b ∈ old, b < (arena.modify e (Backend.update c)).size := by simpa using inside
      have tail := ih sameInside
      refine .cons (by rw [Placed, found]) (tail.imp fun d b placed => ?_)
      simpa only [Placed, locate_modify, Arena.size_modify] using placed
    next absent =>
      have grownInside : ∀ b ∈ old, b < (arena.alloc (Backend.new now c)).size := fun b present => by
        rw [Arena.size_alloc]
        exact Nat.lt_succ_of_lt (inside b present)
      have tail := ih grownInside
      refine .cons ?_ (tail.imp fun d b placed => ?_)
      · have fresh : arena.size ∉ old := fun present => Nat.lt_irrefl _ (inside _ present)
        have grown := merge_size_le now old rest (arena.alloc (Backend.new now c))
        rw [Arena.size_alloc] at grown
        rw [Placed, absent]
        refine ⟨Nat.le_refl _, grown, ?_⟩
        rw [merge_get_of_not_mem rest grownInside (by rw [Arena.size_alloc]; exact Nat.lt_succ_self _)
          fresh, Arena.get_alloc_self]
      · simp only [Placed, locate_alloc inside, Arena.size_alloc] at placed ⊢
        split at placed
        next => exact placed
        next => exact ⟨Nat.le_of_succ_le placed.1, placed.2⟩

end MergeBackends

/-- The entry that has the last word on the URL of `c`. -/
def lastWith (configs : List BackendConfig) (c : BackendConfig) : BackendConfig :=
  ((configs.filter fun d => d.url == c.url).getLast?).getD c

/-- What a list of entries comes to when the URLs of `oldUrls` have an object already:
the entries that share such an object all show its last write. -/
def settle (oldUrls : List Str) (configs : List BackendConfig) : List BackendConfig :=
  configs.map fun c => if c.url ∈ oldUrls then lastWith configs c else c

theorem lastWith_url (configs : List BackendConfig) (c : BackendConfig) :
    (lastWith configs c).url = c.url := by
  rw [lastWith]
  cases found : (configs.filter fun d => d.url == c.url).getLast? with
  | none => rfl
  | some d =>
    have present := List.mem_of_getLast? found
    simpa using (List.mem_filter.mp present).2

theorem settle_urls (oldUrls : List Str) (configs : List BackendConfig) :
    (settle oldUrls configs).map (·.url) = configs.map (·.url) := by
  rw [settle, List.map_map]
  refine List.map_congr_left fun c _ => ?_
  simp only [Function.comp_apply]
  split
  · exact lastWith_url configs c
  · rfl

theorem lastWith_of_nodup {configs : List BackendConfig} (distinct : (configs.map (·.url)).Nodup)
    {c : BackendConfig} (present : c ∈ configs) : lastWith configs c = c := by
  have only : ∀ d ∈ configs, d.url = c.url → d = c := fun d member same =>
    List.inj_on_of_nodup_map distinct member present same
  rw [lastWith]
  cases found : (configs.filter fun d => d.url == c.url).getLast? with
  | none => rfl
  | some d =>
    obtain ⟨member, same⟩ := List.mem_filter.mp (List.mem_of_getLast? found)
    exact only d member (by simpa using same)

theorem settle_of_nodup (oldUrls : List Str) {configs : List BackendConfig}
    (distinct : (configs.map (·.url)).Nodup) : settle oldUrls configs = configs := by
  rw [settle, List.map_congr_left (g := id) fun c present => ?_, List.map_id]
  rw [lastWith_of_nodup distinct present]
  exact ite_self c

theorem forall₂_imp_mem {α β : Type} {R S : α → β → Prop} {as : List α} {bs : List β}
    (related : List.Forall₂ R as bs) (weaken : ∀ a ∈ as, ∀ b, R a b → S a b) :
    List.Forall₂ S as bs :=
  ((List.forall₂_and_left as bs).mpr ⟨fun _ member => member, related⟩).imp
    fun a b ⟨member, head⟩ => weaken a member b head

theorem map_eq_of_forall₂ {α β γ : Type} {R : α → β → Prop} {f : β → γ} {g : α → γ}
    {as : List α} {bs : List β} (related : List.Forall₂ R as bs)
    (same : ∀ a ∈ as, ∀ b, R a b → f b = g a) : bs.map f = as.map g := by
  induction related with
  | nil => rfl
  | cons head _ ih =>
    rw [List.map_cons, List.map_cons, same _ (List.mem_cons_self ..) _ head,
      ih fun a present => same a (List.mem_cons_of_mem _ present)]

theorem merge_config_of_located {now : Instant} {old : List BackendId} (configs : List BackendConfig)
    {arena : Arena Backend} (inside : ∀ b ∈ old, b < arena.size) {c : BackendConfig}
    (present : c ∈ configs) {e : BackendId} (found : locate arena old c.url = some e) :
    ((mergeBackends now old configs arena).2.get e).config = lastWith configs c := by
  obtain ⟨member, url⟩ := locate_some found
  have writers : (configs.filter fun d => locate arena old d.url == some e) =
      configs.filter fun d => d.url == c.url := by
    refine List.filter_congr fun d _ => ?_
    by_cases same : d.url = c.url
    · simp [same, found]
    · have other : locate arena old d.url ≠ some e := fun again =>
        same ((locate_some again).2.symm.trans url)
      simp [same, other]
  have written : c ∈ configs.filter fun d => d.url == c.url := by simp [present]
  rw [merge_get configs inside (inside e member), writers, updateAll_eq_last, lastWith]
  cases last : (configs.filter fun d => d.url == c.url).getLast? with
  | none =>
    rw [List.getLast?_eq_none_iff] at last
    rw [last] at written
    cases written
  | some d =>
    have same : d.url = c.url := by
      simpa using (List.mem_filter.mp (List.mem_of_getLast? last)).2
    exact Backend.config_update (url.trans same.symm)

theorem merge_config (now : Instant) {old : List BackendId} (configs : List BackendConfig)
    {arena : Arena Backend} (inside : ∀ b ∈ old, b < arena.size) :
    (mergeBackends now old configs arena).1.map
        (fun b => ((mergeBackends now old configs arena).2.get b).config) =
      settle (old.map fun b => (arena.get b).url) configs := by
  refine map_eq_of_forall₂ (merge_placed configs inside) fun c present b placed => ?_
  rw [Placed] at placed
  cases found : locate arena old c.url with
  | none =>
    rw [found] at placed
    rw [if_neg (locate_none.mp found), placed.2.2, Backend.config_new]
  | some e =>
    rw [found] at placed
    subst placed
    obtain ⟨member, url⟩ := locate_some found
    rw [if_pos (List.mem_map.mpr ⟨b, member, url⟩), merge_config_of_located configs inside present found]

theorem allocBackends_eq (now : Instant) (configs : List BackendConfig) (arena : Arena Backend) :
    allocBackends now configs arena = mergeBackends now [] configs arena := by
  induction configs generalizing arena with
  | nil => rfl
  | cons c rest ih => rw [allocBackends, mergeBackends, ih]; rfl

theorem settle_nil (configs : List BackendConfig) : settle [] configs = configs := by
  simp [settle]

theorem groupNew_ok {now : Instant} {route : RouteConfig} {arena after : Arena Backend}
    {group : BackendGroup} (built : BackendGroup.new now route arena = .ok (group, after)) :
    group.host = route.host ∧ group.backends = (mergeBackends now [] route.backends arena).1 ∧
      after = (mergeBackends now [] route.backends arena).2 := by
  unfold BackendGroup.new at built
  split at built
  next => cases built
  next =>
    cases built
    exact ⟨rfl, by rw [allocBackends_eq], by rw [allocBackends_eq]⟩

theorem groupNew_error {now : Instant} {route : RouteConfig} {arena : Arena Backend}
    {e : HostError} : BackendGroup.new now route arena = .error e ↔ parse route.host = .error e := by
  unfold BackendGroup.new
  split
  next e' refused => rw [refused, Except.error.injEq, Except.error.injEq]
  next kind accepted =>
    constructor
    · intro wrong
      cases wrong
    · intro refused
      rw [refused] at accepted
      cases accepted

/-- What no part of a reload changes in the objects that exist before it. -/
structure Kept (reg next : BackendRegistry) : Prop where
  backends : reg.backendAt.size ≤ next.backendAt.size
  groups : reg.groupAt.size ≤ next.groupAt.size
  url : ∀ b < reg.backendAt.size, (next.backend b).url = (reg.backend b).url
  live : ∀ b < reg.backendAt.size, (next.backend b).live = (reg.backend b).live
  host : ∀ g < reg.groupAt.size, (next.group g).host = (reg.group g).host

theorem Kept.refl (reg : BackendRegistry) : Kept reg reg :=
  ⟨Nat.le_refl _, Nat.le_refl _, fun _ _ => rfl, fun _ _ => rfl, fun _ _ => rfl⟩

theorem Kept.trans {reg mid next : BackendRegistry} (first : Kept reg mid)
    (second : Kept mid next) : Kept reg next where
  backends := first.backends.trans second.backends
  groups := first.groups.trans second.groups
  url b known := (second.url b (Nat.lt_of_lt_of_le known first.backends)).trans (first.url b known)
  live b known := (second.live b (Nat.lt_of_lt_of_le known first.backends)).trans (first.live b known)
  host g known := (second.host g (Nat.lt_of_lt_of_le known first.groups)).trans (first.host g known)

section ApplyBackends
variable {reg : BackendRegistry} {now : Instant} {g : GroupId} {configs : List BackendConfig}

theorem group_applyBackends_of_ne {g' : GroupId} (other : g ≠ g') :
    (reg.applyBackends now g configs).group g' = reg.group g' :=
  reg.groupAt.get_modify_of_ne _ other

theorem backends_applyBackends (known : g < reg.groupAt.size) :
    ((reg.applyBackends now g configs).group g).backends =
      (mergeBackends now (reg.group g).backends configs reg.backendAt).1 := by
  rw [BackendRegistry.group, BackendRegistry.applyBackends, Arena.get_modify_self _ _ known]

theorem host_applyBackends (g' : GroupId) :
    ((reg.applyBackends now g configs).group g').host = (reg.group g').host := by
  rw [BackendRegistry.group, BackendRegistry.applyBackends]
  exact Arena.get_modify_field BackendGroup.host reg.groupAt (by intro group; rfl) g g'

theorem backend_applyBackends_of_not_mem (valid : Valid reg) {b : BackendId}
    (known : b < reg.backendAt.size) (outside : b ∉ (reg.group g).backends) :
    (reg.applyBackends now g configs).backend b = reg.backend b :=
  merge_get_of_not_mem configs (valid.owned g) known outside

theorem applyBackends_kept (valid : Valid reg) : Kept reg (reg.applyBackends now g configs) where
  backends := merge_size_le now _ configs reg.backendAt
  groups := Nat.le_of_eq (Arena.size_modify ..).symm
  url b known := by
    rw [BackendRegistry.backend, BackendRegistry.applyBackends,
      merge_get configs (valid.owned g) known, url_updateAll]
    rfl
  live b known := by
    rw [BackendRegistry.backend, BackendRegistry.applyBackends,
      merge_get configs (valid.owned g) known, live_updateAll]
    rfl
  host g' _ := host_applyBackends g'

theorem mem_applyBackends (known : g < reg.groupAt.size) {g' : GroupId}
    {b : BackendId} (present : b ∈ ((reg.applyBackends now g configs).group g').backends) :
    b ∈ (reg.group g').backends ∨ g' = g ∧ reg.backendAt.size ≤ b ∧
      b < (reg.applyBackends now g configs).backendAt.size := by
  by_cases same : g = g'
  · subst same
    rw [backends_applyBackends known] at present
    exact (merge_mem configs reg.backendAt present).imp id fun fresh => ⟨rfl, fresh⟩
  · rw [group_applyBackends_of_ne same] at present
    exact Or.inl present

theorem applyBackends_valid (valid : Valid reg) (known : g < reg.groupAt.size) :
    Valid (reg.applyBackends now g configs) := by
  have kept : Kept reg (reg.applyBackends now g configs) := applyBackends_kept valid
  refine ⟨fun g' member => ?_, fun g' b present => ?_, fun g' g'' b first second => ?_⟩
  · exact Nat.lt_of_lt_of_le (valid.table g' member) kept.groups
  · rcases mem_applyBackends known present with old | ⟨-, -, inside⟩
    · exact Nat.lt_of_lt_of_le (valid.owned g' b old) kept.backends
    · exact inside
  · rcases mem_applyBackends known first with old | ⟨same, fresh, -⟩
    · rcases mem_applyBackends known second with old' | ⟨-, fresh', -⟩
      · exact valid.apart g' g'' b old old'
      · exact absurd (valid.owned g' b old) (Nat.not_lt.mpr fresh')
    · rcases mem_applyBackends known second with old' | ⟨same', -, -⟩
      · exact absurd (valid.owned g'' b old') (Nat.not_lt.mpr fresh)
      · exact same.trans same'.symm

theorem route_applyBackends_of_ne (valid : Valid reg) {g' : GroupId} (other : g ≠ g') :
    (reg.applyBackends now g configs).route g' = reg.route g' := by
  rw [BackendRegistry.route, BackendRegistry.route, group_applyBackends_of_ne other]
  refine congrArg (RouteConfig.mk _) (List.map_congr_left fun b present => ?_)
  rw [backend_applyBackends_of_not_mem valid (valid.owned g' b present)
    fun shared => other (valid.apart g g' b shared present)]

theorem route_applyBackends_self (valid : Valid reg) (known : g < reg.groupAt.size) :
    (reg.applyBackends now g configs).route g =
      ⟨(reg.group g).host, settle ((reg.route g).backends.map (·.url)) configs⟩ := by
  rw [BackendRegistry.route, host_applyBackends, backends_applyBackends known]
  refine congrArg (RouteConfig.mk _) ?_
  rw [BackendRegistry.route, List.map_map]
  exact merge_config now configs (valid.owned g)

end ApplyBackends

section AddGroup
variable {reg : BackendRegistry} {now : Instant} {route : RouteConfig} {group : BackendGroup}
  {arena : Arena Backend}

def addGroup (reg : BackendRegistry) (group : BackendGroup) (arena : Arena Backend) :
    BackendRegistry :=
  { reg with backendAt := arena, groupAt := reg.groupAt.alloc group }

theorem group_addGroup_of_ne {g : GroupId} (old : g ≠ reg.groupAt.size) :
    (addGroup reg group arena).group g = reg.group g :=
  reg.groupAt.get_alloc_of_ne group old

theorem group_addGroup_self : (addGroup reg group arena).group reg.groupAt.size = group :=
  reg.groupAt.get_alloc_self group

theorem backend_addGroup (built : BackendGroup.new now route reg.backendAt = .ok (group, arena))
    {b : BackendId} (known : b < reg.backendAt.size) :
    (addGroup reg group arena).backend b = reg.backend b := by
  obtain ⟨-, -, rfl⟩ := groupNew_ok built
  exact merge_get_of_not_mem _ (by simp) known (by simp)

theorem addGroup_kept (built : BackendGroup.new now route reg.backendAt = .ok (group, arena)) :
    Kept reg (addGroup reg group arena) where
  backends := by
    obtain ⟨-, -, rfl⟩ := groupNew_ok built
    exact merge_size_le ..
  groups := by
    rw [addGroup, Arena.size_alloc]
    exact Nat.le_succ _
  url b known := by rw [backend_addGroup built known]
  live b known := by rw [backend_addGroup built known]
  host g known := by rw [group_addGroup_of_ne (Nat.ne_of_lt known)]

theorem mem_addGroup (built : BackendGroup.new now route reg.backendAt = .ok (group, arena))
    {g : GroupId} {b : BackendId} (present : b ∈ ((addGroup reg group arena).group g).backends) :
    b ∈ (reg.group g).backends ∨ g = reg.groupAt.size ∧ reg.backendAt.size ≤ b ∧ b < arena.size := by
  by_cases new : g = reg.groupAt.size
  · subst new
    obtain ⟨-, ids, rfl⟩ := groupNew_ok built
    rw [group_addGroup_self, ids] at present
    rcases merge_mem _ _ present with none | fresh
    · cases none
    · exact Or.inr ⟨rfl, fresh⟩
  · rw [group_addGroup_of_ne new] at present
    exact Or.inl present

theorem addGroup_valid (valid : Valid reg)
    (built : BackendGroup.new now route reg.backendAt = .ok (group, arena)) :
    Valid (addGroup reg group arena) := by
  have kept := addGroup_kept built
  refine ⟨fun g member => ?_, fun g b present => ?_, fun g g' b first second => ?_⟩
  · exact Nat.lt_of_lt_of_le (valid.table g member) kept.groups
  · rcases mem_addGroup built present with old | ⟨-, -, inside⟩
    · exact Nat.lt_of_lt_of_le (valid.owned g b old) kept.backends
    · exact inside
  · rcases mem_addGroup built first with old | ⟨same, fresh, -⟩
    · rcases mem_addGroup built second with old' | ⟨-, fresh', -⟩
      · exact valid.apart g g' b old old'
      · exact absurd (valid.owned g b old) (Nat.not_lt.mpr fresh')
    · rcases mem_addGroup built second with old' | ⟨same', -, -⟩
      · exact absurd (valid.owned g' b old') (Nat.not_lt.mpr fresh)
      · exact same.trans same'.symm

theorem route_addGroup_of_lt (valid : Valid reg)
    (built : BackendGroup.new now route reg.backendAt = .ok (group, arena)) {g : GroupId}
    (known : g < reg.groupAt.size) : (addGroup reg group arena).route g = reg.route g := by
  rw [BackendRegistry.route, BackendRegistry.route, group_addGroup_of_ne (Nat.ne_of_lt known)]
  refine congrArg (RouteConfig.mk _) (List.map_congr_left fun b present => ?_)
  rw [backend_addGroup built (valid.owned g b present)]

theorem route_addGroup_self
    (built : BackendGroup.new now route reg.backendAt = .ok (group, arena)) :
    (addGroup reg group arena).route reg.groupAt.size = route := by
  obtain ⟨host, ids, after⟩ := groupNew_ok built
  have inside : ∀ b ∈ ([] : List BackendId), b < reg.backendAt.size := by simp
  have shown := merge_config now route.backends inside
  rw [List.map_nil, settle_nil, ← ids, ← after] at shown
  rw [BackendRegistry.route, group_addGroup_self, host]
  exact congrArg (RouteConfig.mk _) shown

end AddGroup

section ApplyRoute
variable {reg next : BackendRegistry} {now : Instant} {route : RouteConfig} {g : GroupId}

theorem locateGroup_some (found : reg.locateGroup route.host = some g) :
    g ∈ reg.groups ∧ (reg.group g).host = route.host := by
  refine ⟨List.mem_of_find?_eq_some found, ?_⟩
  simpa using List.find?_some found

theorem applyRoute_cases (applied : reg.applyRoute now route = some (g, next)) :
    (reg.locateGroup route.host = some g ∧ next = reg.applyBackends now g route.backends) ∨
      (reg.locateGroup route.host = none ∧ g = reg.groupAt.size ∧ ∃ group arena,
        BackendGroup.new now route reg.backendAt = .ok (group, arena) ∧
          next = addGroup reg group arena) := by
  rw [BackendRegistry.applyRoute] at applied
  split at applied
  next existing found =>
    cases applied
    exact Or.inl ⟨found, rfl⟩
  next absent =>
    split at applied
    next => cases applied
    next group arena built =>
      cases applied
      exact Or.inr ⟨absent, rfl, group, arena, built, rfl⟩

/-- The `unwrap` is safe on a host that parses. -/
theorem applyRoute_of_parse (reg : BackendRegistry) (now : Instant) {kind : HostMatch}
    (accepted : parse route.host = .ok kind) :
    ∃ g next, reg.applyRoute now route = some (g, next) := by
  cases found : reg.locateGroup route.host with
  | some existing => exact ⟨_, _, by rw [BackendRegistry.applyRoute, found]⟩
  | none =>
    cases built : BackendGroup.new now route reg.backendAt with
    | error e =>
      rw [groupNew_error, accepted] at built
      cases built
    | ok pair => exact ⟨reg.groupAt.size, _, by rw [BackendRegistry.applyRoute, found, built]⟩

theorem applyRoute_kept (valid : Valid reg) (applied : reg.applyRoute now route = some (g, next)) :
    Kept reg next := by
  rcases applyRoute_cases applied with ⟨-, rfl⟩ | ⟨-, -, group, arena, built, rfl⟩
  · exact applyBackends_kept valid
  · exact addGroup_kept built

theorem applyRoute_valid (valid : Valid reg) (applied : reg.applyRoute now route = some (g, next)) :
    Valid next := by
  rcases applyRoute_cases applied with ⟨found, rfl⟩ | ⟨-, -, group, arena, built, rfl⟩
  · exact applyBackends_valid valid (valid.table g (locateGroup_some found).1)
  · exact addGroup_valid valid built

theorem applyRoute_groups (applied : reg.applyRoute now route = some (g, next)) :
    next.groups = reg.groups := by
  rcases applyRoute_cases applied with ⟨-, rfl⟩ | ⟨-, -, group, arena, -, rfl⟩ <;> rfl

theorem applyRoute_lt (valid : Valid reg) (applied : reg.applyRoute now route = some (g, next)) :
    g < next.groupAt.size := by
  rcases applyRoute_cases applied with ⟨found, rfl⟩ | ⟨-, rfl, group, arena, -, rfl⟩
  · exact Nat.lt_of_lt_of_le (valid.table g (locateGroup_some found).1)
      (applyBackends_kept valid).groups
  · rw [addGroup, Arena.size_alloc]
    exact Nat.lt_succ_self _

theorem applyRoute_host (applied : reg.applyRoute now route = some (g, next)) :
    (next.group g).host = route.host := by
  rcases applyRoute_cases applied with ⟨found, rfl⟩ | ⟨-, rfl, group, arena, built, rfl⟩
  · rw [host_applyBackends, (locateGroup_some found).2]
  · rw [group_addGroup_self, (groupNew_ok built).1]

/-- One round writes into one group only. -/
theorem route_applyRoute_of_ne (valid : Valid reg)
    (applied : reg.applyRoute now route = some (g, next)) {g' : GroupId} (other : g ≠ g')
    (known : g' < reg.groupAt.size) : next.route g' = reg.route g' := by
  rcases applyRoute_cases applied with ⟨-, rfl⟩ | ⟨-, -, group, arena, built, rfl⟩
  · exact route_applyBackends_of_ne valid other
  · exact route_addGroup_of_lt valid built known

/-- The URLs that have an object in the group a route will be applied to. -/
def oldUrls (reg : BackendRegistry) (host : Str) : List Str :=
  match reg.locateGroup host with
  | some g => (reg.route g).backends.map (·.url)
  | none => []

theorem route_applyRoute_self (valid : Valid reg)
    (applied : reg.applyRoute now route = some (g, next)) :
    next.route g = ⟨route.host, settle (oldUrls reg route.host) route.backends⟩ := by
  rcases applyRoute_cases applied with ⟨found, rfl⟩ | ⟨absent, rfl, group, arena, built, rfl⟩
  · obtain ⟨member, host⟩ := locateGroup_some found
    rw [route_applyBackends_self valid (valid.table g member), oldUrls, found, host]
  · rw [route_addGroup_self built, oldUrls, absent, settle_nil]

theorem route_applyRoute_of_nodup (valid : Valid reg)
    (applied : reg.applyRoute now route = some (g, next))
    (distinct : (route.backends.map (·.url)).Nodup) : next.route g = route := by
  rw [route_applyRoute_self valid applied, settle_of_nodup _ distinct]

end ApplyRoute

end TinyLb.Merge
