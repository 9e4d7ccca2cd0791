import TinyLb.Config
import TinyLb.Rolling

/-! The script `rolling-update/simple.py`. Nobody else writes `lb.toml`; what docker answers is open, and
the script may be killed anywhere but between the truncation of the file and the end of the dump: a write
is one step. -/

namespace TinyLb.RollingUpdate
open Machine Text Config

/-- `re.match(r"https?://([^:/]+)", url)`; it raises where there is no match. -/
def urlToService (url : Str) : Option Str :=
  ((stripPrefix "http://".toList url).or (stripPrefix "https://".toList url)).bind fun authority =>
    let service := authority.takeWhile fun c => c != ':' && c != '/'
    if service = [] then none else some service

def entries (routes : List RouteConfig) : List BackendConfig := routes.flatMap (·.backends)

/-- The loops of `collect_backend_urls`; `url_to_service` is called for urls not yet seen. -/
def collect (targets : List Str) : List BackendConfig → List Str → Option (List Str)
  | [], seen => some seen
  | backend :: rest, seen =>
      if backend.url.isEmpty || seen.contains backend.url then collect targets rest seen
      else
        (urlToService backend.url).bind fun service =>
          collect targets rest (if targets.contains service then seen ++ [backend.url] else seen)

def collectBackendUrls (targets : List Str) (routes : List RouteConfig) : Option (List Str) :=
  collect targets (entries routes) []

def setDrain (url : Str) (drain : Bool) (backend : BackendConfig) : BackendConfig :=
  if backend.url = url then { backend with drain := drain } else backend

/-- What `set_drain_everywhere` writes to the file. -/
def setDrainEverywhere (url : Str) (drain : Bool) (routes : List RouteConfig) : List RouteConfig :=
  routes.map fun route => { route with backends := route.backends.map (setDrain url drain) }

/-- Every occurrence of the url is drained, and there is one. -/
def isDrained (routes : List RouteConfig) (url : Str) : Bool :=
  let occurrences := (entries routes).countP fun backend => backend.url = url
  let drained := (entries routes).countP fun backend => backend.url = url ∧ backend.drain
  0 < occurrences && drained == occurrences

def buildRestartOrder (routes : List RouteConfig) (urls : List Str) : List Str :=
  urls.filter (isDrained routes) ++ urls.filter fun url => !isDrained routes url

inductive Outcome where
  | unstarted
  | aborted
  | complete
  deriving DecidableEq, Repr

/-- Where `rolling_update` is. In `reloading` the file is written and `docker kill -s HUP` runs; in
`waiting` the queue of the drained service is polled. -/
inductive Phase where
  | stopped (outcome : Outcome)
  | building (order : List Str)
  | looping (rest : List Str)
  | reloading (url : Str) (rest : List Str) (drain : Bool)
  | waiting (url : Str) (rest : List Str)
  | recreating (url : Str) (rest : List Str)
  | starting (url : Str) (rest : List Str)
  deriving DecidableEq, Repr

/-- `recreated` lists the urls whose containers the latest run has recreated. -/
structure Script where
  file : List RouteConfig
  phase : Phase
  recreated : List Str
  deriving DecidableEq, Repr

def Script.fresh (first : List RouteConfig) : Script := ⟨first, .stopped .unstarted, []⟩

/-- `proceed` ends the command that runs, with its success; a failing one raises. For `starting` it
says whether the container became healthy in time. -/
inductive Action where
  | start (doBuild : Bool)
  | proceed (ok : Bool)
  | kill
  deriving DecidableEq, Repr

def abort (s : Script) : Script := { s with phase := .stopped .aborted }

def proceed (ok : Bool) (s : Script) : Option Script :=
  match s.phase with
  | .stopped _ => none
  | .building order => some (if ok then { s with phase := .looping order } else abort s)
  | .looping [] => some { s with phase := .stopped .complete }
  | .looping (url :: rest) =>
      if isDrained s.file url then some { s with phase := .recreating url rest }
      else some { s with file := setDrainEverywhere url true s.file, phase := .reloading url rest true }
  | .reloading url rest drain =>
      some (if ok then { s with phase := if drain then .waiting url rest else .looping rest } else abort s)
  | .waiting url rest => some (if ok then { s with phase := .recreating url rest } else abort s)
  | .recreating url rest =>
      let tried := { s with recreated := s.recreated ++ [url] }
      some (if ok then { tried with phase := .starting url rest } else abort tried)
  | .starting url rest =>
      some (if ok then
        { s with file := setDrainEverywhere url false s.file, phase := .reloading url rest false }
      else abort s)

/-- The script is started when it does not run; without targets it exits. -/
def step (targets : List Str) : Action → Script → Option Script
  | .start doBuild, s =>
      match s.phase with
      | .stopped _ =>
          match collectBackendUrls targets s.file with
          | none | some [] => some (abort s)
          | some urls =>
              let order := buildRestartOrder s.file urls
              some { s with phase := if doBuild then .building order else .looping order, recreated := [] }
      | _ => none
  | .proceed ok, s => proceed ok s
  | .kill, s =>
      match s.phase with
      | .stopped _ => none
      | _ => some (abort s)

def Phase.away : Phase → Option Str
  | .reloading url _ true | .waiting url _ | .recreating url _ | .starting url _ => some url
  | _ => none

def Phase.outline : Phase → Rolling.Phase Str
  | .stopped _ => .stopped
  | .building order => .choosing order
  | .looping rest => .choosing rest
  | .reloading url rest true | .waiting url rest | .recreating url rest | .starting url rest => .away url rest
  | .reloading _ rest false => .choosing rest

def Phase.ahead : Phase → Option (List Str)
  | .stopped .complete => some []
  | .stopped _ => none
  | .building rest | .looping rest | .starting _ rest | .reloading _ rest false => some rest
  | .reloading url rest true | .waiting url rest | .recreating url rest => some (url :: rest)

section Marks
variable {written : Str → Option Bool} {routes : List RouteConfig} {url : Str}

/-- The routes with the flags that were written over them. -/
def markEntry (written : Str → Option Bool) (backend : BackendConfig) : BackendConfig :=
  { backend with drain := (written backend.url).getD backend.drain }

def mark (written : Str → Option Bool) (routes : List RouteConfig) : List RouteConfig :=
  routes.map fun route => { route with backends := route.backends.map (markEntry written) }

theorem mark_none (routes : List RouteConfig) : mark (fun _ => none) routes = routes := by
  have same : markEntry (fun _ => none) = id := by
    funext backend
    rfl
  simp [mark, same]

theorem entries_mark : entries (mark written routes) = (entries routes).map (markEntry written) := by
  simp only [entries, mark, List.flatMap_map, List.map_flatMap]

theorem setDrain_markEntry (flag : Bool) (backend : BackendConfig) :
    setDrain url flag (markEntry written backend) =
      markEntry (Function.update written url (some flag)) backend := by
  have named : (markEntry written backend).url = backend.url := rfl
  unfold setDrain
  by_cases same : backend.url = url
  · rw [if_pos (named.trans same)]
    simp only [markEntry, same, Function.update_self]
    rfl
  · rw [if_neg (named ▸ same)]
    simp only [markEntry, Function.update_of_ne same]

theorem setDrainEverywhere_mark (flag : Bool) :
    setDrainEverywhere url flag (mark written routes) =
      mark (Function.update written url (some flag)) routes := by
  have each : setDrain url flag ∘ markEntry written = markEntry (Function.update written url (some flag)) := by
    funext backend
    exact setDrain_markEntry flag backend
  simp only [setDrainEverywhere, mark, List.map_map, Function.comp_def]
  rw [← each]
  rfl

theorem isDrained_iff : isDrained routes url = true ↔
    (∃ backend ∈ entries routes, backend.url = url) ∧
      ∀ backend ∈ entries routes, backend.url = url → backend.drain = true := by
  let named := (entries routes).filter fun backend => backend.url = url
  have occurrences : (entries routes).countP (fun backend => backend.url = url) = named.length :=
    List.countP_eq_length_filter
  have drained : (entries routes).countP (fun backend => backend.url = url ∧ backend.drain) =
      named.countP (·.drain) := by
    rw [List.countP_filter]
    apply List.countP_congr
    intro backend _
    simp [and_comm]
  unfold isDrained
  simp only [occurrences, drained, Bool.and_eq_true, decide_eq_true_eq, beq_iff_eq]
  rw [List.countP_eq_length, List.length_pos_iff_exists_mem]
  simp [named]

theorem isDrained_mark (occurs : ∃ backend ∈ entries routes, backend.url = url) :
    isDrained (mark written routes) url = (written url).getD (isDrained routes url) := by
  have marked : ∀ backend, (markEntry written backend).url = backend.url := fun _ => rfl
  apply Bool.eq_iff_iff.mpr
  rw [isDrained_iff, entries_mark]
  cases wrote : written url with
  | none =>
    have kept : ∀ backend, backend.url = url → (markEntry written backend).drain = backend.drain := by
      rintro backend rfl
      simp [markEntry, wrote]
    rw [Option.getD_none, isDrained_iff]
    simp only [List.mem_map, exists_exists_and_eq_and, marked, forall_exists_index, and_imp,
      forall_apply_eq_imp_iff₂]
    apply and_congr_right
    intro _
    apply forall₂_congr
    intro backend _
    apply imp_congr_right
    intro same
    rw [kept backend same]
  | some flag =>
    have stamped : ∀ backend, backend.url = url → (markEntry written backend).drain = flag := by
      rintro backend rfl
      simp [markEntry, wrote]
    obtain ⟨backend, member, named⟩ := occurs
    rw [Option.getD_some]
    constructor
    · rintro ⟨-, all⟩
      rw [← stamped backend named]
      exact all _ (List.mem_map_of_mem member) named
    · intro drained
      refine ⟨⟨_, List.mem_map_of_mem member, named⟩, fun other there same => ?_⟩
      obtain ⟨original, -, rfl⟩ := List.mem_map.mp there
      rw [stamped original same, drained]

theorem collect_congr {f : BackendConfig → BackendConfig} (same : ∀ b, (f b).url = b.url) (targets : List Str)
    (l : List BackendConfig) (seen : List Str) : collect targets (l.map f) seen = collect targets l seen := by
  induction l generalizing seen with
  | nil => rfl
  | cons backend rest ih =>
    rw [List.map_cons, collect, collect, same]
    simp only [ih]

theorem collect_mark (targets : List Str) :
    collectBackendUrls targets (mark written routes) = collectBackendUrls targets routes := by
  unfold collectBackendUrls
  rw [entries_mark]
  exact @collect_congr (markEntry written) (fun _ => rfl) targets (entries routes) []

end Marks

section Targets
variable {targets : List Str} {l : List BackendConfig} {seen urls : List Str}

theorem collect_nodup (distinct : seen.Nodup) (found : collect targets l seen = some urls) : urls.Nodup := by
  induction l generalizing seen with
  | nil =>
    cases found
    exact distinct
  | cons backend rest ih =>
    rw [collect] at found
    split at found
    next => exact ih distinct found
    next new =>
      obtain ⟨service, -, found⟩ := Option.bind_eq_some_iff.mp found
      split at found
      next =>
        apply ih ?_ found
        have fresh : backend.url ∉ seen := by
          intro old
          rw [List.contains_iff_mem.mpr old, Bool.or_true] at new
          exact new rfl
        exact List.nodup_append.mpr ⟨distinct, List.nodup_singleton _, fun _ old _ here =>
          ne_of_mem_of_not_mem old (List.mem_singleton.mp here ▸ fresh)⟩
      next => exact ih distinct found

theorem mem_of_collect (found : collect targets l seen = some urls) {url : Str} (member : url ∈ urls) :
    url ∈ seen ∨ ∃ backend ∈ l, backend.url = url := by
  induction l generalizing seen with
  | nil =>
    cases found
    exact Or.inl member
  | cons backend rest ih =>
    have later : ∀ {before}, collect targets rest before = some urls →
        url ∈ before ∨ ∃ other ∈ backend :: rest, other.url = url := by
      intro before found
      rcases ih found with old | ⟨other, there, same⟩
      · exact Or.inl old
      · exact Or.inr ⟨other, List.mem_cons_of_mem _ there, same⟩
    rw [collect] at found
    split at found
    next => exact later found
    next =>
      obtain ⟨service, -, found⟩ := Option.bind_eq_some_iff.mp found
      split at found
      next =>
        rcases later found with old | here
        · rcases List.mem_append.mp old with before | now
          · exact Or.inl before
          · exact Or.inr ⟨backend, List.mem_cons_self .., (List.mem_singleton.mp now).symm⟩
        · exact Or.inr here
      next => exact later found

theorem nodup_targets (targets : List Str) (routes : List RouteConfig) :
    ((collectBackendUrls targets routes).getD []).Nodup := by
  cases found : collectBackendUrls targets routes with
  | none => exact List.nodup_nil
  | some urls => exact collect_nodup List.nodup_nil found

def fleet (targets : List Str) (first : List RouteConfig) : Rolling.Fleet Str where
  members := (collectBackendUrls targets first).getD []
  drained := isDrained first
  distinct := nodup_targets targets first

theorem occurs_of_member {first : List RouteConfig} {url : Str} (member : url ∈ (fleet targets first).members) :
    ∃ backend ∈ entries first, backend.url = url := by
  have member : url ∈ (collectBackendUrls targets first).getD [] := member
  cases found : collectBackendUrls targets first with
  | none =>
    rw [found] at member
    cases member
  | some urls =>
    rw [found] at member
    rcases mem_of_collect found member with none | here
    · cases none
    · exact here

end Targets

end TinyLb.RollingUpdate
