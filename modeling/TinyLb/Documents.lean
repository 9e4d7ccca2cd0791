import TinyLb.Decoding
import TinyLb.RollingUpdate
import Mathlib.Logic.Relation

/-! `lb.toml` as a document. The proxy reads a configuration from it; the script `simple.py` works on the
document itself and leaves alone what it does not know. A write of the file is not cut short. -/

namespace TinyLb.Documents
open Config Tables Machine Decoding

/-- `bool(value)`. -/
def truthy : Value → Bool
  | .string text => !text.isEmpty
  | .integer n => n != 0
  | .boolean b => b
  | .scalar _ truth => truth
  | .array items => !items.isEmpty
  | .table entries => !entries.isEmpty

/-- What a `for` loop goes through: the characters of a string and the keys of a table as well. It raises
for the other values. -/
def elements : Value → Option (List Value)
  | .array items => some items
  | .string text => some (text.map fun c => .string [c])
  | .table entries => some (entries.map fun entry => .string entry.1)
  | .integer _ | .boolean _ | .scalar _ _ => none

def asTable : Value → Option Table
  | .table t => some t
  | _ => none

/-- The tables in `t.get(key, [])`. -/
def tablesIn (key : String) (t : Table) : Option (List Table) :=
  match t.lookup key.toList with
  | some value => (elements value).bind (List.mapM asTable)
  | none => some []

def backendTables (config : Table) : Option (List Table) := do
  let routes ← tablesIn "routes" config
  let backends ← routes.mapM (tablesIn "backends")
  return backends.flatten

/-- `backend.get("url") == url`. -/
def named (url : Str) (backend : Table) : Bool :=
  match backend.lookup "url".toList with
  | some (.string text) => text == url
  | _ => false

/-- `backend.get("drain", False)` as a condition. -/
def draining (backend : Table) : Bool :=
  match backend.lookup "drain".toList with
  | some value => truthy value
  | none => false

/-- The loops of `collect_backend_urls`; `url_to_service` raises for what is no string. -/
def collect (targets : List Str) : List Table → List Str → Option (List Str)
  | [], seen => some seen
  | backend :: rest, seen =>
      match backend.lookup "url".toList with
      | none => collect targets rest seen
      | some (.string url) =>
          if url.isEmpty || seen.contains url then collect targets rest seen
          else
            (RollingUpdate.urlToService url).bind fun service =>
              collect targets rest (if targets.contains service then seen ++ [url] else seen)
      | some value => if truthy value then none else collect targets rest seen

def collectBackendUrls (targets : List Str) (config : Table) : Option (List Str) :=
  (backendTables config).bind fun backends => collect targets backends []

def drainedIn (backends : List Table) (url : Str) : Bool :=
  let occurrences := backends.countP (named url)
  let drained := backends.countP fun backend => named url backend && draining backend
  0 < occurrences && drained == occurrences

def isDrained (config : Table) (url : Str) : Option Bool :=
  (backendTables config).map fun backends => drainedIn backends url

def buildRestartOrder (config : Table) (urls : List Str) : Option (List Str) :=
  (backendTables config).map fun backends =>
    urls.filter (drainedIn backends) ++ urls.filter fun url => !drainedIn backends url

/-- `backend["drain"] = drain` for the backends with the url. -/
def setDrain (url : Str) (drain : Bool) (backend : Table) : Table :=
  if named url backend then put "drain".toList (.boolean drain) backend else backend

def editEach (edit : Table → Option Table) : Value → Option Value
  | .array items => (items.mapM fun item => ((asTable item).bind edit).map .table).map .array
  | value => (elements value).bind fun items => if items.isEmpty then some value else none

def editKey (key : String) (edit : Value → Option Value) (t : Table) : Option Table :=
  match t.lookup key.toList with
  | some value => (edit value).map fun next => put key.toList next t
  | none => some t

/-- The document that `set_drain_everywhere` writes. -/
def setDrainEverywhere (url : Str) (drain : Bool) (config : Table) : Option Table :=
  editKey "routes" (editEach (editKey "backends" (editEach fun backend => some (setDrain url drain backend))))
    config

/-- The script's TOML library: `toml.load` and `toml.dump`. -/
structure Toml where
  load : Str → Option Table
  dump : Table → Str

/-- The script at work on the text of `lb.toml`. -/
structure Script where
  file : Str
  phase : RollingUpdate.Phase
  recreated : List Str
  deriving DecidableEq

def Script.fresh (first : Str) : Script := ⟨first, .stopped .unstarted, []⟩

def Script.abort (s : Script) : Script := { s with phase := .stopped .aborted }

/-- `set_drain_everywhere` up to `reload_lb`; where an access raises, the script ends before it writes. -/
def Script.write (toml : Toml) (config : Table) (url : Str) (drain : Bool) (rest : List Str) (s : Script) : Script :=
  match setDrainEverywhere url drain config with
  | none => s.abort
  | some config => { s with file := toml.dump config, phase := .reloading url rest drain }

def Script.proceed (toml : Toml) (ok : Bool) (s : Script) : Option Script :=
  match s.phase with
  | .stopped _ => none
  | .building order => some (if ok then { s with phase := .looping order } else s.abort)
  | .looping [] => some { s with phase := .stopped .complete }
  | .looping (url :: rest) =>
      match toml.load s.file with
      | none => some s.abort
      | some config =>
          match isDrained config url with
          | none => some s.abort
          | some true => some { s with phase := .recreating url rest }
          | some false => some (s.write toml config url true rest)
  | .reloading url rest drain =>
      some (if ok then { s with phase := if drain then .waiting url rest else .looping rest } else s.abort)
  | .waiting url rest => some (if ok then { s with phase := .recreating url rest } else s.abort)
  | .recreating url rest =>
      let tried := { s with recreated := s.recreated ++ [url] }
      some (if ok then { tried with phase := .starting url rest } else tried.abort)
  | .starting url rest =>
      if ok then
        match toml.load s.file with
        | none => some s.abort
        | some config => some (s.write toml config url false rest)
      else some s.abort

/-- `rolling_update` up to its loop. -/
def Script.begin (toml : Toml) (targets : List Str) (doBuild : Bool) (s : Script) : Script :=
  match toml.load s.file with
  | none => s.abort
  | some config =>
      match collectBackendUrls targets config with
      | none | some [] => s.abort
      | some urls =>
          match buildRestartOrder config urls with
          | none => s.abort
          | some order =>
              { s with phase := if doBuild then .building order else .looping order, recreated := [] }

def step (toml : Toml) (targets : List Str) : RollingUpdate.Action → Script → Option Script
  | .start doBuild, s =>
      match s.phase with
      | .stopped _ => some (s.begin toml targets doBuild)
      | _ => none
  | .proceed ok, s => s.proceed toml ok
  | .kill, s =>
      match s.phase with
      | .stopped _ => none
      | _ => some s.abort

structure Alike (R : Table → Table → Prop) (key : String) (t t' : Table) : Prop where
  others : ∀ other, other ≠ key.toList → t'.lookup other = t.lookup other
  under : Option.Rel (List.Forall₂ R) (tablesIn key t) (tablesIn key t')

def SameBackend (t t' : Table) : Prop := ∀ key, key ≠ "drain".toList → t'.lookup key = t.lookup key

/-- The same document but for the drain flags of its backends. -/
def SameDocument : Table → Table → Prop := Alike (Alike SameBackend "backends") "routes"

section Edits
variable {R : Table → Table → Prop} {key : String} {t t' t'' : Table}

theorem Alike.refl (reflexive : ∀ t, R t t) : Alike R key t t := by
  refine ⟨fun _ _ => rfl, ?_⟩
  cases tablesIn key t with
  | none => exact .none
  | some tables => exact .some (List.forall₂_same.mpr fun t _ => reflexive t)

theorem Alike.trans (transitive : ∀ t t' t'', R t t' → R t' t'' → R t t'') (first : Alike R key t t')
    (second : Alike R key t' t'') : Alike R key t t'' := by
  refine ⟨fun other apart => (second.others other apart).trans (first.others other apart), ?_⟩
  refine rel_trans ?_ first.under second.under
  intro _ _ _ before after
  exact forall₂_trans transitive before after

theorem editEach_alike {edit : Table → Option Table} (each : ∀ t t', edit t = some t' → R t t')
    {value value' : Value} (edited : editEach edit value = some value') :
    Option.Rel (List.Forall₂ R) ((elements value).bind (List.mapM asTable))
      ((elements value').bind (List.mapM asTable)) := by
  unfold editEach at edited
  split at edited
  next items =>
    obtain ⟨items', traversed, rfl⟩ := Option.map_eq_some_iff.mp edited
    have tables : ∃ l l', items.mapM asTable = some l ∧ items'.mapM asTable = some l' ∧ List.Forall₂ R l l' := by
      have pairs := mapM_eq_some_iff.mp traversed
      clear traversed edited
      induction pairs with
      | nil => exact ⟨[], [], rfl, rfl, .nil⟩
      | cons head tail ih =>
        obtain ⟨l, l', before, after, corresponding⟩ := ih
        obtain ⟨t', done, rfl⟩ := Option.map_eq_some_iff.mp head
        obtain ⟨t, table, changed⟩ := Option.bind_eq_some_iff.mp done
        refine ⟨t :: l, t' :: l', ?_, ?_, .cons (each t t' changed) corresponding⟩
        · rw [List.mapM_cons, table, before]
          rfl
        · rw [List.mapM_cons, after]
          rfl
    obtain ⟨l, l', before, after, corresponding⟩ := tables
    simp only [elements, Option.bind_some, before, after]
    exact .some corresponding
  next =>
    obtain ⟨items, found, kept⟩ := Option.bind_eq_some_iff.mp edited
    split at kept
    next empty =>
      cases kept
      rw [found, List.isEmpty_iff.mp empty]
      exact .some .nil
    next => cases kept

theorem editKey_alike {edit : Table → Option Table} (each : ∀ t t', edit t = some t' → R t t')
    (edited : editKey key (editEach edit) t = some t') : Alike R key t t' := by
  unfold editKey at edited
  split at edited
  next value here =>
    obtain ⟨value', changed, rfl⟩ := Option.map_eq_some_iff.mp edited
    refine ⟨fun other apart => lookup_put_of_ne apart, ?_⟩
    rw [tablesIn, tablesIn, here, lookup_put_self]
    exact editEach_alike each changed
  next absent =>
    cases edited
    refine ⟨fun _ _ => rfl, ?_⟩
    rw [tablesIn, absent]
    exact .some .nil

theorem setDrain_sameBackend (url : Str) (drain : Bool) (t : Table) : SameBackend t (setDrain url drain t) := by
  intro key apart
  unfold setDrain
  split
  · exact lookup_put_of_ne apart
  · rfl

theorem setDrainEverywhere_sameDocument {url : Str} {drain : Bool}
    (edited : setDrainEverywhere url drain t = some t') : SameDocument t t' := by
  refine editKey_alike (fun route route' changed => ?_) edited
  refine editKey_alike (fun backend backend' marked => ?_) changed
  cases marked
  exact setDrain_sameBackend url drain backend

theorem SameDocument.refl (t : Table) : SameDocument t t :=
  Alike.refl fun _ => Alike.refl fun _ _ _ => rfl

theorem SameDocument.trans (first : SameDocument t t') (second : SameDocument t' t'') : SameDocument t t'' := by
  have backends : ∀ t t' t'', SameBackend t t' → SameBackend t' t'' → SameBackend t t'' :=
    fun _ _ _ first second key apart => (second key apart).trans (first key apart)
  exact Alike.trans (fun _ _ _ => Alike.trans backends) first second

end Edits

section Loops
variable {key : String} {t : Table} {tables tables' : List Table} {edit : Table → Option Table}

theorem tablesIn_lists (listed : Lists key tables t) : tablesIn key t = some tables := by
  rw [tablesIn, listed]
  exact mapM_tables.mpr (List.forall₂_same.mpr fun _ _ => rfl)

theorem editKey_lists (listed : Lists key tables t)
    (edited : List.Forall₂ (fun t t' => edit t = some t') tables tables') :
    editKey key (editEach edit) t = some (put key.toList (.array (tables'.map .table)) t) := by
  have items : (tables.map Value.table).mapM (fun item => ((asTable item).bind edit).map Value.table) =
      some (tables'.map .table) := by
    refine mapM_tables.mpr (List.forall₂_map_right_iff.mpr ?_)
    exact edited.imp fun t t' done => by rw [asTable, Option.bind_some, done, Option.map_some]
  rw [editKey, listed]
  simp only [editEach, items, Option.map_some]

end Loops

section Backends
variable {reader : Reader} {t : Table} {b : BackendConfig} {tables : List Table} {backends : List BackendConfig}

theorem draining_read (laws : reader.Laws) (read : reader.backend t = some b) : draining t = b.drain := by
  rcases laws.drain read with here | ⟨absent, off⟩
  · rw [draining, here]
    rfl
  · rw [draining, absent, off]

theorem named_iff (laws : reader.Laws) (read : reader.backend t = some b) (url : Str) :
    named url t = decide (b.url = url) := by
  rw [named, laws.url read, Bool.eq_iff_iff, decide_eq_true_eq]
  exact beq_iff_eq

theorem setDrain_read (laws : reader.Laws) (url : Str) (drain : Bool) (read : reader.backend t = some b) :
    reader.backend (setDrain url drain t) = some (RollingUpdate.setDrain url drain b) := by
  rw [setDrain, named_iff laws read, RollingUpdate.setDrain]
  by_cases same : b.url = url
  · rw [if_pos same, if_pos (decide_eq_true same)]
    exact laws.putDrain read drain
  · rw [if_neg same, if_neg (by simpa using same)]
    exact read

theorem collect_read (laws : reader.Laws) (targets : List Str) (seen : List Str)
    (read : List.Forall₂ (fun t b => reader.backend t = some b) tables backends) :
    collect targets tables seen = RollingUpdate.collect targets backends seen := by
  induction read generalizing seen with
  | nil => rfl
  | cons head tail ih =>
    rw [collect, laws.url head, RollingUpdate.collect]
    simp only [ih]

theorem countP_read {p : Table → Bool} {q : BackendConfig → Bool}
    (same : ∀ t b, reader.backend t = some b → p t = q b)
    (read : List.Forall₂ (fun t b => reader.backend t = some b) tables backends) :
    tables.countP p = backends.countP q := by
  induction read with
  | nil => rfl
  | cons head tail ih => rw [List.countP_cons, List.countP_cons, ih, same _ _ head]

end Backends

section Routes
variable {reader : Reader} {doc t : Table} {c : LbConfig} {r : RouteConfig}

theorem readsRoute_edit (laws : reader.Laws) (url : Str) (drain : Bool) (read : ReadsRoute reader t r) :
    ∃ t', editKey "backends" (editEach fun backend => some (setDrain url drain backend)) t = some t' ∧
      ReadsRoute reader t' { r with backends := r.backends.map (RollingUpdate.setDrain url drain) } := by
  obtain ⟨routeRead, tables, listed, each⟩ := read
  obtain ⟨tables', edited, again⟩ := forall₂_edit
    (fun t b here => ⟨setDrain url drain t, rfl, setDrain_read laws url drain here⟩) each
  exact ⟨_, editKey_lists listed edited, laws.putBackends routeRead again, tables', lookup_put_self, again⟩

theorem reads_edit (laws : reader.Laws) (url : Str) (drain : Bool) (read : Reads reader doc c) :
    ∃ doc', setDrainEverywhere url drain doc = some doc' ∧
      Reads reader doc' { c with routes := RollingUpdate.setDrainEverywhere url drain c.routes } := by
  obtain ⟨whole, tables, listed, each⟩ := read
  obtain ⟨tables', edited, again⟩ := forall₂_edit (fun t r here => readsRoute_edit laws url drain here) each
  have routes := laws.putRoutes whole (again.imp fun _ _ here => here.1)
  exact ⟨_, editKey_lists listed edited, routes, tables', lookup_put_self, again⟩

theorem backendTables_read (read : Reads reader doc c) :
    ∃ tables, backendTables doc = some tables ∧
      List.Forall₂ (fun t b => reader.backend t = some b) tables (RollingUpdate.entries c.routes) := by
  obtain ⟨-, routes, listed, each⟩ := read
  have lists : ∃ lists, routes.mapM (tablesIn "backends") = some lists ∧
      List.Forall₂ (fun t b => reader.backend t = some b) lists.flatten (RollingUpdate.entries c.routes) := by
    clear listed
    generalize c.routes = typed at each
    induction each with
    | nil => exact ⟨[], rfl, .nil⟩
    | cons head tail ih =>
      obtain ⟨-, tables, here, decoded⟩ := head
      obtain ⟨lists, others, rest⟩ := ih
      refine ⟨tables :: lists, ?_, List.rel_append decoded rest⟩
      rw [List.mapM_cons, tablesIn_lists here, others]
      rfl
  obtain ⟨lists, taken, flat⟩ := lists
  refine ⟨lists.flatten, ?_, flat⟩
  simp only [backendTables, tablesIn_lists listed, taken, Option.bind_eq_bind, Option.bind_some]
  rfl

theorem collectBackendUrls_read (laws : reader.Laws) (targets : List Str) (read : Reads reader doc c) :
    collectBackendUrls targets doc = RollingUpdate.collectBackendUrls targets c.routes := by
  obtain ⟨tables, found, each⟩ := backendTables_read read
  rw [collectBackendUrls, found]
  exact collect_read laws targets [] each

theorem drainedIn_read (laws : reader.Laws) {tables : List Table}
    (each : List.Forall₂ (fun t b => reader.backend t = some b) tables (RollingUpdate.entries c.routes)) :
    drainedIn tables = RollingUpdate.isDrained c.routes := by
  funext url
  have occurrences := countP_read (p := named url) (fun t b here => named_iff laws here url) each
  have drained := countP_read (p := fun t => named url t && draining t)
    (q := fun b => decide (b.url = url ∧ b.drain = true)) (fun t b here => by
      rw [named_iff laws here, draining_read laws here, Bool.decide_and, Bool.decide_eq_true]) each
  simp only [drainedIn, RollingUpdate.isDrained, occurrences, drained]

theorem isDrained_read (laws : reader.Laws) (url : Str) (read : Reads reader doc c) :
    isDrained doc url = some (RollingUpdate.isDrained c.routes url) := by
  obtain ⟨tables, found, each⟩ := backendTables_read read
  rw [isDrained, found, Option.map_some, drainedIn_read laws each]

theorem buildRestartOrder_read (laws : reader.Laws) (urls : List Str) (read : Reads reader doc c) :
    buildRestartOrder doc urls = some (RollingUpdate.buildRestartOrder c.routes urls) := by
  obtain ⟨tables, found, each⟩ := backendTables_read read
  rw [buildRestartOrder, found, Option.map_some, drainedIn_read laws each]
  rfl

end Routes

section Runs
variable {toml : Toml} {parse : Str → Option LbConfig} {reader : Reader} {targets : List Str} {first : Table}
  {c : LbConfig}

/-- The library of the script and that of the proxy take the text for the same document. -/
structure Holds (toml : Toml) (parse : Str → Option LbConfig) (reader : Reader) (text : Str) (doc : Table) :
    Prop where
  loaded : toml.load text = some doc
  parsed : parse text = reader.lb doc

/-- The document after any calls of `set_drain_everywhere`. -/
def Edits : Table → Table → Prop :=
  Relation.ReflTransGen fun doc doc' => ∃ url drain, setDrainEverywhere url drain doc = some doc'

theorem sameDocument_of_edits {doc : Table} (edits : Edits first doc) : SameDocument first doc := by
  induction edits with
  | refl => exact .refl first
  | tail _ edit ih =>
    obtain ⟨url, drain, edited⟩ := edit
    exact ih.trans (setDrainEverywhere_sameDocument edited)

/-- The script on the document is where the script on the routes is, and the proxy reads the routes of
that from the text of this, in whose document only drain flags differ from the first. -/
structure Matches (toml : Toml) (parse : Str → Option LbConfig) (reader : Reader) (first : Table) (c : LbConfig)
    (s : Script) (t : RollingUpdate.Script) : Prop where
  file : ∃ doc, toml.load s.file = some doc ∧ Edits first doc ∧ SameDocument first doc ∧
    Reads reader doc { c with routes := t.file }
  parsed : parse s.file = some { c with routes := t.file }
  phase : s.phase = t.phase
  recreated : s.recreated = t.recreated

section Steps
variable {s : Script} {t : RollingUpdate.Script}

theorem matches_of_holds {doc : Table} (holds : Holds toml parse reader s.file doc) (edits : Edits first doc)
    (read : Reads reader doc { c with routes := t.file }) (phase : s.phase = t.phase)
    (recreated : s.recreated = t.recreated) : Matches toml parse reader first c s t :=
  ⟨⟨doc, holds.loaded, edits, sameDocument_of_edits edits, read⟩, holds.parsed.trans read.1, phase, recreated⟩

theorem Matches.enter (matched : Matches toml parse reader first c s t) (phase : RollingUpdate.Phase) :
    Matches toml parse reader first c { s with phase := phase } { t with phase := phase } :=
  ⟨matched.file, matched.parsed, rfl, matched.recreated⟩

theorem Matches.abort (matched : Matches toml parse reader first c s t) :
    Matches toml parse reader first c s.abort (RollingUpdate.abort t) :=
  matched.enter _

variable (laws : reader.Laws) (kept : ∀ doc, Edits first doc → Holds toml parse reader (toml.dump doc) doc)
include laws

include kept in
theorem write_matches (matched : Matches toml parse reader first c s t) {doc : Table} (edits : Edits first doc)
    (read : Reads reader doc { c with routes := t.file }) (url : Str) (drain : Bool) (rest : List Str) :
    Matches toml parse reader first c (s.write toml doc url drain rest)
      { t with file := RollingUpdate.setDrainEverywhere url drain t.file, phase := .reloading url rest drain } := by
  obtain ⟨doc', edited, again⟩ := reads_edit laws url drain read
  have further : Edits first doc' := edits.tail ⟨url, drain, edited⟩
  simp only [Script.write, edited]
  exact matches_of_holds (kept doc' further) further again rfl matched.recreated

include kept in
theorem proceed_matches (matched : Matches toml parse reader first c s t) (ok : Bool) :
    Option.Rel (Matches toml parse reader first c) (s.proceed toml ok) (RollingUpdate.proceed ok t) := by
  have same := matched.phase
  obtain ⟨doc, loaded, edits, -, read⟩ := matched.file
  unfold Script.proceed RollingUpdate.proceed
  rw [same]
  cases here : t.phase with
  | stopped outcome => exact .none
  | building order =>
    cases ok with
    | true => exact .some (matched.enter _)
    | false => exact .some matched.abort
  | looping rest =>
    cases rest with
    | nil => exact .some (matched.enter _)
    | cons url rest =>
      simp only [loaded, isDrained_read laws url read]
      cases drained : RollingUpdate.isDrained t.file url with
      | true => exact .some (matched.enter _)
      | false => exact .some (write_matches laws kept matched edits read url true rest)
  | reloading url rest drain =>
    cases ok with
    | true => exact .some (matched.enter _)
    | false => exact .some matched.abort
  | waiting url rest =>
    cases ok with
    | true => exact .some (matched.enter _)
    | false => exact .some matched.abort
  | recreating url rest =>
    have tried : Matches toml parse reader first c { s with recreated := s.recreated ++ [url] }
        { t with recreated := t.recreated ++ [url] } :=
      ⟨matched.file, matched.parsed, matched.phase, congrArg (· ++ [url]) matched.recreated⟩
    cases ok with
    | true => exact .some (tried.enter _)
    | false => exact .some tried.abort
  | starting url rest =>
    cases ok with
    | true =>
      simp only [loaded]
      exact .some (write_matches laws kept matched edits read url false rest)
    | false => exact .some matched.abort

theorem begin_matches (matched : Matches toml parse reader first c s t) (idle : ∃ outcome, t.phase = .stopped outcome)
    (doBuild : Bool) : Option.Rel (Matches toml parse reader first c) (some (s.begin toml targets doBuild))
      (RollingUpdate.step targets (.start doBuild) t) := by
  obtain ⟨outcome, stopped⟩ := idle
  obtain ⟨doc, loaded, -, -, read⟩ := matched.file
  simp only [Script.begin, RollingUpdate.step, stopped, loaded, collectBackendUrls_read laws targets read]
  cases found : RollingUpdate.collectBackendUrls targets t.file with
  | none => exact .some matched.abort
  | some urls =>
    cases urls with
    | nil => exact .some matched.abort
    | cons url rest =>
      simp only [buildRestartOrder_read laws _ read]
      exact .some ⟨matched.file, matched.parsed, rfl, rfl⟩

include kept in
theorem step_matches (matched : Matches toml parse reader first c s t) (action : RollingUpdate.Action) :
    Option.Rel (Matches toml parse reader first c) (step toml targets action s)
      (RollingUpdate.step targets action t) := by
  cases action with
  | start doBuild =>
    cases here : t.phase with
    | stopped outcome =>
      simp only [step, matched.phase, here]
      exact begin_matches laws matched ⟨outcome, here⟩ doBuild
    | _ =>
      simp only [step, RollingUpdate.step, matched.phase, here]
      exact .none
  | proceed ok => exact proceed_matches laws kept matched ok
  | kill =>
    simp only [step, RollingUpdate.step, matched.phase]
    cases t.phase with
    | stopped outcome => exact .none
    | _ => exact .some matched.abort

end Steps

/-- Whatever happens to the script and however often it is started: on a document that comes back as it was
written, also with other drain flags, it can do what it can do on the routes alone, and then the proxy reads
the routes it has made from the document, of which nothing but drain flags has changed. -/
theorem documents_refine (laws : reader.Laws)
    (kept : ∀ doc, Edits first doc → Holds toml parse reader (toml.dump doc) doc) {text : Str}
    (holds : Holds toml parse reader text first) (sections : Sectioned first) (read : reader.lb first = some c)
    (actions : List RollingUpdate.Action) :
    Option.Rel (Matches toml parse reader first c) (run (step toml targets) actions (Script.fresh text))
      (run (RollingUpdate.step targets) actions (RollingUpdate.Script.fresh c.routes)) := by
  have initial : Matches toml parse reader first c (Script.fresh text) (RollingUpdate.Script.fresh c.routes) :=
    matches_of_holds holds Relation.ReflTransGen.refl (reads_of_sectioned laws sections read) rfl rfl
  exact run_lockstep (fun action _ _ matched => step_matches laws kept matched action) initial actions

section Samples

def flagEntry (flag : Option Bool) : Table := (flag.map fun b => ("drain".toList, .boolean b)).toList

def sampleA (flag : Option Bool) : Table :=
  flagEntry flag ++ [("url".toList, .string "http://a:1".toList), ("weight".toList, .integer 2)]

def sampleB (flag : Option Bool) : Table :=
  flagEntry flag ++ [("max_connections".toList, .integer 8), ("url".toList, .string "http://b:1".toList)]

def sampleRoute (a b : Table) : Table :=
  [("backends".toList, .array [.table a, .table b]), ("host".toList, .string "*".toList)]

def sampleDoc (a b : Table) : Table :=
  let health : Table := ["interval_secs", "timeout_secs", "unhealthy_cooldown_secs"].map fun key =>
    (key.toList, .integer 5)
  [("health".toList, .table health), ("routes".toList, .array [.table (sampleRoute a b)]),
    ("server".toList, .table [("bind".toList, .string "0.0.0.0:80".toList)]),
    ("title".toList, .string "two".toList)]

def sampleConfig : LbConfig :=
  ⟨⟨"0.0.0.0:80".toList, none, none⟩, ⟨5, 5, 5⟩,
    [⟨"*".toList, [⟨"http://a:1".toList, 5000, false⟩, ⟨"http://b:1".toList, 8, false⟩]⟩], defaultLogConfig⟩

def flagLine : Option Bool → Str
  | none => []
  | some true => "drain = true\n".toList
  | some false => "drain = false\n".toList

def sampleHead : Str :=
  ("title = \"two\"\n\n[server]\nbind = \"0.0.0.0:80\"\n\n[health]\ninterval_secs = 5\ntimeout_secs = 5\n" ++
    "unhealthy_cooldown_secs = 5\n\n[[routes]]\nhost = \"*\"\n\n[[routes.backends]]\nurl = \"http://a:1\"\n" ++
    "weight = 2\n").toList

def sampleMiddle : Str :=
  '\n' :: "[[routes.backends]]\nurl = \"http://b:1\"\nmax_connections = 8\n".toList

def sampleText (a b : Option Bool) : Str :=
  sampleHead ++ (flagLine a ++ (sampleMiddle ++ flagLine b))

def takeFlag (text : Str) : Option Bool × Str :=
  match Text.stripPrefix (flagLine (some true)) text with
  | some rest => (some true, rest)
  | none =>
      match Text.stripPrefix (flagLine (some false)) text with
      | some rest => (some false, rest)
      | none => (none, text)

def flagsOf (doc : Table) : Option Bool × Option Bool :=
  match (backendTables doc).map (List.map fun t => (t.lookup "drain".toList).bind flag) with
  | some [a, b] => (a, b)
  | _ => (none, none)

def sampleToml : Toml where
  load text := do
    let (a, rest) := takeFlag (← Text.stripPrefix sampleHead text)
    let (b, rest) := takeFlag (← Text.stripPrefix sampleMiddle rest)
    if rest = [] then some (sampleDoc (sampleA a) (sampleB b)) else none
  dump doc := sampleText (flagsOf doc).1 (flagsOf doc).2

def sampleParse (text : Str) : Option LbConfig := (sampleToml.load text).bind derived.lb

theorem takeFlag_line (a : Option Bool) {rest : Str} (other : takeFlag rest = (none, rest)) :
    takeFlag (flagLine a ++ rest) = (a, rest) := by
  rcases a with _ | _ | _
  · exact other
  · rfl
  · rfl

theorem sample_load (a b : Option Bool) :
    sampleToml.load (sampleText a b) = some (sampleDoc (sampleA a) (sampleB b)) := by
  have last : takeFlag (flagLine b) = (b, []) := by
    rw [← List.append_nil (flagLine b)]
    exact takeFlag_line b rfl
  have first : takeFlag (flagLine a ++ (sampleMiddle ++ flagLine b)) = (a, sampleMiddle ++ flagLine b) :=
    takeFlag_line a rfl
  have strips (lead rest : Str) : Text.stripPrefix lead (lead ++ rest) = some rest := Text.stripPrefix_some.mpr rfl
  simp only [sampleToml, sampleText, strips, Option.bind_eq_bind, Option.bind_some, first, last, if_true]

theorem sample_dump (a b : Option Bool) : sampleToml.dump (sampleDoc (sampleA a) (sampleB b)) = sampleText a b := by
  rcases a with _ | _ <;> rcases b with _ | _ <;> rfl

theorem setDrain_sample (url : Str) (drain : Bool) (flag : Option Bool) :
    (∃ flag', setDrain url drain (sampleA flag) = sampleA flag') ∧
      ∃ flag', setDrain url drain (sampleB flag) = sampleB flag' := by
  constructor
  all_goals
    unfold setDrain
    split
    · exact ⟨some drain, by cases flag <;> rfl⟩
    · exact ⟨flag, rfl⟩

theorem sample_kept (doc : Table) (edits : Edits (sampleDoc (sampleA none) (sampleB none)) doc) :
    Holds sampleToml sampleParse derived (sampleToml.dump doc) doc := by
  have flags : ∃ a b, doc = sampleDoc (sampleA a) (sampleB b) := by
    induction edits with
    | refl => exact ⟨none, none, rfl⟩
    | tail _ edit ih =>
      obtain ⟨a, b, rfl⟩ := ih
      obtain ⟨url, drain, edited⟩ := edit
      obtain ⟨a', first⟩ := (setDrain_sample url drain a).1
      obtain ⟨b', second⟩ := (setDrain_sample url drain b).2
      refine ⟨a', b', ?_⟩
      rw [← first, ← second]
      exact (Option.some.inj edited).symm
  obtain ⟨a, b, rfl⟩ := flags
  rw [sample_dump]
  exact ⟨sample_load a b, by rw [sampleParse, sample_load, Option.bind_some]⟩

/-- The script drains one of two backends; the title and the weight, which neither knows, stay. -/
theorem documents_refine_one : ∃ s : Script,
    sampleParse (sampleText none none) = some sampleConfig ∧
    run (step sampleToml ["a".toList]) [.start false, .proceed true] (Script.fresh (sampleText none none)) = some s ∧
    s.file = sampleText (some true) none ∧ s.phase = .reloading "http://a:1".toList [] true ∧
    (∃ doc, sampleToml.load s.file = some doc ∧ SameDocument (sampleDoc (sampleA none) (sampleB none)) doc) ∧
    sampleParse s.file = some { sampleConfig with
      routes := RollingUpdate.setDrainEverywhere "http://a:1".toList true sampleConfig.routes } := by
  let actions : List RollingUpdate.Action := [.start false, .proceed true]
  let s : Script := ⟨sampleText (some true) none, .reloading "http://a:1".toList [] true, []⟩
  let t : RollingUpdate.Script := ⟨RollingUpdate.setDrainEverywhere "http://a:1".toList true sampleConfig.routes,
    .reloading "http://a:1".toList [] true, []⟩
  have read : derived.lb (sampleDoc (sampleA none) (sampleB none)) = some sampleConfig := rfl
  have holds : Holds sampleToml sampleParse derived (sampleText none none) (sampleDoc (sampleA none) (sampleB none)) :=
    ⟨sample_load none none, by rw [sampleParse, sample_load, Option.bind_some]⟩
  have sections : Sectioned (sampleDoc (sampleA none) (sampleB none)) := by
    refine ⟨[sampleRoute (sampleA none) (sampleB none)], rfl, fun route member => ?_⟩
    rw [List.mem_singleton.mp member]
    exact ⟨[sampleA none, sampleB none], rfl⟩
  have onRoutes : run (RollingUpdate.step ["a".toList]) actions (RollingUpdate.Script.fresh sampleConfig.routes) =
      some t := by
    decide
  have written : run (step sampleToml ["a".toList]) actions (Script.fresh (sampleText none none)) = some s := by
    decide +kernel
  have matched := @documents_refine sampleToml sampleParse derived ["a".toList] _ _ derived_laws sample_kept
    _ holds sections read actions
  rw [onRoutes, written] at matched
  have both := Option.rel_some_some.mp matched
  obtain ⟨doc, loaded, -, same, -⟩ := both.file
  exact ⟨s, holds.parsed.trans read, written, rfl, rfl, ⟨doc, loaded, same⟩, both.parsed⟩

end Samples

end Runs

end TinyLb.Documents
