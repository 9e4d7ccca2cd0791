import TinyLb.LiveConfig
import TinyLb.Machine
import Mathlib.Data.List.Induction

/-! The process from `main`'s `LbConfig::load` on, with the configuration file and the signals
that reach it: what `config_reload_loop` remembers of the file, and which signals wake it. -/

namespace TinyLb.ReloadLoop
open Config Hosts Backends Tls LiveConfig Machine

/-- A modification time, as `metadata` reports it. -/
abbrev SystemTime := Nat

/-- The configuration file, which is there and readable all along. -/
structure ConfigFile where
  contents : Bytes
  modified : SystemTime
  deriving DecidableEq

/-- `read_to_string` with `toml::from_str`, and the parsers of the certificate files. -/
structure Formats (Cert PrivateKey SigningKey : Type) where
  toml : Bytes → Option LbConfig
  pem : Parsers Cert PrivateKey SigningKey

/-- Where `main` stands, and after it `config_reload_loop`. In `selecting` the `select!` has
not been polled yet; in `polled` and `hungUp` one of its branches has won. -/
inductive Position where
  | loading
  | launching (config : LbConfig)
  | spawned
  | selecting
  | waiting
  | polled
  | hungUp
  | reloading
  | applying (config : LbConfig)
  deriving DecidableEq

structure State (Cert SigningKey : Type) where
  file : ConfigFile
  written : List SystemTime
  position : Position
  lastModified : Option SystemTime
  listener : Option Bool
  registered : Bool
  lastLoad : Option Bytes
  process : Option (Process Cert SigningKey)

inductive Action where
  | write (file : ConfigFile)
  | sighup
  | load
  | launch (now : Instant) (disk : Disk)
  | begin
  | listen
  | tick
  | recv
  | metadata
  | reloadConfig
  | apply (now : Instant) (disk : Disk)

section Loop
variable {Cert PrivateKey SigningKey : Type}

def State.start (file : ConfigFile) : State Cert SigningKey :=
  ⟨file, [file.modified], .loading, none, none, false, none, none⟩

/-- One atomic step, on Unix; `none` where it is not possible or ends the process. A SIGHUP ends
the process before there has been a listener, and is dropped later where there is none. `tick`
may win before `wait_sighup` is polled. A `select!` drops its futures before its handler runs. -/
def step (formats : Formats Cert PrivateKey SigningKey) (action : Action)
    (s : State Cert SigningKey) : Option (State Cert SigningKey) :=
  match action, s.position with
  | .write file, _ => some { s with file := file, written := file.modified :: s.written }
  | .sighup, _ =>
      if s.registered then some { s with listener := s.listener.map fun _ => true } else none
  | .load, .loading =>
      match formats.toml s.file.contents with
      | some config =>
          some { s with lastLoad := some s.file.contents, position := .launching config }
      | none => none
  | .launch now disk, .launching config =>
      match Process.start formats.pem disk now config with
      | some process => some { s with process := some process, position := .spawned }
      | none => none
  | .begin, .spawned => some { s with lastModified := some s.file.modified, position := .selecting }
  | .listen, .selecting =>
      some { s with listener := some false, registered := true, position := .waiting }
  | .tick, .selecting => some { s with position := .polled }
  | .tick, .waiting => some { s with listener := none, position := .polled }
  | .recv, .waiting =>
      if s.listener = some true then some { s with listener := none, position := .hungUp } else none
  | .metadata, .polled =>
      if some s.file.modified = s.lastModified then some { s with position := .selecting }
      else some { s with lastModified := some s.file.modified, position := .reloading }
  | .metadata, .hungUp => some { s with lastModified := some s.file.modified, position := .reloading }
  | .reloadConfig, .reloading =>
      match formats.toml s.file.contents with
      | some config => some { s with lastLoad := some s.file.contents, position := .applying config }
      | none => some { s with lastLoad := some s.file.contents, position := .selecting }
  | .apply now disk, .applying config =>
      match s.process.bind (reloadBody formats.pem disk now config) with
      | some (_, process) => some { s with process := some process, position := .selecting }
      | none => none
  | _, _ => none

inductive Moves (formats : Formats Cert PrivateKey SigningKey) (s : State Cert SigningKey) :
    Action → State Cert SigningKey → Prop
  | write (file : ConfigFile) :
      Moves formats s (.write file) { s with file := file, written := file.modified :: s.written }
  | sighup (registered : s.registered = true) :
      Moves formats s .sighup { s with listener := s.listener.map fun _ => true }
  | load (config : LbConfig) (here : s.position = .loading)
      (parsed : formats.toml s.file.contents = some config) :
      Moves formats s .load { s with lastLoad := some s.file.contents, position := .launching config }
  | launch (now : Instant) (disk : Disk) (config : LbConfig) (process : Process Cert SigningKey)
      (here : s.position = .launching config)
      (started : Process.start formats.pem disk now config = some process) :
      Moves formats s (.launch now disk) { s with process := some process, position := .spawned }
  | begin (here : s.position = .spawned) :
      Moves formats s .begin { s with lastModified := some s.file.modified, position := .selecting }
  | listen (here : s.position = .selecting) :
      Moves formats s .listen { s with listener := some false, registered := true, position := .waiting }
  | early (here : s.position = .selecting) : Moves formats s .tick { s with position := .polled }
  | tick (here : s.position = .waiting) :
      Moves formats s .tick { s with listener := none, position := .polled }
  | recv (here : s.position = .waiting) (pending : s.listener = some true) :
      Moves formats s .recv { s with listener := none, position := .hungUp }
  | unmodified (here : s.position = .polled) (same : some s.file.modified = s.lastModified) :
      Moves formats s .metadata { s with position := .selecting }
  | modified (here : s.position = .polled) (changed : some s.file.modified ≠ s.lastModified) :
      Moves formats s .metadata { s with lastModified := some s.file.modified, position := .reloading }
  | hungUp (here : s.position = .hungUp) :
      Moves formats s .metadata { s with lastModified := some s.file.modified, position := .reloading }
  | reloadConfig (config : LbConfig) (here : s.position = .reloading)
      (parsed : formats.toml s.file.contents = some config) :
      Moves formats s .reloadConfig
        { s with lastLoad := some s.file.contents, position := .applying config }
  | unreadable (here : s.position = .reloading) (refused : formats.toml s.file.contents = none) :
      Moves formats s .reloadConfig { s with lastLoad := some s.file.contents, position := .selecting }
  | apply (now : Instant) (disk : Disk) (config : LbConfig) (answer : Except HostError Unit)
      (process : Process Cert SigningKey) (here : s.position = .applying config)
      (applied : s.process.bind (reloadBody formats.pem disk now config) = some (answer, process)) :
      Moves formats s (.apply now disk) { s with process := some process, position := .selecting }

variable {formats : Formats Cert PrivateKey SigningKey} {action : Action}
  {s t : State Cert SigningKey}

theorem step_moves (taken : step formats action s = some t) : Moves formats s action t := by
  unfold step at taken
  split at taken
  next => cases taken; exact .write _
  next =>
    split at taken
    next registered => cases taken; exact .sighup registered
    next => cases taken
  next here =>
    split at taken
    next config parsed => cases taken; exact .load config here parsed
    next => cases taken
  next now disk config here =>
    split at taken
    next process started => cases taken; exact .launch now disk config process here started
    next => cases taken
  next here => cases taken; exact .begin here
  next here => cases taken; exact .listen here
  next here => cases taken; exact .early here
  next here => cases taken; exact .tick here
  next here =>
    split at taken
    next pending => cases taken; exact .recv here pending
    next => cases taken
  next here =>
    split at taken
    next same => cases taken; exact .unmodified here same
    next changed => cases taken; exact .modified here changed
  next here => cases taken; exact .hungUp here
  next here =>
    split at taken
    next config parsed => cases taken; exact .reloadConfig config here parsed
    next refused => cases taken; exact .unreadable here refused
  next now disk config here =>
    split at taken
    next answer process applied => cases taken; exact .apply now disk config answer process here applied
    next => cases taken
  next => cases taken

/-- The assumption on the file system: a write gets a modification time that no earlier one had. -/
def FreshWrite : Action → State Cert SigningKey → Prop
  | .write file, s => file.modified ∉ s.written
  | _, _ => True

/-- The modification times in the state are those of writes. -/
structure Stamped (s : State Cert SigningKey) : Prop where
  file : s.file.modified ∈ s.written
  remembered : ∀ time, s.lastModified = some time → time ∈ s.written

theorem stamped_start (file : ConfigFile) : Stamped (State.start file : State Cert SigningKey) :=
  ⟨List.mem_singleton_self _, fun _ none => by cases none⟩

theorem Moves.stamped (moves : Moves formats s action t) (stamped : Stamped s) : Stamped t := by
  obtain ⟨file, remembered⟩ := stamped
  cases moves with
  | write written =>
    exact ⟨List.mem_cons_self .., fun time known => List.mem_cons_of_mem _ (remembered time known)⟩
  | begin | modified | hungUp =>
    refine ⟨file, fun time known => ?_⟩
    cases known
    exact file
  | _ => exact ⟨file, remembered⟩

def Position.early : Position → Bool
  | .loading | .launching _ | .spawned => true
  | _ => false

structure Tracked (s : State Cert SigningKey) : Prop where
  stamped : Stamped s
  looping : s.position.early = false
  unmodified : s.position ≠ .reloading → some s.file.modified = s.lastModified →
    s.lastLoad = some s.file.contents

theorem Moves.tracked (moves : Moves formats s action t) (fresh : FreshWrite action s)
    (tracked : Tracked s) : Tracked t := by
  refine ⟨moves.stamped tracked.stamped, ?_, ?_⟩
  · have looping := tracked.looping
    cases moves with
    | load _ here | launch _ _ _ _ here => simp [here, Position.early] at looping
    | write | sighup => exact looping
    | _ => rfl
  · cases moves with
    | write file =>
      -- a fresh modification time is not the remembered one
      intro _ same
      exact absurd (tracked.stamped.remembered _ same.symm) fresh
    | load _ here | launch _ _ _ _ here | begin here =>
      have looping := tracked.looping
      simp [here, Position.early] at looping
    | modified | hungUp =>
      intro here
      exact absurd rfl here
    | reloadConfig | unreadable => exact fun _ _ => rfl
    | sighup => exact tracked.unmodified
    | listen here | early here | tick here | recv here | unmodified here | apply _ _ _ _ _ here =>
      exact fun _ => tracked.unmodified (by simp [here])

/-- A poll tick has been taken, and the file has not been written since. -/
structure Polled (s : State Cert SigningKey) : Prop where
  tracked : Tracked s
  settled : s.position ≠ .polled → s.position ≠ .reloading → s.lastLoad = some s.file.contents

def NoWrite (action : Action) : Prop := ∀ file, action ≠ .write file

/-- Between writes what was loaded stays what the file holds. -/
theorem Moves.lastLoad (moves : Moves formats s action t) (quiet : NoWrite action)
    (loaded : s.lastLoad = some s.file.contents) : t.lastLoad = some t.file.contents := by
  cases moves with
  | write file => exact absurd rfl (quiet file)
  | load | reloadConfig | unreadable => rfl
  | _ => exact loaded

theorem Moves.polled (moves : Moves formats s action t) (fresh : FreshWrite action s)
    (quiet : NoWrite action) (polled : Polled s) : Polled t := by
  refine ⟨moves.tracked fresh polled.tracked, ?_⟩
  by_cases here : s.position = .polled
  · cases moves with
    | write file => exact absurd rfl (quiet file)
    | unmodified _ same => exact fun _ _ => polled.tracked.unmodified (by simp [here]) same
    | modified => exact fun _ notReloading => absurd rfl notReloading
    | sighup => exact fun notPolled => absurd here notPolled
    | _ => simp_all
  · by_cases reloading : s.position = .reloading
    · cases moves with
      | write file => exact absurd rfl (quiet file)
      | reloadConfig | unreadable => exact fun _ _ => rfl
      | sighup => exact fun _ notReloading => absurd reloading notReloading
      | _ => simp_all
    · exact fun _ _ => moves.lastLoad quiet (polled.settled here reloading)

def sampleText : Bytes :=
  ("routes = []\nserver.bind = \"0.0.0.0:80\"\n[health]\ninterval_secs = 10\ntimeout_secs = 3\n" ++
    "unhealthy_cooldown_secs = 15\n").toList.map fun c => UInt8.ofNat c.toNat

def sampleConfig : LbConfig :=
  ⟨⟨"0.0.0.0:80".toList, none, none⟩, ⟨10, 3, 15⟩, [], ⟨none, 50, 3, 60⟩⟩

def sampleEdit : Bytes := sampleText ++ [35, 10]

def sampleFormats : Formats Unit Unit Unit :=
  ⟨fun contents =>
    if contents = sampleText ∨ contents = sampleEdit then some sampleConfig else none, noPem⟩

theorem sampleFormats_toml : sampleFormats.toml sampleText = some sampleConfig := by
  simp [sampleFormats]

theorem sampleFormats_toml_edit : sampleFormats.toml sampleEdit = some sampleConfig := by
  simp [sampleFormats]

def sampleProcess : Process Unit Unit := ⟨.empty, windowOfSecs 60, none⟩

theorem sampleProcess_start :
    Process.start sampleFormats.pem noFiles 0 sampleConfig = some sampleProcess := rfl

theorem sampleProcess_reload :
    reloadBody sampleFormats.pem noFiles 0 sampleConfig sampleProcess =
      some (.ok (), sampleProcess) := rfl

/-- No edit is lost from `t` on. A poll tick is handled when the loop selects again; from then
on, and as long as nothing is written after the tick, the last load read what the file holds. -/
def EditsLoaded (formats : Formats Cert PrivateKey SigningKey) (t : State Cert SigningKey) : Prop :=
  ∀ before after rest handled final,
    Conforms (step formats) FreshWrite (before ++ .tick :: after ++ rest) t →
    run (step formats) (before ++ .tick :: after) t = some handled → handled.position = .selecting →
    run (step formats) rest handled = some final → (∀ action ∈ after ++ rest, NoWrite action) →
    final.lastLoad = some final.file.contents

section Run
variable {actions : List Action}

theorem run_stamped {file : ConfigFile}
    (reached : run (step formats) actions (.start file) = some s) : Stamped s :=
  run_invariant (I := Stamped) (fun _ _ _ known taken => (step_moves taken).stamped known)
    (stamped_start file) reached

theorem run_tracked (tracked : Tracked s) (fresh : Conforms (step formats) FreshWrite actions s)
    (reached : run (step formats) actions s = some t) : Tracked t :=
  run_invariant_of_conforms (I := Tracked)
    (fun _ _ _ known ok taken => (step_moves taken).tracked ok known) tracked fresh reached

theorem run_polled (polled : Polled s) (fresh : Conforms (step formats) FreshWrite actions s)
    (quiet : ∀ action ∈ actions, NoWrite action) (reached : run (step formats) actions s = some t) :
    Polled t :=
  run_invariant_of_conforms (I := Polled)
    (fun _ _ _ known ok taken => (step_moves taken).polled ok.1 ok.2 known) polled
    (fresh.and_forall quiet) reached

theorem run_lastLoad (loaded : s.lastLoad = some s.file.contents)
    (fresh : Conforms (step formats) FreshWrite actions s)
    (quiet : ∀ action ∈ actions, NoWrite action) (reached : run (step formats) actions s = some t) :
    t.lastLoad = some t.file.contents :=
  run_invariant_of_conforms (I := fun s => s.lastLoad = some s.file.contents)
    (fun _ _ _ known ok taken => (step_moves taken).lastLoad ok.2 known) loaded
    (fresh.and_forall quiet) reached

theorem Tracked.edits_loaded (tracked : Tracked t) : EditsLoaded formats t := by
  intro before after rest handled final fresh ticked selecting done quiet
  obtain ⟨freshTicked, freshRest⟩ := Conforms.append fresh ticked
  obtain ⟨due, first, second⟩ := run_append_some.mp ticked
  obtain ⟨freshBefore, freshTick⟩ := Conforms.append freshTicked first
  obtain ⟨won, taken, third⟩ := run_cons_some.mp second
  have reached := run_tracked tracked freshBefore first
  have polled : Polled won := by
    refine ⟨(step_moves taken).tracked trivial reached, fun notPolled => ?_⟩
    cases step_moves taken <;> exact absurd rfl notPolled
  have settled := run_polled polled (freshTick.2 won taken)
    (fun a member => quiet a (List.mem_append_left _ member)) third
  have loaded := settled.settled (by simp [selecting]) (by simp [selecting])
  exact run_lastLoad loaded freshRest (fun a member => quiet a (List.mem_append_right _ member)) done

/-- No edit is lost exactly where the file still holds what `main` loaded when the loop first
reads its modification time. -/
theorem edits_loaded_iff {file : ConfigFile} {u : State Cert SigningKey}
    (reached : run (step formats) actions (.start file) = some u)
    (begun : step formats .begin u = some t) :
    EditsLoaded formats t ↔ u.lastLoad = some u.file.contents := by
  have stamped := (step_moves begun).stamped (run_stamped reached)
  cases step_moves begun with
  | begin here =>
    constructor
    · intro law
      -- the next tick finds the modification time that was read after the edit
      let looping : State Cert SigningKey :=
        { u with lastModified := some u.file.modified, position := .selecting }
      have ticked : run (step formats) [.tick, .metadata] looping = some looping := by
        simp [run_cons, step, looping]
      have fresh : Conforms (step formats) FreshWrite [.tick, .metadata] looping :=
        ⟨trivial, fun _ _ => ⟨trivial, fun _ _ => trivial⟩⟩
      exact law [] [.metadata] [] looping looping fresh ticked rfl rfl (by simp [NoWrite])
    · intro loaded
      exact Tracked.edits_loaded ⟨stamped, rfl, fun _ _ => loaded⟩

/-- An edit before `main` loads the file. -/
theorem edits_loaded_iff_before_load : ∃ u t : State Unit Unit,
    run (step sampleFormats) [.write ⟨sampleEdit, 2⟩, .load, .launch 0 noFiles] (.start ⟨sampleText, 1⟩) =
      some u ∧
    step sampleFormats .begin u = some t ∧ EditsLoaded sampleFormats t := by
  let u : State Unit Unit := ⟨⟨sampleEdit, 2⟩, [2, 1], .spawned, none, none, false, some sampleEdit,
    some sampleProcess⟩
  have reached : run (step sampleFormats) [.write ⟨sampleEdit, 2⟩, .load, .launch 0 noFiles]
      (.start ⟨sampleText, 1⟩) = some u := by
    simp [run_cons, step, State.start, sampleFormats_toml_edit, sampleProcess_start, u]
  have begun : step sampleFormats .begin u = some _ := rfl
  exact ⟨u, _, reached, begun, (edits_loaded_iff reached begun).mpr rfl⟩

/-- An edit between `main`'s load and the first reading of the modification time is not loaded
by the poll ticks that follow. -/
theorem edit_lost_while_launching : ∃ final : State Unit Unit,
    let actions : List Action :=
      [.load, .write ⟨sampleEdit, 2⟩, .launch 0 noFiles, .begin, .tick, .metadata]
    run (step sampleFormats) actions (.start ⟨sampleText, 1⟩) = some final ∧
      Conforms (step sampleFormats) FreshWrite actions (.start ⟨sampleText, 1⟩) ∧
      final.position = .selecting ∧ final.file.contents = sampleEdit ∧
      final.lastLoad = some sampleText ∧ sampleText ≠ sampleEdit := by
  let final : State Unit Unit := ⟨⟨sampleEdit, 2⟩, [2, 1], .selecting, some 2, none, false,
    some sampleText, some sampleProcess⟩
  refine ⟨final, ?_, ?_, rfl, rfl, rfl, by simp [sampleEdit]⟩
  · simp [run_cons, step, State.start, sampleFormats_toml, sampleProcess_start, final]
  · simp [Conforms, FreshWrite, step, State.start, sampleFormats_toml]

structure Consistent (s : State Cert SigningKey) : Prop where
  listening : s.listener.isSome ↔ s.position = .waiting
  looping : s.registered = true → s.position.early = false
  remembered : s.position.early = false → s.lastModified.isSome
  running : s.position.early = false ∨ s.position = .spawned → s.process.isSome

theorem consistent_start (file : ConfigFile) :
    Consistent (State.start file : State Cert SigningKey) := by
  constructor <;> simp [State.start, Position.early]

theorem Moves.consistent (moves : Moves formats s action t) (consistent : Consistent s) :
    Consistent t := by
  obtain ⟨listening, looping, remembered, running⟩ := consistent
  cases moves with
  | write => exact ⟨listening, looping, remembered, running⟩
  | sighup => exact ⟨by simpa using listening, looping, remembered, running⟩
  | _ => constructor <;> simp_all [Position.early]

theorem run_consistent {file : ConfigFile}
    (reached : run (step formats) actions (.start file) = some s) : Consistent s :=
  run_invariant (I := Consistent) (fun _ _ _ known taken => (step_moves taken).consistent known)
    (consistent_start file) reached

end Run

section Signals
variable {actions : List Action}

def Served (actions : List Action) : Prop :=
  ∀ before after, actions = before ++ .sighup :: after → .reloadConfig ∈ after

/-- A SIGHUP comes to a listener or when a reload is about to start, and a poll tick does not
win while a signal is pending. -/
def Heard : Action → State Cert SigningKey → Prop
  | .sighup, s => s.listener.isSome ∨ s.position = .hungUp ∨ s.position = .reloading
  | .tick, s => s.listener ≠ some true
  | _, _ => True

def Owed (s : State Cert SigningKey) : Prop :=
  s.position = .waiting ∧ s.listener = some true ∨ s.position = .hungUp ∨ s.position = .reloading

theorem Moves.owed_of_sighup (moves : Moves formats s .sighup t) (consistent : Consistent s)
    (heard : Heard .sighup s) : Owed t := by
  cases moves
  rcases heard with alive | hungUp | reloading
  · obtain ⟨pending, known⟩ := Option.isSome_iff_exists.mp alive
    exact Or.inl ⟨consistent.listening.mp alive, by simp [known]⟩
  · exact Or.inr (Or.inl hungUp)
  · exact Or.inr (Or.inr reloading)

theorem Moves.owed (moves : Moves formats s action t) (heard : Heard action s)
    (noReload : action ≠ .reloadConfig) (owed : Owed s) : Owed t := by
  cases moves with
  | write => exact owed
  | sighup =>
    rcases owed with ⟨waiting, pending⟩ | later
    · exact Or.inl ⟨waiting, by simp [pending]⟩
    · exact Or.inr later
  | tick here =>
    rcases owed with ⟨_, pending⟩ | hungUp | reloading
    · exact absurd pending heard
    · simp [here] at hungUp
    · simp [here] at reloading
  | recv => exact Or.inr (Or.inl rfl)
  | modified | hungUp => exact Or.inr (Or.inr rfl)
  | reloadConfig | unreadable => exact absurd rfl noReload
  | load _ here | launch _ _ _ _ here | begin here | listen here | early here | unmodified here
  | apply _ _ _ _ _ here => simp [Owed, here] at owed

/-- No SIGHUP is lost in a run all of whose steps are heard. -/
theorem sighups_served {file : ConfigFile}
    (reached : run (step formats) actions (.start file) = some s)
    (heard : Conforms (step formats) Heard actions (.start file))
    (waiting : s.position = .waiting) (idle : s.listener ≠ some true) : Served actions := by
  rintro before after rfl
  obtain ⟨mid, first, second⟩ := run_append_some.mp reached
  obtain ⟨_, heardAfter⟩ := Conforms.append heard first
  obtain ⟨due, arrived, later⟩ := run_cons_some.mp second
  have owed := (step_moves arrived).owed_of_sighup (run_consistent first) heardAfter.1
  by_contra lost
  have noReload : ∀ action ∈ after, action ≠ .reloadConfig := by
    rintro action member rfl
    exact lost member
  have still : Owed s := run_invariant_of_conforms (I := Owed)
    (fun _ _ _ known ok taken => (step_moves taken).owed ok.1 ok.2 known) owed
    ((heardAfter.2 due arrived).and_forall noReload) later
  rcases still with ⟨_, pending⟩ | hungUp | reloading
  · exact idle pending
  · simp [waiting] at hungUp
  · simp [waiting] at reloading

/-- A second SIGHUP when a reload is about to start. -/
theorem sighups_served_twice : ∃ final : State Unit Unit,
    let actions : List Action := [.load, .launch 0 noFiles, .begin, .listen, .sighup, .recv, .metadata,
      .sighup, .reloadConfig, .apply 0 noFiles, .listen]
    run (step sampleFormats) actions (.start ⟨sampleText, 1⟩) = some final ∧
      Conforms (step sampleFormats) Heard actions (.start ⟨sampleText, 1⟩) ∧
      final.position = .waiting ∧ final.listener ≠ some true ∧ Served actions := by
  let actions : List Action := [.load, .launch 0 noFiles, .begin, .listen, .sighup, .recv, .metadata,
      .sighup, .reloadConfig, .apply 0 noFiles, .listen]
  let final : State Unit Unit := ⟨⟨sampleText, 1⟩, [1], .waiting, some 1, some false, true,
    some sampleText, some sampleProcess⟩
  have reached : run (step sampleFormats) actions (.start ⟨sampleText, 1⟩) = some final := by
    simp [run_cons, step, State.start, sampleFormats_toml, sampleProcess_start, sampleProcess_reload,
      actions, final]
  have heard : Conforms (step sampleFormats) Heard actions (.start ⟨sampleText, 1⟩) := by
    simp [Conforms, Heard, step, State.start, sampleFormats_toml, sampleProcess_start, actions]
  exact ⟨final, reached, heard, rfl, by simp [final], sighups_served reached heard rfl (by simp [final])⟩

/-- A SIGHUP while a reload is being applied is followed by none. -/
theorem sighup_lost_while_applying : ∃ final : State Unit Unit,
    run (step sampleFormats) [.load, .launch 0 noFiles, .begin, .listen, .sighup, .recv, .metadata,
      .reloadConfig, .sighup, .apply 0 noFiles, .listen] (.start ⟨sampleText, 1⟩) = some final ∧
    final.position = .waiting ∧ final.listener = some false ∧
    .reloadConfig ∉ ([.apply 0 noFiles, .listen] : List Action) := by
  let final : State Unit Unit := ⟨⟨sampleText, 1⟩, [1], .waiting, some 1, some false, true,
    some sampleText, some sampleProcess⟩
  refine ⟨final, ?_, rfl, rfl, by simp⟩
  simp [run_cons, step, State.start, sampleFormats_toml, sampleProcess_start, sampleProcess_reload,
    final]

theorem not_served_of_pending {file : ConfigFile}
    (reached : run (step formats) actions (.start file) = some s) (pending : s.listener = some true) :
    ¬ Served actions := by
  suffices found : ∃ before after, actions = before ++ .sighup :: after ∧ .reloadConfig ∉ after by
    obtain ⟨before, after, whole, none⟩ := found
    exact fun served => none (served before after whole)
  induction actions using List.reverseRecOn generalizing s with
  | nil =>
    cases reached
    cases pending
  | append_singleton earlier action ih =>
    obtain ⟨mid, first, taken⟩ := run_snoc_some.mp reached
    have quiet (still : mid.listener = some true) (noReload : action ≠ .reloadConfig) :
        ∃ before after, earlier ++ [action] = before ++ .sighup :: after ∧ .reloadConfig ∉ after := by
      obtain ⟨before, after, rfl, none⟩ := ih first still
      refine ⟨before, after ++ [action], by simp, fun member => ?_⟩
      rcases List.mem_append.mp member with old | last
      · exact none old
      · exact noReload (List.mem_singleton.mp last).symm
    have listening := (run_consistent first).listening
    cases step_moves taken with
    | sighup => exact ⟨earlier, [], rfl, List.not_mem_nil⟩
    | listen | tick | recv => cases pending
    | reloadConfig _ here | unreadable here =>
      rw [pending, here] at listening
      simp at listening
    | _ => exact quiet pending (by simp)

theorem wait_again (consistent : Consistent s)
    (here : s.position = .selecting ∨ s.position = .polled ∨ ∃ config, s.position = .applying config) :
    ∃ rest final, run (step formats) rest s = some final ∧ final.position = .waiting ∧
      final.listener = some false ∧ .reloadConfig ∉ rest := by
  suffices back : ∃ rest mid, run (step formats) rest s = some mid ∧ mid.position = .selecting ∧
      .reloadConfig ∉ rest by
    obtain ⟨rest, mid, done, selecting, none⟩ := back
    refine ⟨rest ++ [.listen],
      { mid with listener := some false, registered := true, position := .waiting },
      run_trans done ?_, rfl, rfl, by simp [none]⟩
    simp [run_cons, step, selecting]
  rcases here with selecting | polled | ⟨config, applying⟩
  · exact ⟨[], s, rfl, selecting, List.not_mem_nil⟩
  · -- the file may have its remembered modification time, or get it back
    obtain ⟨time, known⟩ :=
      Option.isSome_iff_exists.mp (consistent.remembered (by simp [polled, Position.early]))
    let file : ConfigFile := ⟨s.file.contents, time⟩
    refine ⟨[.write file, .metadata],
      { s with file := file, written := time :: s.written, position := .selecting }, ?_, rfl, by simp⟩
    simp [run_cons, step, polled, known, file]
  · obtain ⟨process, running⟩ :=
      Option.isSome_iff_exists.mp (consistent.running (by simp [applying, Position.early]))
    obtain ⟨answer, after, applied⟩ : ∃ answer after,
      reloadBody formats.pem noFiles 0 config process = some (answer, after) := reloadBody_isSome
    refine ⟨[.apply 0 noFiles], { s with process := some after, position := .selecting }, ?_, rfl,
      by simp⟩
    simp [run_cons, step, applying, running, applied]

/-- A step that is not heard can be followed by a wait without its signal. -/
theorem sighup_lost_of_unheard {file : ConfigFile}
    (reached : run (step formats) actions (.start file) = some s)
    (unheard : ¬ Heard action s) (taken : step formats action s = some t) :
    ∃ rest final, run (step formats) rest t = some final ∧ final.position = .waiting ∧
      final.listener = some false ∧ ¬ Served (actions ++ action :: rest) := by
  have consistent := run_consistent reached
  have next := (step_moves taken).consistent consistent
  cases step_moves taken with
  | sighup registered =>
    simp only [Heard, consistent.listening, not_or] at unheard
    have looping := consistent.looping registered
    have here : s.position = .selecting ∨ s.position = .polled ∨
        ∃ config, s.position = .applying config := by
      cases known : s.position <;> simp_all [Position.early]
    obtain ⟨rest, final, done, waiting, idle, none⟩ := @wait_again _ _ _ formats _ next here
    exact ⟨rest, final, done, waiting, idle, fun served => none (served actions rest rfl)⟩
  | early | tick =>
    have pending : s.listener = some true := not_not.mp unheard
    obtain ⟨rest, final, done, waiting, idle, none⟩ :=
      @wait_again _ _ _ formats _ next (Or.inr (Or.inl rfl))
    refine ⟨rest, final, done, waiting, idle, fun served => ?_⟩
    refine not_served_of_pending reached pending fun before after whole => ?_
    have member := served before (after ++ .tick :: rest) (by simp [whole])
    simpa [none] using member
  | _ => exact absurd trivial unheard

end Signals

end Loop

end TinyLb.ReloadLoop
