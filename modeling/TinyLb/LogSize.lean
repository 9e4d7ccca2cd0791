import TinyLb.LogFile

/-! The size that is kept beside an open log file, through writes whose operations on files may
fail. -/

namespace TinyLb.LogSize
open Files Machine LogFile

def settingsOf (inner : Inner) : Settings := ⟨inner.path, inner.maxSize, inner.maxFiles⟩

/-- An open file is the live file, and its size is known. -/
def Follows (inner : Inner) (files : Directory Str UInt8) : Prop :=
  ∀ file, inner.file = some file →
    file.path = inner.path ∧ (files inner.path).map List.length = some inner.size

section Calls
variable {faults : Faults} {inner : Inner} {files : Directory Str UInt8}

theorem openLog_length {fails : Bool} {path : Str} {file : File} {size : Nat}
    {after : Directory Str UInt8} (opened : openLog fails path files = (some (file, size), after)) :
    file.path = path ∧ (after path).map List.length = some size := by
  unfold openLog at opened
  split at opened
  next => cases opened
  next =>
    cases opened
    exact ⟨rfl, by rw [create, set_self]; rfl⟩

theorem rotate_follows (faults : Faults) (inner : Inner) (files : Directory Str UInt8) :
    Follows (inner.rotate faults files).1 (inner.rotate faults files).2 ∧
      settingsOf (inner.rotate faults files).1 = settingsOf inner := by
  unfold Inner.rotate
  split
  next opened =>
    refine ⟨fun file same => ?_, rfl⟩
    cases same
    exact openLog_length opened
  next => exact ⟨fun file same => (by cases same), rfl⟩

theorem ensureOpen_follows (follows : Follows inner files) (faults : Faults) :
    Follows (inner.ensureOpen faults files).1 (inner.ensureOpen faults files).2 ∧
      settingsOf (inner.ensureOpen faults files).1 = settingsOf inner := by
  unfold Inner.ensureOpen
  split
  next => exact ⟨follows, rfl⟩
  next =>
    split
    next opened =>
      refine ⟨fun file same => ?_, rfl⟩
      cases same
      exact openLog_length opened
    next unopened failed =>
      rw [openLog] at failed
      split at failed
      next =>
        cases failed
        exact ⟨follows, rfl⟩
      next => cases failed

def Untorn (faults : Faults) (buf : Buffer) : Prop :=
  ∀ written, faults.write = some written → buf.take written = []

theorem appendLine_follows {buf : Buffer} (follows : Follows inner files) (untorn : Untorn faults buf) :
    Follows (inner.appendLine faults buf files).1 (inner.appendLine faults buf files).2 ∧
      settingsOf (inner.appendLine faults buf files).1 = settingsOf inner := by
  unfold Inner.appendLine
  split
  next => exact ⟨follows, rfl⟩
  next file here =>
    obtain ⟨path, known⟩ := follows file here
    obtain ⟨content, live, length⟩ := Option.map_eq_some_iff.mp known
    have appended : ∀ more, (append file.path more files inner.path).map List.length =
        some (inner.size + more.length) := by
      intro more
      rw [path, append, set_self, live, ← length]
      simp
    unfold writeAll
    split
    next after wrote =>
      split at wrote
      next =>
        cases wrote
        refine ⟨fun other same => ⟨?_, appended buf⟩, rfl⟩
        rw [here] at same
        cases same
        exact path
      next => cases wrote
    next after wrote =>
      split at wrote
      next => cases wrote
      next written failed =>
        cases wrote
        refine ⟨fun other same => ⟨(follows other same).1, ?_⟩, rfl⟩
        rw [untorn written failed]
        exact appended []

theorem writeLine_follows {buf : Buffer} (follows : Follows inner files) (untorn : Untorn faults buf) :
    Follows (inner.writeLine faults buf files).1 (inner.writeLine faults buf files).2 ∧
      settingsOf (inner.writeLine faults buf files).1 = settingsOf inner := by
  unfold Inner.writeLine
  split
  next =>
    obtain ⟨rotated, first⟩ := rotate_follows faults inner files
    obtain ⟨opened, second⟩ := ensureOpen_follows rotated faults
    obtain ⟨wrote, third⟩ := appendLine_follows opened untorn
    exact ⟨wrote, third.trans (second.trans first)⟩
  next =>
    obtain ⟨opened, second⟩ := ensureOpen_follows follows faults
    obtain ⟨wrote, third⟩ := appendLine_follows opened untorn
    exact ⟨wrote, third.trans second⟩

end Calls

section Runs
variable {settings : Settings} {s next : State}

def Tracked (settings : Settings) (s : State) : Prop :=
  ∀ inner, s.process = some inner →
    settingsOf inner = { settings with maxSize := max settings.maxSize 1 } ∧ Follows inner s.files

def Action.untorn : Action → Prop
  | .start _ => True
  | .write faults buf => Untorn faults buf

theorem new_tracked (settings : Settings) (fails : Bool) (files : Directory Str UInt8) {inner : Inner}
    (started : (RotatingFile.new fails settings files).1 = some inner) :
    settingsOf inner = { settings with maxSize := max settings.maxSize 1 } ∧
      Follows inner (RotatingFile.new fails settings files).2 := by
  unfold RotatingFile.new at started ⊢
  split at started
  next file size after opened =>
    cases started
    refine ⟨rfl, fun other same => ?_⟩
    cases same
    exact openLog_length opened
  next => cases started

theorem Tracked.step {action : Action} (tracked : Tracked settings s) (untorn : Action.untorn action)
    (taken : LogFile.step settings action s = some next) : Tracked settings next := by
  cases action with
  | start fails =>
    cases taken
    exact fun inner started => new_tracked settings fails s.files started
  | write faults buf =>
    rw [LogFile.step] at taken
    split at taken
    next => cases taken
    next inner running =>
      cases taken
      intro after same
      cases same
      obtain ⟨same, follows⟩ := tracked inner running
      obtain ⟨kept, settled⟩ := writeLine_follows follows untorn
      exact ⟨settled.trans same, kept⟩

theorem tracked_of_run {files : Directory Str UInt8} {actions : List Action}
    (done : run (LogFile.step settings) actions ⟨files, none, []⟩ = some s)
    (untorn : ∀ action ∈ actions, Action.untorn action) : Tracked settings s := by
  have initial : Tracked settings ⟨files, none, []⟩ := fun inner none => (by cases none)
  exact run_invariant_of_forall (fun _ _ _ tracked each taken => tracked.step each taken) initial
    untorn done

/-- As long as no failing write has appended a part of its line, the size is that of the open live
file, and a line that makes a non-empty file too long goes to the next file. -/
theorem size_tracks_file {files : Directory Str UInt8} {actions : List Action}
    (done : run (LogFile.step settings) actions ⟨files, none, []⟩ = some s)
    (untorn : ∀ action ∈ actions, Action.untorn action) :
    ∀ inner file, s.process = some inner → inner.file = some file →
      ∃ content, s.files settings.path = some content ∧ inner.size = content.length ∧
        ∀ buf, inner.full buf = true ↔
          content ≠ [] ∧ max settings.maxSize 1 < content.length + buf.length := by
  intro inner file running opened
  obtain ⟨same, follows⟩ := tracked_of_run done untorn inner running
  obtain ⟨path, maxSize, -⟩ := Settings.mk.inj same
  obtain ⟨-, known⟩ := follows file opened
  rw [path] at known
  obtain ⟨content, live, length⟩ := Option.map_eq_some_iff.mp known
  refine ⟨content, live, length.symm, fun buf => ?_⟩
  rw [Inner.full, decide_eq_true_eq, maxSize, ← length, gt_iff_lt, List.length_pos_iff]

/-- A rename and the opening after it fail; the line goes to the file that could not be moved. -/
theorem size_tracks_file_stuck : ∃ s, run (LogFile.step ⟨['l'], 3, 1⟩)
      [.start false, .write .never [1, 1], .write ⟨false, fun _ => true, true, false, none⟩ [2, 2]]
        ⟨.empty, none, []⟩ = some s ∧
    ∃ inner, s.process = some inner ∧ inner.size = 4 ∧
      ∃ content, s.files ['l'] = some content ∧ inner.size = content.length := by
  let trace : List Action :=
    [.start false, .write .never [1, 1], .write ⟨false, fun _ => true, true, false, none⟩ [2, 2]]
  have done : run (LogFile.step ⟨['l'], 3, 1⟩) trace ⟨.empty, none, []⟩ = some _ := rfl
  have whole := size_tracks_file done (by simp [trace, Action.untorn, Untorn, Faults.never])
  obtain ⟨content, live, length, -⟩ := whole _ _ rfl rfl
  exact ⟨_, done, _, rfl, rfl, content, live, length⟩

/-- A failing write appends a proper prefix of its line. -/
def Action.proper : Action → Prop
  | .start _ => True
  | .write faults buf => ∀ written, faults.write = some written → written < buf.length

/-- The disk is full after the first byte of a line: the file has one byte more than its size. -/
theorem size_tracks_file_torn : ¬ ∀ settings files actions s,
    run (LogFile.step settings) actions ⟨files, none, []⟩ = some s →
    (∀ action ∈ actions, Action.proper action) →
    ∀ inner file, s.process = some inner → inner.file = some file →
      ∃ content, s.files settings.path = some content ∧ inner.size = content.length := by
  intro claimed
  let trace : List Action :=
    [.start false, .write .never [1, 1], .write ⟨false, fun _ => false, false, false, some 1⟩ [2, 2]]
  have done : run (LogFile.step ⟨['l'], 9, 1⟩) trace ⟨.empty, none, []⟩ = some _ := rfl
  have proper : ∀ action ∈ trace, Action.proper action := by
    simp [trace, Action.proper, Faults.never]
  obtain ⟨content, live, length⟩ := claimed _ _ _ _ done proper _ _ rfl rfl
  cases live
  exact absurd length (by decide)

end Runs

end TinyLb.LogSize
