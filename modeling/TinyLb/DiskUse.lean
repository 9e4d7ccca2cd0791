import TinyLb.LogSize
import Mathlib.Algebra.Order.BigOperators.Group.Finset

/-! The space that a log takes when no operation on files fails, whatever an earlier run has left
behind. -/

namespace TinyLb.DiskUse
open Files Machine LogFile LogSize

section Write
variable {inner : Inner} {files : Directory Str UInt8} {buf : Buffer}

theorem backup_ne_live (path : Str) (n : Nat) : slotName path (n + 1) ≠ path :=
  (slotName_injective path).ne (Nat.succ_ne_zero n)

theorem rotate_slots (inner : Inner) (files : Directory Str UInt8) :
    (inner.rotate .never files).2 inner.path = some [] ∧
      (∀ n < inner.maxFiles,
        (inner.rotate .never files).2 (slotName inner.path (n + 1)) = files (slotName inner.path n)) ∧
      ∀ n, inner.maxFiles < n →
        (inner.rotate .never files).2 (slotName inner.path n) = files (slotName inner.path n) := by
  obtain ⟨first, moved, others⟩ := moveFiles_spec inner files
  have name := slotName_injective inner.path
  have opened : (inner.rotate .never files).2 = create inner.path (inner.moveFiles .never files) := rfl
  have kept : ∀ n, create inner.path (inner.moveFiles .never files) (slotName inner.path (n + 1)) =
      inner.moveFiles .never files (slotName inner.path (n + 1)) :=
    fun n => set_of_ne _ (backup_ne_live inner.path n)
  rw [opened]
  refine ⟨?_, fun n small => (kept n).trans (moved n small), fun n beyond => ?_⟩
  · rw [create, set_self, first]
    rfl
  · cases n with
    | zero => exact absurd beyond (Nat.not_lt_zero _)
    | succ n => exact (kept n).trans (others _ fun i le => name.ne (by omega))

theorem append_backup (path : Str) (buf : Buffer) (files : Directory Str UInt8) (n : Nat) :
    append path buf files (slotName path (n + 1)) = files (slotName path (n + 1)) :=
  set_of_ne _ (backup_ne_live path n)

theorem write_slots (opened : inner.file = some ⟨inner.path⟩) {content : Buffer}
    (live : files inner.path = some content) :
    (inner.writeLine .never buf files).2 inner.path =
        some ((if inner.full buf then [] else content) ++ buf) ∧
      (∀ n < inner.maxFiles, (inner.writeLine .never buf files).2 (slotName inner.path (n + 1)) =
        files (slotName inner.path (if inner.full buf then n else n + 1))) ∧
      ∀ n, inner.maxFiles < n →
        (inner.writeLine .never buf files).2 (slotName inner.path n) = files (slotName inner.path n) := by
  obtain ⟨size, wrote⟩ := writeLine_never opened buf files
  obtain ⟨first, moved, others⟩ := rotate_slots inner files
  rw [wrote]
  cases inner.full buf with
  | true =>
    refine ⟨?_, fun n small => ?_, fun n beyond => ?_⟩
    · simp only [if_true, append, set_self, first, Option.map_some]
    · exact (append_backup _ _ _ n).trans (moved n small)
    · cases n with
      | zero => exact absurd beyond (Nat.not_lt_zero _)
      | succ n => exact (append_backup _ _ _ n).trans (others (n + 1) beyond)
  | false =>
    refine ⟨?_, fun n small => append_backup _ _ _ n, fun n beyond => ?_⟩
    · simp only [Bool.false_eq_true, if_false, append, set_self, live, Option.map_some]
    · cases n with
      | zero => exact absurd beyond (Nat.not_lt_zero _)
      | succ n => exact append_backup _ _ _ n

end Write

section Runs
variable {settings : Settings} {start : Directory Str UInt8} {s next : State}

/-- A running process has its log open, and no file beyond the last backup has been touched. -/
structure Rotating (settings : Settings) (start : Directory Str UInt8) (s : State) : Prop where
  tracked : Tracked settings s
  opened : ∀ inner, s.process = some inner → inner.file = some ⟨inner.path⟩
  above : ∀ n, settings.maxFiles < n → s.files (slotName settings.path n) = start (slotName settings.path n)

theorem rotating_start (settings : Settings) (start : Directory Str UInt8) :
    Rotating settings start ⟨start, none, []⟩ where
  tracked inner none := by cases none
  opened inner none := by cases none
  above _ _ := rfl

theorem untorn_of_faultless {action : Action} (clean : action.faultless) : Action.untorn action := by
  cases action with
  | start fails => trivial
  | write faults buf =>
    cases clean
    exact fun written none => nomatch none

theorem Rotating.live (rotating : Rotating settings start s) {inner : Inner}
    (running : s.process = some inner) :
    inner.path = settings.path ∧ inner.maxFiles = settings.maxFiles ∧
      inner.maxSize = max settings.maxSize 1 ∧
      ∃ content, s.files inner.path = some content ∧ content.length = inner.size := by
  obtain ⟨same, follows⟩ := rotating.tracked inner running
  obtain ⟨path, maxSize, maxFiles⟩ := Settings.mk.inj same
  have known := (follows _ (rotating.opened inner running)).2
  exact ⟨path, maxFiles, maxSize, Option.map_eq_some_iff.mp known⟩

theorem Rotating.step {action : Action} (rotating : Rotating settings start s)
    (clean : action.faultless) (taken : LogFile.step settings action s = some next) :
    Rotating settings start next := by
  refine ⟨rotating.tracked.step (untorn_of_faultless clean) taken, ?_, ?_⟩
  · cases action with
    | start fails =>
      cases clean
      cases taken
      intro inner same
      cases same
      rfl
    | write faults buf =>
      cases clean
      rw [LogFile.step] at taken
      split at taken
      next => cases taken
      next inner running =>
        cases taken
        obtain ⟨size, wrote⟩ := writeLine_never (rotating.opened inner running) buf s.files
        rw [wrote]
        intro after same
        cases same
        exact rotating.opened inner running
  · intro n beyond
    rw [← rotating.above n beyond]
    cases action with
    | start fails =>
      cases clean
      cases taken
      cases n with
      | zero => exact absurd beyond (Nat.not_lt_zero _)
      | succ n => exact set_of_ne _ (backup_ne_live settings.path n)
    | write faults buf =>
      cases clean
      rw [LogFile.step] at taken
      split at taken
      next => cases taken
      next inner running =>
        cases taken
        obtain ⟨path, maxFiles, -, content, live, -⟩ := rotating.live running
        have kept := (@write_slots _ _ buf (rotating.opened inner running) content live).2.2
        rw [path, maxFiles] at kept
        exact kept n beyond

theorem rotating_of_run {actions : List Action}
    (done : run (LogFile.step settings) actions ⟨start, none, []⟩ = some s)
    (clean : ∀ action ∈ actions, action.faultless) : Rotating settings start s :=
  run_invariant_of_forall (fun _ _ _ rotating each taken => rotating.step each taken)
    (rotating_start settings start) clean done

def Fits (limit : Nat) (written : List Buffer) (content : List UInt8) : Prop :=
  content.length ≤ limit ∨ content ∈ written ∧ limit < content.length

theorem Fits.mono {limit : Nat} {written : List Buffer} {content : List UInt8}
    (fits : Fits limit written content) (more : List Buffer) : Fits limit (written ++ more) content :=
  fits.imp_right fun long => ⟨List.mem_append_left _ long.1, long.2⟩

def Bounded (settings : Settings) (s : State) : Prop :=
  ∀ n ≤ settings.maxFiles, ∀ content, s.files (slotName settings.path n) = some content →
    Fits (max settings.maxSize 1) s.written content

theorem fits_write {inner : Inner} {content : Buffer} (length : content.length = inner.size)
    (buf : Buffer) (written : List Buffer) :
    Fits inner.maxSize (written ++ [buf]) ((if inner.full buf then [] else content) ++ buf) := by
  have alone : Fits inner.maxSize (written ++ [buf]) buf := by
    rcases Nat.lt_or_ge inner.maxSize buf.length with long | short
    · exact Or.inr ⟨List.mem_append_right _ (List.mem_singleton.mpr rfl), long⟩
    · exact Or.inl short
  cases full : inner.full buf with
  | true => exact alone
  | false =>
    rw [Inner.full, decide_eq_false_iff_not] at full
    cases content with
    | nil => exact alone
    | cons byte rest =>
      have positive : 0 < inner.size := by
        rw [← length]
        exact Nat.succ_pos _
      left
      simp only [Bool.false_eq_true, if_false]
      rw [List.length_append, length]
      omega

theorem Bounded.step {action : Action} (bounded : Bounded settings s)
    (rotating : Rotating settings start s) (clean : action.faultless)
    (taken : LogFile.step settings action s = some next) : Bounded settings next := by
  cases action with
  | start fails =>
    cases clean
    cases taken
    intro n few content here
    cases n with
    | zero =>
      have live : some ((s.files settings.path).getD []) = some content :=
        (set_self _).symm.trans here
      cases live
      cases found : s.files settings.path with
      | none => exact Or.inl (Nat.zero_le _)
      | some content => exact bounded 0 few content found
    | succ n =>
      exact bounded (n + 1) few content ((set_of_ne _ (backup_ne_live settings.path n)).symm.trans here)
  | write faults buf =>
    cases clean
    rw [LogFile.step] at taken
    split at taken
    next => cases taken
    next inner running =>
      cases taken
      obtain ⟨path, maxFiles, maxSize, live, known, length⟩ := rotating.live running
      obtain ⟨first, kept, -⟩ := @write_slots _ _ buf (rotating.opened inner running) live known
      rw [path] at first kept
      intro n few content here
      cases n with
      | zero =>
        have same := first.symm.trans here
        cases same
        exact maxSize ▸ fits_write length buf s.written
      | succ n =>
        have moved := (kept n (by omega)).symm.trans here
        refine Fits.mono ?_ [buf]
        cases full : inner.full buf with
        | true =>
          rw [full] at moved
          exact bounded n (by omega) content moved
        | false =>
          rw [full] at moved
          exact bounded (n + 1) few content moved

theorem bounded_of_run {actions : List Action} (small : Bounded settings ⟨start, none, []⟩)
    (done : run (LogFile.step settings) actions ⟨start, none, []⟩ = some s)
    (clean : ∀ action ∈ actions, action.faultless) : Bounded settings s := by
  have keep : ∀ action s next, Rotating settings start s ∧ Bounded settings s → action.faultless →
      LogFile.step settings action s = some next → Rotating settings start next ∧ Bounded settings next := by
    intro action s next before clean taken
    exact ⟨before.1.step clean taken, before.2.step before.1 clean taken⟩
  exact (run_invariant_of_forall keep ⟨rotating_start settings start, small⟩ clean done).2

def used (path : Str) (files : Directory Str UInt8) (backups : Nat) : Nat :=
  ∑ n ∈ Finset.range (backups + 1), ((files (slotName path n)).getD []).length

theorem used_le (bounded : Bounded settings s)
    (lines : ∀ buf ∈ s.written, buf.length ≤ max settings.maxSize 1) :
    used settings.path s.files settings.maxFiles ≤ max settings.maxSize 1 * (settings.maxFiles + 1) := by
  have each : ∀ n ∈ Finset.range (settings.maxFiles + 1),
      ((s.files (slotName settings.path n)).getD []).length ≤ max settings.maxSize 1 := by
    intro n few
    cases found : s.files (slotName settings.path n) with
    | none => exact Nat.zero_le _
    | some content =>
      have small := bounded n (Nat.le_of_lt_succ (Finset.mem_range.mp few)) content found
      rcases small with short | ⟨written, long⟩
      · exact short
      · exact lines content written
  calc used settings.path s.files settings.maxFiles
      ≤ ∑ n ∈ Finset.range (settings.maxFiles + 1), max settings.maxSize 1 := Finset.sum_le_sum each
    _ = (Finset.range (settings.maxFiles + 1)).card * max settings.maxSize 1 :=
      Finset.sum_const_nat fun _ _ => rfl
    _ = max settings.maxSize 1 * (settings.maxFiles + 1) := by rw [Finset.card_range, Nat.mul_comm]

/-- Without faults every file stays short or is one long line, the size is that of the live file, and
there are no more backups than are to be kept. -/
theorem disk_use_capped {actions : List Action} (positive : 1 ≤ settings.maxSize)
    (small : ∀ n ≤ settings.maxFiles, ∀ content, start (slotName settings.path n) = some content →
      content.length ≤ settings.maxSize)
    (alone : ∀ n, settings.maxFiles < n → start (slotName settings.path n) = none)
    (done : run (LogFile.step settings) actions ⟨start, none, []⟩ = some s)
    (clean : ∀ action ∈ actions, action.faultless) :
    (∀ n content, s.files (slotName settings.path n) = some content →
      content.length ≤ settings.maxSize ∨
        content ∈ s.written ∧ settings.maxSize < content.length) ∧
    (∀ inner, s.process = some inner →
      ∃ content, s.files settings.path = some content ∧ inner.size = content.length) ∧
    (∀ n, settings.maxFiles < n → s.files (slotName settings.path n) = none) ∧
    ((∀ buf ∈ s.written, buf.length ≤ settings.maxSize) →
      used settings.path s.files settings.maxFiles ≤ settings.maxSize * (settings.maxFiles + 1)) := by
  have limit : max settings.maxSize 1 = settings.maxSize := max_eq_left positive
  have initial : Bounded settings ⟨start, none, []⟩ := by
    intro n few content here
    exact Or.inl (limit.symm ▸ small n few content here)
  have rotating := rotating_of_run done clean
  have bounded := bounded_of_run initial done clean
  have above : ∀ n, settings.maxFiles < n → s.files (slotName settings.path n) = none :=
    fun n beyond => (rotating.above n beyond).trans (alone n beyond)
  refine ⟨fun n content here => ?_, fun inner running => ?_, above, fun lines => ?_⟩
  · rcases Nat.lt_or_ge settings.maxFiles n with beyond | few
    · rw [above n beyond] at here
      cases here
    · exact limit ▸ bounded n few content here
  · obtain ⟨path, -, -, content, live, length⟩ := rotating.live running
    exact ⟨content, path ▸ live, length.symm⟩
  · exact limit ▸ used_le bounded (limit.symm ▸ lines)

/-- One backup of three bytes; the second line is too long for any file. -/
theorem disk_use_capped_long : ∃ s, run (LogFile.step ⟨['l'], 3, 1⟩)
      [.start false, .write .never [1, 1], .write .never [2, 2, 2, 2], .start false, .write .never [3]]
        ⟨.empty, none, []⟩ = some s ∧
    s.files ['l', '.', '1'] = some [2, 2, 2, 2] ∧
    ∀ n, 1 < n → s.files (slotName ['l'] n) = none := by
  let trace : List Action :=
    [.start false, .write .never [1, 1], .write .never [2, 2, 2, 2], .start false, .write .never [3]]
  have done : run (LogFile.step ⟨['l'], 3, 1⟩) trace ⟨.empty, none, []⟩ = some _ := rfl
  have whole := disk_use_capped (by decide) (fun _ _ _ none => (by cases none)) (fun _ _ => rfl) done
    (by simp [trace, Action.faultless])
  exact ⟨_, done, by decide, whole.2.2.1⟩

end Runs

section Leftovers
variable {settings : Settings} {start : Directory Str UInt8} {s : State}

def rotates : Action → State → Bool
  | .start _, _ => false
  | .write _ buf, s => s.process.any fun inner => inner.full buf

def rotations (settings : Settings) : List Action → State → Nat
  | [], _ => 0
  | action :: rest, s =>
      match LogFile.step settings action s with
      | none => 0
      | some next => (if rotates action s then 1 else 0) + rotations settings rest next

/-- However often the log is rotated, a backup beyond those that are to be kept stays: only where
there was none the files are those of the present settings, and then they are within the cap. -/
theorem leftover_backups_iff {actions : List Action}
    (done : run (LogFile.step settings) actions ⟨start, none, []⟩ = some s)
    (clean : ∀ action ∈ actions, action.faultless) :
    ((∀ n, settings.maxFiles < n → s.files (slotName settings.path n) = none) ↔
      ∀ n, settings.maxFiles < n → start (slotName settings.path n) = none) ∧
    ((∀ n ≤ settings.maxFiles, ∀ content, start (slotName settings.path n) = some content →
        content.length ≤ max settings.maxSize 1) →
      (∀ buf ∈ s.written, buf.length ≤ max settings.maxSize 1) →
      used settings.path s.files settings.maxFiles ≤
        max settings.maxSize 1 * (settings.maxFiles + 1)) := by
  have rotating := rotating_of_run done clean
  refine ⟨forall₂_congr fun n beyond => by rw [rotating.above n beyond], fun small lines => ?_⟩
  have initial : Bounded settings ⟨start, none, []⟩ :=
    fun n few content here => Or.inl (small n few content here)
  exact used_le (bounded_of_run initial done clean) lines

theorem leftover_backups_iff_fresh : ∃ s, run (LogFile.step ⟨['l'], 2, 1⟩)
      [.start false, .write .never [1, 1], .write .never [2, 2], .write .never [3, 3]]
        ⟨.empty, none, []⟩ = some s ∧
    s.files ['l', '.', '1'] = some [2, 2] ∧ ∀ n, 1 < n → s.files (slotName ['l'] n) = none := by
  let trace : List Action :=
    [.start false, .write .never [1, 1], .write .never [2, 2], .write .never [3, 3]]
  have done : run (LogFile.step ⟨['l'], 2, 1⟩) trace ⟨.empty, none, []⟩ = some _ := rfl
  have whole := leftover_backups_iff done (by simp [trace, Action.faultless])
  exact ⟨_, done, by decide, whole.1.mpr fun _ _ => rfl⟩

/-- Two backups are kept, then only one: the second one stays. -/
theorem leftover_backups_lowered : ¬ ∀ old new earlier later left s, old.path = new.path →
    run (LogFile.step old) earlier .empty = some left → (∀ action ∈ earlier, action.faultless) →
    run (LogFile.step new) (.start false :: later) ⟨left.files, none, []⟩ = some s →
    (∀ action ∈ later, action.faultless) →
    max 1 new.maxFiles ≤ rotations new (.start false :: later) ⟨left.files, none, []⟩ →
    ∀ n, new.maxFiles < n → s.files (slotName new.path n) = none := by
  intro claimed
  let earlier : List Action :=
    [.start false, .write .never [1, 1], .write .never [2, 2], .write .never [3, 3]]
  have before : run (LogFile.step ⟨['l'], 2, 2⟩) earlier .empty = some _ := rfl
  have none := claimed ⟨['l'], 2, 2⟩ ⟨['l'], 2, 1⟩ earlier [.write .never [4, 4]] _ _ rfl before
    (by simp [earlier, Action.faultless]) rfl (by simp [Action.faultless]) (by decide) 2 (by decide)
  exact absurd none (by decide)

end Leftovers

end TinyLb.DiskUse
