import TinyLb.Files
import TinyLb.Machine
import TinyLb.Text

/-! The rotating log file. Every write takes the lock, so one writer at a time goes through all of
`write_line`. Any operation on files may fail; which ones do is up to the environment. The lengths
of a file and of a buffer are below 2^63, so that their sum does not wrap. -/

namespace TinyLb.LogFile
open Files Machine

abbrev Buffer := List UInt8

/-- A file that was opened to append. -/
structure File where
  path : Str
  deriving DecidableEq, Repr

structure Inner where
  path : Str
  file : Option File
  size : Nat
  maxSize : Nat
  maxFiles : Nat
  deriving DecidableEq, Repr

/-- The operations that fail during one call; `rename n` is the one that moves backup `n`, or the
live file if `n` is 0, and `write` is the number of bytes a failing `write_all` has written. -/
structure Faults where
  remove : Bool
  rename : Nat → Bool
  reopen : Bool
  retry : Bool
  write : Option Nat

def Faults.never : Faults := ⟨false, fun _ => false, false, false, none⟩

/-- `Inner::open`. -/
def openLog (fails : Bool) (path : Str) (files : Directory Str UInt8) :
    Option (File × Nat) × Directory Str UInt8 :=
  if fails then (none, files) else (some (⟨path⟩, ((files path).getD []).length), create path files)

/-- `File::write_all`: whether it succeeded. -/
def writeAll (fault : Option Nat) (file : File) (buf : Buffer) (files : Directory Str UInt8) :
    Bool × Directory Str UInt8 :=
  match fault with
  | none => (true, append file.path buf files)
  | some written => (false, append file.path (buf.take written) files)

namespace Inner

def backup (path : Str) (n : Nat) : Str := path ++ '.' :: Nat.toDigits 10 n

/-- The loop of `rotate`, from backup `n` down to backup 1. -/
def renames (faults : Faults) (path : Str) : Nat → Directory Str UInt8 → Directory Str UInt8
  | 0, files => files
  | n + 1, files =>
      renames faults path n
        (attempt (faults.rename (n + 1)) (rename (backup path (n + 1)) (backup path (n + 2))) files)

/-- What `rotate` does to the files before it opens the live file again. -/
def moveFiles (faults : Faults) (inner : Inner) (files : Directory Str UInt8) : Directory Str UInt8 :=
  if inner.maxFiles = 0 then attempt faults.remove (remove inner.path) files
  else
    let removed := attempt faults.remove (remove (backup inner.path inner.maxFiles)) files
    let shifted := renames faults inner.path (inner.maxFiles - 1) removed
    attempt (faults.rename 0) (rename inner.path (backup inner.path 1)) shifted

def rotate (faults : Faults) (inner : Inner) (files : Directory Str UInt8) :
    Inner × Directory Str UInt8 :=
  match openLog faults.reopen inner.path (inner.moveFiles faults files) with
  | (some (file, size), files) => ({ inner with file := some file, size := size }, files)
  | (none, files) => ({ inner with file := none, size := 0 }, files)

/-- The second part of `write_line`: a file that could not be opened before is tried again. -/
def ensureOpen (faults : Faults) (inner : Inner) (files : Directory Str UInt8) :
    Inner × Directory Str UInt8 :=
  match inner.file with
  | some _ => (inner, files)
  | none =>
      match openLog faults.retry inner.path files with
      | (some (file, size), files) => ({ inner with file := some file, size := size }, files)
      | (none, files) => (inner, files)

/-- The last part of `write_line`. -/
def appendLine (faults : Faults) (buf : Buffer) (inner : Inner) (files : Directory Str UInt8) :
    Inner × Directory Str UInt8 :=
  match inner.file with
  | none => (inner, files)
  | some file =>
      match writeAll faults.write file buf files with
      | (true, files) => ({ inner with size := inner.size + buf.length }, files)
      | (false, files) => (inner, files)

def writeLine (faults : Faults) (buf : Buffer) (inner : Inner) (files : Directory Str UInt8) :
    Inner × Directory Str UInt8 :=
  let rotated :=
    if inner.size > 0 ∧ inner.size + buf.length > inner.maxSize then inner.rotate faults files
    else (inner, files)
  let opened := rotated.1.ensureOpen faults rotated.2
  opened.1.appendLine faults buf opened.2

end Inner

structure Settings where
  path : Str
  maxSize : Nat
  maxFiles : Nat
  deriving DecidableEq, Repr

/-- `RotatingFile::new`. -/
def RotatingFile.new (fails : Bool) (settings : Settings) (files : Directory Str UInt8) :
    Option Inner × Directory Str UInt8 :=
  match openLog fails settings.path files with
  | (some (file, size), files) =>
      (some ⟨settings.path, some file, size, max settings.maxSize 1, settings.maxFiles⟩, files)
  | (none, files) => (none, files)

/-- `written` records every buffer that was passed to a write. -/
structure State where
  files : Directory Str UInt8
  process : Option Inner
  written : List Buffer

def State.empty : State := ⟨.empty, none, []⟩

inductive Action where
  | start (fails : Bool)
  | write (faults : Faults) (buf : Buffer)

/-- A process that starts takes the place of the one before. -/
def step (settings : Settings) : Action → State → Option State
  | .start fails, s =>
      let started := RotatingFile.new fails settings s.files
      some { s with files := started.2, process := started.1 }
  | .write faults buf, s =>
      match s.process with
      | none => none
      | some inner =>
          let wrote := inner.writeLine faults buf s.files
          some ⟨wrote.2, some wrote.1, s.written ++ [buf]⟩

def Action.faultless : Action → Prop
  | .start fails => fails = false
  | .write faults _ => faults = .never

section Names

def slotName (path : Str) : Nat → Str
  | 0 => path
  | n + 1 => Inner.backup path (n + 1)

theorem decimal_injective : Function.Injective (Nat.toDigits 10) := by
  intro m n same
  have back := congrArg (Nat.ofDigitChars 10 · 0) same
  simpa only [Nat.ofDigitChars_ten_toDigits] using back

theorem slotName_injective (path : Str) : Function.Injective (slotName path) := by
  have longer : ∀ n, slotName path (n + 1) ≠ path := by
    intro n same
    have lengths := congrArg List.length same
    rw [slotName, Inner.backup, List.length_append, List.length_cons] at lengths
    omega
  intro m n same
  cases m with
  | zero =>
    cases n with
    | zero => rfl
    | succ n => exact absurd same.symm (longer n)
  | succ m =>
    cases n with
    | zero => exact absurd same (longer m)
    | succ n =>
      have digits := List.append_cancel_left same
      exact decimal_injective (List.cons.inj digits).2

end Names

section Rotation
variable {inner : Inner} {files : Directory Str UInt8} {path : Str}

theorem renames_eq_shiftSome (faults : Faults) (path : Str) (n : Nat) (files : Directory Str UInt8) :
    attempt (faults.rename 0) (rename path (Inner.backup path 1)) (Inner.renames faults path n files) =
      shiftSome faults.rename (slotName path) (n + 1) files := by
  induction n generalizing files with
  | zero => rfl
  | succ n ih =>
    rw [Inner.renames, ih]
    rfl

theorem renames_eq_shift (path : Str) (n : Nat) (files : Directory Str UInt8) :
    rename path (Inner.backup path 1) (Inner.renames .never path n files) =
      shift (slotName path) (n + 1) files :=
  (renames_eq_shiftSome .never path n files).trans (shift_eq_shiftSome (n + 1) files).symm

theorem moveFiles_spec (inner : Inner) (files : Directory Str UInt8) :
    inner.moveFiles .never files inner.path = none ∧
      (∀ i < inner.maxFiles,
        inner.moveFiles .never files (slotName inner.path (i + 1)) = files (slotName inner.path i)) ∧
      ∀ other, (∀ i ≤ inner.maxFiles, other ≠ slotName inner.path i) →
        inner.moveFiles .never files other = files other := by
  unfold Inner.moveFiles
  split
  next zero =>
    rw [zero]
    refine ⟨set_self none, fun i small => absurd small (Nat.not_lt_zero i), fun other apart => ?_⟩
    exact set_of_ne none (apart 0 (Nat.le_refl 0))
  next positive =>
    obtain ⟨top, same⟩ := Nat.exists_eq_succ_of_ne_zero positive
    have whole := renames_eq_shift inner.path top
      (remove (slotName inner.path (top + 1)) files)
    have freed : remove (slotName inner.path (top + 1)) files (slotName inner.path (top + 1)) = none :=
      set_self none
    obtain ⟨first, moved⟩ := shift_spec (slotName_injective inner.path) (top + 1) freed
    rw [same]
    simp only [Nat.succ_eq_add_one, Nat.add_sub_cancel]
    rw [← whole] at first moved
    refine ⟨first, fun i small => (moved i small).trans ?_, fun other apart => ?_⟩
    · exact set_of_ne none ((slotName_injective inner.path).ne (Nat.ne_of_lt small))
    · refine (congrFun whole other).trans ((shift_above _ apart _).trans ?_)
      exact set_of_ne none (apart (top + 1) (Nat.le_refl _))

end Rotation

section Slots
variable {inner : Inner} {files : Directory Str UInt8} {path : Str} {slots : List (List Buffer)}

/-- The abstract log: the buffers of the live file, of backup 1, of backup 2 and so on. Nothing else
is in the directory. -/
structure Holds (path : Str) (slots : List (List Buffer)) (files : Directory Str UInt8) : Prop where
  held : ∀ n, files (slotName path n) = slots[n]?.map List.flatten
  alone : ∀ other, (∀ n, other ≠ slotName path n) → files other = none

def rotateSlots (maxFiles : Nat) (slots : List (List Buffer)) : List (List Buffer) :=
  ([] :: slots).take (maxFiles + 1)

def openSlots : List (List Buffer) → List (List Buffer)
  | [] => [[]]
  | chunks :: older => chunks :: older

def appendSlots (buf : Buffer) : List (List Buffer) → List (List Buffer)
  | [] => []
  | chunks :: older => (chunks ++ [buf]) :: older

theorem holds_set {next : List (List Buffer)} {content : Option (List UInt8)}
    (holds : Holds path slots files) (live : content = next[0]?.map List.flatten)
    (rest : ∀ n, next[n + 1]? = slots[n + 1]?) : Holds path next (set path content files) := by
  refine ⟨fun n => ?_, fun other apart => ?_⟩
  · cases n with
    | zero => exact (set_self _).trans live
    | succ n =>
      refine (set_of_ne _ ((slotName_injective path).ne (Nat.succ_ne_zero n))).trans ?_
      rw [holds.held, rest]
  · exact (set_of_ne _ (apart 0)).trans (holds.alone other apart)

theorem create_holds (holds : Holds path slots files) :
    Holds path (openSlots slots) (create path files) := by
  have live : files path = slots[0]?.map List.flatten := holds.held 0
  refine holds_set holds ?_ fun n => ?_
  · rw [live]
    cases slots <;> rfl
  · cases slots <;> rfl

theorem append_holds (holds : Holds path slots files) (buf : Buffer) :
    Holds path (appendSlots buf slots) (append path buf files) := by
  have live : files path = slots[0]?.map List.flatten := holds.held 0
  refine holds_set holds ?_ fun n => ?_
  · rw [live]
    cases slots with
    | nil => rfl
    | cons chunks older => simp [appendSlots]
  · cases slots <;> rfl

theorem rotate_holds (holds : Holds inner.path slots files) (few : slots.length ≤ inner.maxFiles + 1) :
    Holds inner.path (rotateSlots inner.maxFiles slots) (inner.rotate .never files).2 := by
  obtain ⟨first, moved, others⟩ := moveFiles_spec inner files
  have opened : (inner.rotate .never files).2 = create inner.path (inner.moveFiles .never files) := rfl
  rw [opened]
  have name := slotName_injective inner.path
  refine ⟨fun n => ?_, fun other apart => ?_⟩
  · cases n with
    | zero =>
      refine (set_self _).trans ?_
      rw [first]
      rfl
    | succ n =>
      refine (set_of_ne _ (name.ne (Nat.succ_ne_zero n))).trans ?_
      rw [rotateSlots, List.getElem?_take]
      split
      next small =>
        rw [moved n (Nat.lt_of_succ_lt_succ small), holds.held, List.getElem?_cons_succ]
      next large =>
        rw [others _ fun i le => name.ne (by omega), holds.held, List.getElem?_eq_none (by omega),
          Option.map_none]
  · refine (set_of_ne _ (apart 0)).trans ?_
    rw [others other fun i _ => apart i]
    exact holds.alone other apart

theorem rotateSlots_suffix (maxFiles : Nat) (slots : List (List Buffer)) :
    (rotateSlots maxFiles slots).reverse.flatten <:+ slots.reverse.flatten := by
  obtain ⟨dropped, whole⟩ := List.reverse_suffix.mpr (List.take_prefix maxFiles slots)
  rw [rotateSlots, List.take_succ_cons, List.reverse_cons, List.flatten_append, ← whole,
    List.flatten_append]
  exact ⟨dropped.flatten, by simp⟩

theorem appendSlots_flatten (buf : Buffer) (started : slots ≠ []) :
    (appendSlots buf slots).reverse.flatten = slots.reverse.flatten ++ [buf] := by
  cases slots with
  | nil => exact absurd rfl started
  | cons chunks older => simp [appendSlots]

theorem length_appendSlots (buf : Buffer) (slots : List (List Buffer)) :
    (appendSlots buf slots).length = slots.length := by
  cases slots <;> rfl

end Slots

section Runs
variable {settings : Settings} {s next : State} {slots : List (List Buffer)}

def Inner.full (inner : Inner) (buf : Buffer) : Bool :=
  decide (inner.size > 0 ∧ inner.size + buf.length > inner.maxSize)

theorem writeLine_never {inner : Inner} (opened : inner.file = some ⟨inner.path⟩) (buf : Buffer)
    (files : Directory Str UInt8) :
    ∃ size, inner.writeLine .never buf files = ({ inner with size := size },
      append inner.path buf (if inner.full buf then (inner.rotate .never files).2 else files)) := by
  obtain ⟨path, file, size, maxSize, maxFiles⟩ := inner
  simp only at opened
  subst opened
  unfold Inner.writeLine
  by_cases full : size > 0 ∧ size + buf.length > maxSize
  · rw [Inner.full, decide_eq_true full, if_pos full]
    exact ⟨_, rfl⟩
  · rw [Inner.full, decide_eq_false full, if_neg full]
    exact ⟨_, rfl⟩

/-- The files are the abstract log, which is a suffix of what was written. -/
structure Retains (settings : Settings) (slots : List (List Buffer)) (s : State) : Prop where
  holds : Holds settings.path slots s.files
  few : slots.length ≤ settings.maxFiles + 1
  kept : slots.reverse.flatten <:+ s.written
  running : ∀ inner, s.process = some inner → inner.path = settings.path ∧
    inner.maxFiles = settings.maxFiles ∧ inner.file = some ⟨inner.path⟩ ∧ slots ≠ []

theorem retains_empty (settings : Settings) : Retains settings [] .empty where
  holds := ⟨fun _ => rfl, fun _ _ => rfl⟩
  few := Nat.zero_le _
  kept := List.nil_suffix
  running inner same := by cases same

theorem Retains.start (retains : Retains settings slots s) (taken : step settings (.start false) s = some next) :
    Retains settings (openSlots slots) next := by
  cases taken
  refine ⟨create_holds retains.holds, ?_, ?_, fun inner same => ?_⟩
  · have few := retains.few
    cases slots with
    | nil => exact Nat.succ_le_succ (Nat.zero_le _)
    | cons chunks older => exact few
  · have kept := retains.kept
    cases slots <;> exact kept
  · cases same
    refine ⟨rfl, rfl, rfl, ?_⟩
    cases slots <;> exact List.cons_ne_nil _ _

theorem Retains.write {buf : Buffer} (retains : Retains settings slots s)
    (taken : step settings (.write .never buf) s = some next) :
    ∃ slots, Retains settings slots next := by
  rw [step] at taken
  split at taken
  next => cases taken
  next inner running =>
    cases taken
    obtain ⟨path, maxFiles, opened, started⟩ := retains.running inner running
    obtain ⟨size, wrote⟩ := writeLine_never opened buf s.files
    rw [wrote]
    have moved : ∃ slots', Holds settings.path slots'
          (if inner.full buf then (inner.rotate .never s.files).2 else s.files) ∧
        slots'.length ≤ settings.maxFiles + 1 ∧ slots' ≠ [] ∧ slots'.reverse.flatten <:+ s.written := by
      split
      · refine ⟨rotateSlots inner.maxFiles slots, ?_, ?_, List.cons_ne_nil _ _, ?_⟩
        · exact path ▸ rotate_holds (path ▸ retains.holds) (maxFiles ▸ retains.few)
        · rw [← maxFiles]
          exact List.length_take_le _ _
        · exact (rotateSlots_suffix _ _).trans retains.kept
      · exact ⟨slots, retains.holds, retains.few, started, retains.kept⟩
    obtain ⟨slots', holds, few, started, kept⟩ := moved
    refine ⟨appendSlots buf slots', ?_, ?_, ?_, fun inner' same => ?_⟩
    · exact path ▸ append_holds (path ▸ holds) buf
    · rw [length_appendSlots]
      exact few
    · rw [appendSlots_flatten buf started]
      obtain ⟨lead, whole⟩ := kept
      exact ⟨lead, by rw [← List.append_assoc, whole]⟩
    · cases same
      refine ⟨path, maxFiles, opened, fun none => ?_⟩
      have length := length_appendSlots buf slots'
      rw [none] at length
      exact started (List.eq_nil_of_length_eq_zero length.symm)

theorem retains_of_run {actions : List Action} (done : run (step settings) actions .empty = some s)
    (clean : ∀ action ∈ actions, action.faultless) : ∃ slots, Retains settings slots s := by
  have keep : ∀ action s next, (∃ slots, Retains settings slots s) → action.faultless →
      step settings action s = some next → ∃ slots, Retains settings slots next := by
    intro action s next before clean taken
    obtain ⟨slots, retains⟩ := before
    cases action with
    | start fails =>
      cases clean
      exact ⟨openSlots slots, retains.start taken⟩
    | write faults buf =>
      cases clean
      exact retains.write taken
  have initial : ∃ slots, Retains settings slots .empty := ⟨[], retains_empty settings⟩
  exact run_invariant_of_forall keep initial clean done

/-- The backups from the oldest to the newest and then the live file. -/
def concatenation (path : Str) (files : Directory Str UInt8) : Nat → List UInt8
  | 0 => (files path).getD []
  | n + 1 => (files (Inner.backup path (n + 1))).getD [] ++ concatenation path files n

theorem concatenation_eq {path : Str} {files : Directory Str UInt8} (holds : Holds path slots files)
    (n : Nat) : concatenation path files n = (slots.take (n + 1)).reverse.flatten.flatten := by
  induction n with
  | zero =>
    have live : files path = slots[0]?.map List.flatten := holds.held 0
    rw [concatenation, live]
    cases slots <;> simp
  | succ n ih =>
    have backup : files (Inner.backup path (n + 1)) = slots[n + 1]?.map List.flatten := holds.held (n + 1)
    rw [concatenation, ih, backup, @List.take_add_one _ slots (n + 1), List.reverse_append,
      List.flatten_append, List.flatten_append]
    cases slots[n + 1]? <;> simp

/-- Without faults, the files are runs of consecutive whole buffers, and together they are the end of
what was written. -/
theorem rotation_keeps_suffix {settings : Settings} {actions : List Action} {s : State}
    (done : run (step settings) actions .empty = some s)
    (clean : ∀ action ∈ actions, action.faultless) :
    ∃ slots : List (List Buffer), slots.length ≤ settings.maxFiles + 1 ∧
      (s.process ≠ none → slots ≠ []) ∧
      (∀ file content, s.files file = some content ↔
        ∃ n chunks, file = slotName settings.path n ∧ slots[n]? = some chunks ∧
          content = chunks.flatten) ∧
      slots.reverse.flatten <:+ s.written ∧
      concatenation settings.path s.files settings.maxFiles = slots.reverse.flatten.flatten := by
  obtain ⟨slots, retains⟩ := retains_of_run done clean
  refine ⟨slots, retains.few, fun running => ?_, fun file content => ?_, retains.kept, ?_⟩
  · obtain ⟨inner, here⟩ := Option.ne_none_iff_exists'.mp running
    exact (retains.running inner here).2.2.2
  · constructor
    · intro here
      by_cases known : ∃ n, file = slotName settings.path n
      · obtain ⟨n, rfl⟩ := known
        rw [retains.holds.held, Option.map_eq_some_iff] at here
        obtain ⟨chunks, found, same⟩ := here
        exact ⟨n, chunks, rfl, found, same.symm⟩
      · rw [retains.holds.alone file (not_exists.mp known)] at here
        cases here
    · rintro ⟨n, chunks, rfl, found, rfl⟩
      rw [retains.holds.held, found, Option.map_some]
  · rw [concatenation_eq retains.holds, List.take_of_length_le retains.few]

/-- Four lines of two bytes, three bytes a file and two backups, with a restart in between: the first
line is lost with its file. -/
theorem rotation_keeps_suffix_restart : ∃ s, run (step ⟨['l'], 3, 2⟩)
      [.start false, .write .never [1, 1], .write .never [2, 2], .start false, .write .never [3, 3],
        .write .never [4, 4]] .empty = some s ∧
    s.files ['l', '.', '2'] = some [2, 2] ∧
    ∃ slots : List (List Buffer), slots.length ≤ 3 ∧ slots.reverse.flatten <:+ s.written ∧
      concatenation ['l'] s.files 2 = slots.reverse.flatten.flatten := by
  let trace : List Action :=
    [.start false, .write .never [1, 1], .write .never [2, 2], .start false, .write .never [3, 3],
      .write .never [4, 4]]
  have done : run (step ⟨['l'], 3, 2⟩) trace .empty = some _ := rfl
  obtain ⟨slots, few, -, -, kept, whole⟩ := rotation_keeps_suffix done (by simp [trace, Action.faultless])
  exact ⟨_, done, by decide, slots, few, kept, whole⟩

end Runs

end TinyLb.LogFile
