import TinyLb.LogFile

/-! Rotations some of whose renames fail. Each goes on with the next rename, so a file may be put in
the place of one that has not moved. -/

namespace TinyLb.FailedRenames
open Files Machine LogFile

section Rotation
variable {faults : Faults} {inner : Inner} {files : Directory Str UInt8}

def Moved (inner : Inner) (faults : Faults) (files : Directory Str UInt8) (n : Nat) : Prop :=
  Moves faults.rename (slotName inner.path) files n

open Classical in
theorem moveFiles_slots (kept : 1 ≤ inner.maxFiles) (removes : faults.remove = false) {k : Nat}
    (le : k ≤ inner.maxFiles) :
    inner.moveFiles faults files (slotName inner.path k) =
      if 0 < k ∧ Moved inner faults files (k - 1) then files (slotName inner.path (k - 1))
      else if k = inner.maxFiles ∨ Moved inner faults files k then none
      else files (slotName inner.path k) := by
  obtain ⟨top, same⟩ := Nat.exists_eq_succ_of_ne_zero (Nat.ne_of_gt kept)
  have name := slotName_injective inner.path
  have whole : inner.moveFiles faults files =
      shiftSome faults.rename (slotName inner.path) (top + 1)
        (remove (slotName inner.path (top + 1)) files) := by
    rw [Inner.moveFiles, if_neg (by omega), removes, same]
    exact renames_eq_shiftSome faults inner.path top _
  have below : ∀ n, n ≠ top + 1 →
      remove (slotName inner.path (top + 1)) files (slotName inner.path n) = files (slotName inner.path n) :=
    fun n apart => set_of_ne _ (name.ne apart)
  have moves : ∀ n, n ≠ top + 1 →
      (Moves faults.rename (slotName inner.path) (remove (slotName inner.path (top + 1)) files) n ↔
        Moved inner faults files n) :=
    fun n apart => moves_congr (below n apart)
  rw [whole, shiftSome_spec name _ _ _ k (by omega), moves (k - 1) (by omega), below (k - 1) (by omega)]
  refine if_congr Iff.rfl rfl ?_
  by_cases last : k = inner.maxFiles
  · rw [if_pos (Or.inl last), if_neg (fun both => by omega), show k = top + 1 by omega]
    exact set_self none
  · rw [moves k (by omega), below k (by omega)]
    exact if_congr ⟨fun both => Or.inr both.2, fun either => ⟨by omega, either.resolve_left last⟩⟩ rfl rfl

theorem rotate_slot (faults : Faults) (inner : Inner) (files : Directory Str UInt8) (k : Nat) :
    (inner.rotate faults files).2 (slotName inner.path k) =
        inner.moveFiles faults files (slotName inner.path k) ∨
      inner.moveFiles faults files (slotName inner.path k) = none ∧
        (inner.rotate faults files).2 (slotName inner.path k) = some [] := by
  unfold Inner.rotate openLog
  cases faults.reopen with
  | true => exact Or.inl rfl
  | false =>
    cases k with
    | succ k => exact Or.inl (set_of_ne _ ((slotName_injective inner.path).ne (Nat.succ_ne_zero k)))
    | zero =>
      change create inner.path (inner.moveFiles faults files) inner.path =
          inner.moveFiles faults files inner.path ∨
        inner.moveFiles faults files inner.path = none ∧
          create inner.path (inner.moveFiles faults files) inner.path = some []
      rw [create, set_self]
      cases inner.moveFiles faults files inner.path with
      | none => exact Or.inr ⟨rfl, rfl⟩
      | some content => exact Or.inl rfl

def Survives (inner : Inner) (faults : Faults) (files : Directory Str UInt8) (content : List UInt8) : Prop :=
  ∃ m ≤ inner.maxFiles, (inner.rotate faults files).2 (slotName inner.path m) = some content

/-- What a rotation may lose: the last backup, and that only if the live file moves. -/
structure Keeps (inner : Inner) (faults : Faults) (files : Directory Str UInt8) : Prop where
  newer : ∀ n < inner.maxFiles, ∀ content, files (slotName inner.path n) = some content →
    Survives inner faults files content
  oldest : ∀ content, files (slotName inner.path inner.maxFiles) = some content →
    Survives inner faults files content ∨ Moved inner faults files 0

/-- No file is put in the place of one that has not moved, and the live file moves where the last
backup is removed. -/
structure Linked (inner : Inner) (faults : Faults) (files : Directory Str UInt8) : Prop where
  chain : ∀ n, n + 1 < inner.maxFiles → Moved inner faults files n →
    files (slotName inner.path (n + 1)) ≠ none → Moved inner faults files (n + 1)
  live : files (slotName inner.path inner.maxFiles) ≠ none → Moved inner faults files 0

theorem survives_of_moveFiles {m : Nat} (le : m ≤ inner.maxFiles) {content : List UInt8}
    (here : inner.moveFiles faults files (slotName inner.path m) = some content) :
    Survives inner faults files content := by
  refine ⟨m, le, ?_⟩
  rcases rotate_slot faults inner files m with same | ⟨missing, -⟩
  · exact same.trans here
  · rw [missing] at here
    cases here

theorem Linked.keeps (linked : Linked inner faults files) (kept : 1 ≤ inner.maxFiles)
    (removes : faults.remove = false) : Keeps inner faults files := by
  refine ⟨fun n small content here => ?_, fun content here => Or.inr (linked.live ?_)⟩
  · by_cases goes : Moved inner faults files n
    · apply survives_of_moveFiles (show n + 1 ≤ inner.maxFiles from small)
      rw [moveFiles_slots kept removes small, if_pos ⟨Nat.succ_pos n, goes⟩]
      exact here
    · apply survives_of_moveFiles (Nat.le_of_lt small)
      have alone : ¬(0 < n ∧ Moved inner faults files (n - 1)) := by
        rintro ⟨positive, comes⟩
        obtain ⟨m, rfl⟩ := Nat.exists_eq_succ_of_ne_zero (Nat.ne_of_gt positive)
        exact goes (linked.chain m small comes (here ▸ Option.some_ne_none content))
      have stays : ¬(n = inner.maxFiles ∨ Moved inner faults files n) :=
        not_or.mpr ⟨Nat.ne_of_lt small, goes⟩
      rw [moveFiles_slots kept removes (Nat.le_of_lt small), if_neg alone, if_neg stays]
      exact here
  · exact here ▸ Option.some_ne_none content

/-- The log files are not empty, and no two of them are the same. -/
structure Distinct (inner : Inner) (files : Directory Str UInt8) : Prop where
  filled : ∀ n ≤ inner.maxFiles, files (slotName inner.path n) ≠ some []
  apart : ∀ m ≤ inner.maxFiles, ∀ n ≤ inner.maxFiles, ∀ content,
    files (slotName inner.path m) = some content → files (slotName inner.path n) = some content → m = n

theorem Distinct.survivor (distinct : Distinct inner files) (kept : 1 ≤ inner.maxFiles)
    (removes : faults.remove = false) {n : Nat} (le : n ≤ inner.maxFiles) {content : List UInt8}
    (here : files (slotName inner.path n) = some content)
    (survives : Survives inner faults files content) :
    n < inner.maxFiles ∧
      (Moved inner faults files n ∨ ¬(0 < n ∧ Moved inner faults files (n - 1))) := by
  classical
  obtain ⟨m, few, found⟩ := survives
  have moved : inner.moveFiles faults files (slotName inner.path m) = some content := by
    rcases rotate_slot faults inner files m with same | ⟨-, empty⟩
    · exact same.symm.trans found
    · rw [empty] at found
      exact absurd (found ▸ here) (distinct.filled n le)
  rw [moveFiles_slots kept removes few] at moved
  split at moved
  next comes =>
    obtain rfl := distinct.apart n le (m - 1) (by omega) content here moved
    exact ⟨by omega, Or.inl comes.2⟩
  next alone =>
    split at moved
    next => cases moved
    next stays =>
      obtain rfl := distinct.apart n le m few content here moved
      exact ⟨by omega, Or.inr alone⟩

theorem Keeps.linked (keeps : Keeps inner faults files) (distinct : Distinct inner files)
    (kept : 1 ≤ inner.maxFiles) (removes : faults.remove = false) : Linked inner faults files := by
  refine ⟨fun n small comes occupied => ?_, fun occupied => ?_⟩
  · obtain ⟨content, here⟩ := Option.ne_none_iff_exists'.mp occupied
    have survives := keeps.newer (n + 1) small content here
    rcases (distinct.survivor kept removes (Nat.le_of_lt small) here survives).2 with moved | alone
    · exact moved
    · exact absurd ⟨Nat.succ_pos n, comes⟩ alone
  · obtain ⟨content, here⟩ := Option.ne_none_iff_exists'.mp occupied
    rcases keeps.oldest content here with survives | moved
    · exact absurd (distinct.survivor kept removes (Nat.le_refl _) here survives).1 (Nat.lt_irrefl _)
    · exact moved

end Rotation

section Runs
variable {settings : Settings} {actions : List Action} {s : State}

def AtRotation (P : Inner → Faults → Directory Str UInt8 → Prop) (action : Action) (s : State) : Prop :=
  ∀ faults buf inner, action = .write faults buf → s.process = some inner → inner.full buf = true →
    1 ≤ inner.maxFiles → P inner faults s.files

def Action.removes : Action → Prop
  | .start _ => True
  | .write faults _ => faults.remove = false

theorem AtRotation.mono {P Q : Inner → Faults → Directory Str UInt8 → Prop}
    (imp : ∀ inner faults files, 1 ≤ inner.maxFiles → faults.remove = false → P inner faults files →
      Q inner faults files)
    (all : Conforms (step settings) (AtRotation P) actions s)
    (removals : ∀ action ∈ actions, Action.removes action) :
    Conforms (step settings) (AtRotation Q) actions s := by
  refine (all.and_forall removals).mono fun action s both faults buf inner same running full kept => ?_
  obtain ⟨holds, removes⟩ := both
  rw [same] at removes
  exact imp inner faults s.files kept removes (holds faults buf inner same running full kept)

/-- Rotations keep the logs where no file is put in the place of one that has not moved, and the live
file moves whenever there is a last backup to remove. They keep logs that can be told apart only
there. -/
theorem rotations_keep_logs (removals : ∀ action ∈ actions, Action.removes action) :
    (Conforms (step settings) (AtRotation Linked) actions s →
      Conforms (step settings) (AtRotation Keeps) actions s) ∧
    (Conforms (step settings) (AtRotation fun inner faults files =>
        Distinct inner files ∧ Keeps inner faults files) actions s →
      Conforms (step settings) (AtRotation Linked) actions s) := by
  constructor
  · intro all
    exact AtRotation.mono (fun inner faults files kept removes linked => linked.keeps kept removes) all removals
  · intro all
    exact AtRotation.mono (fun inner faults files kept removes both => both.2.linked both.1 kept removes) all removals

/-- Three backups. In the third rotation the live file does not move, and the backups do; the fourth one
drops the first line. -/
theorem rotations_keep_logs_clean :
    Conforms (step ⟨['l'], 2, 3⟩) (AtRotation Keeps)
      [.start false, .write .never [1, 1], .write .never [2, 2], .write .never [3, 3],
        .write { Faults.never with rename := (· == 0) } [4, 4], .write .never [5, 5]] .empty := by
  let stuck : Faults := { Faults.never with rename := (· == 0) }
  let trace : List Action :=
    [.start false, .write .never [1, 1], .write .never [2, 2], .write .never [3, 3], .write stuck [4, 4],
      .write .never [5, 5]]
  have removals : ∀ action ∈ trace, Action.removes action := by
    simp [trace, stuck, Action.removes, Faults.never]
  apply (rotations_keep_logs removals).1
  have linked : ∀ {faults : Faults} {inner : Inner} {files : Directory Str UInt8}, inner.maxFiles = 3 →
      faults.rename 1 = false → faults.rename 2 = false →
      files (slotName inner.path 3) = none ∨ files inner.path ≠ none ∧ faults.rename 0 = false →
      Linked inner faults files := by
    intro faults inner files three first second live
    refine ⟨fun n small _ occupied => ⟨occupied, ?_⟩, fun occupied => ?_⟩
    · obtain rfl | rfl : n = 0 ∨ n = 1 := by omega
      · exact first
      · exact second
    · rw [three] at occupied
      exact live.resolve_left occupied
  refine .cons (fun _ _ _ same => by cases same) rfl
    (.cons (fun _ _ _ same running full => ?_) rfl
      (.cons (fun _ _ _ same running _ _ => ?_) rfl
        (.cons (fun _ _ _ same running _ _ => ?_) rfl
          (.cons (fun _ _ _ same running _ _ => ?_) rfl
            (.cons (fun _ _ _ same running _ _ => ?_) rfl trivial)))))
  · cases same
    cases running
    exact absurd full (by decide)
  · cases same
    cases running
    exact linked rfl rfl rfl (Or.inl (by decide))
  · cases same
    cases running
    exact linked rfl rfl rfl (Or.inl (by decide))
  · cases same
    cases running
    exact linked rfl rfl rfl (Or.inl (by decide))
  · cases same
    cases running
    exact linked rfl rfl rfl (Or.inr ⟨by decide, rfl⟩)

/-- The rename of backup 1 fails, so the live file takes its place: the first line is lost although
two backups are to be kept. -/
theorem rotations_keep_logs_overwritten : ¬ ∀ settings actions s,
    (∀ action ∈ actions, Action.removes action) →
    Conforms (step settings) (AtRotation Keeps) actions s := by
  intro claimed
  let faults : Faults := ⟨false, fun n => n == 1, false, false, none⟩
  let before : List Action := [.start false, .write .never [1, 1], .write .never [2, 2]]
  have all := claimed ⟨['l'], 2, 2⟩ (before ++ [.write faults [3, 3]]) .empty
    (by simp [before, faults, Action.removes, Faults.never])
  have reached : run (step ⟨['l'], 2, 2⟩) before .empty = some _ := rfl
  have keeps := (all.append reached).2.1 faults [3, 3] _ rfl rfl (by decide) (by decide)
  obtain ⟨m, few, found⟩ := keeps.newer 1 (by decide) [1, 1] (by decide)
  have known : m = 0 ∨ m = 1 ∨ m = 2 := by
    have bound : m ≤ 2 := few
    omega
  rcases known with rfl | rfl | rfl <;> exact absurd found (by decide)

end Runs

end TinyLb.FailedRenames
