import Mathlib.Data.List.Basic
import Mathlib.Data.List.DropRight
import Mathlib.Data.List.TakeWhile

/-! The operations of Rust's `str` and iterators that the proxy uses. A `str` is
the list of its characters; `len` is its length in UTF-8 bytes. -/

namespace TinyLb

abbrev Str := List Char

namespace Text

/-- `char::to_ascii_lowercase` on every character; others than `A`-`Z` stay. -/
def toAsciiLowercase (s : Str) : Str := s.map Char.toLower

def stripPrefix : Str → Str → Option Str
  | [], s => some s
  | _ :: _, [] => none
  | c :: prefixRest, d :: rest => if c = d then stripPrefix prefixRest rest else none

/-- `s.split(c).next()`, the text before the first `c`. -/
def splitFirst (c : Char) (s : Str) : Str := s.takeWhile (· != c)

def endsWith (s suffix : Str) : Bool := suffix.isSuffixOf s

def len : Str → Nat
  | [] => 0
  | c :: rest => c.utf8Size + len rest

def eqIgnoreAsciiCase (s t : Str) : Bool := toAsciiLowercase s == toAsciiLowercase t

/-- `char::is_whitespace`, the `White_Space` characters of Unicode. -/
def isWhitespace (c : Char) : Bool :=
  let code := c.toNat
  (9 ≤ code && code ≤ 13) || code == 0x20 || code == 0x85 || code == 0xA0 || code == 0x1680 ||
    (0x2000 ≤ code && code ≤ 0x200A) || code == 0x2028 || code == 0x2029 || code == 0x202F ||
    code == 0x205F || code == 0x3000

def trim (s : Str) : Str := (s.dropWhile isWhitespace).rdropWhile isWhitespace

/-- The rest of a `replace`, where `skip` characters belong to a match already. -/
def replaceFrom (pattern target : Str) : Nat → Str → Str
  | _, [] => []
  | 0, c :: rest =>
      if pattern.isPrefixOf (c :: rest) then
        target ++ replaceFrom pattern target (pattern.length - 1) rest
      else c :: replaceFrom pattern target 0 rest
  | skip + 1, _ :: rest => replaceFrom pattern target skip rest

/-- `str::replace` for a pattern that is not empty: from the left, and matches do not overlap. -/
def replace (pattern target s : Str) : Str := replaceFrom pattern target 0 s

theorem stripPrefix_some {lead s rest : Str} :
    stripPrefix lead s = some rest ↔ s = lead ++ rest := by
  induction lead generalizing s with
  | nil => simp [stripPrefix, eq_comm]
  | cons c lead ih =>
    cases s with
    | nil => simp [stripPrefix]
    | cons d s =>
      by_cases same : c = d
      · subst same
        simp [stripPrefix, ih]
      · simp [stripPrefix, same, Ne.symm same]

theorem endsWith_iff {s suffix : Str} : endsWith s suffix = true ↔ suffix <:+ s := by
  simp [endsWith]

@[simp] theorem toAsciiLowercase_length (s : Str) : (toAsciiLowercase s).length = s.length := by
  simp [toAsciiLowercase]

theorem toAsciiLowercase_cons (c : Char) (s : Str) :
    toAsciiLowercase (c :: s) = c.toLower :: toAsciiLowercase s := rfl

theorem toAsciiLowercase_append (s t : Str) :
    toAsciiLowercase (s ++ t) = toAsciiLowercase s ++ toAsciiLowercase t := by
  simp [toAsciiLowercase]

/-- Only letters change case, so another character is there before if it is after. -/
theorem toLower_eq_iff {c : Char} (plain : c.isAlpha = false) {d : Char} :
    d.toLower = c ↔ d = c := by
  obtain ⟨notUpper, notLower⟩ :=
    Bool.or_eq_false_iff.mp (show (c.isUpper || c.isLower) = false from plain)
  unfold Char.toLower
  split
  next upper =>
    have low : 65 ≤ d.toNat := UInt32.le_iff_toNat_le.mp upper.1
    have high : d.toNat ≤ 90 := UInt32.le_iff_toNat_le.mp upper.2
    constructor
    · rintro rfl
      change (decide (97 ≤ d.val + 32) && decide (d.val + 32 ≤ 122)) = false at notLower
      simp [UInt32.le_iff_toNat_le] at notLower
      omega
    · rintro rfl
      exact absurd upper (of_decide_eq_false notUpper)
  next => rfl

theorem mem_toAsciiLowercase {c : Char} (plain : c.isAlpha = false) {s : Str} :
    c ∈ toAsciiLowercase s ↔ c ∈ s := by
  simp [toAsciiLowercase, toLower_eq_iff plain]

theorem len_append (s t : Str) : len (s ++ t) = len s + len t := by
  induction s with
  | nil => exact (Nat.zero_add _).symm
  | cons c rest ih => rw [List.cons_append, len, len, ih, Nat.add_assoc]

theorem len_le_of_isSuffix {s t : Str} (ends : s <:+ t) : len s ≤ len t := by
  obtain ⟨lead, rfl⟩ := ends
  rw [len_append]
  exact Nat.le_add_left _ _

theorem len_pos {s : Str} (nonempty : s ≠ []) : 0 < len s := by
  cases s with
  | nil => exact absurd rfl nonempty
  | cons c rest =>
    have positive := c.utf8Size_pos
    rw [len]
    omega

/-- Of two suffixes of one text the longer one is longer in bytes as well. -/
theorem len_le_of_suffix {s t whole : Str} (first : s <:+ whole) (second : t <:+ whole)
    (shorter : len s ≤ len t) : s.length ≤ t.length := by
  by_contra longer
  obtain ⟨lead, rfl⟩ := List.suffix_of_suffix_length_le second first (by omega)
  have nonempty : lead ≠ [] := by
    intro none
    subst none
    simp at longer
  have bytes := len_pos nonempty
  rw [len_append] at shorter
  omega

theorem splitFirst_eq_self {c : Char} {s : Str} (absent : c ∉ s) : splitFirst c s = s := by
  rw [splitFirst, List.takeWhile_eq_self_iff]
  intro d present
  have other : d ≠ c := fun same => absent (same ▸ present)
  simpa using other

theorem splitFirst_append {c : Char} {s : Str} (absent : c ∉ s) (rest : Str) :
    splitFirst c (s ++ c :: rest) = s := by
  have before : ∀ x ∈ s, (x != c) = true := by
    intro x member
    rw [bne_iff_ne]
    exact fun same => absent (same ▸ member)
  rw [splitFirst, List.takeWhile_append_of_pos before, List.takeWhile_cons_of_neg (by simp),
    List.append_nil]

theorem not_mem_splitFirst (c : Char) (s : Str) : c ∉ splitFirst c s := by
  intro present
  have kept := List.mem_takeWhile_imp present
  simp at kept

section Replace
variable {pattern target : Str} {s : Str}

theorem replaceFrom_match {c : Char} {rest : Str} (here : pattern <+: c :: rest) :
    replaceFrom pattern target 0 (c :: rest) =
      target ++ replaceFrom pattern target (pattern.length - 1) rest := by
  rw [replaceFrom, if_pos (List.isPrefixOf_iff_prefix.mpr here)]

theorem replaceFrom_other {c : Char} {rest : Str} (elsewhere : ¬pattern <+: c :: rest) :
    replaceFrom pattern target 0 (c :: rest) = c :: replaceFrom pattern target 0 rest := by
  rw [replaceFrom, if_neg (fun here => elsewhere (List.isPrefixOf_iff_prefix.mp here))]

theorem replaceFrom_skip (lead : Str) :
    replaceFrom pattern target lead.length (lead ++ s) = replace pattern target s := by
  induction lead with
  | nil => rfl
  | cons c lead ih =>
    rw [List.length_cons, List.cons_append, replaceFrom]
    exact ih

theorem replace_match (nonempty : pattern ≠ []) :
    replace pattern target (pattern ++ s) = target ++ replace pattern target s := by
  cases pattern with
  | nil => exact absurd rfl nonempty
  | cons c pattern =>
    have here : c :: pattern <+: c :: (pattern ++ s) := List.prefix_append (c :: pattern) s
    rw [replace, List.cons_append, replaceFrom_match here]
    exact congrArg (target ++ ·) (replaceFrom_skip pattern)

/-- No match begins in a text without the first character of the pattern. -/
theorem replace_append {c : Char} {lead : Str} (apart : c ∉ lead) :
    replace (c :: pattern) target (lead ++ s) = lead ++ replace (c :: pattern) target s := by
  induction lead with
  | nil => rfl
  | cons d lead ih =>
    have other : c ≠ d := fun same => apart (same ▸ List.mem_cons_self ..)
    have elsewhere : ¬(c :: pattern) <+: d :: (lead ++ s) := by
      rw [List.cons_prefix_cons, not_and]
      exact fun same => absurd same other
    rw [List.cons_append, replace, replaceFrom_other elsewhere, List.cons_append]
    exact congrArg (d :: ·) (ih fun member => apart (List.mem_cons_of_mem _ member))

theorem replace_absent (absent : ¬pattern <:+: s) : replace pattern target s = s := by
  induction s with
  | nil => rfl
  | cons c rest ih =>
    have later : ¬pattern <:+: rest := fun inside => absent (List.infix_cons inside)
    rw [replace, replaceFrom_other fun here => absent here.isInfix]
    exact congrArg (c :: ·) (ih later)

theorem length_replaceFrom (nonempty : pattern ≠ []) (longer : pattern.length ≤ target.length)
    (skip : Nat) (s : Str) : s.length ≤ (replaceFrom pattern target skip s).length + skip := by
  have positive : 0 < pattern.length := List.length_pos_iff.mpr nonempty
  induction s generalizing skip with
  | nil => exact Nat.zero_le _
  | cons c rest ih =>
    rw [List.length_cons]
    cases skip with
    | zero =>
      by_cases here : pattern <+: c :: rest
      · have kept := ih (pattern.length - 1)
        rw [replaceFrom_match here, List.length_append]
        omega
      · have kept := ih 0
        rw [replaceFrom_other here, List.length_cons]
        omega
    | succ skip =>
      have kept := ih skip
      rw [replaceFrom]
      omega

theorem length_replace (nonempty : pattern ≠ []) (longer : pattern.length < target.length)
    (inside : pattern <:+: s) : s.length < (replace pattern target s).length := by
  induction s with
  | nil => exact absurd (List.infix_nil.mp inside) nonempty
  | cons c rest ih =>
    rw [replace, List.length_cons]
    by_cases here : pattern <+: c :: rest
    · have kept := length_replaceFrom nonempty longer.le (pattern.length - 1) rest
      have positive : 0 < pattern.length := List.length_pos_iff.mpr nonempty
      rw [replaceFrom_match here, List.length_append]
      omega
    · have later : pattern <:+: rest := (List.infix_cons_iff.mp inside).resolve_left here
      rw [replaceFrom_other here, List.length_cons]
      exact Nat.succ_lt_succ (ih later)

theorem replace_eq_self_iff (nonempty : pattern ≠ []) (longer : pattern.length < target.length) :
    replace pattern target s = s ↔ ¬pattern <:+: s := by
  constructor
  · intro same inside
    have grown := length_replace nonempty longer inside
    rw [same] at grown
    exact Nat.lt_irrefl _ grown
  · exact replace_absent

/-- Two replacements that make the text longer do not undo each other. -/
theorem replace_replace_eq_self_iff {pattern' target' : Str} (nonempty : pattern ≠ [])
    (longer : pattern.length < target.length) (nonempty' : pattern' ≠ [])
    (longer' : pattern'.length < target'.length) :
    replace pattern' target' (replace pattern target s) = s ↔ ¬pattern <:+: s ∧ ¬pattern' <:+: s := by
  by_cases inside : pattern <:+: s
  · refine ⟨fun same => ?_, fun absent => absurd inside absent.1⟩
    have grown := length_replace nonempty longer inside
    have kept := length_replaceFrom nonempty' longer'.le 0 (replace pattern target s)
    rw [← replace, same] at kept
    omega
  · rw [replace_absent inside, replace_eq_self_iff nonempty' longer']
    exact (and_iff_right inside).symm

end Replace

end Text

section MaxByKey
universe u v
variable {α : Type u} {β : Type v}

/-- `Iterator::max_by_key`: the last of the elements with the largest key. -/
def maxByKey (key : α → Nat) : List α → Option α
  | [] => none
  | x :: rest => some (rest.foldl (fun best y => if key best ≤ key y then y else best) x)

/-- `x` has the largest key, and no later element ties with it. -/
def IsLastMax (key : α → Nat) (l : List α) (x : α) : Prop :=
  ∃ before after, l = before ++ x :: after ∧
    (∀ y ∈ before, key y ≤ key x) ∧ ∀ y ∈ after, key y < key x

theorem IsLastMax.le {key : α → Nat} {l : List α} {x y : α} (max : IsLastMax key l x)
    (present : y ∈ l) : key y ≤ key x := by
  obtain ⟨before, after, rfl, low, high⟩ := max
  rcases List.mem_append.mp present with earlier | later
  · exact low y earlier
  · rcases List.mem_cons.mp later with rfl | later
    · exact Nat.le_refl _
    · exact Nat.le_of_lt (high y later)

theorem IsLastMax.snoc {key : α → Nat} {l : List α} {x : α} (max : IsLastMax key l x) (y : α) :
    IsLastMax key (l ++ [y]) (if key x ≤ key y then y else x) := by
  split
  next later => exact ⟨l, [], rfl, fun z present => Nat.le_trans (max.le present) later, by simp⟩
  next earlier =>
    obtain ⟨before, after, rfl, low, high⟩ := max
    refine ⟨before, after ++ [y], by simp, low, fun z present => ?_⟩
    rcases List.mem_append.mp present with known | new
    · exact high z known
    · rw [List.mem_singleton.mp new]
      omega

private theorem foldl_isLastMax (key : α → Nat) (rest read : List α) (x : α)
    (max : IsLastMax key read x) :
    IsLastMax key (read ++ rest)
      (rest.foldl (fun best y => if key best ≤ key y then y else best) x) := by
  induction rest generalizing read x with
  | nil => simpa using max
  | cons y rest ih => simpa using ih _ _ (max.snoc y)

theorem IsLastMax.unique {key : α → Nat} {l : List α} {x y : α} (first : IsLastMax key l x)
    (second : IsLastMax key l y) : x = y := by
  obtain ⟨before, after, rfl, low, high⟩ := first
  obtain ⟨before', after', same, low', high'⟩ := second
  rcases List.append_eq_append_iff.mp same with ⟨gap, rest, tail⟩ | ⟨gap, rest, tail⟩
  · cases gap with
    | nil => exact (List.cons.inj tail).1
    | cons z gap =>
      rw [List.cons_append, List.cons.injEq] at tail
      have lower := low' x (by rw [rest, ← tail.1]; simp)
      have higher := high y (by rw [tail.2]; simp)
      omega
  · cases gap with
    | nil => exact (List.cons.inj tail).1.symm
    | cons z gap =>
      rw [List.cons_append, List.cons.injEq] at tail
      have lower := low y (by rw [rest, ← tail.1]; simp)
      have higher := high' x (by rw [tail.2]; simp)
      omega

theorem maxByKey_eq_some {key : α → Nat} {l : List α} {x : α} :
    maxByKey key l = some x ↔ IsLastMax key l x := by
  cases l with
  | nil =>
    constructor
    · intro found
      exact nomatch found
    · rintro ⟨before, after, split, -⟩
      simp at split
  | cons y rest =>
    rw [maxByKey, Option.some.injEq]
    have spec := foldl_isLastMax key rest [y] y ⟨[], [], rfl, by simp, by simp⟩
    exact ⟨fun same => same ▸ spec, spec.unique⟩

theorem maxByKey_eq_none {key : α → Nat} {l : List α} : maxByKey key l = none ↔ l = [] := by
  cases l <;> simp [maxByKey]

end MaxByKey

end TinyLb
