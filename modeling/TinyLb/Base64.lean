import Mathlib.Algebra.Group.Nat.Defs
import Mathlib.Data.List.Basic

/-! The base 64 encoding of RFC 4648 with padding. Three bytes are four letters; a group of one or two
bytes at the end is filled up with zero bits, and its text with `=`. -/

namespace TinyLb.Base64

def letter (v : Nat) : Char :=
  if v < 26 then Char.ofNat (65 + v)
  else if v < 52 then Char.ofNat (97 + (v - 26))
  else if v < 62 then Char.ofNat (48 + (v - 52))
  else if v = 62 then '+'
  else '/'

def value (c : Char) : Option Nat :=
  if 65 ≤ c.toNat ∧ c.toNat ≤ 90 then some (c.toNat - 65)
  else if 97 ≤ c.toNat ∧ c.toNat ≤ 122 then some (c.toNat - 97 + 26)
  else if 48 ≤ c.toNat ∧ c.toNat ≤ 57 then some (c.toNat - 48 + 52)
  else if c = '+' then some 62
  else if c = '/' then some 63
  else none

def sextet (n i : Nat) : Char := letter (n / 64 ^ (3 - i) % 64)

def encode : List UInt8 → List Char
  | [] => []
  | [b0] =>
      let n := b0.toNat * 65536
      [sextet n 0, sextet n 1, '=', '=']
  | [b0, b1] =>
      let n := b0.toNat * 65536 + b1.toNat * 256
      [sextet n 0, sextet n 1, sextet n 2, '=']
  | b0 :: b1 :: b2 :: rest =>
      let n := b0.toNat * 65536 + b1.toNat * 256 + b2.toNat
      sextet n 0 :: sextet n 1 :: sextet n 2 :: sextet n 3 :: encode rest

def octet (n i : Nat) : UInt8 := UInt8.ofNat (n / 256 ^ (2 - i))

/-- The bytes of four characters; padding is for the last ones only. -/
def quantum (c0 c1 c2 c3 : Char) (last : Bool) : Option (List UInt8) :=
  match value c0, value c1, value c2, value c3 with
  | some v0, some v1, some v2, some v3 =>
      let n := v0 * 64 ^ 3 + v1 * 64 ^ 2 + v2 * 64 + v3
      some [octet n 0, octet n 1, octet n 2]
  | some v0, some v1, some v2, none =>
      let n := v0 * 64 ^ 3 + v1 * 64 ^ 2 + v2 * 64
      if last = true ∧ c3 = '=' then some [octet n 0, octet n 1] else none
  | some v0, some v1, none, none =>
      let n := v0 * 64 ^ 3 + v1 * 64 ^ 2
      if last = true ∧ c2 = '=' ∧ c3 = '=' then some [octet n 0] else none
  | _, _, _, _ => none

def decode : List Char → Option (List UInt8)
  | [] => some []
  | c0 :: c1 :: c2 :: c3 :: rest =>
      match quantum c0 c1 c2 c3 rest.isEmpty, decode rest with
      | some bytes, some more => some (bytes ++ more)
      | _, _ => none
  | _ => none

/-- Groups of four letters, the last one padded or not, whose unused bits are zero. -/
inductive Canonical : List Char → Prop where
  | nil : Canonical []
  | one {c0 c1 : Char} {v0 v1 : Nat} (first : value c0 = some v0) (second : value c1 = some v1)
      (unused : v1 % 16 = 0) : Canonical [c0, c1, '=', '=']
  | two {c0 c1 c2 : Char} {v0 v1 v2 : Nat} (first : value c0 = some v0) (second : value c1 = some v1)
      (third : value c2 = some v2) (unused : v2 % 4 = 0) : Canonical [c0, c1, c2, '=']
  | group {c0 c1 c2 c3 : Char} {v0 v1 v2 v3 : Nat} {rest : List Char} (first : value c0 = some v0)
      (second : value c1 = some v1) (third : value c2 = some v2) (fourth : value c3 = some v3)
      (more : Canonical rest) : Canonical (c0 :: c1 :: c2 :: c3 :: rest)

section Letters
variable {c : Char} {v n : Nat}

theorem value_letter (small : v < 64) : value (letter v) = some v := by
  have all : ∀ v < 64, value (letter v) = some v := by decide
  exact all v small

theorem ofNat_code {base : Nat} (start : base ≤ c.toNat) : Char.ofNat (base + (c.toNat - base)) = c := by
  rw [Nat.add_sub_cancel' start, Char.ofNat_toNat]

theorem letter_value (known : value c = some v) : v < 64 ∧ letter v = c := by
  unfold value at known
  split at known
  next upper =>
    obtain rfl := Option.some.inj known
    have below : c.toNat - 65 < 26 := by omega
    rw [letter, if_pos below]
    exact ⟨by omega, ofNat_code upper.1⟩
  split at known
  next lower =>
    obtain rfl := Option.some.inj known
    have above : ¬c.toNat - 97 + 26 < 26 := by omega
    have below : c.toNat - 97 + 26 < 52 := by omega
    rw [letter, if_neg above, if_pos below, Nat.add_sub_cancel]
    exact ⟨by omega, ofNat_code lower.1⟩
  split at known
  next digit =>
    obtain rfl := Option.some.inj known
    have past : ¬c.toNat - 48 + 52 < 26 := by omega
    have above : ¬c.toNat - 48 + 52 < 52 := by omega
    have below : c.toNat - 48 + 52 < 62 := by omega
    rw [letter, if_neg past, if_neg above, if_pos below, Nat.add_sub_cancel]
    exact ⟨by omega, ofNat_code digit.1⟩
  split at known
  next plus =>
    obtain rfl := Option.some.inj known
    exact ⟨by decide, plus.symm⟩
  split at known
  next slash =>
    obtain rfl := Option.some.inj known
    exact ⟨by decide, slash.symm⟩
  next => cases known

theorem value_padding : value '=' = none := by decide

theorem value_sextet (n i : Nat) : value (sextet n i) = some (n / 64 ^ (3 - i) % 64) :=
  value_letter (Nat.mod_lt _ (by decide))

end Letters

section Groups
variable {c c0 c1 c2 c3 : Char} {v v0 v1 v2 v3 n i : Nat} {b : UInt8} {last : Bool}

theorem toNat_octet (n i : Nat) : (octet n i).toNat = n / 256 ^ (2 - i) % 256 := UInt8.toNat_ofNat'

theorem octet_eq (same : n / 256 ^ (2 - i) % 256 = b.toNat) : octet n i = b :=
  UInt8.toNat_inj.mp ((toNat_octet n i).trans same)

theorem sextet_eq (known : value c = some v) (same : n / 64 ^ (3 - i) % 64 = v) : sextet n i = c := by
  rw [sextet, same]
  exact (letter_value known).2

theorem quantum_full (first : value c0 = some v0) (second : value c1 = some v1)
    (third : value c2 = some v2) (fourth : value c3 = some v3) :
    quantum c0 c1 c2 c3 last = some [octet (v0 * 64 ^ 3 + v1 * 64 ^ 2 + v2 * 64 + v3) 0,
      octet (v0 * 64 ^ 3 + v1 * 64 ^ 2 + v2 * 64 + v3) 1,
      octet (v0 * 64 ^ 3 + v1 * 64 ^ 2 + v2 * 64 + v3) 2] := by
  simp only [quantum, first, second, third, fourth]

theorem quantum_two (first : value c0 = some v0) (second : value c1 = some v1)
    (third : value c2 = some v2) :
    quantum c0 c1 c2 '=' true = some [octet (v0 * 64 ^ 3 + v1 * 64 ^ 2 + v2 * 64) 0,
      octet (v0 * 64 ^ 3 + v1 * 64 ^ 2 + v2 * 64) 1] := by
  simp only [quantum, first, second, third, value_padding, and_self, if_true]

theorem quantum_one (first : value c0 = some v0) (second : value c1 = some v1) :
    quantum c0 c1 '=' '=' true = some [octet (v0 * 64 ^ 3 + v1 * 64 ^ 2) 0] := by
  simp only [quantum, first, second, value_padding, and_self, if_true]

theorem decode_group {bytes more : List UInt8} {rest : List Char}
    (first : quantum c0 c1 c2 c3 rest.isEmpty = some bytes) (later : decode rest = some more) :
    decode (c0 :: c1 :: c2 :: c3 :: rest) = some (bytes ++ more) := by
  rw [decode, first, later]

end Groups

section RoundTrip
variable {s : List Char}

theorem decode_encode (data : List UInt8) : decode (encode data) = some data := by
  have small : ∀ b : UInt8, b.toNat < 256 := UInt8.toNat_lt
  induction data using encode.induct with
  | case1 => rfl
  | case2 b0 =>
    have bound := small b0
    have read := quantum_one (value_sextet (b0.toNat * 65536) 0) (value_sextet (b0.toNat * 65536) 1)
    rw [encode, decode_group read rfl, octet_eq (b := b0) (by omega)]
    rfl
  | case3 b0 b1 =>
    have bound0 := small b0
    have bound1 := small b1
    let n := b0.toNat * 65536 + b1.toNat * 256
    have read := quantum_two (value_sextet n 0) (value_sextet n 1) (value_sextet n 2)
    rw [encode, decode_group read rfl, octet_eq (b := b0) (by omega), octet_eq (b := b1) (by omega)]
    rfl
  | case4 b0 b1 b2 rest ih =>
    have bound0 := small b0
    have bound1 := small b1
    have bound2 := small b2
    let n := b0.toNat * 65536 + b1.toNat * 256 + b2.toNat
    have read := @quantum_full _ _ _ _ _ _ _ _ (encode rest).isEmpty (value_sextet n 0)
      (value_sextet n 1) (value_sextet n 2) (value_sextet n 3)
    rw [encode, decode_group read ih, octet_eq (b := b0) (by omega), octet_eq (b := b1) (by omega),
      octet_eq (b := b2) (by omega)]
    rfl

theorem encode_canonical (data : List UInt8) : Canonical (encode data) := by
  induction data using encode.induct with
  | case1 => exact .nil
  | case2 b0 =>
    rw [encode]
    exact .one (value_sextet ..) (value_sextet ..) (by omega)
  | case3 b0 b1 =>
    rw [encode]
    exact .two (value_sextet ..) (value_sextet ..) (value_sextet ..) (by omega)
  | case4 b0 b1 b2 rest ih =>
    rw [encode]
    exact .group (value_sextet ..) (value_sextet ..) (value_sextet ..) (value_sextet ..) ih

theorem encode_decode (canonical : Canonical s) : ∃ data, decode s = some data ∧ encode data = s := by
  induction canonical with
  | nil => exact ⟨[], rfl, rfl⟩
  | one first second unused =>
    obtain ⟨bound0, -⟩ := letter_value first
    obtain ⟨bound1, -⟩ := letter_value second
    refine ⟨_, decode_group (quantum_one first second) rfl, ?_⟩
    rw [List.append_nil, encode, toNat_octet, sextet_eq first (by omega), sextet_eq second (by omega)]
  | two first second third unused =>
    obtain ⟨bound0, -⟩ := letter_value first
    obtain ⟨bound1, -⟩ := letter_value second
    obtain ⟨bound2, -⟩ := letter_value third
    refine ⟨_, decode_group (quantum_two first second third) rfl, ?_⟩
    rw [List.append_nil, encode, toNat_octet, toNat_octet, sextet_eq first (by omega),
      sextet_eq second (by omega), sextet_eq third (by omega)]
  | group first second third fourth more ih =>
    obtain ⟨bound0, -⟩ := letter_value first
    obtain ⟨bound1, -⟩ := letter_value second
    obtain ⟨bound2, -⟩ := letter_value third
    obtain ⟨bound3, -⟩ := letter_value fourth
    obtain ⟨data, read, same⟩ := ih
    refine ⟨_, decode_group (quantum_full first second third fourth) read, ?_⟩
    rw [List.cons_append, List.cons_append, List.cons_append, List.nil_append, encode, toNat_octet,
      toNat_octet, toNat_octet, same, sextet_eq first (by omega), sextet_eq second (by omega),
      sextet_eq third (by omega), sextet_eq fourth (by omega)]

theorem length_encode (data : List UInt8) : (encode data).length = 4 * ((data.length + 2) / 3) := by
  induction data using encode.induct with
  | case1 => rfl
  | case2 b0 => simp only [encode, List.length_cons, List.length_nil]
  | case3 b0 b1 => simp only [encode, List.length_cons, List.length_nil]
  | case4 b0 b1 b2 rest ih =>
    rw [encode]
    simp only [List.length_cons, ih]
    omega

def Padded (s : List Char) : Prop :=
  ∃ letters count, s = letters ++ List.replicate count '=' ∧ count ≤ 2 ∧
    ∀ c ∈ letters, (value c).isSome = true

theorem Canonical.padded (canonical : Canonical s) : Padded s := by
  have known : ∀ {c v}, value c = some v → (value c).isSome = true := fun here =>
    Option.isSome_of_eq_some here
  induction canonical with
  | nil => exact ⟨[], 0, rfl, by decide, by simp⟩
  | @one c0 c1 _ _ first second unused =>
    exact ⟨[c0, c1], 2, rfl, by decide, by simp [known first, known second]⟩
  | @two c0 c1 c2 _ _ _ first second third unused =>
    exact ⟨[c0, c1, c2], 1, rfl, by decide, by simp [known first, known second, known third]⟩
  | @group c0 c1 c2 c3 _ _ _ _ rest first second third fourth more ih =>
    obtain ⟨letters, count, rfl, few, all⟩ := ih
    refine ⟨c0 :: c1 :: c2 :: c3 :: letters, count, rfl, few, ?_⟩
    simp only [List.forall_mem_cons]
    exact ⟨known first, known second, known third, known fourth, all⟩

end RoundTrip

end TinyLb.Base64
