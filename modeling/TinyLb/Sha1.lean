import TinyLb.SecureHash

/-! The SHA-1 of the proxy: a buffer that is padded and hashed at the end. -/

namespace TinyLb

structure Sha1 where
  state : Vector UInt32 5
  buffer : List UInt8
  totalLen : UInt64
  deriving DecidableEq, Repr

namespace Sha1
open SecureHash

def new : Sha1 := ⟨#v[0x67452301, 0xEFCDAB89, 0x98BADCFE, 0x10325476, 0xC3D2E1F0], [], 0⟩

def update (s : Sha1) (data : List UInt8) : Sha1 :=
  { s with buffer := s.buffer ++ data, totalLen := s.totalLen + UInt64.ofNat data.length }

/-- `u32::rotate_left`, by less than 32. -/
def rotateLeft (x n : UInt32) : UInt32 := x <<< n ||| x >>> (32 - n)

/-- `u32::from_be_bytes`. -/
def fromBeBytes (b0 b1 b2 b3 : UInt8) : UInt32 :=
  b0.toUInt32 <<< 24 ||| b1.toUInt32 <<< 16 ||| b2.toUInt32 <<< 8 ||| b3.toUInt32

/-- `u32::to_be_bytes`. -/
def toBeBytes (x : UInt32) : List UInt8 :=
  [(x >>> 24).toUInt8, (x >>> 16).toUInt8, (x >>> 8).toUInt8, x.toUInt8]

/-- `u64::to_be_bytes`. -/
def toBeBytes64 (x : UInt64) : List UInt8 :=
  [(x >>> 56).toUInt8, (x >>> 48).toUInt8, (x >>> 40).toUInt8, (x >>> 32).toUInt8,
    (x >>> 24).toUInt8, (x >>> 16).toUInt8, (x >>> 8).toUInt8, x.toUInt8]

/-- `slice::chunks_exact`; what is left over at the end is dropped. -/
def chunksExact {α : Type} (size : Nat) (l : List α) : List (List α) :=
  (List.range (l.length / size)).map fun i => (l.drop (size * i)).take size

/-- The loop that pushes zeros. -/
def pushZeros (buffer : List UInt8) : List UInt8 :=
  if buffer.length % 64 = 56 then buffer else pushZeros (buffer ++ [0])
termination_by (120 - buffer.length % 64) % 64
decreasing_by
  rw [List.length_append, List.length_singleton]
  omega

/-- The array `w` after the first loop. -/
def blockWords (block : List UInt8) : Vector UInt32 80 :=
  (List.finRange 16).foldl (fun (w : Vector UInt32 80) (i : Fin 16) =>
    w.set i (fromBeBytes (block.getD (i * 4) 0) (block.getD (i * 4 + 1) 0) (block.getD (i * 4 + 2) 0)
      (block.getD (i * 4 + 3) 0))) (Vector.replicate 80 0)

def words (block : List UInt8) : Vector UInt32 80 :=
  (List.finRange 64).foldl (fun (w : Vector UInt32 80) (j : Fin 64) =>
    let i : Nat := 16 + j
    w.set i (rotateLeft (w[i - 3] ^^^ w[i - 8] ^^^ w[i - 14] ^^^ w[i - 16]) 1)) (blockWords block)

/-- The five variables of the round loop. -/
structure Variables where
  a : UInt32
  b : UInt32
  c : UInt32
  d : UInt32
  e : UInt32
  deriving DecidableEq, Repr

/-- The `match` of round `i`: the function of the three variables, and the constant. -/
def mix (v : Variables) (i : Nat) : UInt32 × UInt32 :=
  if i ≤ 19 then ((v.b &&& v.c) ||| (~~~v.b &&& v.d), 0x5A827999)
  else if i ≤ 39 then (v.b ^^^ v.c ^^^ v.d, 0x6ED9EBA1)
  else if i ≤ 59 then ((v.b &&& v.c) ||| (v.b &&& v.d) ||| (v.c &&& v.d), 0x8F1BBCDC)
  else (v.b ^^^ v.c ^^^ v.d, 0xCA62C1D6)

def round (w : Vector UInt32 80) (v : Variables) (i : Fin 80) : Variables :=
  let (f, k) := mix v i
  let temp := rotateLeft v.a 5 + f + v.e + k + w[i]
  ⟨temp, v.a, rotateLeft v.b 30, v.c, v.d⟩

def processBlock (state : Vector UInt32 5) (block : List UInt8) : Vector UInt32 5 :=
  let w := words block
  let v := (List.finRange 80).foldl (round w) ⟨state[0], state[1], state[2], state[3], state[4]⟩
  #v[state[0] + v.a, state[1] + v.b, state[2] + v.c, state[3] + v.d, state[4] + v.e]

def padded (s : Sha1) : List UInt8 :=
  pushZeros (s.buffer ++ [0x80]) ++ toBeBytes64 (s.totalLen * 8)

def finalize (s : Sha1) : List UInt8 :=
  ((chunksExact 64 (padded s)).foldl processBlock s.state).toList.flatMap toBeBytes

section Words
variable (x y z : UInt32) (block : List UInt8)

/-- The rule for a loop over `0..n`. -/
theorem for_invariant {α : Type} {n : Nat} {body : α → Fin n → α} {start : α} (holds : Nat → α → Prop)
    (first : holds 0 start) (next : ∀ (i : Fin n) s, holds i s → holds (i + 1) (body s i)) :
    holds n ((List.finRange n).foldl body start) := by
  induction n with
  | zero => exact first
  | succ n ih =>
    rw [List.finRange_succ_last, List.foldl_append, List.foldl_map]
    apply next (Fin.last n)
    exact ih fun i => next i.castSucc

theorem toBitVec_rotateLeft {n : UInt32} (positive : 0 < n.toNat) (small : n.toNat < 32) :
    (rotateLeft x n).toBitVec = x.toBitVec.rotateLeft n.toNat := by
  have left : (n.toBitVec % 32).toNat = n.toNat := Nat.mod_eq_of_lt small
  have right : ((32 - n).toBitVec % 32).toNat = 32 - n.toNat := by
    have le : n ≤ 32 := UInt32.le_iff_toNat_le.mpr (Nat.le_of_lt small)
    change (32 - n).toNat % 32 = _
    rw [UInt32.toNat_sub_of_le _ _ le]
    exact Nat.mod_eq_of_lt (Nat.sub_lt (by decide) positive)
  rw [BitVec.rotateLeft_def, Nat.mod_eq_of_lt small, rotateLeft, UInt32.toBitVec_or,
    UInt32.toBitVec_shiftLeft, UInt32.toBitVec_shiftRight, BitVec.shiftLeft_eq', BitVec.ushiftRight_eq',
    left, right]

/-- A byte moved by up to three places is a word. -/
theorem shiftLeft_fits (b : UInt8) {n : Nat} (small : n ≤ 24) : b.toNat <<< n % 2 ^ 32 = b.toNat <<< n := by
  apply Nat.mod_eq_of_lt
  rw [Nat.shiftLeft_eq]
  calc b.toNat * 2 ^ n < 2 ^ 8 * 2 ^ n := Nat.mul_lt_mul_of_pos_right b.toNat_lt (Nat.two_pow_pos n)
    _ = 2 ^ (8 + n) := (Nat.pow_add ..).symm
    _ ≤ 2 ^ 32 := Nat.pow_le_pow_right (by decide) (by omega)

theorem toBitVec_fromBeBytes (b0 b1 b2 b3 : UInt8) :
    (fromBeBytes b0 b1 b2 b3).toBitVec = word b0 b1 b2 b3 := by
  apply BitVec.eq_of_toNat_eq
  simp only [fromBeBytes, word, BitVec.toNat_append, UInt32.toNat_toBitVec, UInt8.toNat_toBitVec,
    UInt32.toNat_or, UInt32.toNat_shiftLeft, UInt8.toNat_toUInt32, Nat.shiftLeft_or_distrib,
    ← Nat.shiftLeft_add]
  change b0.toNat <<< 24 % 2 ^ 32 ||| b1.toNat <<< 16 % 2 ^ 32 ||| b2.toNat <<< 8 % 2 ^ 32 ||| b3.toNat = _
  rw [shiftLeft_fits b0 (by decide), shiftLeft_fits b1 (by decide), shiftLeft_fits b2 (by decide)]

/-- The array holds the first `n` words of the message schedule. -/
def Scheduled (block : List UInt8) (n : Nat) (w : Vector UInt32 80) : Prop :=
  ∀ (t : Nat) (inside : t < 80), t < n → w[t].toBitVec = schedule block t

theorem Scheduled.set {n : Nat} {w : Vector UInt32 80} (scheduled : Scheduled block n w) (bound : n < 80)
    {word : UInt32} (next : word.toBitVec = schedule block n) :
    Scheduled block (n + 1) (w.set n word) := by
  intro t inside early
  rw [Vector.getElem_set]
  split
  next same => rw [next, same]
  next other => exact scheduled t inside (by omega)

theorem scheduled_blockWords : Scheduled block 16 (blockWords block) := by
  apply for_invariant (Scheduled block)
  · exact fun t _ none => absurd none (Nat.not_lt_zero t)
  · intro i w scheduled
    apply scheduled.set
    rw [toBitVec_fromBeBytes, schedule_of_lt i.isLt, blockWord, Nat.mul_comm]

theorem words_eq {t : Nat} (bound : t < 80) : (words block)[t].toBitVec = schedule block t := by
  have whole : Scheduled block (16 + 64) (words block) := by
    apply for_invariant fun n => Scheduled block (16 + n)
    · exact scheduled_blockWords block
    · intro j w scheduled
      have inside : (16 + j : Nat) < 80 := by omega
      apply scheduled.set block inside
      rw [toBitVec_rotateLeft _ (by decide) (by decide), schedule_of_le (Nat.le_add_right ..)]
      simp only [UInt32.toBitVec_xor]
      rw [scheduled _ (by omega) (by omega), scheduled _ (by omega) (by omega),
        scheduled _ (by omega) (by omega), scheduled _ (by omega) (by omega)]
      rfl
  exact whole t bound bound

end Words

section Blocks
variable (state : Vector UInt32 5) (block : List UInt8)

def Variables.registers (v : Variables) : Registers :=
  ⟨v.a.toBitVec, v.b.toBitVec, v.c.toBitVec, v.d.toBitVec, v.e.toBitVec⟩

def registersOf (state : Vector UInt32 5) : Registers :=
  ⟨state[0].toBitVec, state[1].toBitVec, state[2].toBitVec, state[3].toBitVec, state[4].toBitVec⟩

/-- The four ranges have their functions and constants; the code has `or` where the standard has `xor`. -/
theorem mix_eq (v : Variables) (i : Nat) :
    (mix v i).1.toBitVec = f i v.b.toBitVec v.c.toBitVec v.d.toBitVec ∧ (mix v i).2.toBitVec = k i := by
  unfold mix f k
  by_cases first : i ≤ 19
  · have range : i < 20 := by omega
    rw [if_pos first, if_pos range, if_pos range, ch_eq_or]
    exact ⟨rfl, rfl⟩
  · have past : ¬i < 20 := by omega
    rw [if_neg first, if_neg past, if_neg past]
    by_cases second : i ≤ 39
    · have range : i < 40 := by omega
      rw [if_pos second, if_pos range, if_pos range]
      exact ⟨rfl, rfl⟩
    · have past : ¬i < 40 := by omega
      rw [if_neg second, if_neg past, if_neg past]
      by_cases third : i ≤ 59
      · have range : i < 60 := by omega
        rw [if_pos third, if_pos range, if_pos range, maj_eq_or]
        exact ⟨rfl, rfl⟩
      · have past : ¬i < 60 := by omega
        rw [if_neg third, if_neg past, if_neg past]
        exact ⟨rfl, rfl⟩

theorem round_eq {w : Vector UInt32 80} {v : Variables} {i : Fin 80} {message : Nat → Word}
    (scheduled : w[i].toBitVec = message i) :
    (round w v i).registers = v.registers.round message i := by
  obtain ⟨function, constant⟩ := mix_eq v i
  rw [Registers.round, Variables.registers, Variables.registers, Registers.mk.injEq]
  refine ⟨?_, rfl, toBitVec_rotateLeft _ (by decide) (by decide), rfl, rfl⟩
  change (rotateLeft v.a 5 + (mix v i).1 + v.e + (mix v i).2 + w[i]).toBitVec = _
  rw [UInt32.toBitVec_add, UInt32.toBitVec_add, UInt32.toBitVec_add, UInt32.toBitVec_add, function,
    constant, scheduled, toBitVec_rotateLeft _ (by decide) (by decide)]
  rfl

theorem processBlock_eq : registersOf (processBlock state block) = compress (registersOf state) block := by
  let start : Variables := ⟨state[0], state[1], state[2], state[3], state[4]⟩
  have rounds : ((List.finRange 80).foldl (round (words block)) start).registers =
      (registersOf state).rounds (schedule block) 80 := by
    apply for_invariant fun n (v : Variables) => v.registers = (registersOf state).rounds (schedule block) n
    · rfl
    · intro i v same
      rw [round_eq (words_eq block i.isLt), same, Registers.rounds]
  rw [compress, ← rounds]
  rfl

theorem foldl_processBlock (buffer : List UInt8) :
    registersOf ((chunksExact 64 buffer).foldl processBlock new.state) =
      hashValue buffer (buffer.length / 64) := by
  rw [chunksExact, List.foldl_map]
  induction buffer.length / 64 with
  | zero => rfl
  | succ n ih =>
    rw [List.range_succ, List.foldl_append, List.foldl_cons, List.foldl_nil, processBlock_eq, ih]
    rfl

theorem toList_flatMap : state.toList.flatMap toBeBytes = digest (registersOf state) := by
  have entries : state.toList = [state[0], state[1], state[2], state[3], state[4]] := by
    apply List.ext_getElem
    · rw [Vector.length_toList]
      rfl
    · intro i _ bound
      match i with
      | 0 => rfl
      | 1 => rfl
      | 2 => rfl
      | 3 => rfl
      | 4 => rfl
  rw [entries]
  rfl

theorem flatten_chunksExact {α : Type} {size : Nat} {l : List α} (whole : l.length % size = 0) :
    (chunksExact size l).flatten = l := by
  have front : ∀ n, ((List.range n).map fun i => (l.drop (size * i)).take size).flatten =
      l.take (size * n) := by
    intro n
    induction n with
    | zero => rfl
    | succ n ih =>
      rw [List.range_succ, List.map_append, List.flatten_append, ih, Nat.mul_succ, List.take_add]
      simp
  rw [chunksExact, front, Nat.mul_div_cancel' (Nat.dvd_of_mod_eq_zero whole), List.take_length]

end Blocks

section Padding

theorem pushZeros_eq (buffer : List UInt8) :
    pushZeros buffer = buffer ++ List.replicate ((120 - buffer.length % 64) % 64) 0 := by
  induction buffer using pushZeros.induct with
  | case1 buffer full =>
    rw [pushZeros, if_pos full, full]
    exact (List.append_nil buffer).symm
  | case2 buffer room ih =>
    have count : (120 - buffer.length % 64) % 64 = (120 - (buffer.length + 1) % 64) % 64 + 1 := by omega
    rw [pushZeros, if_neg room, ih, List.length_append, List.length_singleton, count,
      List.replicate_succ, List.append_assoc]
    rfl

theorem toUInt8_shiftRight (x n : UInt64) (i : Nat) (shift : n.toNat = 8 * i) (small : i < 8) :
    (x >>> n).toUInt8 = UInt8.ofNat (x.toNat / 256 ^ i) := by
  have within : n.toNat % 64 = 8 * i := by omega
  apply UInt8.toNat_inj.mp
  rw [UInt64.toNat_toUInt8, UInt64.toNat_shiftRight, within, Nat.shiftRight_eq_div_pow, Nat.pow_mul]
  exact UInt8.toNat_ofNat'.symm

theorem toBeBytes64_eq (x : UInt64) : toBeBytes64 x = lengthBytes x.toNat := by
  have last : x.toUInt8 = UInt8.ofNat (x.toNat / 256 ^ 0) := by
    rw [Nat.pow_zero, Nat.div_one]
    rfl
  rw [toBeBytes64, toUInt8_shiftRight x 56 7 rfl (by decide), toUInt8_shiftRight x 48 6 rfl (by decide),
    toUInt8_shiftRight x 40 5 rfl (by decide), toUInt8_shiftRight x 32 4 rfl (by decide),
    toUInt8_shiftRight x 24 3 rfl (by decide), toUInt8_shiftRight x 16 2 rfl (by decide),
    toUInt8_shiftRight x 8 1 rfl (by decide), last]
  rfl

theorem foldl_update (parts : List (List UInt8)) (s : Sha1) : parts.foldl update s =
    ⟨s.state, s.buffer ++ parts.flatten, s.totalLen + UInt64.ofNat parts.flatten.length⟩ := by
  induction parts generalizing s with
  | nil => simp
  | cons data rest ih =>
    rw [List.foldl_cons, ih, List.flatten_cons, List.length_append, UInt64.ofNat_add, update,
      List.append_assoc, UInt64.add_assoc]

theorem padded_eq {message : List UInt8} (short : message.length < 2 ^ 61) (state : Vector UInt32 5) :
    padded ⟨state, message, UInt64.ofNat message.length⟩ = pad message := by
  have bits : (UInt64.ofNat message.length * 8).toNat = 8 * message.length := by
    rw [UInt64.toNat_mul, UInt64.toNat_ofNat']
    change message.length % 2 ^ 64 * 8 % 2 ^ 64 = _
    omega
  have count : zeros message.length = (120 - (message.length + 1) % 64) % 64 :=
    zeros_unique (by omega) (by omega)
  rw [padded, pad, pushZeros_eq, toBeBytes64_eq, bits, List.length_append, List.length_singleton, count]
  simp

end Padding

section Digest
variable {parts : List (List UInt8)}

theorem padded_update (short : parts.flatten.length < 2 ^ 61) :
    padded (parts.foldl update new) = pad parts.flatten := by
  have taken : parts.foldl update new =
      ⟨new.state, parts.flatten, UInt64.ofNat parts.flatten.length⟩ := by
    rw [foldl_update]
    simp [new]
  rw [taken, padded_eq short]

theorem finalize_eq (short : parts.flatten.length < 2 ^ 61) :
    finalize (parts.foldl update new) = sha1 parts.flatten := by
  have state : (parts.foldl update new).state = new.state := by rw [foldl_update]
  rw [finalize, toList_flatMap, state, padded_update short, foldl_processBlock, sha1]

/-- However the message is cut into updates, the result is its SHA-1; the loop of zeros runs fewer than
64 times, and the chunks are the whole buffer. -/
theorem finalize_is_sha1 (parts : List (List UInt8)) (short : parts.flatten.length < 2 ^ 61) :
    finalize (parts.foldl update new) = sha1 parts.flatten ∧
      (∃ count < 64, pushZeros (parts.flatten ++ [0x80]) =
        parts.flatten ++ [0x80] ++ List.replicate count 0) ∧
      (padded (parts.foldl update new)).length % 64 = 0 ∧
      (chunksExact 64 (padded (parts.foldl update new))).flatten = padded (parts.foldl update new) := by
  have whole : (padded (parts.foldl update new)).length % 64 = 0 := by
    rw [padded_update short]
    exact pad_length _
  exact ⟨finalize_eq short, ⟨_, Nat.mod_lt _ (by decide), pushZeros_eq _⟩, whole,
    flatten_chunksExact whole⟩

/-- The text `abc` in two parts. -/
theorem finalize_is_sha1_abc : finalize (update (update new [97]) [98, 99]) = sha1 [97, 98, 99] :=
  (finalize_is_sha1 [[97], [98, 99]] (by decide)).1

/-- The digest of `abc` that the standard prints. -/
example : finalize (update new [97, 98, 99]) =
    [0xa9, 0x99, 0x3e, 0x36, 0x47, 0x06, 0x81, 0x6a, 0xba, 0x3e, 0x25, 0x71, 0x78, 0x50, 0xc2, 0x6c,
      0x9c, 0xd0, 0xd8, 0x9d] := by
  rw [finalize, padded, pushZeros_eq]
  decide +kernel

end Digest

end Sha1

end TinyLb
