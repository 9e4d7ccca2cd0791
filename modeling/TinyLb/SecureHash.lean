import Mathlib.Algebra.Group.Nat.Defs
import Mathlib.Data.List.Basic
import Mathlib.Data.Nat.Find

/-! The hash function SHA-1 of FIPS 180-4, for messages of whole bytes. -/

namespace TinyLb.SecureHash

abbrev Word := BitVec 32

def ch (x y z : Word) : Word := (x &&& y) ^^^ (~~~x &&& z)

def parity (x y z : Word) : Word := x ^^^ y ^^^ z

def maj (x y z : Word) : Word := (x &&& y) ^^^ (x &&& z) ^^^ (y &&& z)

def f (t : Nat) : Word → Word → Word → Word :=
  if t < 20 then ch else if t < 40 then parity else if t < 60 then maj else parity

def k (t : Nat) : Word :=
  if t < 20 then 0x5a827999 else if t < 40 then 0x6ed9eba1 else if t < 60 then 0x8f1bbcdc else 0xca62c1d6

/-- Five words: the working variables of a round, or a hash value. -/
structure Registers where
  a : Word
  b : Word
  c : Word
  d : Word
  e : Word
  deriving DecidableEq, Repr

namespace Registers

def initial : Registers := ⟨0x67452301, 0xefcdab89, 0x98badcfe, 0x10325476, 0xc3d2e1f0⟩

def add (r s : Registers) : Registers := ⟨r.a + s.a, r.b + s.b, r.c + s.c, r.d + s.d, r.e + s.e⟩

def round (schedule : Nat → Word) (t : Nat) (r : Registers) : Registers :=
  ⟨r.a.rotateLeft 5 + f t r.b r.c r.d + r.e + k t + schedule t, r.a, r.b.rotateLeft 30, r.c, r.d⟩

def rounds (schedule : Nat → Word) (r : Registers) : Nat → Registers
  | 0 => r
  | t + 1 => (rounds schedule r t).round schedule t

end Registers

/-- A message always fits into blocks of 64 bytes with a byte `0x80`, some zeros and its length. -/
theorem exists_zeros (n : Nat) : ∃ zeros, (n + 1 + zeros + 8) % 64 = 0 :=
  ⟨(64 - (n + 9) % 64) % 64, by omega⟩

/-- The least number of zeros. -/
def zeros (n : Nat) : Nat := Nat.find (exists_zeros n)

def lengthBytes (bits : Nat) : List UInt8 :=
  (List.range 8).map fun i => UInt8.ofNat (bits / 256 ^ (7 - i))

def pad (message : List UInt8) : List UInt8 :=
  message ++ 0x80 :: (List.replicate (zeros message.length) 0 ++ lengthBytes (8 * message.length))

def word (b0 b1 b2 b3 : UInt8) : Word := b0.toBitVec ++ b1.toBitVec ++ b2.toBitVec ++ b3.toBitVec

def wordBytes (w : Word) : List UInt8 :=
  [⟨w.extractLsb' 24 8⟩, ⟨w.extractLsb' 16 8⟩, ⟨w.extractLsb' 8 8⟩, ⟨w.extractLsb' 0 8⟩]

def blockWord (block : List UInt8) (j : Nat) : Word :=
  word (block.getD (4 * j) 0) (block.getD (4 * j + 1) 0) (block.getD (4 * j + 2) 0)
    (block.getD (4 * j + 3) 0)

def block (padded : List UInt8) (i : Nat) : List UInt8 := (padded.drop (64 * i)).take 64

def schedule (block : List UInt8) (t : Nat) : Word :=
  if t < 16 then blockWord block t
  else
    (schedule block (t - 3) ^^^ schedule block (t - 8) ^^^ schedule block (t - 14) ^^^
      schedule block (t - 16)).rotateLeft 1

def compress (h : Registers) (block : List UInt8) : Registers := h.add (h.rounds (schedule block) 80)

def hashValue (padded : List UInt8) : Nat → Registers
  | 0 => .initial
  | i + 1 => compress (hashValue padded i) (block padded i)

def digest (h : Registers) : List UInt8 := [h.a, h.b, h.c, h.d, h.e].flatMap wordBytes

def sha1 (message : List UInt8) : List UInt8 :=
  digest (hashValue (pad message) ((pad message).length / 64))

section Laws
variable (x y z : Word)

/-- The two halves of a choice never both have a bit, so they may as well be joined. -/
theorem ch_eq_or : ch x y z = (x &&& y) ||| (~~~x &&& z) := by
  ext i
  simp only [ch, BitVec.getElem_xor, BitVec.getElem_or, BitVec.getElem_and, BitVec.getElem_not]
  cases x[i] <;> simp

theorem maj_eq_or : maj x y z = (x &&& y) ||| (x &&& z) ||| (y &&& z) := by
  ext i
  simp only [maj, BitVec.getElem_xor, BitVec.getElem_or, BitVec.getElem_and]
  cases x[i] <;> cases y[i] <;> simp

theorem schedule_of_lt {block : List UInt8} {t : Nat} (early : t < 16) :
    schedule block t = blockWord block t := by
  rw [schedule, if_pos early]

theorem schedule_of_le {block : List UInt8} {t : Nat} (late : 16 ≤ t) :
    schedule block t = (schedule block (t - 3) ^^^ schedule block (t - 8) ^^^ schedule block (t - 14) ^^^
      schedule block (t - 16)).rotateLeft 1 := by
  rw [schedule, if_neg (Nat.not_lt.mpr late)]

theorem zeros_unique {n count : Nat} (few : count < 64) (complete : (n + 1 + count + 8) % 64 = 0) :
    zeros n = count := by
  have least := Nat.find_spec (exists_zeros n)
  have below : zeros n ≤ count := Nat.find_min' (exists_zeros n) complete
  change (n + 1 + zeros n + 8) % 64 = 0 at least
  omega

theorem pad_length (message : List UInt8) : (pad message).length % 64 = 0 := by
  have least := Nat.find_spec (exists_zeros message.length)
  change (message.length + 1 + zeros message.length + 8) % 64 = 0 at least
  simp only [pad, lengthBytes, List.length_append, List.length_cons, List.length_replicate,
    List.length_map, List.length_range]
  omega

end Laws

end TinyLb.SecureHash
