import TinyLb.Base64
import TinyLb.Sha1
import TinyLb.Text

/-! The value of `Sec-WebSocket-Accept`: the key and a fixed text, hashed, in base 64. -/

namespace TinyLb.AcceptKey

/-- `slice::chunks`; the last chunk may be shorter. -/
def chunks {α : Type} (size : Nat) (l : List α) : List (List α) :=
  (List.range ((l.length + size - 1) / size)).map fun i => (l.drop (size * i)).take size

def chars : Vector Char 64 :=
  ⟨"ABCDEFGHIJKLMNOPQRSTUVWXYZabcdefghijklmnopqrstuvwxyz0123456789+/".toList.toArray, by decide⟩

theorem masked (x : UInt32) : (x &&& 0x3F).toNat < 64 := by
  rw [UInt32.toNat_and]
  exact Nat.lt_of_le_of_lt Nat.and_le_right (by decide)

/-- `CHARS[(x & 0x3F) as usize] as char`. -/
def charAt (x : UInt32) : Char := chars.get ⟨(x &&& 0x3F).toNat, masked x⟩

/-- What the loop pushes for a chunk of one to three bytes. -/
def encodeChunk (chunk : List UInt8) : Str :=
  let b0 := (chunk.getD 0 0).toUInt32
  let b1 := if chunk.length > 1 then (chunk.getD 1 0).toUInt32 else 0
  let b2 := if chunk.length > 2 then (chunk.getD 2 0).toUInt32 else 0
  let triple := b0 <<< 16 ||| b1 <<< 8 ||| b2
  [charAt (triple >>> 18), charAt (triple >>> 12),
    if chunk.length > 1 then charAt (triple >>> 6) else '=',
    if chunk.length > 2 then charAt triple else '=']

def base64Encode (data : List UInt8) : Str := (chunks 3 data).flatMap encodeChunk

section Encoding
variable {n : Nat}

theorem charAt_eq (x : UInt32) : charAt x = Base64.letter (x.toNat % 64) := by
  have all : ∀ i : Fin 64, chars.get i = Base64.letter i := by decide +kernel
  have low : (x &&& 0x3F).toNat = x.toNat % 64 := by
    rw [UInt32.toNat_and]
    exact Nat.and_two_pow_sub_one_eq_mod x.toNat 6
  rw [charAt, all]
  exact congrArg Base64.letter low

theorem toNat_triple (b0 b1 b2 : UInt8) :
    (b0.toUInt32 <<< 16 ||| b1.toUInt32 <<< 8 ||| b2.toUInt32).toNat =
      b0.toNat * 65536 + b1.toNat * 256 + b2.toNat := by
  rw [UInt32.toNat_or, UInt32.toNat_or, UInt32.toNat_shiftLeft, UInt32.toNat_shiftLeft,
    UInt8.toNat_toUInt32, UInt8.toNat_toUInt32, UInt8.toNat_toUInt32]
  change b0.toNat <<< 16 % 2 ^ 32 ||| b1.toNat <<< 8 % 2 ^ 32 ||| b2.toNat = _
  rw [Sha1.shiftLeft_fits b0 (by decide), Sha1.shiftLeft_fits b1 (by decide),
    show 16 = 8 + 8 from rfl, Nat.shiftLeft_add, ← Nat.shiftLeft_or_distrib,
    ← Nat.shiftLeft_add_eq_or_of_lt b1.toNat_lt, ← Nat.shiftLeft_add_eq_or_of_lt b2.toNat_lt,
    Nat.shiftLeft_eq, Nat.shiftLeft_eq]
  omega

theorem charAt_sextet {x : UInt32} (shift : UInt32) (i : Nat) (places : shift.toNat = 6 * (3 - i))
    (small : 6 * (3 - i) < 32) : charAt (x >>> shift) = Base64.sextet x.toNat i := by
  have within : shift.toNat % 32 = 6 * (3 - i) := by omega
  rw [charAt_eq, UInt32.toNat_shiftRight, within, Nat.shiftRight_eq_div_pow, Nat.pow_mul]
  rfl

theorem charAt_last (x : UInt32) : charAt x = Base64.sextet x.toNat 3 := by
  rw [charAt_eq, Base64.sextet, Nat.sub_self, Nat.pow_zero, Nat.div_one]

theorem chunks_cons {α : Type} {a b c : α} (rest : List α) :
    chunks 3 (a :: b :: c :: rest) = [a, b, c] :: chunks 3 rest := by
  have count : ((a :: b :: c :: rest).length + 3 - 1) / 3 = (rest.length + 3 - 1) / 3 + 1 := by
    simp only [List.length_cons]
    omega
  rw [chunks, count, List.range_succ_eq_map, List.map_cons, List.map_map]
  rfl

theorem encodeChunk_three (b0 b1 b2 : UInt8) : encodeChunk [b0, b1, b2] =
    [Base64.sextet (b0.toNat * 65536 + b1.toNat * 256 + b2.toNat) 0,
      Base64.sextet (b0.toNat * 65536 + b1.toNat * 256 + b2.toNat) 1,
      Base64.sextet (b0.toNat * 65536 + b1.toNat * 256 + b2.toNat) 2,
      Base64.sextet (b0.toNat * 65536 + b1.toNat * 256 + b2.toNat) 3] := by
  rw [← toNat_triple, ← charAt_sextet 18 0 rfl (by decide), ← charAt_sextet 12 1 rfl (by decide),
    ← charAt_sextet 6 2 rfl (by decide), ← charAt_last]
  rfl

theorem encodeChunk_two (b0 b1 : UInt8) : encodeChunk [b0, b1] =
    [Base64.sextet (b0.toNat * 65536 + b1.toNat * 256) 0,
      Base64.sextet (b0.toNat * 65536 + b1.toNat * 256) 1,
      Base64.sextet (b0.toNat * 65536 + b1.toNat * 256) 2, '='] := by
  have number : (b0.toUInt32 <<< 16 ||| b1.toUInt32 <<< 8 ||| UInt8.toUInt32 0).toNat =
      b0.toNat * 65536 + b1.toNat * 256 := by
    rw [toNat_triple, UInt8.toNat_zero, Nat.add_zero]
  rw [← number, ← charAt_sextet 18 0 rfl (by decide), ← charAt_sextet 12 1 rfl (by decide),
    ← charAt_sextet 6 2 rfl (by decide)]
  rfl

theorem encodeChunk_one (b0 : UInt8) : encodeChunk [b0] =
    [Base64.sextet (b0.toNat * 65536) 0, Base64.sextet (b0.toNat * 65536) 1, '=', '='] := by
  have number : (b0.toUInt32 <<< 16 ||| UInt8.toUInt32 0 <<< 8 ||| UInt8.toUInt32 0).toNat =
      b0.toNat * 65536 := by
    rw [toNat_triple, UInt8.toNat_zero, Nat.zero_mul, Nat.add_zero]
  rw [← number, ← charAt_sextet 18 0 rfl (by decide), ← charAt_sextet 12 1 rfl (by decide)]
  rfl

theorem base64Encode_eq (data : List UInt8) : base64Encode data = Base64.encode data := by
  induction data using Base64.encode.induct with
  | case1 => rfl
  | case2 b0 =>
    have alone : chunks 3 [b0] = [[b0]] := by simp [chunks]
    rw [base64Encode, alone, List.flatMap_singleton, encodeChunk_one, Base64.encode]
  | case3 b0 b1 =>
    have alone : chunks 3 [b0, b1] = [[b0, b1]] := by simp [chunks]
    rw [base64Encode, alone, List.flatMap_singleton, encodeChunk_two, Base64.encode]
  | case4 b0 b1 b2 rest ih =>
    rw [base64Encode, chunks_cons, List.flatMap_cons, encodeChunk_three, Base64.encode, ← ih]
    rfl

/-- Decoding gives the data back, the text is canonical and of the right length, and every canonical
text is the encoding of what it decodes to. -/
theorem base64_encode_standard :
    (∀ data, Base64.decode (base64Encode data) = some data ∧
      (base64Encode data).length = 4 * ((data.length + 2) / 3) ∧
      Base64.Canonical (base64Encode data) ∧ Base64.Padded (base64Encode data)) ∧
    ∀ text, Base64.Canonical text → ∃ data, Base64.decode text = some data ∧ base64Encode data = text := by
  refine ⟨fun data => ?_, fun text canonical => ?_⟩
  · rw [base64Encode_eq]
    exact ⟨Base64.decode_encode data, Base64.length_encode data, Base64.encode_canonical data,
      (Base64.encode_canonical data).padded⟩
  · obtain ⟨data, read, same⟩ := Base64.encode_decode canonical
    exact ⟨data, read, by rw [base64Encode_eq, same]⟩

theorem base64_encode_standard_two : ∃ data, Base64.decode "TWE=".toList = some data ∧
    base64Encode data = "TWE=".toList := by
  have letters : Base64.value 'T' = some 19 ∧ Base64.value 'W' = some 22 ∧ Base64.value 'E' = some 4 := by
    decide
  exact base64_encode_standard.2 _ (.two letters.1 letters.2.1 letters.2.2 rfl)

end Encoding

section Key

/-- `str::as_bytes`. -/
def asBytes (s : Str) : List UInt8 := s.flatMap String.utf8EncodeChar

def magic : Str := "258EAFA5-E914-47DA-95CA-C5AB0DC85B11".toList

def computeAcceptKey (key : Str) : Str :=
  base64Encode ((Sha1.new.update (asBytes key)).update (asBytes magic)).finalize

theorem computeAcceptKey_eq {key : Str} (short : (asBytes key).length + 36 < 2 ^ 61) :
    computeAcceptKey key = Base64.encode (SecureHash.sha1 (asBytes key ++ asBytes magic)) := by
  have length : (asBytes magic).length = 36 := by decide +kernel
  have both : [asBytes key, asBytes magic].flatten = asBytes key ++ asBytes magic := by simp
  have fits : [asBytes key, asBytes magic].flatten.length < 2 ^ 61 := by
    rw [both, List.length_append, length]
    exact short
  rw [computeAcceptKey, base64Encode_eq, ← both, ← Sha1.finalize_eq fits]
  rfl

example : computeAcceptKey "dGhlIHNhbXBsZSBub25jZQ==".toList = "s3pPLMBiTxaQ9kYGzzhZRbK+xOo=".toList := by
  rw [computeAcceptKey, Sha1.finalize, Sha1.padded, Sha1.pushZeros_eq]
  decide +kernel

end Key

end TinyLb.AcceptKey
