import CodeFactory.Stun.Hmac
import Mathlib.Algebra.Ring.Nat

/-!
# `sha1.c`

The digest that `SHA1Input` and `SHA1Result` compute of a message, block by block.
-/

namespace CodeFactory.Stun

/-- `SHA1CircularShift`. -/
def circularShift (bits : Nat) (word : BitVec 32) : BitVec 32 := (word <<< bits) ||| (word >>> (32 - bits))

/-- The word buffers of `SHA1ProcessMessageBlock`, and `Message_Digest` between two blocks. -/
structure Sha1Words where
  a : BitVec 32
  b : BitVec 32
  c : BitVec 32
  d : BitVec 32
  e : BitVec 32
  deriving DecidableEq

/-- What `SHA1Reset` sets. -/
def sha1Reset : Sha1Words := ⟨0x67452301, 0xEFCDAB89, 0x98BADCFE, 0x10325476, 0xC3D2E1F0⟩

/-- The first 16 words of the array `W`. -/
def blockWords : List UInt8 → List (BitVec 32)
  | b₀ :: b₁ :: b₂ :: b₃ :: block =>
    BitVec.ofNat 32 (b₀.toNat * 2 ^ 24 + b₁.toNat * 2 ^ 16 + b₂.toNat * 2 ^ 8 + b₃.toNat) :: blockWords block
  | _ => []

/-- More words of the array `W`, which is kept from its end here. -/
def moreWords : Nat → List (BitVec 32) → List (BitVec 32)
  | 0, w => w
  | n + 1, w => moreWords n (circularShift 1 (w.getD 2 0 ^^^ w.getD 7 0 ^^^ w.getD 13 0 ^^^ w.getD 15 0) :: w)

/-- A round of one of the four loops, with the value its function takes and the constant of the loop. -/
def sha1Round (f : BitVec 32 → BitVec 32 → BitVec 32 → BitVec 32) (k : BitVec 32) (s : Sha1Words) (w : BitVec 32) : Sha1Words :=
  ⟨circularShift 5 s.a + f s.b s.c s.d + s.e + w + k, s.a, circularShift 30 s.b, s.c, s.d⟩

/-- `SHA1ProcessMessageBlock`. -/
def processMessageBlock (digest : Sha1Words) (block : List UInt8) : Sha1Words :=
  let w := (moreWords 64 (blockWords block).reverse).reverse
  let s := (w.take 20).foldl (sha1Round (fun b c d => (b &&& c) ||| (~~~b &&& d)) 0x5A827999) digest
  let s := ((w.drop 20).take 20).foldl (sha1Round (fun b c d => b ^^^ c ^^^ d) 0x6ED9EBA1) s
  let s := ((w.drop 40).take 20).foldl (sha1Round (fun b c d => (b &&& c) ||| (b &&& d) ||| (c &&& d)) 0x8F1BBCDC) s
  let s := ((w.drop 60).take 20).foldl (sha1Round (fun b c d => b ^^^ c ^^^ d) 0xCA62C1D6) s
  ⟨digest.a + s.a, digest.b + s.b, digest.c + s.c, digest.d + s.d, digest.e + s.e⟩

/-- What `SHA1PadMessage` puts behind a message of `n` characters; the number of bits is less than `2 ^ 64`. -/
def padMessage (n : Nat) : List UInt8 :=
  0x80 :: List.replicate (if n % 64 ≤ 55 then 55 - n % 64 else 119 - n % 64) 0 ++
    (wordMemory .big (BitVec.ofNat 32 (8 * n / 2 ^ 32)) ++ wordMemory .big (BitVec.ofNat 32 (8 * n)))

/-- `SHA1ProcessMessageBlock` on so many blocks. -/
def processBlocks (digest : Sha1Words) : Nat → List UInt8 → Sha1Words
  | 0, _ => digest
  | n + 1, message => processBlocks (processMessageBlock digest (message.take 64)) n (message.drop 64)

/-- The digest of a message that is given to `SHA1Input`, from `SHA1Result`. -/
def sha1 (message : List UInt8) : Digest :=
  let padded := message ++ padMessage message.length
  let digest := processBlocks sha1Reset (padded.length / 64) padded
  ⟨[digest.a, digest.b, digest.c, digest.d, digest.e], rfl⟩

example : (sha1 [0x61, 0x62, 0x63]).words = [0xA9993E36, 0x4706816A, 0xBA3E2571, 0x7850C26C, 0x9CD0D89D] := by decide +kernel

/-! ## The code of an empty text -/

theorem hmacSha1_empty : hmacSha1 sha1 .little [0x6b, 0x65, 0x79] [] ≠ .done (rfcHmac sha1 [0x6b, 0x65, 0x79] []) := by decide +kernel

/-- On a host that keeps the lowest octet of a word first, a text is given another code than that of RFC 2104. -/
theorem not_hmacSha1_rfc : ¬∀ (order : ByteOrder) (key context : List UInt8), context.length ≤ bLen * 4 →
    hmacSha1 sha1 order key context = .done (rfcHmac sha1 key context) :=
  fun h => hmacSha1_empty (h .little [0x6b, 0x65, 0x79] [] (Nat.zero_le _))

/-- The theorem, for the text `hi` and the key `key`. -/
theorem hmacSha1_rfc_hi : (∀ sha1 : List UInt8 → Digest, hmacSha1 sha1 .big [0x6b, 0x65, 0x79] [0x68, 0x69] =
      .done (rfcHmac sha1 [0x6b, 0x65, 0x79] [0x68, 0x69])) ↔ ByteOrder.big = .big ∧ 3 ≤ bLen :=
  hmacSha1_rfc_iff .big [0x6b, 0x65, 0x79] [0x68, 0x69] (by decide)

end CodeFactory.Stun
