import CodeFactory.Lib.Hmac
import CodeFactory.Lib.Outcome

/-!
# `hmac_sha1`

The function of `hmac.c` over any function that gives five words for a message, as `SHA1Input` and `SHA1Result` do. The words are
copied as they lie in the memory, and how they lie there depends on the host.
-/

namespace CodeFactory.Stun

def bLen : Nat := 64

/-- The order in which a host keeps the octets of a word. -/
inductive ByteOrder where
  | big
  | little
  deriving DecidableEq, Repr

/-- `Message_Digest`. -/
structure Digest where
  words : List (BitVec 32)
  length_words : words.length = 5
  deriving DecidableEq

/-- An octet of a word, counted from the lowest. -/
def octet (w : BitVec 32) (i : Nat) : UInt8 := ((w >>> (8 * i)).toNat % 256).toUInt8

def wordMemory (order : ByteOrder) (w : BitVec 32) : List UInt8 :=
  match order with
  | .big => [octet w 3, octet w 2, octet w 1, octet w 0]
  | .little => [octet w 0, octet w 1, octet w 2, octet w 3]

/-- The memory of the words of a digest. -/
def Digest.memory (order : ByteOrder) (d : Digest) : List UInt8 := d.words.flatMap (wordMemory order)

/-- The digest as RFC 3174 writes it. -/
def Digest.octets (d : Digest) : List UInt8 := d.memory .big

/-- `encrypt_xor` of the first `B_LEN` characters of two arrays. -/
def xorPad (keypad pad : List UInt8) : List UInt8 := List.zipWith (· ^^^ ·) (keypad.take bLen) pad

/-- `hmac_sha1`: what is written to `result`. `keypad` has room for `B_LEN` characters and a zero, and `contextpad1` for five times
`B_LEN`. -/
def hmacSha1 (sha1 : List UInt8 → Digest) (order : ByteOrder) (key context : List UInt8) : Outcome (List UInt8) :=
  if bLen + 1 < key.length + 1 then .undefined
  else if bLen * 5 < bLen + context.length then .undefined
  else
    let keypad := key ++ List.replicate (bLen + 1 - key.length) 0
    let firstXor := xorPad keypad (List.replicate bLen 0x36)
    let secondXor := xorPad keypad (List.replicate bLen 0x5c)
    let sha := sha1 (firstXor ++ context)
    .done ((sha1 (secondXor ++ sha.memory order)).memory order)

/-- The code of RFC 2104 over the digest as RFC 3174 writes it. -/
def rfcHmac (sha1 : List UInt8 → Digest) (key context : List UInt8) : List UInt8 :=
  Hmac.code (fun message => (sha1 message).octets) bLen key context

/-! ## The key -/

/-- The array that the key is copied to is combined with a pad as the block of RFC 2104 is. -/
theorem xorPad_replicate {hash : List UInt8 → List UInt8} {key : List UInt8} (h : key.length ≤ bLen) (pad : UInt8) :
    xorPad (key ++ List.replicate (bLen + 1 - key.length) 0) (List.replicate bLen pad) =
      (Hmac.block hash bLen key).map (· ^^^ pad) := by
  have hblock : Hmac.block hash bLen key = key ++ List.replicate (bLen - key.length) 0 := Hmac.block_of_le h
  have hsplit : bLen + 1 - key.length = (bLen - key.length) + 1 := by omega
  have htake : (key ++ List.replicate (bLen + 1 - key.length) 0).take bLen = Hmac.block hash bLen key := by
    rw [hsplit, List.replicate_succ', ← List.append_assoc, ← hblock, List.take_left' (Hmac.length_block h)]
  have hpad := Hmac.zipWith_pad (Hmac.block hash bLen key) pad
  rw [Hmac.length_block h] at hpad
  rw [xorPad, htake, hpad]

/-! ## When the code is that of RFC 2104 -/

section Rfc

variable {sha1 : List UInt8 → Digest} {order : ByteOrder} {key context : List UInt8}

/-- What a text that fits is given for a key that fits. -/
theorem hmacSha1_eq (hkey : key.length ≤ bLen) (hcontext : context.length ≤ bLen * 4) : hmacSha1 sha1 order key context =
    .done ((sha1 ((Hmac.block (fun m => (sha1 m).octets) bLen key).map (· ^^^ Hmac.opad) ++
      (sha1 ((Hmac.block (fun m => (sha1 m).octets) bLen key).map (· ^^^ Hmac.ipad) ++ context)).memory order)).memory order) := by
  unfold hmacSha1
  rw [if_neg (by omega), if_neg (by unfold bLen at *; omega)]
  simp only
  rw [xorPad_replicate hkey, xorPad_replicate hkey]
  rfl

theorem hmacSha1_long (hkey : bLen < key.length) : hmacSha1 sha1 order key context = .undefined :=
  if_pos (Nat.add_lt_add_right hkey 1)

/-- On a host that keeps the highest octet of a word first, the code is that of RFC 2104. -/
theorem hmacSha1_big (hkey : key.length ≤ bLen) (hcontext : context.length ≤ bLen * 4) :
    hmacSha1 sha1 .big key context = .done (rfcHmac sha1 key context) := hmacSha1_eq hkey hcontext

end Rfc

/-- The digest of the word 1 and zeros. -/
def one : Digest := ⟨[1, 0, 0, 0, 0], rfl⟩

/-- **A text that fits the buffer gets the code of RFC 2104**, whatever the function of the digest is, exactly on the hosts that keep
the highest octet of a word first and for the keys of at most 64 characters. -/
theorem hmacSha1_rfc_iff (order : ByteOrder) (key context : List UInt8) (hcontext : context.length ≤ bLen * 4) :
    (∀ sha1 : List UInt8 → Digest, hmacSha1 sha1 order key context = .done (rfcHmac sha1 key context)) ↔
      order = .big ∧ key.length ≤ bLen := by
  constructor
  · intro h
    have hkey : key.length ≤ bLen := by
      by_contra hlong
      have hone := h fun _ => one
      rw [hmacSha1_long (Nat.lt_of_not_le hlong)] at hone
      cases hone
    refine ⟨?_, hkey⟩
    cases order with
    | big => rfl
    | little =>
      -- a digest whose octets read differently from the other end
      have hone := h fun _ => one
      rw [hmacSha1_eq hkey hcontext] at hone
      have hmemory : one.memory .little = one.octets := Outcome.done.inj hone
      exact absurd hmemory (by decide)
  · rintro ⟨rfl, hkey⟩ sha1
    exact hmacSha1_big hkey hcontext

end CodeFactory.Stun
