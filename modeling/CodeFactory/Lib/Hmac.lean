import Mathlib.Data.List.Basic

/-!
# Keyed digests

The message authentication code of RFC 2104 over any function from octets to octets.
-/

namespace CodeFactory.Hmac

/-- The octet the key is combined with for the inner digest. -/
def ipad : UInt8 := 0x36

/-- The octet the key is combined with for the outer digest. -/
def opad : UInt8 := 0x5c

variable (hash : List UInt8 → List UInt8) (blockLength : Nat)

/-- The key as a block: one that is too long is replaced by its digest, and zeros are put behind a shorter one. -/
def block (key : List UInt8) : List UInt8 :=
  let key := if blockLength < key.length then hash key else key
  key ++ List.replicate (blockLength - key.length) 0

/-- The authentication code of a text. -/
def code (key text : List UInt8) : List UInt8 :=
  hash ((block hash blockLength key).map (· ^^^ opad) ++ hash ((block hash blockLength key).map (· ^^^ ipad) ++ text))

variable {hash blockLength}

theorem block_of_le {key : List UInt8} (h : key.length ≤ blockLength) :
    block hash blockLength key = key ++ List.replicate (blockLength - key.length) 0 := by
  rw [block, if_neg (Nat.not_lt.2 h)]

theorem length_block {key : List UInt8} (h : key.length ≤ blockLength) : (block hash blockLength key).length = blockLength := by
  rw [block_of_le h, List.length_append, List.length_replicate]
  omega

theorem zipWith_pad (s : List UInt8) (pad : UInt8) :
    List.zipWith (· ^^^ ·) s (List.replicate s.length pad) = s.map (· ^^^ pad) := by
  induction s with
  | nil => rfl
  | cons x s ih => rw [List.length_cons, List.replicate_succ, List.zipWith_cons_cons, ih, List.map_cons]

end CodeFactory.Hmac
