import Mathlib.Algebra.Ring.Nat
import Mathlib.Data.List.Basic

/-!
# Digest authentication

MD5 and the digests of `digcalcu.c`. The parts of a message that go to `md5_update` one after the other are one list of bytes here.
-/

namespace CodeFactory.Auth

/-! ## MD5 -/

/-- `state` of an `MD5_CTX`. -/
structure Md5State where
  a : UInt32
  b : UInt32
  c : UInt32
  d : UInt32
  deriving DecidableEq, Repr

/-- What `md5_init` sets. -/
def md5Init : Md5State := ⟨0x67452301, 0xefcdab89, 0x98badcfe, 0x10325476⟩

/-- `F`. -/
def md5F (x y z : UInt32) : UInt32 := (x &&& y) ||| (~~~x &&& z)
/-- `G`. -/
def md5G (x y z : UInt32) : UInt32 := (x &&& z) ||| (y &&& ~~~z)
/-- `H`. -/
def md5H (x y z : UInt32) : UInt32 := x ^^^ y ^^^ z
/-- `I`. -/
def md5I (x y z : UInt32) : UInt32 := y ^^^ (x ||| ~~~z)

def rotateLeft (x n : UInt32) : UInt32 := (x <<< n) ||| (x >>> (32 - n))

/-- One of the transformations `FF`, `GG`, `HH` and `II`, after which the four words change their places. -/
def md5Step (f : UInt32 → UInt32 → UInt32 → UInt32) (x : List UInt32) (st : Md5State) (k : Nat) (s ac : UInt32) : Md5State :=
  ⟨st.d, rotateLeft (st.a + f st.b st.c st.d + x.getD k 0 + ac) s + st.b, st.b, st.c⟩

/-- A round: the words that it takes, the shifts and the constants. -/
def md5Round (f : UInt32 → UInt32 → UInt32 → UInt32) (x : List UInt32) (st : Md5State) (ks : List Nat) (ss acs : List UInt32) :
    Md5State :=
  ((ks.zip (ss ++ ss ++ ss ++ ss)).zip acs).foldl (fun st k => md5Step f x st k.1.1 k.1.2 k.2) st

def doDecode : List UInt8 → List UInt32
  | b₀ :: b₁ :: b₂ :: b₃ :: input =>
    (b₀.toUInt32 ||| (b₁.toUInt32 <<< 8) ||| (b₂.toUInt32 <<< 16) ||| (b₃.toUInt32 <<< 24)) :: doDecode input
  | _ => []

def doEncode (input : List UInt32) : List UInt8 :=
  input.flatMap fun (w : UInt32) => [w.toUInt8, (w >>> 8).toUInt8, (w >>> 16).toUInt8, (w >>> 24).toUInt8]

def md5Transform (state : Md5State) (block : List UInt8) : Md5State :=
  let x := doDecode block
  let st := md5Round md5F x state [0, 1, 2, 3, 4, 5, 6, 7, 8, 9, 10, 11, 12, 13, 14, 15] [7, 12, 17, 22]
    [0xd76aa478, 0xe8c7b756, 0x242070db, 0xc1bdceee, 0xf57c0faf, 0x4787c62a, 0xa8304613, 0xfd469501,
      0x698098d8, 0x8b44f7af, 0xffff5bb1, 0x895cd7be, 0x6b901122, 0xfd987193, 0xa679438e, 0x49b40821]
  let st := md5Round md5G x st [1, 6, 11, 0, 5, 10, 15, 4, 9, 14, 3, 8, 13, 2, 7, 12] [5, 9, 14, 20]
    [0xf61e2562, 0xc040b340, 0x265e5a51, 0xe9b6c7aa, 0xd62f105d, 0x2441453, 0xd8a1e681, 0xe7d3fbc8,
      0x21e1cde6, 0xc33707d6, 0xf4d50d87, 0x455a14ed, 0xa9e3e905, 0xfcefa3f8, 0x676f02d9, 0x8d2a4c8a]
  let st := md5Round md5H x st [5, 8, 11, 14, 1, 4, 7, 10, 13, 0, 3, 6, 9, 12, 15, 2] [4, 11, 16, 23]
    [0xfffa3942, 0x8771f681, 0x6d9d6122, 0xfde5380c, 0xa4beea44, 0x4bdecfa9, 0xf6bb4b60, 0xbebfbc70,
      0x289b7ec6, 0xeaa127fa, 0xd4ef3085, 0x4881d05, 0xd9d4d039, 0xe6db99e5, 0x1fa27cf8, 0xc4ac5665]
  let st := md5Round md5I x st [0, 7, 14, 5, 12, 3, 10, 1, 8, 15, 6, 13, 4, 11, 2, 9] [6, 10, 15, 21]
    [0xf4292244, 0x432aff97, 0xab9423a7, 0xfc93a039, 0x655b59c3, 0x8f0ccc92, 0xffeff47d, 0x85845dd1,
      0x6fa87e4f, 0xfe2ce6e0, 0xa3014314, 0x4e0811a1, 0xf7537e82, 0xbd3af235, 0x2ad7d2bb, 0xeb86d391]
  ⟨state.a + st.a, state.b + st.b, state.c + st.c, state.d + st.d⟩

/-- `PADDING` and the number of bits, behind a message of `n` bytes. -/
def md5Padding (n : Nat) : List UInt8 :=
  let index := n % 64
  let bits := 8 * n % 2 ^ 64
  (0x80 :: List.replicate (if index < 56 then 55 - index else 119 - index) 0) ++
    doEncode [(bits % 2 ^ 32).toUInt32, (bits / 2 ^ 32).toUInt32]

/-- `md5_transform` on `n` blocks, one after the other. -/
def md5Blocks (state : Md5State) : Nat → List UInt8 → Md5State
  | 0, _ => state
  | n + 1, input => md5Blocks (md5Transform state (input.take 64)) n (input.drop 64)

/-- The message digest of what was given to `md5_update`, from `md5_final`. -/
def md5 (input : List UInt8) : List UInt8 :=
  let padded := input ++ md5Padding input.length
  let state := md5Blocks md5Init (padded.length / 64) padded
  doEncode [state.a, state.b, state.c, state.d]

/-! ## Digests -/

/-- The characters of a string. -/
def bytes (s : List Char) : List UInt8 := s.map fun ch => ch.toNat.toUInt8

/-- A hexadecimal digit. -/
def hexDigit (j : UInt8) : Char := if j ≤ 9 then Char.ofNat (j.toNat + 48) else Char.ofNat (j.toNat + 87)

def cvtHex (bin : List UInt8) : List Char := bin.flatMap fun (b : UInt8) => [hexDigit ((b >>> 4) &&& 0xf), hexDigit (b &&& 0xf)]

/-- `strcasecmp` gives `0`. -/
def sameNoCase (s t : List Char) : Bool := s.map Char.toLower == t.map Char.toLower

def digestCalcHa1 (alg userName realm password nonce cNonce : List Char) : List Char :=
  let hash1 := md5 (bytes (userName ++ ':' :: realm ++ ':' :: password))
  let hash1 := if sameNoCase alg "md5-sess".toList then md5 (hash1 ++ bytes (':' :: nonce ++ ':' :: cNonce)) else hash1
  cvtHex hash1

/-- `digest_calc_response`; `hEntity` is the array of `HASHHEXLEN` characters. -/
def digestCalcResponse (ha1 nonce nonceCount cNonce qop method digestUri hEntity : List Char) : List Char :=
  let ha2 := md5 (bytes (method ++ ':' :: digestUri ++
    if sameNoCase qop "auth-int".toList then ':' :: hEntity else []))
  let middle := if qop = [] then [] else nonceCount ++ ':' :: cNonce ++ ':' :: qop ++ [':']
  cvtHex (md5 (bytes (ha1 ++ ':' :: nonce ++ ':' :: middle ++ cvtHex ha2)))

end CodeFactory.Auth
