import Mathlib.Data.List.Basic

/-!
# What arrives on a connection

The octets of a stream come in pieces, and a read can fail in between. Behind the last arrival the peer has closed.
-/

namespace CodeFactory

/-- What the next read comes upon. -/
inductive Arrival where
  | piece (b : UInt8) (bs : List UInt8)
  | failed (errno : Nat)
  deriving DecidableEq, Repr

/-- The octets that arrive. -/
def Arrival.octets : Arrival → List UInt8
  | piece b bs => b :: bs
  | failed _ => []

/-- The octets of the connection. -/
def octetsIn (as : List Arrival) : List UInt8 := as.flatMap Arrival.octets

/-- What is left of a piece. -/
def leftover : List UInt8 → List Arrival
  | [] => []
  | b :: bs => [.piece b bs]

/-- What `read` gives: an error number, or octets. Behind the last arrival it gives none. -/
def read (count : Nat) : List Arrival → Except Nat (List UInt8) × List Arrival
  | [] => (.ok [], [])
  | .piece b bs :: as => (.ok ((b :: bs).take count), leftover ((b :: bs).drop count) ++ as)
  | .failed errno :: as => if count = 0 then (.ok [], .failed errno :: as) else (.error errno, as)

variable {as rest : List Arrival}

@[simp] theorem octetsIn_nil : octetsIn [] = [] := rfl

@[simp] theorem octetsIn_piece (b : UInt8) (bs : List UInt8) (as : List Arrival) :
    octetsIn (.piece b bs :: as) = b :: bs ++ octetsIn as := rfl

@[simp] theorem octetsIn_failed (errno : Nat) (as : List Arrival) : octetsIn (.failed errno :: as) = octetsIn as := rfl

@[simp] theorem octetsIn_leftover (bs : List UInt8) (as : List Arrival) : octetsIn (leftover bs ++ as) = bs ++ octetsIn as := by
  cases bs <;> rfl

/-- A read takes its octets from the connection. -/
theorem octetsIn_of_read {count : Nat} {bs : List UInt8} (h : read count as = (.ok bs, rest)) : octetsIn as = bs ++ octetsIn rest := by
  cases as with
  | nil =>
    cases h
    rfl
  | cons a as =>
    cases a with
    | piece b bs =>
      cases h
      rw [octetsIn_leftover, octetsIn_piece, ← List.append_assoc, List.take_append_drop]
    | failed errno =>
      rw [read] at h
      split at h
      next => cases h; rfl
      next => cases h

theorem eq_of_read_error {count errno : Nat} (h : read count as = (.error errno, rest)) : as = .failed errno :: rest := by
  cases as with
  | nil => cases h
  | cons a as =>
    cases a with
    | piece b bs => cases h
    | failed e =>
      rw [read] at h
      split at h
      next => cases h
      next => cases h; rfl

end CodeFactory
