import Mathlib.Logic.Function.Basic
import Mathlib.Data.List.Basic

/-!
# Bytes in memory

`Bytes` is a memory of bytes of which only finitely many are not zero, so that every string in it ends. Blocks are written and
read byte by byte, and what a block is written over is all that changes.
-/

namespace CodeFactory

abbrev Byte := BitVec 8

/-- A string: bytes without a zero, which stands behind them. -/
@[ext] structure CStr where
  chars : List Byte
  noNul : 0 ∉ chars
  deriving DecidableEq

/-- The bytes a string takes, the zero behind it included. -/
def CStr.bytes (s : CStr) : List Byte := s.chars ++ [0]

/-- A memory, zero from `top` on. -/
structure Bytes where
  cell : Nat → Byte
  top : Nat
  beyond : ∀ a, top ≤ a → cell a = 0

namespace Bytes

/-- A memory of zeros. -/
def zero : Bytes := ⟨fun _ => 0, 0, fun _ _ => rfl⟩

/-- Write one byte. -/
def store (m : Bytes) (a : Nat) (b : Byte) : Bytes where
  cell := Function.update m.cell a b
  top := max m.top (a + 1)
  beyond := by
    intro x hx
    rw [Function.update_of_ne (by omega)]
    exact m.beyond x (by omega)

/-- Write a block, as `memcpy` does. -/
def write (m : Bytes) (a : Nat) : List Byte → Bytes
  | [] => m
  | b :: bs => (m.store a b).write (a + 1) bs

/-- Read a block of `n` bytes. -/
def read (m : Bytes) (a : Nat) : Nat → List Byte
  | 0 => []
  | n + 1 => m.cell a :: m.read (a + 1) n

/-- The bytes from an address to the first zero, of which at most `n` are looked at. -/
def scan (m : Bytes) (a : Nat) : Nat → List Byte
  | 0 => []
  | n + 1 => if m.cell a = 0 then [] else m.cell a :: m.scan (a + 1) n

theorem scan_noNul (m : Bytes) (a n : Nat) : 0 ∉ m.scan a n := by
  induction n generalizing a with
  | zero => simp [scan]
  | succ n ih =>
    unfold scan
    split
    · simp
    · rename_i h
      exact fun hm => (List.mem_cons.1 hm).elim (fun he => h he.symm) (ih (a + 1))

/-- The string at an address, up to the first zero. -/
def str (m : Bytes) (a : Nat) : CStr := ⟨m.scan a (m.top - a), m.scan_noNul a _⟩

/-- `bs` stands in memory from the address `a` on. -/
def Holds (m : Bytes) (a : Nat) (bs : List Byte) : Prop := m.read a bs.length = bs

theorem holds_nil (m : Bytes) (a : Nat) : m.Holds a [] := rfl

theorem holds_cons {m : Bytes} {a : Nat} {b : Byte} {bs : List Byte} :
    m.Holds a (b :: bs) ↔ m.cell a = b ∧ m.Holds (a + 1) bs := by
  simp [Holds, read]

theorem store_cell_self (m : Bytes) (a : Nat) (b : Byte) : (m.store a b).cell a = b := Function.update_self ..

theorem store_cell_of_ne (m : Bytes) {a x : Nat} (b : Byte) (h : x ≠ a) : (m.store a b).cell x = m.cell x :=
  Function.update_of_ne h ..

theorem write_cell_of_lt (m : Bytes) {a x : Nat} (bs : List Byte) (h : x < a) : (m.write a bs).cell x = m.cell x := by
  induction bs generalizing m a with
  | nil => rfl
  | cons b bs ih => rw [write, ih _ (by omega), store_cell_of_ne _ _ (by omega)]

theorem write_holds (m : Bytes) (a : Nat) (bs : List Byte) : (m.write a bs).Holds a bs := by
  induction bs generalizing m a with
  | nil => exact holds_nil _ _
  | cons b bs ih =>
    refine holds_cons.2 ⟨?_, ih _ _⟩
    rw [write, write_cell_of_lt _ _ (by omega), store_cell_self]

/-- A block is not moved by what changes only later cells. -/
theorem Holds.congr {m m' : Bytes} {a : Nat} {bs : List Byte} (h : m.Holds a bs)
    (hm : ∀ x < a + bs.length, m'.cell x = m.cell x) : m'.Holds a bs := by
  induction bs generalizing a with
  | nil => exact holds_nil _ _
  | cons b bs ih =>
    obtain ⟨hb, hbs⟩ := holds_cons.1 h
    rw [List.length_cons] at hm
    refine holds_cons.2 ⟨(hm a (by omega)).trans hb, ih hbs fun x hx => hm x (by omega)⟩

theorem scan_of_holds {m : Bytes} {a n : Nat} {cs : List Byte} (hcs : 0 ∉ cs) (h : m.Holds a (cs ++ [0]))
    (hn : cs.length ≤ n) : m.scan a n = cs := by
  induction cs generalizing a n with
  | nil =>
    cases n with
    | zero => rfl
    | succ n => rw [scan, if_pos (holds_cons.1 h).1]
  | cons b cs ih =>
    obtain ⟨hb, hrest⟩ := holds_cons.1 (List.cons_append ▸ h)
    rw [List.mem_cons, not_or] at hcs
    rw [List.length_cons] at hn
    obtain ⟨k, rfl⟩ : ∃ k, n = k + 1 := ⟨n - 1, by omega⟩
    rw [scan, if_neg (fun he => hcs.1 (he.symm.trans hb)), hb, ih hcs.2 hrest (by omega)]

/-- A block without zeros lies below the top. -/
theorem Holds.length_le {m : Bytes} {a : Nat} {cs : List Byte} (hcs : 0 ∉ cs) (h : m.Holds a cs) : cs.length ≤ m.top - a := by
  induction cs generalizing a with
  | nil => exact Nat.zero_le _
  | cons b cs ih =>
    obtain ⟨hb, hrest⟩ := holds_cons.1 h
    rw [List.mem_cons, not_or] at hcs
    have hlt : a < m.top := by
      by_contra hge
      exact hcs.1 ((m.beyond a (by omega)).symm.trans hb)
    have hle := ih hcs.2 hrest
    rw [List.length_cons]
    omega

theorem Holds.of_append {m : Bytes} {a : Nat} {bs cs : List Byte} (h : m.Holds a (bs ++ cs)) : m.Holds a bs := by
  induction bs generalizing a with
  | nil => exact holds_nil _ _
  | cons b bs ih =>
    obtain ⟨hb, hrest⟩ := holds_cons.1 (List.cons_append ▸ h)
    exact holds_cons.2 ⟨hb, ih hrest⟩

/-- The string that was written is read. -/
theorem str_of_holds {m : Bytes} {a : Nat} {s : CStr} (h : m.Holds a s.bytes) : m.str a = s :=
  CStr.ext (scan_of_holds s.noNul h (h.of_append.length_le s.noNul))

end Bytes

end CodeFactory
