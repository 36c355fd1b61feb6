import Mathlib.Algebra.Group.Nat.Defs
import Mathlib.Logic.Function.Basic
import Mathlib.Tactic.Common

/-!
# Byte-addressed memory, little endian

`m.read n a` is the number in the `n` bytes from `a` on, `m.write n a v` puts it there.

    (m.write n a v).read n a = v % 256 ^ n                              (read_write)
    b < a ∨ a + n ≤ b → m.write n a v b = m b                           (write_out)
    two memories that agree on the bytes from a on read the same there  (read_congr)
    (m.write n a (m'.read n b)) (a + i) = m' (b + i)                    (write_read)
    m.read (n + k) a = m.read n a + 256 ^ n * m.read k (a + n)          (read_add)
    (writeFields fs a m).read (size fs) a = packed fs                   (read_writeFields)

A record is written member by member; `packed` is the number its bytes make together.
-/

/-- The byte at each address. -/
abbrev Bytes := Nat → UInt8

namespace Bytes

def read (m : Bytes) : Nat → Nat → Nat
  | 0, _ => 0
  | n + 1, a => (m a).toNat + 256 * read m n (a + 1)

def write (m : Bytes) : Nat → Nat → Nat → Bytes
  | 0, _, _ => m
  | n + 1, a, v => write (Function.update m a (UInt8.ofNat v)) n (a + 1) (v / 256)

theorem read_lt (m : Bytes) : ∀ n a, read m n a < 256 ^ n := by
  intro n
  induction n with
  | zero => intro a; simp [read]
  | succ n ih =>
    intro a
    have h1 := (m a).toNat_lt
    have h2 := ih (a + 1)
    rw [read, Nat.pow_succ]
    omega

theorem read_congr {m m' : Bytes} : ∀ {n a : Nat}, (∀ i, i < n → m (a + i) = m' (a + i)) →
    read m n a = read m' n a := by
  intro n
  induction n with
  | zero => intro a _; rfl
  | succ n ih =>
    intro a h
    have h0 := h 0 (by omega)
    rw [Nat.add_zero] at h0
    rw [read, read, h0, ih fun i hi => ?_]
    rw [Nat.add_assoc, Nat.add_comm 1 i]
    exact h (i + 1) (by omega)

theorem read_zero {m : Bytes} : ∀ {n a : Nat}, (∀ i, i < n → m (a + i) = 0) → read m n a = 0 := by
  intro n
  induction n with
  | zero => intro a _; rfl
  | succ n ih =>
    intro a h
    have h0 : m a = 0 := h 0 (Nat.zero_lt_succ n)
    rw [read, h0, ih fun i hi => ?_]
    · rfl
    · rw [Nat.add_assoc, Nat.add_comm 1 i]
      exact h (i + 1) (Nat.succ_lt_succ hi)

theorem write_out : ∀ (n a v b : Nat) (m : Bytes), b < a ∨ a + n ≤ b → write m n a v b = m b := by
  intro n
  induction n with
  | zero => intro a v b m _; rfl
  | succ n ih =>
    intro a v b m h
    rw [write, ih _ _ _ _ (by omega), Function.update_of_ne (by omega)]

/-- **Read after write.** -/
theorem read_write : ∀ (n a v : Nat) (m : Bytes), read (write m n a v) n a = v % 256 ^ n := by
  intro n
  induction n with
  | zero => intro a v m; rw [read, Nat.pow_zero, Nat.mod_one]
  | succ n ih =>
    intro a v m
    have hmod := Nat.mod_mul (x := v) (a := 256) (b := 256 ^ n)
    rw [read, write, ih, write_out _ _ _ _ _ (by omega), Function.update_self, UInt8.toNat_ofNat',
      Nat.pow_succ' (n := n), hmod]

theorem read_write_out (m : Bytes) (n a v k b : Nat) (h : b + k ≤ a ∨ a + n ≤ b) :
    read (write m n a v) k b = read m k b :=
  read_congr fun i hi => write_out n a v (b + i) m (by omega)

/-- Bytes read in one place and written in another are copied. -/
theorem write_read (m' : Bytes) : ∀ (n a b i : Nat) (m : Bytes), i < n →
    write m n a (read m' n b) (a + i) = m' (b + i) := by
  intro n
  induction n with
  | zero => intro a b i m hi; omega
  | succ n ih =>
    intro a b i m hi
    have hb := (m' b).toNat_lt
    have hdiv : ((m' b).toNat + 256 * read m' n (b + 1)) / 256 = read m' n (b + 1) := by omega
    rw [read, write, hdiv]
    cases i with
    | zero =>
      have hlow : UInt8.ofNat ((m' b).toNat + 256 * read m' n (b + 1)) = m' b := by
        apply UInt8.toNat_inj.mp
        rw [UInt8.toNat_ofNat']
        omega
      rw [hlow, write_out _ _ _ _ _ (by omega)]
      exact Function.update_self _ _ _
    | succ i =>
      rw [show a + (i + 1) = a + 1 + i by omega, show b + (i + 1) = b + 1 + i by omega]
      exact ih (a + 1) (b + 1) i _ (by omega)

theorem read_add (m : Bytes) : ∀ n k a, read m (n + k) a = read m n a + 256 ^ n * read m k (a + n) := by
  intro n
  induction n with
  | zero =>
    intro k a
    rw [Nat.zero_add, read, Nat.pow_zero, Nat.one_mul, Nat.zero_add, Nat.add_zero]
  | succ n ih =>
    intro k a
    rw [Nat.add_right_comm, read, ih, read, Nat.pow_succ', Nat.mul_add, ← Nat.mul_assoc,
      show a + 1 + n = a + (n + 1) by omega, ← Nat.add_assoc]

/-! ## Records -/

/-- The members of a record, each with its size in bytes, from address `a` on. -/
def writeFields : List (Nat × Nat) → Nat → Bytes → Bytes
  | [], _, m => m
  | (n, v) :: fs, a, m => writeFields fs (a + n) (m.write n a v)

def size : List (Nat × Nat) → Nat
  | [] => 0
  | (n, _) :: fs => n + size fs

def packed : List (Nat × Nat) → Nat
  | [] => 0
  | (n, v) :: fs => v % 256 ^ n + 256 ^ n * packed fs

theorem writeFields_out : ∀ (fs : List (Nat × Nat)) (a b : Nat) (m : Bytes), b < a ∨ a + size fs ≤ b →
    writeFields fs a m b = m b := by
  intro fs
  induction fs with
  | nil => exact fun a b m _ => rfl
  | cons f fs ih =>
    intro a b m h
    rw [size] at h
    rw [writeFields, ih _ _ _ (by omega), write_out _ _ _ _ _ (by omega)]

theorem read_writeFields_out (m : Bytes) (fs : List (Nat × Nat)) (a k b : Nat)
    (h : b + k ≤ a ∨ a + size fs ≤ b) : read (writeFields fs a m) k b = read m k b :=
  read_congr fun i hi => writeFields_out fs a (b + i) m (by omega)

theorem read_writeFields : ∀ (fs : List (Nat × Nat)) (a : Nat) (m : Bytes),
    read (writeFields fs a m) (size fs) a = packed fs := by
  intro fs
  induction fs with
  | nil => exact fun a m => rfl
  | cons f fs ih =>
    intro a m
    have hfirst : read (writeFields fs (a + f.1) (m.write f.1 a f.2)) f.1 a = f.2 % 256 ^ f.1 := by
      rw [read_writeFields_out _ fs _ _ _ (by omega), read_write]
    rw [writeFields, size, packed, read_add, hfirst, ih]

end Bytes
