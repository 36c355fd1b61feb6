import MyOs.Kernel.Debug
import MyOs.Theory.Writes
import Mathlib.Data.Nat.Bitwise

/-!
# lib/bitmap.c: the byte-array bitmap and its first-fit scan

`bitmapScan` is three loops: skip the bytes `0xff`, find the first clear bit of the next byte, then
count clear bits from there until `cnt` of them are consecutive.  The counting loop tests
`8 * btmp_bytes_len - bit_idx_start` bits starting one past `bit_idx_start`, so the last bit it
tests is bit `8 * btmp_bytes_len`, the first bit of the byte after the bitmap.

    bitmapScan b btmp cnt = .ok (some s) → 0 < cnt → FirstRun btmp cnt s       (bitmapScan_some)
    bit (btmp.write i v) j = if j = i then v ≠ 0 else bit btmp j              (bit_write)

`FirstRun` says: the bits `s, …, s + cnt - 1` are clear, no smaller start has that property, and
the run ends at bit `8 * btmp_bytes_len` at the latest.

    bitmapScan_spec        what the scan returns
    bitmapScan_firstFit    the least run inside the bitmap, when there is one
    bitmapScan_exact_iff   when the scan stays inside the bitmap
    bitmap_readAfterWrite  every bit is what the last bitmap_set on it wrote
-/

namespace MyOs

/-- `struct bitmap`.  `bits` is the memory from the pointer on: the bytes from `btmpBytesLen` on
are whatever follows the bitmap. -/
structure Bitmap where
  btmpBytesLen : Nat
  bits : Nat → UInt8

def BITMAP_MASK : Nat := 1

/-- Bit `i` of the bytes. -/
def Bitmap.bit (btmp : Bitmap) (i : Nat) : Bool := (btmp.bits (i / 8)).toNat.testBit (i % 8)

/-! ## Algorithm -/

def bitmapInit (btmp : Bitmap) : Bitmap :=
  { btmp with bits := fun i => if i < btmp.btmpBytesLen then 0 else btmp.bits i }

def bitmapScanTest (btmp : Bitmap) (bitIdx : Nat) : Nat :=
  (btmp.bits (bitIdx / 8)).toNat &&& (BITMAP_MASK <<< (bitIdx % 8))

/-- The first loop of `bitmap_scan`; the first argument bounds the rounds (`btmp_bytes_len` of them
are enough, the second test fails then). -/
def skipFull (btmp : Bitmap) : Nat → Nat → Nat
  | 0, idxByte => idxByte
  | n + 1, idxByte =>
    if 0xff = btmp.bits idxByte ∧ idxByte < btmp.btmpBytesLen then skipFull btmp n (idxByte + 1)
    else idxByte

/-- The second loop; bit 8 of a byte is never set, so eight rounds are enough. -/
def firstClear (byte : UInt8) : Nat → Nat → Nat
  | 0, idxBit => idxBit
  | n + 1, idxBit =>
    if (BITMAP_MASK <<< idxBit) &&& byte.toNat ≠ 0 then firstClear byte n (idxBit + 1) else idxBit

/-- The third loop, on `bit_left`. -/
def countRun (btmp : Bitmap) (cnt : Nat) : Nat → Nat → Nat → Option Nat
  | 0, _, _ => none
  | bitLeft + 1, nextBit, count =>
    let count := if bitmapScanTest btmp nextBit = 0 then count + 1 else 0
    if count = cnt then some (nextBit + 1 - cnt) else countRun btmp cnt bitLeft (nextBit + 1) count

/-- `none` stands for the return value `-1`. -/
def bitmapScan (b : Build) (btmp : Bitmap) (cnt : Nat) : Except Halt (Option Nat) := do
  let idxByte := skipFull btmp btmp.btmpBytesLen 0
  assert b "bitmap_scan" "idx_byte < btmp->btmp_bytes_len" (idxByte < btmp.btmpBytesLen)
  if idxByte = btmp.btmpBytesLen then pure none
  else
    let bitIdxStart := idxByte * 8 + firstClear (btmp.bits idxByte) 8 0
    if cnt = 1 then pure (some bitIdxStart)
    else pure (countRun btmp cnt (btmp.btmpBytesLen * 8 - bitIdxStart) (bitIdxStart + 1) 1)

/-- `bitmap_set` after its ASSERT. -/
def Bitmap.write (btmp : Bitmap) (bitIdx value : Nat) : Bitmap :=
  let byteIdx := bitIdx / 8
  let bitOdd := bitIdx % 8
  let byte := (btmp.bits byteIdx).toNat
  { btmp with
    bits := Function.update btmp.bits byteIdx
      (if value ≠ 0 then UInt8.ofNat (byte ||| (BITMAP_MASK <<< bitOdd))
       else UInt8.ofNat (byte &&& (0xffffffff ^^^ (BITMAP_MASK <<< bitOdd)))) }

def bitmapSet (b : Build) (btmp : Bitmap) (bitIdx value : Nat) : Except Halt Bitmap := do
  assert b "bitmap_set" "(value==0) || (value==1)" (value = 0 || value = 1)
  pure (btmp.write bitIdx value)

/-! ## Single bits -/

theorem and_one_shiftLeft_eq_zero_iff (x k : Nat) : x &&& (1 <<< k) = 0 ↔ x.testBit k = false := by
  rw [Nat.shiftLeft_eq, Nat.one_mul, Nat.and_two_pow]
  cases x.testBit k <;> simp

theorem bitmapScanTest_eq_zero_iff (btmp : Bitmap) (i : Nat) :
    bitmapScanTest btmp i = 0 ↔ btmp.bit i = false :=
  and_one_shiftLeft_eq_zero_iff _ _

@[simp] theorem bitmapInit_len (btmp : Bitmap) :
    (bitmapInit btmp).btmpBytesLen = btmp.btmpBytesLen := rfl

theorem bit_bitmapInit (btmp : Bitmap) (i : Nat) (h : i < 8 * btmp.btmpBytesLen) :
    (bitmapInit btmp).bit i = false := by
  have hi : i / 8 < btmp.btmpBytesLen := by omega
  simp [Bitmap.bit, bitmapInit, hi]

@[simp] theorem Bitmap.write_len (btmp : Bitmap) (i v : Nat) :
    (btmp.write i v).btmpBytesLen = btmp.btmpBytesLen := rfl

/-- Writing bit `k` of a byte leaves its other bits alone, whatever the narrowing to 8 bits. -/
theorem testBit_writeByte (n k j : Nat) (hj : j < 8) :
    ((UInt8.ofNat (n ||| (BITMAP_MASK <<< k))).toNat.testBit j = (decide (k = j) || n.testBit j)) ∧
    ((UInt8.ofNat (n &&& (0xffffffff ^^^ (BITMAP_MASK <<< k)))).toNat.testBit j =
      (!decide (k = j) && n.testBit j)) := by
  have hmask : (BITMAP_MASK <<< k).testBit j = decide (k = j) := by
    rw [BITMAP_MASK, Nat.one_shiftLeft, Nat.testBit_two_pow]
  have hff : (0xffffffff : Nat).testBit j = true := by
    rw [show (0xffffffff : Nat) = 2 ^ 32 - 1 from rfl, Nat.testBit_two_pow_sub_one]
    simp only [decide_eq_true_eq]
    omega
  simp only [UInt8.toNat_ofNat', Nat.testBit_mod_two_pow, Nat.testBit_or, Nat.testBit_and,
    Nat.testBit_xor, hmask, hff, hj]
  cases n.testBit j <;> cases decide (k = j) <;> simp

/-- **Read after write.** -/
theorem Bitmap.bit_write (btmp : Bitmap) (i v j : Nat) :
    (btmp.write i v).bit j = if j = i then decide (v ≠ 0) else btmp.bit j := by
  unfold Bitmap.bit Bitmap.write
  by_cases hb : j / 8 = i / 8
  · have htab := testBit_writeByte (btmp.bits (i / 8)).toNat (i % 8) (j % 8) (by omega)
    have hji : i % 8 = j % 8 ↔ j = i := by omega
    simp only [hb, Function.update_self]
    by_cases hv : v ≠ 0
    · rw [if_pos hv, htab.1]
      by_cases he : j = i <;> simp [hji, he, hv]
    · rw [if_neg hv, htab.2]
      by_cases he : j = i <;> simp [hji, he, hv]
  · have hji : j ≠ i := fun e => hb (by rw [e])
    simp [Function.update_of_ne hb, hji]

/-- The values that pass the ASSERT. -/
theorem bitmapSet_eq (b : Build) (btmp : Bitmap) (i v : Nat) (hv : v = 0 ∨ v = 1) :
    bitmapSet b btmp i v = .ok (btmp.write i v) := by
  unfold bitmapSet
  rcases hv with rfl | rfl
  · cases b <;> rfl
  · cases b <;> rfl

theorem bitmapSet_one (b : Build) (btmp : Bitmap) (i : Nat) : bitmapSet b btmp i 1 = .ok (btmp.write i 1) :=
  bitmapSet_eq b btmp i 1 (.inr rfl)

/-! ## Sequences of calls -/

/-- `bitmap_set(btmp, bit_idx, value)` for every pair of the list. -/
def bitmapSets (b : Build) (btmp : Bitmap) (calls : List (Nat × Nat)) : Except Halt Bitmap :=
  calls.foldlM (fun btmp c => bitmapSet b btmp c.1 c.2) btmp

/-- The bitmap as a store of zeros and ones, one for each index. -/
def Bitmap.value (btmp : Bitmap) (i : Nat) : Nat := (btmp.bit i).toNat

theorem Bitmap.value_eq_one_iff (btmp : Bitmap) (i : Nat) : btmp.value i = 1 ↔ bitmapScanTest btmp i ≠ 0 := by
  rw [Ne, bitmapScanTest_eq_zero_iff]
  unfold Bitmap.value
  cases btmp.bit i <;> decide

theorem Bitmap.value_write (btmp : Bitmap) (i v : Nat) (hv : v = 0 ∨ v = 1) :
    (btmp.write i v).value = Function.update btmp.value i v := by
  funext j
  unfold Bitmap.value
  rw [Bitmap.bit_write]
  by_cases hj : j = i
  · subst hj
    rw [if_pos rfl, Function.update_self]
    rcases hv with rfl | rfl
    · rfl
    · rfl
  · rw [if_neg hj, Function.update_of_ne hj]

/-- One call is one write to that store, in both builds. -/
theorem bitmapSet_value (b : Build) (btmp : Bitmap) (c : Nat × Nat) (hv : c.2 = 0 ∨ c.2 = 1) :
    ∃ btmp', bitmapSet b btmp c.1 c.2 = .ok btmp' ∧ btmp'.value = Function.update btmp.value c.1 c.2 :=
  ⟨btmp.write c.1 c.2, bitmapSet_eq b btmp c.1 c.2 hv, btmp.value_write c.1 c.2 hv⟩

theorem bitmapSets_value (b : Build) (btmp : Bitmap) (calls : List (Nat × Nat))
    (hv : ∀ c ∈ calls, c.2 = 0 ∨ c.2 = 1) :
    ∃ btmp', bitmapSets b btmp calls = .ok btmp' ∧ btmp'.value = Writes.apply btmp.value calls :=
  Writes.foldlM_apply Bitmap.value _ _ (fun btmp c hc => bitmapSet_value b btmp c hc) calls btmp hv

/-- **Read after write.**  One call changes the bit it names and no other; after any sequence of calls on a
bitmap just initialised, a bit is set exactly when the last call on it wrote 1. -/
theorem bitmap_readAfterWrite (b : Build) (btmp : Bitmap) :
    (∀ i j v, i < 8 * btmp.btmpBytesLen → j < 8 * btmp.btmpBytesLen → v = 0 ∨ v = 1 →
      ∃ btmp', bitmapSet b btmp i v = .ok btmp' ∧
        (bitmapScanTest btmp' j ≠ 0 ↔ (j = i ∧ v = 1) ∨ (j ≠ i ∧ bitmapScanTest btmp j ≠ 0))) ∧
    (∀ calls : List (Nat × Nat), (∀ c ∈ calls, c.2 = 0 ∨ c.2 = 1) →
      ∃ btmp', bitmapSets b (bitmapInit btmp) calls = .ok btmp' ∧ ∀ j, j < 8 * btmp.btmpBytesLen →
        (bitmapScanTest btmp' j ≠ 0 ↔ Writes.LastWrite calls j 1)) := by
  constructor
  · intro i j v _ _ hv
    obtain ⟨btmp', hset, hval⟩ := bitmapSet_value b btmp (i, v) hv
    refine ⟨btmp', hset, ?_⟩
    rw [← Bitmap.value_eq_one_iff, ← Bitmap.value_eq_one_iff, hval]
    by_cases hj : j = i
    · subst hj
      rw [Function.update_self]
      constructor
      · exact fun h => .inl ⟨rfl, h⟩
      · rintro (⟨-, h⟩ | ⟨h, -⟩)
        · exact h
        · exact absurd rfl h
    · rw [Function.update_of_ne hj]
      constructor
      · exact fun h => .inr ⟨hj, h⟩
      · rintro (⟨h, -⟩ | ⟨-, h⟩)
        · exact absurd h hj
        · exact h
  · intro calls hcalls
    obtain ⟨btmp', hsets, hval⟩ := bitmapSets_value b (bitmapInit btmp) calls hcalls
    refine ⟨btmp', hsets, fun j hj => ?_⟩
    have hclear : (bitmapInit btmp).value j = 0 := by
      unfold Bitmap.value
      rw [bit_bitmapInit btmp j hj]
      rfl
    rw [← Bitmap.value_eq_one_iff, hval, Writes.apply_eq_iff, hclear]
    constructor
    · rintro (h | ⟨-, h⟩)
      · exact h
      · exact absurd h (by decide)
    · exact fun h => .inl h

/-- Bits 3 and 4 share a byte: bit 3 is set and cleared again around the call on bit 4. -/
theorem bitmap_readAfterWrite_neighbours :
    ∃ btmp', bitmapSets .debug (bitmapInit { btmpBytesLen := 1, bits := fun _ => 0xff }) [(3, 1), (4, 1), (3, 0)] =
      .ok btmp' ∧ bitmapScanTest btmp' 3 = 0 ∧ bitmapScanTest btmp' 4 ≠ 0 := by
  obtain ⟨btmp', hsets, hbits⟩ := (bitmap_readAfterWrite .debug { btmpBytesLen := 1, bits := fun _ => 0xff }).2
    [(3, 1), (4, 1), (3, 0)] (by decide)
  refine ⟨btmp', hsets, ?_, (hbits 4 (by decide)).mpr ⟨[(3, 1)], [(3, 0)], rfl, by decide⟩⟩
  by_contra hset
  have hlast : Writes.LastWrite [(3, 1), (4, 1), (3, 0)] 3 0 := ⟨[(3, 1), (4, 1)], [], rfl, by decide⟩
  exact absurd (Writes.lastWrite_unique ((hbits 3 (by decide)).mp hset) hlast) (by decide)

/-! ## The scan -/

/-- The first loop stops at the first byte that is not `0xff`, or at the end. -/
theorem skipFull_spec (btmp : Bitmap) : ∀ n idxByte, idxByte + n = btmp.btmpBytesLen →
    (∀ k, k < idxByte → btmp.bits k = 0xff) →
    skipFull btmp n idxByte ≤ btmp.btmpBytesLen ∧
    (∀ k, k < skipFull btmp n idxByte → btmp.bits k = 0xff) ∧
    (skipFull btmp n idxByte < btmp.btmpBytesLen → btmp.bits (skipFull btmp n idxByte) ≠ 0xff) := by
  intro n
  induction n with
  | zero =>
    intro idxByte hn hb
    refine ⟨by simp only [skipFull]; omega, hb, fun h => ?_⟩
    simp only [skipFull] at h
    omega
  | succ n ih =>
    intro idxByte hn hb
    unfold skipFull
    by_cases hc : 0xff = btmp.bits idxByte ∧ idxByte < btmp.btmpBytesLen
    · rw [if_pos hc]
      refine ih (idxByte + 1) (by omega) (fun k hk => ?_)
      rcases Nat.lt_succ_iff_lt_or_eq.mp hk with h | h
      · exact hb k h
      · rw [h]; exact hc.1.symm
    · rw [if_neg hc]
      exact ⟨by omega, hb, fun h he => hc ⟨he.symm, h⟩⟩

theorem firstClear_tab : ∀ n, n < 255 →
    firstClear (UInt8.ofNat n) 8 0 < 8 ∧ n.testBit (firstClear (UInt8.ofNat n) 8 0) = false ∧
    ∀ j, j < firstClear (UInt8.ofNat n) 8 0 → n.testBit j = true := by
  decide +kernel

theorem firstClear_spec (byte : UInt8) (h : byte ≠ 0xff) :
    firstClear byte 8 0 < 8 ∧ byte.toNat.testBit (firstClear byte 8 0) = false ∧
    ∀ j, j < firstClear byte 8 0 → byte.toNat.testBit j = true := by
  have hn : byte.toNat ≠ 255 := fun e => h (UInt8.toNat_inj.mp e)
  have hlt := UInt8.toNat_lt byte
  have := firstClear_tab byte.toNat (by omega)
  rwa [UInt8.ofNat_toNat] at this

theorem testBit_ff (j : Nat) (h : j < 8) : (0xff : UInt8).toNat.testBit j = true := by
  revert j
  decide

/-- Bit `s` starts a run of `cnt` clear bits ending inside the bitmap or at the bit after it, and no
smaller start does. -/
structure FirstRun (btmp : Bitmap) (cnt s : Nat) : Prop where
  clear : ∀ i, i < cnt → btmp.bit (s + i) = false
  least : ∀ s', s' < s → ∃ j, s' ≤ j ∧ j < s' + cnt ∧ btmp.bit j = true
  start : s < 8 * btmp.btmpBytesLen
  bound : s + cnt ≤ 8 * btmp.btmpBytesLen + 1

/-- The counting loop.  Before bit `nextBit` is tested, `count` is the length of the run of clear
bits that ends there, and every start before that run is spoiled by a set bit. -/
theorem countRun_spec (btmp : Bitmap) (cnt : Nat) : ∀ bitLeft nextBit count,
    nextBit + bitLeft = 8 * btmp.btmpBytesLen + 1 → count ≤ nextBit → count < cnt →
    (∀ i, i < count → btmp.bit (nextBit - count + i) = false) →
    (∀ s', s' < nextBit - count → ∃ j, s' ≤ j ∧ j < s' + cnt ∧ btmp.bit j = true) →
    match countRun btmp cnt bitLeft nextBit count with
    | some s => (∀ i, i < cnt → btmp.bit (s + i) = false) ∧
        (∀ s', s' < s → ∃ j, s' ≤ j ∧ j < s' + cnt ∧ btmp.bit j = true) ∧
        s + cnt ≤ 8 * btmp.btmpBytesLen + 1
    | none => ∀ s', s' + cnt ≤ 8 * btmp.btmpBytesLen + 1 →
        ∃ j, s' ≤ j ∧ j < s' + cnt ∧ btmp.bit j = true := by
  intro bitLeft
  induction bitLeft with
  | zero =>
    intro nextBit count hn hc hcnt _ hsp
    simp only [countRun]
    intro s' hs'
    exact hsp s' (by omega)
  | succ bitLeft ih =>
    intro nextBit count hn hc hcnt hrun hsp
    simp only [countRun]
    by_cases ht : btmp.bit nextBit = false
    · rw [if_pos ((bitmapScanTest_eq_zero_iff btmp nextBit).mpr ht)]
      have hrun' : ∀ i, i < count + 1 → btmp.bit (nextBit + 1 - (count + 1) + i) = false := by
        intro i hi
        rcases Nat.lt_succ_iff_lt_or_eq.mp hi with h | h
        · rw [show nextBit + 1 - (count + 1) + i = nextBit - count + i by omega]
          exact hrun i h
        · rw [show nextBit + 1 - (count + 1) + i = nextBit by omega]
          exact ht
      by_cases he : count + 1 = cnt
      · rw [if_pos he]
        subst he
        exact ⟨hrun', fun s' hs' => hsp s' (by omega), by omega⟩
      · rw [if_neg he]
        exact ih (nextBit + 1) (count + 1) (by omega) (by omega) (by omega) hrun'
          (fun s' hs' => hsp s' (by omega))
    · have hset : btmp.bit nextBit = true := by simpa using ht
      rw [if_neg (fun h => ht ((bitmapScanTest_eq_zero_iff btmp nextBit).mp h)), if_neg (by omega)]
      refine ih (nextBit + 1) 0 (by omega) (by omega) (by omega) (fun i hi => absurd hi (by omega)) ?_
      intro s' hs'
      by_cases hb : s' < nextBit - count
      · exact hsp s' hb
      · exact ⟨nextBit, by omega, by omega, hset⟩

/-- The first two loops together: the first clear bit of the bitmap. -/
theorem firstFree_spec (btmp : Bitmap)
    (h : skipFull btmp btmp.btmpBytesLen 0 < btmp.btmpBytesLen) :
    let f := skipFull btmp btmp.btmpBytesLen 0 * 8 +
      firstClear (btmp.bits (skipFull btmp btmp.btmpBytesLen 0)) 8 0
    btmp.bit f = false ∧ f < 8 * btmp.btmpBytesLen ∧ ∀ j, j < f → btmp.bit j = true := by
  obtain ⟨-, hff, hne⟩ := skipFull_spec btmp btmp.btmpBytesLen 0 (by omega) (fun k hk => by omega)
  generalize skipFull btmp btmp.btmpBytesLen 0 = q at h hff hne ⊢
  obtain ⟨h8, hcl, hset⟩ := firstClear_spec (btmp.bits q) (hne h)
  generalize firstClear (btmp.bits q) 8 0 = r at h8 hcl hset ⊢
  refine ⟨?_, by omega, ?_⟩
  · unfold Bitmap.bit
    rw [show (q * 8 + r) / 8 = q by omega, show (q * 8 + r) % 8 = r by omega]
    exact hcl
  · intro j hj
    unfold Bitmap.bit
    by_cases hq : j / 8 = q
    · rw [hq]
      exact hset (j % 8) (by omega)
    · rw [hff (j / 8) (by omega)]
      exact testBit_ff (j % 8) (by omega)

/-- **First fit.**  A start that the scan returns is the first run of `cnt` clear bits. -/
theorem bitmapScan_some (b : Build) (btmp : Bitmap) (cnt s : Nat) (hc : 0 < cnt)
    (h : bitmapScan b btmp cnt = .ok (some s)) : FirstRun btmp cnt s := by
  unfold bitmapScan at h
  obtain ⟨-, -, h⟩ := (bind_eq_ok _ _ _).mp h
  have hle := (skipFull_spec btmp btmp.btmpBytesLen 0 (by omega) (fun k hk => by omega)).1
  split at h
  · simp at h
  · next hne =>
    obtain ⟨hcl, hlt, hset⟩ := firstFree_spec btmp (by omega)
    generalize hf : skipFull btmp btmp.btmpBytesLen 0 * 8 +
      firstClear (btmp.bits (skipFull btmp btmp.btmpBytesLen 0)) 8 0 = f at h hcl hlt hset
    split at h
    · next h1 =>
      simp only [pure_eq_ok, Except.ok.injEq, Option.some.injEq] at h
      subst h h1
      refine ⟨fun i hi => ?_, fun s' hs' => ⟨s', by omega, by omega, hset s' hs'⟩, hlt, by omega⟩
      rw [show f + i = f by omega]
      exact hcl
    · next h1 =>
      simp only [pure_eq_ok, Except.ok.injEq] at h
      have hspec := countRun_spec btmp cnt (btmp.btmpBytesLen * 8 - f) (f + 1) 1 (by omega) (by omega)
        (by omega)
        (fun i hi => by rw [show f + 1 - 1 + i = f by omega]; exact hcl)
        (fun s' hs' => ⟨s', by omega, by omega, hset s' (by omega)⟩)
      rw [h] at hspec
      obtain ⟨hrun, hleast, hbound⟩ := hspec
      exact ⟨hrun, hleast, by omega, hbound⟩

/-- In a debug build a scan that returns has found a clear bit, so `-1` means that no run of `cnt`
clear bits ends inside the bitmap or one bit after it. -/
theorem bitmapScan_one_debug (btmp : Bitmap) (r : Option Nat)
    (h : bitmapScan .debug btmp 1 = .ok r) : ∃ s, r = some s := by
  unfold bitmapScan at h
  obtain ⟨u, ha, h⟩ := (bind_eq_ok _ _ _).mp h
  have hlt := of_decide_eq_true ((assert_debug_ok _ _ _ _).mp ha)
  rw [if_neg (by omega), if_pos rfl] at h
  exact ⟨_, (Except.ok.inj h).symm⟩

/-- Without a clear bit in the bitmap the ASSERT fails, or the scan returns `-1`. -/
theorem bitmapScan_full (b : Build) (btmp : Bitmap) (cnt : Nat)
    (h : ∀ i, i < 8 * btmp.btmpBytesLen → btmp.bit i = true) :
    bitmapScan b btmp cnt = match b with
      | .debug => .error (.panicSpin "bitmap_scan" "idx_byte < btmp->btmp_bytes_len")
      | .ndebug => .ok none := by
  have hq : skipFull btmp btmp.btmpBytesLen 0 = btmp.btmpBytesLen := by
    have hle := (skipFull_spec btmp btmp.btmpBytesLen 0 (by omega) (fun k hk => by omega)).1
    by_contra hne
    obtain ⟨hcl, hlt, -⟩ := firstFree_spec btmp (by omega)
    rw [h _ hlt] at hcl
    cases hcl
  unfold bitmapScan
  cases b with
  | debug => simp [hq, assert, bind, Except.bind]
  | ndebug => simp [hq, assert, bind, Except.bind]

/-- **What the scan returns** when the bitmap has a clear bit: the first run, or `-1` when every start
inside the bitmap is spoiled by a set bit before the run ends. -/
theorem bitmapScan_spec (b : Build) (btmp : Bitmap) (cnt : Nat) (hc : 0 < cnt)
    (hclear : ∃ i, i < 8 * btmp.btmpBytesLen ∧ btmp.bit i = false) :
    (∃ s, bitmapScan b btmp cnt = .ok (some s) ∧ FirstRun btmp cnt s) ∨
      bitmapScan b btmp cnt = .ok none ∧ ∀ s, s < 8 * btmp.btmpBytesLen →
        s + cnt ≤ 8 * btmp.btmpBytesLen + 1 → ∃ j, s ≤ j ∧ j < s + cnt ∧ btmp.bit j = true := by
  obtain ⟨i, hi, hbit⟩ := hclear
  obtain ⟨hle, hff, -⟩ := skipFull_spec btmp btmp.btmpBytesLen 0 (by omega) (fun k hk => by omega)
  have hq : skipFull btmp btmp.btmpBytesLen 0 < btmp.btmpBytesLen := by
    by_contra hge
    have hset : btmp.bit i = true := by
      unfold Bitmap.bit
      rw [hff (i / 8) (by omega)]
      exact testBit_ff (i % 8) (by omega)
    rw [hset] at hbit
    cases hbit
  obtain ⟨hcl, hlt, hset⟩ := firstFree_spec btmp hq
  have heq : bitmapScan b btmp cnt = if cnt = 1 then .ok (some (skipFull btmp btmp.btmpBytesLen 0 * 8 +
      firstClear (btmp.bits (skipFull btmp btmp.btmpBytesLen 0)) 8 0))
      else .ok (countRun btmp cnt (btmp.btmpBytesLen * 8 - (skipFull btmp btmp.btmpBytesLen 0 * 8 +
        firstClear (btmp.bits (skipFull btmp btmp.btmpBytesLen 0)) 8 0))
        (skipFull btmp btmp.btmpBytesLen 0 * 8 +
          firstClear (btmp.bits (skipFull btmp btmp.btmpBytesLen 0)) 8 0 + 1) 1) := by
    unfold bitmapScan
    cases b <;> simp [assert, hq, Nat.ne_of_lt hq, bind, Except.bind]
  generalize skipFull btmp btmp.btmpBytesLen 0 * 8 +
    firstClear (btmp.bits (skipFull btmp btmp.btmpBytesLen 0)) 8 0 = f at heq hcl hlt hset
  by_cases h1 : cnt = 1
  · left
    rw [if_pos h1] at heq
    exact ⟨f, heq, bitmapScan_some b btmp cnt f hc heq⟩
  · rw [if_neg h1] at heq
    have hspec := countRun_spec btmp cnt (btmp.btmpBytesLen * 8 - f) (f + 1) 1 (by omega) (by omega)
      (by omega)
      (fun i hi => by rw [show f + 1 - 1 + i = f by omega]; exact hcl)
      (fun s' hs' => ⟨s', by omega, by omega, hset s' (by omega)⟩)
    cases hr : countRun btmp cnt (btmp.btmpBytesLen * 8 - f) (f + 1) 1 with
    | some s =>
      left
      rw [hr] at heq
      exact ⟨s, heq, bitmapScan_some b btmp cnt s hc heq⟩
    | none =>
      right
      rw [hr] at heq hspec
      exact ⟨heq, fun s _ hs => hspec s hs⟩

/-! ## First fit, and the bit after the bitmap -/

/-- The `cnt` bits from `s` on are bits of the bitmap, and clear. -/
def Bitmap.FreeRun (btmp : Bitmap) (cnt s : Nat) : Prop :=
  s + cnt ≤ 8 * btmp.btmpBytesLen ∧ ∀ i, i < cnt → btmp.bit (s + i) = false

/-- The last `cnt - 1` bits of the bitmap and the bit after it are clear. -/
def Bitmap.OverrunAt (btmp : Bitmap) (cnt s : Nat) : Prop :=
  s + cnt = 8 * btmp.btmpBytesLen + 1 ∧ ∀ i, i < cnt → btmp.bit (s + i) = false

theorem FirstRun.freeRun_or_overrun {btmp : Bitmap} {cnt s : Nat} (h : FirstRun btmp cnt s) :
    btmp.FreeRun cnt s ∨ btmp.OverrunAt cnt s := by
  have hb := h.bound
  by_cases he : s + cnt = 8 * btmp.btmpBytesLen + 1
  · exact .inr ⟨he, h.clear⟩
  · exact .inl ⟨by omega, h.clear⟩

theorem FirstRun.le_of_clear {btmp : Bitmap} {cnt s s' : Nat} (h : FirstRun btmp cnt s)
    (hs : ∀ i, i < cnt → btmp.bit (s' + i) = false) : s ≤ s' := by
  by_contra hlt
  obtain ⟨j, h1, h2, hj⟩ := h.least s' (by omega)
  have hcl := hs (j - s') (by omega)
  rw [show s' + (j - s') = j by omega, hj] at hcl
  cases hcl

theorem Bitmap.FreeRun.exists_clear {btmp : Bitmap} {cnt s : Nat} (h : btmp.FreeRun cnt s) (hc : 0 < cnt) :
    ∃ i, i < 8 * btmp.btmpBytesLen ∧ btmp.bit i = false :=
  ⟨s, by have := h.1; omega, h.2 0 hc⟩

/-- **First fit**: when some run of `cnt` clear bits lies inside the bitmap, the scan returns the least
start of one, in both builds. -/
theorem bitmapScan_firstFit (b : Build) (btmp : Bitmap) (cnt : Nat) (hc : 1 ≤ cnt)
    (hrun : ∃ s, btmp.FreeRun cnt s) :
    ∃ s, bitmapScan b btmp cnt = .ok (some s) ∧ btmp.FreeRun cnt s ∧
      ∀ s', btmp.FreeRun cnt s' → s ≤ s' := by
  obtain ⟨s0, h0⟩ := hrun
  have hb0 := h0.1
  rcases bitmapScan_spec b btmp cnt hc (h0.exists_clear hc) with ⟨s, hs, hf⟩ | ⟨-, hnone⟩
  · have hle := hf.le_of_clear h0.2
    refine ⟨s, hs, ⟨by omega, hf.clear⟩, ?_⟩
    intro s' h'
    exact hf.le_of_clear h'.2
  · obtain ⟨j, h1, h2, hj⟩ := hnone s0 (by omega) (by omega)
    have hcl := h0.2 (j - s0) (by omega)
    rw [show s0 + (j - s0) = j by omega, hj] at hcl
    cases hcl

/-- One byte, its last four bits clear. -/
def halfFree : Bitmap := { btmpBytesLen := 1, bits := fun _ => 0x0f }

theorem bitmapScan_firstFit_halfFree :
    (halfFree.FreeRun 3 4 ∧ bitmapScan .debug halfFree 3 = .ok (some 4)) ∧
      ∃ s, bitmapScan .debug halfFree 3 = .ok (some s) ∧ halfFree.FreeRun 3 s ∧
        ∀ s', halfFree.FreeRun 3 s' → s ≤ s' := by
  have hrun : halfFree.FreeRun 3 4 := ⟨by decide, by decide⟩
  exact ⟨⟨hrun, rfl⟩, bitmapScan_firstFit .debug halfFree 3 (by decide) ⟨4, hrun⟩⟩

/-- The result of a scan is a run of the bitmap, and `-1` exactly when there is none. -/
def ScanExact (btmp : Bitmap) (cnt : Nat) (r : Option Nat) : Prop :=
  (∀ s, r = some s → s + cnt ≤ 8 * btmp.btmpBytesLen) ∧ (r = none ↔ ¬ ∃ s, btmp.FreeRun cnt s)

/-- **The scan stays inside the bitmap** exactly when there is a run inside, or when the last `cnt - 1`
bits and the bit after the bitmap are not all clear: the last round of the counting loop tests that bit. -/
theorem bitmapScan_exact_iff (b : Build) (btmp : Bitmap) (cnt : Nat) (hc : 1 ≤ cnt)
    (hclear : ∃ i, i < 8 * btmp.btmpBytesLen ∧ btmp.bit i = false) :
    (∃ r, bitmapScan b btmp cnt = .ok r ∧ ScanExact btmp cnt r) ↔
      (∃ s, btmp.FreeRun cnt s) ∨ ¬ ∃ s, btmp.OverrunAt cnt s := by
  constructor
  · rintro ⟨r, hr, hin, hnone⟩
    by_cases hrun : ∃ s, btmp.FreeRun cnt s
    · exact .inl hrun
    · right
      rintro ⟨s, he, hs⟩
      rw [hnone.mpr hrun] at hr
      rcases bitmapScan_spec b btmp cnt hc hclear with ⟨s', hs', -⟩ | ⟨-, hspoilt⟩
      · rw [hs'] at hr
        cases hr
      · have hlt : s < 8 * btmp.btmpBytesLen := by
          by_contra hge
          obtain ⟨i, hi, hbit⟩ := hclear
          refine hrun ⟨i, by omega, ?_⟩
          intro k hk
          rw [show i + k = i by omega]
          exact hbit
        obtain ⟨j, h1, h2, hj⟩ := hspoilt s hlt (by omega)
        have hcl := hs (j - s) (by omega)
        rw [show s + (j - s) = j by omega, hj] at hcl
        cases hcl
  · intro h
    rcases bitmapScan_spec b btmp cnt hc hclear with ⟨s, hs, hf⟩ | ⟨hs, hspoilt⟩
    · have hfree : btmp.FreeRun cnt s := by
        rcases hf.freeRun_or_overrun with h1 | h1
        · exact h1
        · rcases h with ⟨s', h'⟩ | hno
          · have hle := hf.le_of_clear h'.2
            exact ⟨by have := h'.1; omega, hf.clear⟩
          · exact absurd ⟨s, h1⟩ hno
      refine ⟨some s, hs, ?_, ?_⟩
      · intro s' he
        cases he
        exact hfree.1
      · constructor
        · intro he
          cases he
        · intro hno
          exact absurd ⟨s, hfree⟩ hno
    · refine ⟨none, hs, ?_, ?_⟩
      · intro s he
        cases he
      · refine iff_of_true rfl ?_
        rintro ⟨s, hb, hcl⟩
        obtain ⟨j, h1, h2, hj⟩ := hspoilt s (by omega) (by omega)
        have hj' := hcl (j - s) (by omega)
        rw [show s + (j - s) = j by omega, hj] at hj'
        cases hj'

theorem bitmapScan_exact_iff_halfFree :
    halfFree.FreeRun 3 4 ∧ ((∃ r, bitmapScan .debug halfFree 3 = .ok r ∧ ScanExact halfFree 3 r) ↔
      (∃ s, halfFree.FreeRun 3 s) ∨ ¬ ∃ s, halfFree.OverrunAt 3 s) :=
  ⟨⟨by decide, by decide⟩, bitmapScan_exact_iff .debug halfFree 3 (by decide) ⟨4, by decide⟩⟩

/-- One byte, all its bits and those after it clear. -/
def allFree : Bitmap := { btmpBytesLen := 1, bits := fun _ => 0 }

/-- Nine bits of an eight-bit bitmap are handed out. -/
theorem bitmapScan_overrun : bitmapScan .debug allFree 9 = .ok (some 0) ∧
    ¬ ∃ r, bitmapScan .debug allFree 9 = .ok r ∧ ScanExact allFree 9 r := by
  have hscan : bitmapScan .debug allFree 9 = .ok (some 0) := rfl
  refine ⟨hscan, ?_⟩
  rintro ⟨r, hr, hin, -⟩
  rw [hscan] at hr
  cases hr
  exact absurd (hin 0 rfl) (by decide)

/-! ## Counting set bits -/

/-- How many of the first `n` bits are set. -/
def Bitmap.count (btmp : Bitmap) : Nat → Nat
  | 0 => 0
  | n + 1 => btmp.count n + if btmp.bit n then 1 else 0

theorem Bitmap.count_le (btmp : Bitmap) (n : Nat) : btmp.count n ≤ n := by
  induction n with
  | zero => simp [Bitmap.count]
  | succ n ih =>
    unfold Bitmap.count
    split <;> omega

/-- Setting a clear bit below `n` adds one to the count of the first `n` bits. -/
theorem Bitmap.count_write_one (btmp : Bitmap) (i n : Nat) (hc : btmp.bit i = false) :
    (btmp.write i 1).count n = btmp.count n + if i < n then 1 else 0 := by
  induction n with
  | zero => simp [Bitmap.count]
  | succ n ih =>
    simp only [Bitmap.count, ih, Bitmap.bit_write]
    by_cases hn : n = i
    · subst hn
      simp [hc]
    · have hlt : i < n + 1 ↔ i < n := by omega
      simp only [hn, hlt, if_false]
      omega

end MyOs
