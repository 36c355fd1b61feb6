import MyOs.Theory.Bytes

/-!
# lib/string.c: memset and strcpy

Both are their loops over byte memory; `none` is a failed assertion, or a `strcpy` that has not met a
terminator within its fuel.  The strings in memory and the signed `char` are shared by the other functions of
the file.

    memset_eq       which bytes `memset` sets
    strcpy_eq       a string that lies apart is copied with its terminator, whatever its length
    promote_inj, promote_eq_toNat_iff    a `char` compared with a `char`, and with a `uint8_t`
-/

namespace MyOs

/-! ## Algorithm -/

def memsetLoop : Nat → Bytes → Nat → UInt8 → Bytes
  | 0, m, _, _ => m
  | size + 1, m, dst, value => memsetLoop size (Function.update m dst value) (dst + 1) value

def memset (m : Bytes) (dst : Nat) (value : UInt8) (size : Nat) : Option Bytes :=
  if dst ≠ 0 then some (memsetLoop size m dst value) else none

def strcpyLoop : Nat → Bytes → Nat → Nat → Option Bytes
  | 0, _, _, _ => none
  | fuel + 1, m, dst, src =>
    let c := m src
    let m := Function.update m dst c
    if c ≠ 0 then strcpyLoop fuel m (dst + 1) (src + 1) else some m

def strcpy (fuel : Nat) (m : Bytes) (dst src : Nat) : Option Bytes :=
  if dst ≠ 0 ∧ src ≠ 0 then strcpyLoop fuel m dst src else none

/-- A `char` in an expression: `char` is signed. -/
def promote (c : UInt8) : Int := c.toInt8.toInt

/-! ## Strings -/

/-- The string `s` lies at `a`. -/
structure StrAt (m : Bytes) (a : Nat) (s : List UInt8) : Prop where
  char : ∀ (i : Nat) (h : i < s.length), m (a + i) = s[i]
  ends : m (a + s.length) = 0
  nonzero : ∀ c ∈ s, c ≠ 0

/-- With more fuel than characters there is a round, and fuel for the rest. -/
theorem exists_round {fuel n : Nat} (h : n < fuel) : ∃ k, fuel = k + 1 ∧ n ≤ k := ⟨fuel - 1, by omega, by omega⟩

theorem StrAt.congr {m m' : Bytes} {a : Nat} {s : List UInt8} (h : StrAt m a s)
    (hm : ∀ b, a ≤ b → b ≤ a + s.length → m' b = m b) : StrAt m' a s where
  char i hi := by rw [hm _ (by omega) (by omega), h.char i hi]
  ends := by rw [hm _ (by omega) (by omega), h.ends]
  nonzero := h.nonzero

/-- The first character, or the terminator of the empty string. -/
theorem StrAt.nil {m : Bytes} {a : Nat} (h : StrAt m a []) : m a = 0 := h.ends

theorem StrAt.head {m : Bytes} {a : Nat} {c : UInt8} {s : List UInt8} (h : StrAt m a (c :: s)) : m a = c :=
  h.char 0 (Nat.succ_pos s.length)

theorem StrAt.tail {m : Bytes} {a : Nat} {c : UInt8} {s : List UInt8} (h : StrAt m a (c :: s)) :
    StrAt m (a + 1) s where
  char i hi := by
    rw [show a + 1 + i = a + (i + 1) by omega, h.char (i + 1) (Nat.succ_lt_succ hi)]
    rfl
  ends := by
    have hend := h.ends
    rw [List.length_cons] at hend
    rw [show a + 1 + s.length = a + (s.length + 1) by omega, hend]
  nonzero d hd := h.nonzero d (List.mem_cons_of_mem c hd)

theorem StrAt.head_ne_zero {m : Bytes} {a : Nat} {c : UInt8} {s : List UInt8} (h : StrAt m a (c :: s)) : c ≠ 0 :=
  h.nonzero c List.mem_cons_self

/-- The string `s` alone in memory, at 0x1000. -/
def strMem (s : List UInt8) : Bytes := fun a => (s[a - 0x1000]?).getD 0

theorem strMem_strAt (s : List UInt8) (h : ∀ c ∈ s, c ≠ 0) : StrAt (strMem s) 0x1000 s where
  char i hi := by
    unfold strMem
    rw [Nat.add_sub_cancel_left, List.getElem?_eq_getElem hi]
    rfl
  ends := by
    unfold strMem
    rw [Nat.add_sub_cancel_left, List.getElem?_eq_none (Nat.le_refl _)]
    rfl
  nonzero := h

theorem promote_eq (c : UInt8) : promote c = if c.toNat < 128 then (c.toNat : Int) else (c.toNat : Int) - 256 := by
  have h := BitVec.toInt_eq_toNat_cond c.toBitVec
  have hc : c.toBitVec.toNat = c.toNat := rfl
  rw [hc] at h
  show c.toBitVec.toInt = _
  rw [h]
  by_cases hlt : c.toNat < 128
  · rw [if_pos hlt, if_pos (by omega)]
  · rw [if_neg hlt, if_neg (by omega)]
    rfl

theorem promote_inj (c d : UInt8) : promote c = promote d ↔ c = d := by
  have h1 := c.toNat_lt
  have h2 := d.toNat_lt
  rw [promote_eq, promote_eq, ← UInt8.toNat_inj]
  split
  · split
    · omega
    · omega
  · split
    · omega
    · omega

/-- A `char` never equals a `uint8_t` of 128 or more: one is negative, the other is not. -/
theorem promote_eq_toNat_iff (c ch : UInt8) : promote c = (ch.toNat : Int) ↔ c = ch ∧ ch.toNat < 128 := by
  have h1 := c.toNat_lt
  have h2 := ch.toNat_lt
  rw [promote_eq, ← UInt8.toNat_inj]
  split
  · omega
  · omega

theorem memsetLoop_eq (value : UInt8) : ∀ (size dst : Nat) (m : Bytes) (b : Nat),
    memsetLoop size m dst value b = if dst ≤ b ∧ b < dst + size then value else m b := by
  intro size
  induction size with
  | zero => exact fun dst m b => (if_neg (by omega)).symm
  | succ size ih =>
    intro dst m b
    rw [memsetLoop, ih]
    by_cases h1 : dst + 1 ≤ b ∧ b < dst + 1 + size
    · rw [if_pos h1, if_pos (by omega)]
    · rw [if_neg h1]
      by_cases h0 : b = dst
      · rw [h0, Function.update_self, if_pos (by omega)]
      · rw [Function.update_of_ne h0, if_neg (by omega)]

theorem memset_eq (m : Bytes) {dst : Nat} (value : UInt8) (size : Nat) (hd : dst ≠ 0) :
    ∃ m', memset m dst value size = some m' ∧
      ∀ b, m' b = if dst ≤ b ∧ b < dst + size then value else m b :=
  ⟨_, if_pos hd, memsetLoop_eq value size dst m⟩

/-- Copying upwards, from above or from well below. -/
theorem strcpyLoop_eq : ∀ (s : List UInt8) (fuel dst src : Nat) (m : Bytes), StrAt m src s → s.length < fuel →
    src + s.length < dst ∨ dst ≤ src → ∃ m', strcpyLoop fuel m dst src = some m' ∧
      (∀ b, b < dst ∨ dst + s.length < b → m' b = m b) ∧ StrAt m' dst s := by
  intro s
  induction s with
  | nil =>
    intro fuel dst src m hs hf _
    obtain ⟨n, rfl, -⟩ := exists_round hf
    refine ⟨Function.update m dst 0, ?_, ?_, ?_⟩
    · rw [strcpyLoop, hs.nil]
      rfl
    · intro b hb
      exact Function.update_of_ne (by rw [List.length_nil] at hb; omega) _ _
    · exact ⟨fun i hi => absurd hi (Nat.not_lt_zero i), Function.update_self _ _ _, fun c hc => by cases hc⟩
  | cons c s ih =>
    intro fuel dst src m hs hf hsep
    obtain ⟨n, rfl, hn⟩ := exists_round hf
    rw [List.length_cons] at hsep
    have htail : StrAt (Function.update m dst c) (src + 1) s :=
      hs.tail.congr fun b h1 h2 => Function.update_of_ne (by omega) _ _
    obtain ⟨m', hrun, hout, hstr⟩ := ih n (dst + 1) (src + 1) _ htail hn (by omega)
    refine ⟨m', ?_, ?_, ?_⟩
    · rw [strcpyLoop, hs.head]
      rw [if_pos hs.head_ne_zero]
      exact hrun
    · intro b hb
      rw [List.length_cons] at hb
      rw [hout b (by omega), Function.update_of_ne (by omega)]
    · refine ⟨fun i hi => ?_, ?_, hs.nonzero⟩
      · cases i with
        | zero =>
          rw [hout _ (by omega)]
          exact Function.update_self _ _ _
        | succ i =>
          rw [show dst + (i + 1) = dst + 1 + i by omega, hstr.char i (Nat.lt_of_succ_lt_succ hi)]
          rfl
      · rw [List.length_cons, show dst + (s.length + 1) = dst + 1 + s.length by omega]
        exact hstr.ends

theorem strcpy_eq {fuel src : Nat} {m : Bytes} {s : List UInt8} (dst : Nat) (hs : StrAt m src s) (hf : s.length < fuel)
    (hd : dst ≠ 0) (hsrc : src ≠ 0) (hsep : src + s.length < dst ∨ dst ≤ src) :
    ∃ m', strcpy fuel m dst src = some m' ∧ (∀ b, b < dst ∨ dst + s.length < b → m' b = m b) ∧ StrAt m' dst s := by
  obtain ⟨m', hrun, hm'⟩ := strcpyLoop_eq s fuel dst src m hs hf hsep
  exact ⟨m', (if_pos ⟨hd, hsrc⟩).trans hrun, hm'⟩

end MyOs
