import MyOs.Theory.Reach
import Mathlib.Data.Nat.Digits.Lemmas

/-!
# lib/kernel/print.S: put_int

The labels of `put_int` as one machine; a step runs from one label to the next.  The digits go into
`put_int_buffer` from the last one on, then the buffer is read forwards.

    based16_step        a round of `.16based_4bits`
    skipPrefix0_step    a round of `.skip_prefix_0`
    putEachNum_step     a round of `.put_each_num`
    putInt_prints       what reaches `put_char` is the numeral of the argument
-/

namespace MyOs.PutInt

inductive Label where
  | based16
  | skipPrefix0
  | full0
  | putEachNum
  | done

structure State where
  label : Label
  eax : BitVec 32
  ecx : BitVec 32
  edx : BitVec 32
  edi : BitVec 32
  /-- Memory from `put_int_buffer` on. -/
  buf : BitVec 32 → UInt8
  /-- The characters passed to `put_char`, which keeps the registers. -/
  out : List UInt8

/-! ## Algorithm -/

/-- The low byte of a register, `cl` of `ecx`. -/
def low (r : BitVec 32) : UInt8 := UInt8.ofNat r.toNat

def setLow (r : BitVec 32) (b : UInt8) : BitVec 32 := BitVec.ofNat 32 (r.toNat / 256 * 256 + b.toNat)

def putInt (n : BitVec 32) (buf : BitVec 32 → UInt8) : State :=
  { label := .based16, eax := n, ecx := 8, edx := n, edi := 7, buf, out := [] }

/-- `.16based_4bits`, and after the last round `.ready_to_print`. -/
def based16 (s : State) : State :=
  let edx := s.edx &&& 0x0000000F
  let edx := if BitVec.slt 9 edx then edx - 10 + 0x41 else edx + 0x30
  let buf := Function.update s.buf s.edi (low edx)
  let edi := s.edi - 1
  let eax := s.eax >>> 4
  let ecx := s.ecx - 1
  if ecx ≠ 0 then { s with eax, ecx, edx := eax, edi, buf }
  else { s with label := .skipPrefix0, eax, ecx, edx := eax, edi := edi + 1, buf }

def skipPrefix0 (s : State) : State :=
  if s.edi = 8 then { s with label := .full0 }
  else
    let ecx := setLow s.ecx (s.buf s.edi)
    let edi := s.edi + 1
    if low ecx = 0x30 then { s with ecx, edi }
    else { s with label := .putEachNum, ecx, edi := edi - 1 }

def full0 (s : State) : State := { s with label := .putEachNum, ecx := setLow s.ecx 0x30 }

def putEachNum (s : State) : State :=
  let out := s.out ++ [low s.ecx]
  let edi := s.edi + 1
  let ecx := setLow s.ecx (s.buf edi)
  if edi.slt 8 then { s with ecx, edi, out } else { s with label := .done, ecx, edi, out }

def step (s : State) : State :=
  match s.label with
  | .based16 => based16 s
  | .skipPrefix0 => skipPrefix0 s
  | .full0 => full0 s
  | .putEachNum => putEachNum s
  | .done => s

/-! ## The numeral -/

def hexDigit (d : Nat) : UInt8 := if d ≤ 9 then UInt8.ofNat (0x30 + d) else UInt8.ofNat (0x41 + (d - 10))

/-- The numeral in base 16, most significant digit first. -/
def hexNumeral (n : Nat) : List UInt8 := if n = 0 then [0x30] else (Nat.digits 16 n).reverse.map hexDigit

def hexVal (c : UInt8) : Nat := if c ≤ 0x39 then c.toNat - 0x30 else c.toNat - 0x41 + 10

/-- Reading a numeral. -/
def ofHex (s : List UInt8) : Nat := s.foldl (fun n c => 16 * n + hexVal c) 0

theorem hexVal_hexDigit : ∀ d < 16, hexVal (hexDigit d) = d := by decide

theorem hexDigit_eq_zero : ∀ d < 16, (hexDigit d = 0x30 ↔ d = 0) := by decide

/-- Reading the numeral gives the number back. -/
theorem ofHex_hexNumeral (n : Nat) : ofHex (hexNumeral n) = n := by
  unfold hexNumeral
  by_cases h0 : n = 0
  · rw [if_pos h0, h0]
    rfl
  · have hread : ∀ l : List Nat, (∀ d ∈ l, d < 16) →
        (l.reverse.map hexDigit).foldl (fun n c => 16 * n + hexVal c) 0 = Nat.ofDigits 16 l := by
      intro l
      induction l with
      | nil => exact fun _ => rfl
      | cons d l ih =>
        intro hl
        have hd := hexVal_hexDigit d (hl d (by simp))
        rw [List.reverse_cons, List.map_append, List.foldl_append, ih fun k hk => hl k (by simp [hk]),
          Nat.ofDigits_cons]
        show 16 * Nat.ofDigits 16 l + hexVal (hexDigit d) = _
        rw [hd, Nat.add_comm]
    rw [if_neg h0, ofHex, hread _ fun d hd => Nat.digits_lt_base (by decide) hd, Nat.ofDigits_digits]

/-- There is a first digit, and it is no zero unless the number is. -/
theorem hexNumeral_head (n : Nat) : ∃ c s, hexNumeral n = c :: s ∧ (c = 0x30 ↔ n = 0) := by
  unfold hexNumeral
  by_cases h0 : n = 0
  · exact ⟨0x30, [], if_pos h0, iff_of_true rfl h0⟩
  · have hne := Nat.digits_ne_nil_iff_ne_zero (b := 16).mpr h0
    have hlast := Nat.getLast_digit_ne_zero 16 h0
    have hd := Nat.digits_lt_base (b := 16) (by decide) (List.getLast_mem hne)
    refine ⟨hexDigit ((Nat.digits 16 n).getLast hne), ((Nat.digits 16 n).dropLast.reverse.map hexDigit), ?_, ?_⟩
    · rw [if_neg h0]
      conv_lhs => rw [← List.dropLast_append_getLast hne]
      rw [List.reverse_append]
      rfl
    · rw [hexDigit_eq_zero _ hd]
      exact iff_of_false hlast h0

/-- The digit that belongs at place `j` of the buffer. -/
def digitAt (n j : Nat) : UInt8 := hexDigit (n / 16 ^ (7 - j) % 16)

/-- The buffer from the first digit on is the numeral. -/
theorem digitAt_numeral {n j : Nat} (hj : j < 8) (hlt : n < 16 ^ (8 - j)) (hge : 16 ^ (7 - j) ≤ n) :
    (List.range' j (8 - j)).map (digitAt n) = hexNumeral n := by
  have h0 : n ≠ 0 := by
    have := Nat.pow_pos (a := 16) (n := 7 - j) (by decide)
    omega
  have hlen : (Nat.digits 16 n).length = 8 - j := by
    have h1 := (Nat.digits_length_le_iff (b := 16) (by decide) n).mpr hlt
    have h2 := (Nat.lt_digits_length_iff (b := 16) (by decide) n).mpr hge
    omega
  rw [hexNumeral, if_neg h0]
  refine List.ext_getElem ?_ fun i hi hi' => ?_
  · rw [List.length_map, List.length_range', List.length_map, List.length_reverse, hlen]
  · rw [List.length_map, List.length_range'] at hi
    have hk : 7 - (j + 1 * i) < (Nat.digits 16 n).length := by omega
    rw [List.getElem_map, List.getElem_range', List.getElem_map, List.getElem_reverse, digitAt,
      ← Nat.getD_digits n _ (by decide), List.getD_eq_getElem?_getD, List.getElem?_eq_getElem hk]
    have hidx : 7 - (j + 1 * i) = (Nat.digits 16 n).length - 1 - i := by omega
    simp only [hidx]
    rfl

/-! ## Registers -/

section
variable {r : BitVec 32} {k : Nat}

theorem low_setLow (r : BitVec 32) (b : UInt8) : low (setLow r b) = b := by
  have hb := b.toNat_lt
  apply UInt8.toNat_inj.mp
  rw [low, setLow, UInt8.toNat_ofNat', BitVec.toNat_ofNat]
  omega

/-- `jg` and `jl` compare signed, which is no difference below 2^31. -/
theorem slt_small {a b : BitVec 32} (ha : a.toNat < 2 ^ 31) (hb : b.toNat < 2 ^ 31) :
    a.slt b = decide (a.toNat < b.toNat) := by
  have hx := BitVec.toInt_eq_toNat_of_lt (x := a) (by omega)
  have hy := BitVec.toInt_eq_toNat_of_lt (x := b) (by omega)
  rw [BitVec.slt, hx, hy, decide_eq_decide]
  omega

theorem inc_toNat (h : r.toNat = k) (hk : k + 1 < 2 ^ 32) : (r + 1).toNat = k + 1 := by
  rw [BitVec.toNat_add, h, show (1 : BitVec 32).toNat = 1 from rfl]
  omega

theorem dec_toNat (h : r.toNat = k + 1) : (r - 1).toNat = k := by
  have := r.isLt
  rw [BitVec.toNat_sub, h, show (1 : BitVec 32).toNat = 1 from rfl]
  omega

theorem eq_ofNat (h : r.toNat = k) : r = BitVec.ofNat 32 k := by
  rw [← h, BitVec.ofNat_toNat, BitVec.setWidth_eq]

/-- The four low bits of `edx`, as a character. -/
theorem low_digit (r : BitVec 32) : low (if BitVec.slt 9 (r &&& 0x0000000F) then (r &&& 0x0000000F) - 10 + 0x41
    else (r &&& 0x0000000F) + 0x30) = hexDigit (r.toNat % 16) := by
  have hand : (r &&& 0x0000000F).toNat = r.toNat % 16 := by
    rw [BitVec.toNat_and]
    exact Nat.and_two_pow_sub_one_eq_mod r.toNat 4
  have hall : ∀ d < 16, low (if BitVec.slt 9 (BitVec.ofNat 32 d) then BitVec.ofNat 32 d - 10 + 0x41
      else BitVec.ofNat 32 d + 0x30) = hexDigit d := by decide
  rw [eq_ofNat hand]
  exact hall _ (by omega)

end

/-! ## The loops -/

/-- After `k` rounds of `.16based_4bits`. -/
structure Converted (n k : Nat) (s : State) : Prop where
  label : s.label = .based16
  ecx : s.ecx.toNat = 8 - k
  edi : s.edi.toNat = 7 - k
  eax : s.eax.toNat = n / 16 ^ k
  edx : s.edx = s.eax
  out : s.out = []
  buf : ∀ j < 8, 8 ≤ j + k → s.buf (BitVec.ofNat 32 j) = digitAt n j

/-- The digits are in the buffer. -/
def Full (n : Nat) (s : State) : Prop := ∀ j < 8, s.buf (BitVec.ofNat 32 j) = digitAt n j

/-- The digits before place `j` are zeros. -/
structure Skipped (n j : Nat) (s : State) : Prop where
  label : s.label = .skipPrefix0
  edi : s.edi.toNat = j
  zeros : n < 16 ^ (8 - j)
  out : s.out = []
  buf : Full n s

/-- Between place `j` and place `i` the digits are printed, and the one at `i` is in `cl`. -/
structure Printed (n j i : Nat) (s : State) : Prop where
  label : s.label = .putEachNum
  edi : s.edi.toNat = i
  cl : low s.ecx = digitAt n i
  out : s.out = (List.range' j (i - j)).map (digitAt n)
  buf : Full n s

section
variable {n j i k : Nat} {s : State}

theorem putInt_converted (n : BitVec 32) (buf : BitVec 32 → UInt8) : Converted n.toNat 0 (putInt n buf) where
  label := rfl
  ecx := rfl
  edi := rfl
  eax := (Nat.div_one _).symm
  edx := rfl
  out := rfl
  buf := fun j hj h => by omega

/-- The store of a round. -/
theorem Converted.store (h : Converted n k s) (hk : k < 8) : ∀ j < 8, 8 ≤ j + (k + 1) →
    (based16 s).buf (BitVec.ofNat 32 j) = digitAt n j := by
  intro j hj hjk
  have hbuf : (based16 s).buf = Function.update s.buf s.edi (low (if BitVec.slt 9 (s.edx &&& 0x0000000F)
      then (s.edx &&& 0x0000000F) - 10 + 0x41 else (s.edx &&& 0x0000000F) + 0x30)) := by
    unfold based16
    dsimp only
    split <;> rfl
  rw [hbuf, low_digit, eq_ofNat h.edi]
  by_cases hjk' : j = 7 - k
  · rw [hjk', Function.update_self, h.edx, h.eax, digitAt, show 7 - (7 - k) = k by omega]
  · have hne : BitVec.ofNat 32 j ≠ BitVec.ofNat 32 (7 - k) := by
      intro he
      have := congrArg BitVec.toNat he
      rw [BitVec.toNat_ofNat, BitVec.toNat_ofNat] at this
      omega
    rw [Function.update_of_ne hne, h.buf j hj (by omega)]

/-- A round of `.16based_4bits` before the last one. -/
theorem based16_step (h : Converted n k s) (hk : k < 7) : Converted n (k + 1) (step s) := by
  have hecx : (s.ecx - 1).toNat = 8 - (k + 1) := dec_toNat (by rw [h.ecx]; omega)
  have hne : s.ecx - 1 ≠ 0 := by
    intro h0
    rw [h0] at hecx
    exact absurd hecx (by show ¬ 0 = _; omega)
  have hstep : step s = based16 s := by rw [step, h.label]
  have hround : based16 s = _ := if_pos hne
  have hstore := h.store (by omega)
  rw [hround] at hstore
  rw [hstep, hround]
  refine ⟨h.label, hecx, dec_toNat (by rw [h.edi]; omega), ?_, rfl, h.out, hstore⟩
  show (s.eax >>> 4).toNat = _
  rw [BitVec.toNat_ushiftRight, h.eax, Nat.shiftRight_eq_div_pow]
  show n / 16 ^ k / 16 = _
  rw [Nat.div_div_eq_div_mul, Nat.pow_succ]

/-- The last round. -/
theorem based16_last (h : Converted n 7 s) (hn : n < 2 ^ 32) : Skipped n 0 (step s) := by
  have hecx : s.ecx - 1 = 0 := by
    rw [eq_ofNat h.ecx]
    rfl
  have hstep : step s = based16 s := by rw [step, h.label]
  have hround : based16 s = _ := if_neg (not_not.mpr hecx)
  have hstore := h.store (by omega)
  rw [hround] at hstore
  rw [hstep, hround]
  refine ⟨rfl, ?_, hn, h.out, fun j hj => hstore j hj (by omega)⟩
  show (s.edi - 1 + 1).toNat = 0
  rw [eq_ofNat h.edi]
  rfl

theorem converted_reaches (hn : n < 2 ^ 32) : ∀ (m k : Nat) (s : State), k + m = 7 → Converted n k s →
    Reaches step s (Skipped n 0) := by
  intro m
  induction m with
  | zero =>
    intro k s hk h
    obtain rfl : k = 7 := hk
    exact .next (.here (based16_last h hn))
  | succ m ih => exact fun k s hk h => .next (ih (k + 1) _ (by omega) (based16_step h (by omega)))

/-- A round of `.put_each_num` before the last one. -/
theorem putEachNum_step (h : Printed n j i s) (hij : j ≤ i) (hi : i < 7) : Printed n j (i + 1) (step s) := by
  have hedi : (s.edi + 1).toNat = i + 1 := inc_toNat h.edi (by omega)
  have hslt : (s.edi + 1).slt 8 = true := by
    rw [slt_small (by omega) (by decide), hedi]
    exact decide_eq_true (by show i + 1 < 8; omega)
  have hstep : step s = putEachNum s := by rw [step, h.label]
  have hround : putEachNum s = _ := if_pos hslt
  rw [hstep, hround]
  refine ⟨h.label, hedi, ?_, ?_, h.buf⟩
  · show low (setLow s.ecx (s.buf (s.edi + 1))) = _
    rw [low_setLow, eq_ofNat hedi, h.buf _ (by omega)]
  · show s.out ++ [low s.ecx] = _
    rw [h.out, h.cl, show i + 1 - j = i - j + 1 by omega, List.range'_concat, List.map_append,
      show j + 1 * (i - j) = i by omega]
    rfl

/-- The last character ends the loop; `.full0` comes here with `edi` past the buffer. -/
theorem putEachNum_last (hl : s.label = .putEachNum) (he : 7 ≤ s.edi.toNat) (he' : s.edi.toNat ≤ 8) :
    (step s).label = .done ∧ (step s).out = s.out ++ [low s.ecx] := by
  have hedi : (s.edi + 1).toNat = s.edi.toNat + 1 := inc_toNat rfl (by omega)
  have hslt : (s.edi + 1).slt 8 = false := by
    rw [slt_small (by omega) (by decide), hedi]
    exact decide_eq_false (by show ¬ s.edi.toNat + 1 < 8; omega)
  have hstep : step s = putEachNum s := by rw [step, hl]
  have hround : putEachNum s = _ := if_neg (Bool.not_eq_true _ ▸ hslt)
  rw [hstep, hround]
  exact ⟨rfl, rfl⟩

/-- Prints what is left of the buffer. -/
theorem printed_reaches : ∀ (m i : Nat) (s : State), i + m = 7 → j ≤ i → Printed n j i s →
    Reaches step s fun t => t.label = .done ∧ t.out = (List.range' j (8 - j)).map (digitAt n) := by
  intro m
  induction m with
  | zero =>
    intro i s hi hj h
    obtain rfl : i = 7 := hi
    have hedi := h.edi
    obtain ⟨hl, ho⟩ := putEachNum_last h.label (by omega) (by omega)
    refine .next (.here ⟨hl, ?_⟩)
    rw [ho, h.out, h.cl, show 8 - j = 7 - j + 1 by omega, List.range'_concat, List.map_append,
      show j + 1 * (7 - j) = 7 by omega]
    rfl
  | succ m ih => exact fun i s hi hj h => .next (ih (i + 1) _ (by omega) (by omega) (putEachNum_step h hj (by omega)))

/-- A round of `.skip_prefix_0` inside the buffer: over a zero, or back to the first digit. -/
theorem skipPrefix0_step (h : Skipped n j s) (hj : j < 8) :
    Skipped n (j + 1) (step s) ∨ (16 ^ (7 - j) ≤ n ∧ Printed n j j (step s)) := by
  have hne : s.edi ≠ 8 := by
    intro he
    have hedi := h.edi
    rw [he] at hedi
    exact absurd hedi (by show ¬ 8 = j; omega)
  have hcl : low (setLow s.ecx (s.buf s.edi)) = digitAt n j := by
    rw [low_setLow, eq_ofNat h.edi, h.buf j hj]
  have hpow : 16 ^ (8 - j) = 16 * 16 ^ (7 - j) := by rw [show 8 - j = 7 - j + 1 by omega, Nat.pow_succ, Nat.mul_comm]
  have hzeros := h.zeros
  have hq : n / 16 ^ (7 - j) < 16 := Nat.div_lt_of_lt_mul (by rw [Nat.mul_comm, ← hpow]; exact hzeros)
  have hzero : low (setLow s.ecx (s.buf s.edi)) = 0x30 ↔ n < 16 ^ (7 - j) := by
    rw [hcl, digitAt, hexDigit_eq_zero _ (by omega), Nat.mod_eq_of_lt hq, Nat.div_eq_zero_iff]
    exact or_iff_right (Nat.pow_pos (by decide)).ne'
  have hstep : step s = skipPrefix0 s := by rw [step, h.label]
  have hround : skipPrefix0 s = _ := if_neg hne
  rw [hstep, hround]
  dsimp only
  by_cases hz : n < 16 ^ (7 - j)
  · rw [if_pos (hzero.mpr hz)]
    refine .inl ⟨h.label, inc_toNat h.edi (by omega), ?_, h.out, h.buf⟩
    rw [show 8 - (j + 1) = 7 - j by omega]
    exact hz
  · rw [if_neg (mt hzero.mp hz)]
    refine .inr ⟨by omega, rfl, dec_toNat (inc_toNat h.edi (by omega)), hcl, ?_, h.buf⟩
    rw [Nat.sub_self]
    exact h.out

/-- Eight zeros: `.full0`. -/
theorem full0_reaches (h : Skipped n 8 s) : Reaches step s fun t => t.label = .done ∧ t.out = hexNumeral n := by
  have h0 : n = 0 := by
    have := h.zeros
    omega
  have he : s.edi = 8 := eq_ofNat h.edi
  have hstep : step s = { s with label := .full0 } := by
    have hround : skipPrefix0 s = _ := if_pos he
    rw [step, h.label]
    exact hround
  have hedi : s.edi.toNat = 8 := h.edi
  rw [h0]
  refine .step hstep (.next ?_)
  obtain ⟨hl, ho⟩ := putEachNum_last (s := full0 { s with label := .full0 }) rfl (by rw [full0, hedi]; decide)
    (by rw [full0, hedi])
  refine .next (.here ⟨hl, ?_⟩)
  refine ho.trans ?_
  show s.out ++ [low (setLow s.ecx 0x30)] = _
  rw [h.out, low_setLow]
  rfl

theorem skipped_reaches : ∀ (m j : Nat) (s : State), j + m = 8 → Skipped n j s →
    Reaches step s fun t => t.label = .done ∧ t.out = hexNumeral n := by
  intro m
  induction m with
  | zero =>
    intro j s hj h
    obtain rfl : j = 8 := hj
    exact full0_reaches h
  | succ m ih =>
    intro j s hj h
    rcases skipPrefix0_step h (by omega) with hs | ⟨hge, hp⟩
    · exact .next (ih (j + 1) _ (by omega) hs)
    · rw [← digitAt_numeral (by omega) h.zeros hge]
      exact .next (printed_reaches (7 - j) j _ (by omega) (Nat.le_refl j) hp)

end

/-- **put_int** passes the numeral of its argument to `put_char`: no zero in front, and read back it is the
argument. -/
theorem putInt_prints (n : BitVec 32) (buf : BitVec 32 → UInt8) :
    Reaches step (putInt n buf) (fun s => s.label = .done ∧ s.out = hexNumeral n.toNat) ∧
    (∃ c s, hexNumeral n.toNat = c :: s ∧ (c = 0x30 ↔ n.toNat = 0)) ∧ ofHex (hexNumeral n.toNat) = n.toNat :=
  ⟨(converted_reaches n.isLt 7 0 _ rfl (putInt_converted n buf)).trans fun s h => skipped_reaches 8 0 s rfl h,
    hexNumeral_head n.toNat, ofHex_hexNumeral n.toNat⟩

example : hexNumeral 0x1f0 = [0x31, 0x46, 0x30] := by decide

end MyOs.PutInt
