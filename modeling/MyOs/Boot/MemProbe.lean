import MyOs.Theory.Bytes
import MyOs.Theory.Word
import Mathlib.Order.Bounds.Basic
import Mathlib.Order.MinMax
import MyOs.Theory.Reach

/-!
# boot/loader.S: how much memory there is

The loader asks the BIOS in three ways.  Its code is a machine with one state per label; the answers of
`int 0x15` are a parameter.  E820 fills `ards_buf` entry by entry, and `.find_max_mem_area` is to find the end
of the highest area in it: but `xor ebx, ebx` stands where `xor edx, edx` should, so the scan starts at
address 0 and its maximum at `'SMAP'`.  The 88h branch runs into `.error_hlt`.

    e820_total_iff     when the E820 result is the highest end all the same
    probe_reaches_iff  when a BIOS that can answer brings the loader to .mem_get_ok
-/

namespace MyOs

/-! ## The data of the loader -/

/-- `total_mem_bytes`, at `LOADER_BASE_ADDR + 0x200`. -/
def TOTAL_MEM_BYTES : Nat := 0xb00
def ARDS_BUF : Nat := 0xb0a
def ARDS_NR : Nat := 0xbfe

/-- `'SMAP'` -/
def SMAP : BitVec 32 := 0x534d4150

/-- An address range descriptor. -/
structure Ards where
  baseLow : BitVec 32
  baseHigh : BitVec 32
  lengthLow : BitVec 32
  lengthHigh : BitVec 32
  type : BitVec 32
  deriving DecidableEq, Repr

def Ards.store (e : Ards) (m : Bytes) (a : Nat) : Bytes :=
  let m := m.write 4 a e.baseLow.toNat
  let m := m.write 4 (a + 4) e.baseHigh.toNat
  let m := m.write 4 (a + 8) e.lengthLow.toNat
  let m := m.write 4 (a + 12) e.lengthHigh.toNat
  m.write 4 (a + 16) e.type.toNat

/-- What a BIOS call returns in the carry flag and the registers. -/
structure Reply where
  cf : Bool
  eax : BitVec 32
  ebx : BitVec 32
  ecx : BitVec 32
  edx : BitVec 32
  deriving DecidableEq, Repr

/-- The answers of `int 0x15`: to the `k`-th call of E820, with the entry it writes, to E801 and to 88h. -/
structure Bios where
  e820 : Nat → Reply × Ards
  e801 : Reply
  ah88 : Reply

/-- The labels of the probe; `lost` is where control is once the BIOS wrote outside `ards_buf`, over the
loader itself, or an access went beyond the segment limit. -/
inductive ProbeLabel where
  | loaderStart
  | e820MemGetLoop
  | findMaxMemArea
  | nextArds
  | e820FailedSoTryE801
  | e801FailedSoTry88
  | errorHlt
  | memGetOk
  /-- After `mov [total_mem_bytes], edx`. -/
  | protectedMode
  | lost
  deriving DecidableEq, Repr

structure Probe where
  pc : ProbeLabel
  eax : BitVec 32
  ebx : BitVec 32
  ecx : BitVec 32
  edx : BitVec 32
  esi : BitVec 32
  edi : BitVec 32
  mem : Bytes
  /-- How many E820 calls the BIOS has answered. -/
  calls : Nat

/-- The low half of a register: `ax`, `bx`, `cx`, `di`. -/
def lo (r : BitVec 32) : BitVec 16 := r.setWidth 16

/-- A register whose low half was written. -/
def setLo (r : BitVec 32) (w : BitVec 16) : BitVec 32 := BitVec.ofNat 32 (r.toNat / 2 ^ 16 * 2 ^ 16 + w.toNat)

/-! ## Algorithm -/

def Probe.load (s : Probe) (r : Reply) : Probe :=
  { s with eax := r.eax, ebx := r.ebx, ecx := r.ecx, edx := r.edx }

/-- `int 0x15`, with the carry flag it leaves. -/
def int15 (bios : Bios) (s : Probe) : Bool × Probe :=
  if lo s.eax = 0xe820 then
    let r := bios.e820 s.calls
    let s := { s with calls := s.calls + 1 }
    (r.1.cf, if r.1.cf then s.load r.1 else { s.load r.1 with mem := r.2.store s.mem (lo s.edi).toNat })
  else if lo s.eax = 0xe801 then (bios.e801.cf, s.load bios.e801)
  else if (lo s.eax).extractLsb' 8 8 = 0x88 then (bios.ah88.cf, s.load bios.ah88)
  else (true, s)

/-- `mul cx` -/
def Probe.mulCx (s : Probe) : Probe :=
  let p : BitVec 32 := (lo s.eax).setWidth 32 * (lo s.ecx).setWidth 32
  { s with eax := setLo s.eax (lo p), edx := setLo s.edx (p.extractLsb' 16 16) }

/-- `mul ecx` -/
def Probe.mulEcx (s : Probe) : Probe :=
  let p : BitVec 64 := s.eax.setWidth 64 * s.ecx.setWidth 64
  { s with eax := p.setWidth 32, edx := p.extractLsb' 32 32 }

def Probe.dword (s : Probe) (a : Nat) : BitVec 32 := BitVec.ofNat 32 (s.mem.read 4 a)

/-- A 20-byte entry at `di` lies in `ards_buf`. -/
def InArdsBuf (di : Nat) : Prop := ARDS_BUF ≤ di ∧ di + 20 ≤ ARDS_NR

instance (di : Nat) : Decidable (InArdsBuf di) := inferInstanceAs (Decidable (_ ∧ _))

/-- `.e820_mem_get_loop` from `add di, cx` on. -/
def Probe.e820Next (s : Probe) : Probe :=
  let s := { s with
    edi := setLo s.edi (lo s.edi + lo s.ecx)
    mem := s.mem.write 2 ARDS_NR (s.mem.read 2 ARDS_NR + 1) }
  if s.ebx ≠ 0 then { s with pc := .e820MemGetLoop }
  else
    { s with
      ecx := setLo s.ecx (BitVec.ofNat 16 (s.mem.read 2 ARDS_NR))
      -- `mov ebx, ards_buf` and then `xor ebx, ebx`
      ebx := 0
      pc := .findMaxMemArea }

def Probe.e820MemGetLoop (bios : Bios) (s : Probe) : Probe :=
  let di := (lo s.edi).toNat
  let r := int15 bios { s with eax := 0xe820, ecx := 20 }
  if r.1 then { r.2 with pc := .e820FailedSoTryE801 }
  else if InArdsBuf di then r.2.e820Next
  else { r.2 with pc := .lost }

def Probe.findMaxMemArea (s : Probe) : Probe :=
  if s.ebx.toNat + 12 > 0x10000 then { s with pc := .lost }
  else
    let s := { s with eax := s.dword s.ebx.toNat }
    let s := { s with eax := s.eax + s.dword (s.ebx.toNat + 8) }
    let s := { s with ebx := s.ebx + 20 }
    -- `cmp edx, eax; jge .next_ards` compares signed
    if s.eax.sle s.edx then { s with pc := .nextArds } else { s with edx := s.eax, pc := .nextArds }

/-- `loop .find_max_mem_area` counts in `cx`. -/
def Probe.nextArds (s : Probe) : Probe :=
  let s := { s with ecx := setLo s.ecx (lo s.ecx - 1) }
  if lo s.ecx ≠ 0 then { s with pc := .findMaxMemArea } else { s with pc := .memGetOk }

/-- The low 15 MB, in kilobytes in `ax`, as bytes in `esi`. -/
def Probe.e801Low (s : Probe) : Probe :=
  let s := { s with ecx := setLo s.ecx 0x400 }
  let s := s.mulCx
  let s := { s with edx := s.edx <<< 16 }
  let s := { s with eax := s.eax &&& 0x0000ffff }
  let s := { s with edx := s.edx ||| s.eax }
  let s := { s with edx := s.edx + 0x100000 }
  { s with esi := s.edx }

/-- What is above 16 MB, in units of 64 KB in `bx`, is added. -/
def Probe.e801High (s : Probe) : Probe :=
  let s := { s with eax := 0 }
  let s := { s with eax := setLo s.eax (lo s.ebx) }
  let s := { s with ecx := 0x10000 }
  let s := s.mulEcx
  let s := { s with edx := s.esi }
  { s with edx := s.edx + s.eax }

def Probe.e820FailedSoTryE801 (bios : Bios) (s : Probe) : Probe :=
  let r := int15 bios { s with eax := setLo s.eax 0xe801 }
  if r.1 then { r.2 with pc := .e801FailedSoTry88 } else { r.2.e801Low.e801High with pc := .memGetOk }

/-- There is no jump at its end: a call that succeeds runs on into `.error_hlt`. -/
def Probe.e801FailedSoTry88 (bios : Bios) (s : Probe) : Probe :=
  let r := int15 bios { s with eax := (s.eax &&& 0xffff00ff) ||| 0x8800 }
  if r.1 then { r.2 with pc := .errorHlt }
  else
    let s := r.2
    let s := { s with eax := s.eax &&& 0x0000ffff }
    let s := { s with ecx := setLo s.ecx 0x400 }
    let s := s.mulCx
    let s := { s with edx := s.edx <<< 16 }
    let s := { s with edx := s.edx ||| s.eax }
    { s with edx := s.edx + 0x100000, pc := .errorHlt }

/-- The code from one label to the next. -/
def Probe.step (bios : Bios) (s : Probe) : Probe :=
  match s.pc with
  | .loaderStart =>
    { s with ebx := 0, edx := SMAP, edi := setLo s.edi (BitVec.ofNat 16 ARDS_BUF), pc := .e820MemGetLoop }
  | .e820MemGetLoop => s.e820MemGetLoop bios
  | .findMaxMemArea => s.findMaxMemArea
  | .nextArds => s.nextArds
  | .e820FailedSoTryE801 => s.e820FailedSoTryE801 bios
  | .e801FailedSoTry88 => s.e801FailedSoTry88 bios
  | .errorHlt => s
  | .memGetOk => { s with mem := s.mem.write 4 TOTAL_MEM_BYTES s.edx.toNat, pc := .protectedMode }
  | .protectedMode => s
  | .lost => s

/-! ## Halves of a register -/

theorem toNat_lo (r : BitVec 32) : (lo r).toNat = r.toNat % 2 ^ 16 := by
  rw [lo, BitVec.toNat_setWidth]

theorem toNat_setLo (r : BitVec 32) (w : BitVec 16) :
    (setLo r w).toNat = r.toNat / 2 ^ 16 * 2 ^ 16 + w.toNat := by
  have hr := r.isLt
  have hw := w.isLt
  rw [setLo, BitVec.toNat_ofNat]
  omega

@[simp] theorem lo_setLo (r : BitVec 32) (w : BitVec 16) : lo (setLo r w) = w := by
  apply BitVec.eq_of_toNat_eq
  have hw := w.isLt
  rw [toNat_lo, toNat_setLo]
  omega

/-- The product of `mul cx`, put together in `edx`: the shift clears the upper half of `edx`, the mask that
of `eax`. -/
theorem shl_or_halves (d a p : BitVec 32) :
    (setLo d (p.extractLsb' 16 16) <<< 16 ||| (setLo a (lo p) &&& 0x0000ffff)) = p := by
  apply BitVec.eq_of_toNat_eq
  have hp := p.isLt
  have hshl : (setLo d (p.extractLsb' 16 16) <<< 16).toNat = p.toNat / 2 ^ 16 * 2 ^ 16 := by
    rw [BitVec.toNat_shiftLeft, toNat_setLo, BitVec.extractLsb'_toNat, Nat.shiftLeft_eq,
      Nat.shiftRight_eq_div_pow]
    omega
  have hand : (setLo a (lo p) &&& 0x0000ffff).toNat = p.toNat % 2 ^ 16 := by
    rw [BitVec.toNat_and, toNat_setLo, toNat_lo, show (0x0000ffff : BitVec 32).toNat = 2 ^ 16 - 1 from rfl,
      Nat.and_two_pow_sub_one_eq_mod]
    omega
  rw [BitVec.toNat_or, hshl, hand, Word.or_low_eq_add _ _ 16 (by omega) (by omega)]
  omega

/-- The same where the mask came before the multiplication. -/
theorem shl_or_masked (d a p : BitVec 32) :
    (setLo d (p.extractLsb' 16 16) <<< 16 ||| setLo (a &&& 0x0000ffff) (lo p)) = p := by
  have hmask : setLo (a &&& 0x0000ffff) (lo p) = setLo a (lo p) &&& 0x0000ffff := by
    apply BitVec.eq_of_toNat_eq
    rw [toNat_setLo, BitVec.toNat_and, BitVec.toNat_and, toNat_setLo, toNat_lo,
      show (0x0000ffff : BitVec 32).toNat = 2 ^ 16 - 1 from rfl, Nat.and_two_pow_sub_one_eq_mod,
      Nat.and_two_pow_sub_one_eq_mod]
    omega
  rw [hmask, shl_or_halves]

theorem lo_masked (r : BitVec 32) : lo (r &&& 0x0000ffff) = lo r := by
  apply BitVec.eq_of_toNat_eq
  rw [toNat_lo, toNat_lo, BitVec.toNat_and, show (0x0000ffff : BitVec 32).toNat = 2 ^ 16 - 1 from rfl,
    Nat.and_two_pow_sub_one_eq_mod, Nat.mod_mod]

/-- `mul ecx` of a word by 64 KB fits in `eax`. -/
theorem mulEcx_64k (w : BitVec 16) :
    ((setLo 0 w).setWidth 64 * (0x10000 : BitVec 32).setWidth 64).setWidth 32 =
      w.setWidth 32 * (65536 : BitVec 32) := by
  apply BitVec.eq_of_toNat_eq
  have hw := w.isLt
  have h0 : (setLo 0 w).toNat = w.toNat := by
    rw [toNat_setLo, show (0 : BitVec 32).toNat = 0 from rfl]
    omega
  rw [BitVec.toNat_setWidth, BitVec.toNat_mul, BitVec.toNat_mul, BitVec.toNat_setWidth, BitVec.toNat_setWidth,
    BitVec.toNat_setWidth, h0, show (0x10000 : BitVec 32).toNat = 0x10000 from rfl]
  omega

/-- `ax` kilobytes above the first megabyte. -/
def kilobytes (ax : BitVec 16) : BitVec 32 := ax.setWidth 32 * 1024 + 0x100000

/-! ## One block -/

section
variable (bios : Bios) (s : Probe)

theorem int15_e820 (h : lo s.eax = 0xe820) : int15 bios s =
    ((bios.e820 s.calls).1.cf,
      if (bios.e820 s.calls).1.cf then { s with calls := s.calls + 1 }.load (bios.e820 s.calls).1
      else { { s with calls := s.calls + 1 }.load (bios.e820 s.calls).1 with
        mem := (bios.e820 s.calls).2.store s.mem (lo s.edi).toNat }) := by
  unfold int15
  rw [if_pos h]

theorem int15_e801 (h : lo s.eax = 0xe801) : int15 bios s = (bios.e801.cf, s.load bios.e801) := by
  unfold int15
  rw [if_neg (by rw [h]; decide), if_pos h]

theorem int15_88 (h : (lo s.eax).extractLsb' 8 8 = 0x88) :
    int15 bios s = (bios.ah88.cf, s.load bios.ah88) := by
  unfold int15
  rw [if_neg (by intro e; rw [e] at h; exact absurd h (by decide)),
    if_neg (by intro e; rw [e] at h; exact absurd h (by decide)), if_pos h]

theorem e801Low_esi : s.e801Low.esi = kilobytes (lo s.eax) ∧ s.e801Low.ebx = s.ebx := by
  unfold Probe.e801Low Probe.mulCx
  simp only [lo_setLo, shl_or_halves]
  exact ⟨rfl, trivial⟩

theorem e801High_edx : s.e801High.edx = s.esi + (lo s.ebx).setWidth 32 * 65536 := by
  unfold Probe.e801High Probe.mulEcx
  simp only [mulEcx_64k]

theorem step_e801 (hpc : s.pc = .e820FailedSoTryE801) : s.step bios =
    if bios.e801.cf then { s.load bios.e801 with pc := .e801FailedSoTry88 }
    else { (s.load bios.e801).e801Low.e801High with pc := .memGetOk } := by
  have hload : ({ s with eax := setLo s.eax 0xe801 } : Probe).load bios.e801 = s.load bios.e801 := by
    simp only [Probe.load]
  have hint := int15_e801 bios { s with eax := setLo s.eax 0xe801 } (lo_setLo _ _)
  rw [hload] at hint
  unfold Probe.step
  rw [hpc]
  unfold Probe.e820FailedSoTryE801
  rw [hint]

theorem e801_fails (hpc : s.pc = .e820FailedSoTryE801) (hcf : bios.e801.cf = true) :
    (s.step bios).pc = .e801FailedSoTry88 := by
  rw [step_e801 bios s hpc, if_pos hcf]

theorem e801_ok (hpc : s.pc = .e820FailedSoTryE801) (hcf : bios.e801.cf = false) :
    (s.step bios).pc = .memGetOk ∧
      (s.step bios).edx = kilobytes (lo bios.e801.eax) + (lo bios.e801.ebx).setWidth 32 * 65536 := by
  have hedx := e801High_edx (s.load bios.e801).e801Low
  rw [(e801Low_esi _).1, (e801Low_esi _).2] at hedx
  rw [step_e801 bios s hpc, if_neg (by rw [hcf]; decide)]
  exact ⟨rfl, hedx⟩

/-- `mov ah, 0x88` selects the function, whatever `al` is. -/
theorem ah_of_88 (r : BitVec 32) : (lo ((r &&& 0xffff00ff) ||| 0x8800)).extractLsb' 8 8 = 0x88 := by
  ext i hi
  have hcases : i = 0 ∨ i = 1 ∨ i = 2 ∨ i = 3 ∨ i = 4 ∨ i = 5 ∨ i = 6 ∨ i = 7 := by omega
  rcases hcases with rfl | rfl | rfl | rfl | rfl | rfl | rfl | rfl <;> simp [lo]

/-- The 88h branch ends at `.error_hlt` either way; the size it has computed is never stored. -/
theorem ah88_halts (hpc : s.pc = .e801FailedSoTry88) : (s.step bios).pc = .errorHlt ∧
    (bios.ah88.cf = false → (s.step bios).edx = kilobytes (lo bios.ah88.eax)) := by
  have hstep : s.step bios = s.e801FailedSoTry88 bios := by
    unfold Probe.step
    rw [hpc]
  rw [hstep]
  unfold Probe.e801FailedSoTry88
  rw [int15_88 bios { s with eax := (s.eax &&& 0xffff00ff) ||| 0x8800 } (ah_of_88 s.eax)]
  cases hcf : bios.ah88.cf with
  | true => exact ⟨rfl, fun h => by cases h⟩
  | false =>
    refine ⟨rfl, fun _ => ?_⟩
    simp only [Bool.false_eq_true, if_false, Probe.load, Probe.mulCx, lo_setLo, lo_masked, shl_or_masked]
    rfl

end

/-! ## The loop of E820 -/

theorem Ards.store_out (e : Ards) (m : Bytes) (a b : Nat) (h : b < a ∨ a + 20 ≤ b) : e.store m a b = m b := by
  unfold Ards.store
  rw [Bytes.write_out _ _ _ _ _ (by omega), Bytes.write_out _ _ _ _ _ (by omega),
    Bytes.write_out _ _ _ _ _ (by omega), Bytes.write_out _ _ _ _ _ (by omega),
    Bytes.write_out _ _ _ _ _ (by omega)]

/-- At the head of the loop, `k` entries are in the buffer, and memory below the loader's data is as it was. -/
structure AtLoop (m : Bytes) (k : Nat) (s : Probe) : Prop where
  pc : s.pc = .e820MemGetLoop
  di : (lo s.edi).toNat = ARDS_BUF + 20 * k
  calls : s.calls = k
  nr : s.mem.read 2 ARDS_NR = k
  low : ∀ a, a < TOTAL_MEM_BYTES → s.mem a = m a

/-- At the head of the scan, `j` of `n` entries have been compared, and `max` is the greatest end so far. -/
structure AtScan (m : Bytes) (n j : Nat) (max : BitVec 32) (s : Probe) : Prop where
  pc : s.pc = .findMaxMemArea
  cx : (lo s.ecx).toNat = n - j
  ebx : s.ebx.toNat = 20 * j
  edx : s.edx = max
  low : ∀ a, a < TOTAL_MEM_BYTES → s.mem a = m a

section
variable {bios : Bios} {m : Bytes} {k : Nat} {s : Probe}

theorem loaderStart_atLoop (hpc : s.pc = .loaderStart) (hc : s.calls = 0) (hnr : s.mem.read 2 ARDS_NR = 0) :
    AtLoop s.mem 0 (s.step bios) := by
  unfold Probe.step
  rw [hpc]
  refine ⟨rfl, ?_, hc, hnr, fun _ _ => rfl⟩
  show (lo (setLo s.edi _)).toNat = _
  rw [lo_setLo]
  rfl

theorem AtLoop.step_eq (h : AtLoop m k s) : s.step bios = s.e820MemGetLoop bios := by
  unfold Probe.step
  rw [h.pc]

theorem AtLoop.fails (h : AtLoop m k s) (hcf : (bios.e820 k).1.cf = true) :
    (s.step bios).pc = .e820FailedSoTryE801 := by
  rw [h.step_eq]
  unfold Probe.e820MemGetLoop
  rw [int15_e820 bios { s with eax := 0xe820, ecx := 20 } rfl]
  simp only [h.calls, hcf, if_true]

/-- An entry in the buffer leaves the counter alone. -/
theorem AtLoop.nr_stored (h : AtLoop m k s) (hk : k < 12) (e : Ards) :
    (e.store s.mem (ARDS_BUF + 20 * k)).read 2 ARDS_NR = k := by
  rw [Bytes.read_congr fun i hi => Ards.store_out _ _ _ _ (.inr (by unfold ARDS_BUF ARDS_NR; omega)), h.nr]

/-- The state after a call that succeeds. -/
theorem AtLoop.step_answered (h : AtLoop m k s) (hk : k < 12) (hcf : (bios.e820 k).1.cf = false) :
    s.step bios = ({ { s with calls := k + 1 }.load (bios.e820 k).1 with
      mem := (bios.e820 k).2.store s.mem (ARDS_BUF + 20 * k) }).e820Next := by
  have hin : InArdsBuf (ARDS_BUF + 20 * k) := by
    unfold InArdsBuf ARDS_BUF ARDS_NR
    omega
  rw [h.step_eq]
  unfold Probe.e820MemGetLoop
  rw [int15_e820 bios { s with eax := 0xe820, ecx := 20 } rfl]
  simp only [h.calls, h.di, hcf, Bool.false_eq_true, if_false, hin, if_true]
  rfl

/-- A call that succeeds appends its entry to the buffer. -/
theorem AtLoop.answered (h : AtLoop m k s) (hk : k < 12) (hcf : (bios.e820 k).1.cf = false)
    (hsize : lo (bios.e820 k).1.ecx = 20) :
    ((bios.e820 k).1.ebx ≠ 0 → AtLoop m (k + 1) (s.step bios)) ∧
    ((bios.e820 k).1.ebx = 0 → AtScan m (k + 1) 0 (bios.e820 k).1.edx (s.step bios)) := by
  have hnr := h.nr_stored hk (bios.e820 k).2
  have hread : (((bios.e820 k).2.store s.mem (ARDS_BUF + 20 * k)).write 2 ARDS_NR (k + 1)).read 2 ARDS_NR =
      k + 1 := by
    rw [Bytes.read_write]
    omega
  have hlow : ∀ a, a < TOTAL_MEM_BYTES →
      (((bios.e820 k).2.store s.mem (ARDS_BUF + 20 * k)).write 2 ARDS_NR (k + 1)) a = m a := by
    intro a ha
    unfold TOTAL_MEM_BYTES at ha
    rw [Bytes.write_out _ _ _ _ _ (by unfold ARDS_NR; omega),
      Ards.store_out _ _ _ _ (by unfold ARDS_BUF; omega)]
    exact h.low a ha
  have hdi : (lo s.edi + 20).toNat = ARDS_BUF + 20 * (k + 1) := by
    rw [BitVec.toNat_add, h.di, show (20 : BitVec 16).toNat = 20 from rfl]
    unfold ARDS_BUF
    omega
  rw [h.step_answered hk hcf]
  unfold Probe.e820Next
  simp only [Probe.load, hnr, hread, hsize]
  constructor
  · intro hne
    rw [if_pos hne]
    refine ⟨rfl, ?_, rfl, hread, hlow⟩
    show (lo (setLo s.edi _)).toNat = _
    rw [lo_setLo, hdi]
  · intro he
    rw [if_neg (not_not_intro he)]
    refine ⟨rfl, ?_, rfl, rfl, hlow⟩
    show (lo (setLo _ _)).toNat = _
    rw [lo_setLo, BitVec.toNat_ofNat]
    omega

end

/-! ## The scan -/

/-- What the scan takes for the end of the `j`-th area: it reads low memory, not `ards_buf`. -/
def lowSum (m : Bytes) (j : Nat) : BitVec 32 :=
  BitVec.ofNat 32 (m.read 4 (20 * j)) + BitVec.ofNat 32 (m.read 4 (20 * j + 8))

/-- The comparison of `.find_max_mem_area`. -/
def greater (x max : BitVec 32) : BitVec 32 := if x.sle max then max else x

/-- The greatest of `max` and the first `n` values of `f`, as the scan compares. -/
def areaMax (f : Nat → BitVec 32) (max : BitVec 32) : Nat → BitVec 32
  | 0 => max
  | n + 1 => greater (f n) (areaMax f max n)

theorem toInt_greater (x max : BitVec 32) : (greater x max).toInt = Max.max x.toInt max.toInt := by
  unfold greater
  by_cases h : x.sle max = true
  · have hle := BitVec.sle_iff_toInt_le.mp h
    rw [if_pos h, max_eq_right hle]
  · have hle : ¬ x.toInt ≤ max.toInt := fun hle => h (BitVec.sle_iff_toInt_le.mpr hle)
    rw [if_neg h, max_eq_left (by omega)]

theorem areaMax_isGreatest (f : Nat → BitVec 32) (max : BitVec 32) (n : Nat) :
    IsGreatest (insert max.toInt { x | ∃ j, j < n ∧ x = (f j).toInt }) (areaMax f max n).toInt := by
  induction n with
  | zero => simp [areaMax, IsGreatest, upperBounds]
  | succ n ih =>
    obtain ⟨hmem, hub⟩ := ih
    rw [areaMax, toInt_greater]
    constructor
    · rcases max_choice (f n).toInt (areaMax f max n).toInt with he | he
      · rw [he]
        exact .inr ⟨n, by omega, rfl⟩
      · rw [he]
        rcases hmem with h0 | ⟨j, hj, hx⟩
        · exact .inl h0
        · exact .inr ⟨j, by omega, hx⟩
    · rintro x (rfl | ⟨j, hj, rfl⟩)
      · exact le_max_of_le_right (hub (.inl rfl))
      · by_cases hjn : j = n
        · rw [hjn]
          exact le_max_left _ _
        · exact le_max_of_le_right (hub (.inr ⟨j, by omega, rfl⟩))

section
variable {bios : Bios} {m : Bytes} {n j : Nat} {max : BitVec 32} {s : Probe}

/-- One entry is compared. -/
theorem AtScan.compared (bios : Bios) (h : AtScan m n j max s) (hj : j < n) (hn : n ≤ 12) :
    ((s.step bios).pc = .nextArds ∧ (s.step bios).ebx.toNat = 20 * (j + 1) ∧
      (s.step bios).edx = greater (lowSum m j) max) ∧
    (s.step bios).ecx = s.ecx ∧ (s.step bios).mem = s.mem := by
  have hlow : ∀ a, a + 4 ≤ TOTAL_MEM_BYTES → s.mem.read 4 a = m.read 4 a :=
    fun a ha => Bytes.read_congr fun i hi => h.low _ (by omega)
  have hsum : s.dword s.ebx.toNat +
      ({ s with eax := s.dword s.ebx.toNat } : Probe).dword (s.ebx.toNat + 8) = lowSum m j := by
    unfold Probe.dword lowSum
    rw [h.ebx, hlow _ (by unfold TOTAL_MEM_BYTES; omega), hlow _ (by unfold TOTAL_MEM_BYTES; omega)]
  have hebx : (s.ebx + 20).toNat = 20 * (j + 1) := by
    rw [BitVec.toNat_add, h.ebx, show (20 : BitVec 32).toNat = 20 from rfl]
    omega
  have hstep : s.step bios = s.findMaxMemArea := by
    unfold Probe.step
    rw [h.pc]
  rw [hstep]
  unfold Probe.findMaxMemArea
  rw [if_neg (by rw [h.ebx]; omega)]
  simp only [hsum]
  rw [h.edx]
  unfold greater
  split
  · exact ⟨⟨rfl, hebx, rfl⟩, rfl, rfl⟩
  · exact ⟨⟨rfl, hebx, rfl⟩, rfl, rfl⟩

/-- `loop` goes round or falls through. -/
theorem nextArds_step (bios : Bios) (hpc : s.pc = .nextArds) (c : Nat) (hc : (lo s.ecx).toNat = c + 1) :
    s.step bios = { s with
      ecx := setLo s.ecx (lo s.ecx - 1), pc := if c = 0 then .memGetOk else .findMaxMemArea } ∧
    (lo (setLo s.ecx (lo s.ecx - 1))).toNat = c := by
  have hsub : (lo s.ecx - 1).toNat = c := by
    rw [BitVec.toNat_sub, hc, show (1 : BitVec 16).toNat = 1 from rfl]
    have := (lo s.ecx).isLt
    omega
  have hzero : lo s.ecx - 1 ≠ 0 ↔ c ≠ 0 := by
    rw [Ne, ← BitVec.toNat_inj, hsub]
    rfl
  refine ⟨?_, by rw [lo_setLo, hsub]⟩
  unfold Probe.step
  rw [hpc]
  show s.nextArds = _
  unfold Probe.nextArds
  simp only [lo_setLo, hzero]
  by_cases h0 : c = 0
  · rw [if_neg (not_not_intro h0), if_pos h0]
  · rw [if_pos h0, if_neg h0]

/-- The scan ends at `.mem_get_ok` with the greatest value in `edx`. -/
theorem AtScan.ends : ∀ (c j : Nat) (s : Probe), j + (c + 1) = n → n ≤ 12 →
    AtScan m n j (areaMax (lowSum m) max j) s →
    Reaches (Probe.step bios) s fun t => t.pc = .memGetOk ∧ t.edx = areaMax (lowSum m) max n := by
  intro c
  induction c with
  | zero =>
    intro j s hjn hn h
    obtain ⟨⟨hpc, -, hedx⟩, hecx, -⟩ := h.compared bios (by omega) hn
    obtain ⟨hloop, -⟩ := nextArds_step bios hpc 0 (by rw [hecx, h.cx]; omega)
    refine .next (.next (.here ?_))
    rw [hloop, if_pos rfl]
    refine ⟨rfl, ?_⟩
    show (s.step bios).edx = _
    rw [hedx, ← hjn, areaMax]
  | succ c ih =>
    intro j s hjn hn h
    obtain ⟨⟨hpc, hebx, hedx⟩, hecx, hmem⟩ := h.compared bios (by omega) hn
    obtain ⟨hloop, hcx⟩ := nextArds_step bios hpc (c + 1) (by rw [hecx, h.cx]; omega)
    refine .next (.next (ih (j + 1) _ (by omega) hn ?_))
    rw [hloop, if_neg (by omega)]
    refine ⟨rfl, ?_, hebx, hedx, fun a ha => ?_⟩
    · show (lo (setLo _ _)).toNat = _
      rw [hcx]
      omega
    · show (s.step bios).mem a = m a
      rw [hmem]
      exact h.low a ha

end

/-! ## Which way the probe goes -/

/-- The BIOS is asked for its `k`-th entry: it gave the ones before it and said that there are more. -/
def Bios.Asked (bios : Bios) (k : Nat) : Prop :=
  ∀ j, j < k → (bios.e820 j).1.cf = false ∧ (bios.e820 j).1.ebx ≠ 0

/-- The map is given to its end. -/
def Bios.E820Works (bios : Bios) : Prop :=
  ∃ k, bios.Asked k ∧ (bios.e820 k).1.cf = false ∧ (bios.e820 k).1.ebx = 0

def Bios.E820Fails (bios : Bios) : Prop := ∃ k, bios.Asked k ∧ (bios.e820 k).1.cf = true

/-- E820 returns in `ecx` how many bytes it wrote: 20. -/
def Bios.Entries20 (bios : Bios) : Prop := ∀ k, (bios.e820 k).1.cf = false → lo (bios.e820 k).1.ecx = 20

/-- The map has the 12 entries at most that `ards_buf` has room for. -/
def Bios.MapFits (bios : Bios) : Prop := ∀ k, bios.Asked k → (bios.e820 k).1.cf = false → k < 12

/-- The loader as the MBR starts it: `ards_nr` is assembled as 0; registers and the rest of memory are
arbitrary. -/
structure AtStart (s : Probe) : Prop where
  pc : s.pc = .loaderStart
  calls : s.calls = 0
  nr : s.mem.read 2 ARDS_NR = 0

/-- Control comes to `.mem_get_ok` and past it, with `v` in `total_mem_bytes`. -/
def Stores (bios : Bios) (s : Probe) (v : Nat) : Prop :=
  Reaches (Probe.step bios) s fun t => t.pc = .protectedMode ∧ t.mem.read 4 TOTAL_MEM_BYTES = v

theorem Bios.not_works_and_fails {bios : Bios} (hw : bios.E820Works) : ¬ bios.E820Fails := by
  rintro ⟨j, hj, hcf⟩
  obtain ⟨k, hk, hok, hebx⟩ := hw
  rcases Nat.lt_trichotomy j k with hlt | rfl | hlt
  · rw [(hk j hlt).1] at hcf
    cases hcf
  · rw [hok] at hcf
    cases hcf
  · exact (hj k hlt).2 hebx

/-- A map that fits comes to an end. -/
theorem Bios.works_or_fails {bios : Bios} (hfit : bios.MapFits) : bios.E820Works ∨ bios.E820Fails := by
  by_contra hn
  have hasked : ∀ k, bios.Asked k := by
    intro k
    induction k with
    | zero => intro j hj; omega
    | succ k ih =>
      intro j hj
      by_cases hjk : j < k
      · exact ih j hjk
      · obtain rfl : j = k := by omega
        have hcf : (bios.e820 j).1.cf = false := by
          by_contra hcf
          exact hn (.inr ⟨j, ih, by simpa using hcf⟩)
        exact ⟨hcf, fun hebx => hn (.inl ⟨j, ih, hcf, hebx⟩)⟩
  have := hfit 12 (hasked 12) (hasked 13 12 (by decide)).1
  omega

section
variable {bios : Bios} {s : Probe}

theorem memGetOk_stores {x : BitVec 32}
    (h : Reaches (Probe.step bios) s fun t => t.pc = .memGetOk ∧ t.edx = x) : Stores bios s x.toNat := by
  refine h.trans fun t ht => .next (.here ?_)
  have hstep : t.step bios = { t with mem := t.mem.write 4 TOTAL_MEM_BYTES t.edx.toNat, pc := .protectedMode } := by
    unfold Probe.step
    rw [ht.1]
  rw [hstep]
  refine ⟨rfl, ?_⟩
  show (t.mem.write 4 _ _).read 4 _ = _
  rw [Bytes.read_write, ht.2]
  exact Nat.mod_eq_of_lt x.isLt

theorem protectedMode_stays (v : Nat) (t : Probe)
    (h : t.pc = .protectedMode ∧ t.mem.read 4 TOTAL_MEM_BYTES = v) :
    (t.step bios).pc = .protectedMode ∧ (t.step bios).mem.read 4 TOTAL_MEM_BYTES = v := by
  have hstep : t.step bios = t := by
    unfold Probe.step
    rw [h.1]
  rw [hstep]
  exact h

theorem errorHlt_stays (t : Probe) (h : t.pc = .errorHlt) : (t.step bios).pc = .errorHlt := by
  have hstep : t.step bios = t := by
    unfold Probe.step
    rw [h]
  rw [hstep]
  exact h

theorem Stores.not_errorHlt {v : Nat} (h : Stores bios s v) :
    ¬ Reaches (Probe.step bios) s fun t => t.pc = .errorHlt :=
  Reaches.not_both (protectedMode_stays v) errorHlt_stays (fun t h1 h2 => by rw [h1.1] at h2; cases h2) h

theorem Stores.unique {v w : Nat} (hv : Stores bios s v) (hw : Stores bios s w) : v = w := by
  by_contra hne
  exact Reaches.not_both (protectedMode_stays v) (protectedMode_stays w)
    (fun t h1 h2 => hne (h1.2.symm.trans h2.2)) hv hw

variable (h : AtStart s) (hsize : bios.Entries20) (hfit : bios.MapFits)

include h hsize hfit

/-- The loop comes to every call that the BIOS is asked. -/
theorem atLoop_reached : ∀ k, bios.Asked k → Reaches (Probe.step bios) s (AtLoop s.mem k) := by
  intro k
  induction k with
  | zero => exact fun _ => .next (.here (loaderStart_atLoop h.pc h.calls h.nr))
  | succ k ih =>
    intro hk
    have hbefore : bios.Asked k := fun j hj => hk j (by omega)
    obtain ⟨hcf, hebx⟩ := hk k (by omega)
    refine (ih hbefore).trans fun t ht => .next (.here ?_)
    exact (ht.answered (hfit k hbefore hcf) hcf (hsize k hcf)).1 hebx

/-- When the map ends, the scan runs over as many entries, from `edx` as the BIOS left it. -/
theorem e820Works_reached {k : Nat} (hk : bios.Asked k) (hcf : (bios.e820 k).1.cf = false)
    (hebx : (bios.e820 k).1.ebx = 0) : Reaches (Probe.step bios) s fun t =>
      t.pc = .memGetOk ∧ t.edx = areaMax (lowSum s.mem) (bios.e820 k).1.edx (k + 1) := by
  have hlt := hfit k hk hcf
  refine (atLoop_reached h hsize hfit k hk).trans fun t ht => .next ?_
  exact ((ht.answered hlt hcf (hsize k hcf)).2 hebx).ends k 0 _ (by omega) (by omega)

theorem e820Fails_reached (hf : bios.E820Fails) :
    Reaches (Probe.step bios) s fun t => t.pc = .e820FailedSoTryE801 := by
  obtain ⟨k, hk, hcf⟩ := hf
  exact (atLoop_reached h hsize hfit k hk).trans fun t ht => .next (.here (ht.fails hcf))

end

/-! ## What E820 stores -/

/-- E820 returns the map `es`: 20 bytes each, `ebx` 0 with the last and only then, `edx` as it was. -/
structure Bios.Returns (bios : Bios) (es : List Ards) : Prop where
  cf : ∀ k, k < es.length → (bios.e820 k).1.cf = false
  entry : ∀ k (hk : k < es.length), (bios.e820 k).2 = es[k]
  last : ∀ k, k < es.length → ((bios.e820 k).1.ebx = 0 ↔ k + 1 = es.length)
  edx : ∀ k, k < es.length → (bios.e820 k).1.edx = SMAP

def Ards.end (e : Ards) : Nat := e.baseLow.toNat + e.lengthLow.toNat

/-- The highest end of an area. -/
def maxEnd (es : List Ards) : Nat := (es.map Ards.end).foldr Max.max 0

theorem maxEnd_lt (es : List Ards) (b : Nat) (hb : 0 < b) (h : ∀ e ∈ es, e.end < b) : maxEnd es < b := by
  induction es with
  | nil => exact hb
  | cons e es ih =>
    show Max.max e.end (maxEnd es) < b
    exact max_lt (h e (by simp)) (ih fun e' he' => h e' (by simp [he']))

theorem Bios.Returns.asked {bios : Bios} {es : List Ards} (h : bios.Returns es) (k : Nat) (hk : k < es.length) :
    bios.Asked k := by
  intro j hj
  refine ⟨h.cf j (by omega), fun h0 => ?_⟩
  have := (h.last j (by omega)).mp h0
  omega

/-- No call is asked after the last entry. -/
theorem Bios.Returns.asked_lt {bios : Bios} {es : List Ards} (h : bios.Returns es) (hne : 0 < es.length) (k : Nat)
    (hk : bios.Asked k) : k < es.length := by
  by_contra hge
  exact (hk (es.length - 1) (by omega)).2 ((h.last _ (by omega)).mpr (by omega))

section
variable {bios : Bios} {s : Probe} {es : List Ards}

/-- The stored value compares low memory, from `'SMAP'` on. -/
theorem e820_stores (h : AtStart s) (hsize : bios.Entries20) (hret : bios.Returns es) (h1 : 1 ≤ es.length)
    (h12 : es.length ≤ 12) : Stores bios s (areaMax (lowSum s.mem) SMAP es.length).toNat := by
  have hfit : bios.MapFits := fun k hk _ => by
    have := hret.asked_lt h1 k hk
    omega
  have hlast := (hret.last (es.length - 1) (by omega)).mpr (by omega)
  have hreach := e820Works_reached h hsize hfit (hret.asked _ (by omega)) (hret.cf _ (by omega)) hlast
  rw [hret.edx _ (by omega), Nat.sub_add_cancel h1] at hreach
  exact memGetOk_stores hreach

/-- **The E820 result.**  `total_mem_bytes` is the highest end of an area exactly when that end happens to be
the greatest of `'SMAP'` and the sums that the scan reads from address 0 on. -/
theorem e820_total_iff (h : AtStart s) (hsize : bios.Entries20) (hret : bios.Returns es) (h1 : 1 ≤ es.length)
    (h12 : es.length ≤ 12) (hend : ∀ e ∈ es, e.end < 2 ^ 31) :
    Stores bios s (maxEnd es) ↔
      IsGreatest (insert 0x534d4150 { x | ∃ j, j < es.length ∧ x = (lowSum s.mem j).toInt }) (maxEnd es : Int) := by
  have hst := e820_stores h hsize hret h1 h12
  have hg := areaMax_isGreatest (lowSum s.mem) SMAP es.length
  rw [show SMAP.toInt = 0x534d4150 from rfl] at hg
  have hlt := maxEnd_lt es (2 ^ 31) (by decide) hend
  have hint := BitVec.toInt_eq_toNat_cond (areaMax (lowSum s.mem) SMAP es.length)
  have hbound := (areaMax (lowSum s.mem) SMAP es.length).isLt
  have hval : (areaMax (lowSum s.mem) SMAP es.length).toNat = maxEnd es ↔
      (areaMax (lowSum s.mem) SMAP es.length).toInt = (maxEnd es : Int) := by
    rw [hint]
    split <;> omega
  constructor
  · intro hmax
    rw [← hval.mp (hst.unique hmax)]
    exact hg
  · intro hmax
    rw [← hval.mpr (hg.unique hmax)]
    exact hst

end

/-- A loader with zeroed memory and registers. -/
def zeroedStart : Probe :=
  { pc := .loaderStart, eax := 0, ebx := 0, ecx := 0, edx := 0, esi := 0, edi := 0, mem := fun _ => 0, calls := 0 }

theorem zeroedStart_atStart : AtStart zeroedStart := ⟨rfl, rfl, rfl⟩

theorem lowSum_zeroed (j : Nat) : lowSum zeroedStart.mem j = 0 := rfl

theorem areaMax_zeroed (n : Nat) : areaMax (lowSum zeroedStart.mem) SMAP n = SMAP := by
  induction n with
  | zero => rfl
  | succ n ih =>
    rw [areaMax, ih, lowSum_zeroed]
    decide

/-- A call that sets the carry flag. -/
def refused : Reply := { cf := true, eax := 0, ebx := 0, ecx := 0, edx := 0 }

/-- A BIOS that knows E820 only. -/
def mapBios (es : List Ards) : Bios :=
  { e820 := fun k =>
      ({ cf := es.length ≤ k, eax := SMAP, ebx := if k + 1 = es.length then 0 else 1, ecx := 20, edx := SMAP },
        es.getD k ⟨0, 0, 0, 0, 0⟩)
    e801 := refused
    ah88 := refused }

theorem mapBios_entries20 (es : List Ards) : (mapBios es).Entries20 := fun _ _ => rfl

theorem mapBios_returns (es : List Ards) : (mapBios es).Returns es where
  cf := by
    intro k hk
    simp only [mapBios, decide_eq_false_iff_not]
    omega
  entry := by
    intro k hk
    simp [mapBios, hk]
  last := by
    intro k _
    simp only [mapBios]
    split <;> simp_all
  edx := fun _ _ => rfl

/-- A machine that has `'SMAP'` bytes by chance. -/
theorem e820_total_smap :
    Stores (mapBios [⟨0x100000, 0, 0x533d4150, 0, 1⟩]) zeroedStart (maxEnd [⟨0x100000, 0, 0x533d4150, 0, 1⟩]) := by
  refine (e820_total_iff zeroedStart_atStart (mapBios_entries20 _) (mapBios_returns _) (by decide) (by decide)
    (by decide)).mpr ⟨.inl rfl, ?_⟩
  rintro x (rfl | ⟨j, -, rfl⟩)
  · decide
  · rw [lowSum_zeroed]
    decide

/-- A machine with 512 MB and zeroed low memory is taken for one with 1333 MB. -/
theorem e820_total_wrong :
    Stores (mapBios [⟨0, 0, 0x9f000, 0, 1⟩, ⟨0x100000, 0, 0x1fef0000, 0, 1⟩]) zeroedStart 0x534d4150 ∧
    ¬ Stores (mapBios [⟨0, 0, 0x9f000, 0, 1⟩, ⟨0x100000, 0, 0x1fef0000, 0, 1⟩]) zeroedStart
      (maxEnd [⟨0, 0, 0x9f000, 0, 1⟩, ⟨0x100000, 0, 0x1fef0000, 0, 1⟩]) := by
  have hst := e820_stores zeroedStart_atStart (mapBios_entries20 _)
    (mapBios_returns [⟨0, 0, 0x9f000, 0, 1⟩, ⟨0x100000, 0, 0x1fef0000, 0, 1⟩]) (by decide) (by decide)
  rw [areaMax_zeroed, show SMAP.toNat = 0x534d4150 from rfl] at hst
  exact ⟨hst, fun hmax => absurd (hst.unique hmax) (by decide)⟩

/-! ## Whether the probe comes to an end -/

/-- What the fallback chain is for: control reaches `.mem_get_ok` when a probe that is tried succeeds and only
then, with the size that E801 or 88h reported; and `.error_hlt` only when all three fail. -/
structure ProbeReaches (bios : Bios) (s : Probe) : Prop where
  memGetOk : (Reaches (Probe.step bios) s fun t => t.pc = .memGetOk) ↔ bios.E820Works ∨
    (bios.E820Fails ∧ bios.e801.cf = false) ∨
    (bios.E820Fails ∧ bios.e801.cf = true ∧ bios.ah88.cf = false)
  e801 : bios.E820Fails → bios.e801.cf = false → Stores bios s
    (((lo bios.e801.eax).toNat * 1024 + (lo bios.e801.ebx).toNat * 65536 + 0x100000) % 2 ^ 32)
  ah88 : bios.E820Fails → bios.e801.cf = true → bios.ah88.cf = false →
    Stores bios s ((lo bios.ah88.eax).toNat * 1024 + 0x100000)
  errorHlt : (Reaches (Probe.step bios) s fun t => t.pc = .errorHlt) →
    bios.E820Fails ∧ bios.e801.cf = true ∧ bios.ah88.cf = true

section
variable {bios : Bios} {s : Probe}

theorem kilobytes_add (ax bx : BitVec 16) : (kilobytes ax + bx.setWidth 32 * 65536).toNat =
    (ax.toNat * 1024 + bx.toNat * 65536 + 0x100000) % 2 ^ 32 := by
  unfold kilobytes
  have ha := ax.isLt
  have hb := bx.isLt
  rw [BitVec.toNat_add, BitVec.toNat_add, BitVec.toNat_mul, BitVec.toNat_mul, BitVec.toNat_setWidth,
    BitVec.toNat_setWidth, show (1024 : BitVec 32).toNat = 1024 from rfl,
    show (65536 : BitVec 32).toNat = 65536 from rfl, show (0x100000 : BitVec 32).toNat = 0x100000 from rfl]
  omega

theorem memGetOk_stores_some (h : Reaches (Probe.step bios) s fun t => t.pc = .memGetOk) :
    ∃ v, Stores bios s v := by
  obtain ⟨n, hn⟩ := h
  exact ⟨_, memGetOk_stores ⟨n, hn, rfl⟩⟩

variable (h : AtStart s) (hsize : bios.Entries20) (hfit : bios.MapFits)

include h hsize hfit

theorem e801_reached (hf : bios.E820Fails) (hcf : bios.e801.cf = false) :
    Reaches (Probe.step bios) s fun t => t.pc = .memGetOk ∧
      t.edx = kilobytes (lo bios.e801.eax) + (lo bios.e801.ebx).setWidth 32 * 65536 :=
  (e820Fails_reached h hsize hfit hf).trans fun t ht => .next (.here (e801_ok bios t ht hcf))

/-- Once E820 and E801 have failed, the loader halts whatever 88h returns. -/
theorem errorHlt_reached (hf : bios.E820Fails) (hcf : bios.e801.cf = true) :
    Reaches (Probe.step bios) s fun t => t.pc = .errorHlt :=
  (e820Fails_reached h hsize hfit hf).trans fun t ht =>
    .next (.next (.here (ah88_halts bios _ (e801_fails bios t ht hcf)).1))

/-- **The fallback chain** does what it is for unless 88h is the first probe that succeeds. -/
theorem probe_reaches_iff : ProbeReaches bios s ↔
    ¬ (bios.E820Fails ∧ bios.e801.cf = true ∧ bios.ah88.cf = false) := by
  constructor
  · rintro hp ⟨hf, h801, h88⟩
    obtain ⟨v, hv⟩ := memGetOk_stores_some (hp.memGetOk.mpr (.inr (.inr ⟨hf, h801, h88⟩)))
    exact hv.not_errorHlt (errorHlt_reached h hsize hfit hf h801)
  · intro hn
    rcases Bios.works_or_fails hfit with hw | hf
    · have hnf := Bios.not_works_and_fails hw
      obtain ⟨k, hk, hcf, hebx⟩ := hw
      have hreach := e820Works_reached h hsize hfit hk hcf hebx
      exact
        { memGetOk := ⟨fun _ => .inl ⟨k, hk, hcf, hebx⟩, fun _ => hreach.mono fun _ ht => ht.1⟩
          e801 := fun hf => absurd hf hnf
          ah88 := fun hf => absurd hf hnf
          errorHlt := fun he => absurd he (memGetOk_stores hreach).not_errorHlt }
    · cases hcf : bios.e801.cf with
      | false =>
        have hreach := e801_reached h hsize hfit hf hcf
        have hst := memGetOk_stores hreach
        exact
          { memGetOk := ⟨fun _ => .inr (.inl ⟨hf, hcf⟩), fun _ => hreach.mono fun _ ht => ht.1⟩
            e801 := fun _ _ => kilobytes_add _ _ ▸ hst
            ah88 := fun _ h801 => by
              rw [hcf] at h801
              cases h801
            errorHlt := fun he => absurd he hst.not_errorHlt }
      | true =>
        have hhalt := errorHlt_reached h hsize hfit hf hcf
        have h88 : bios.ah88.cf = true := by
          by_contra h88
          exact hn ⟨hf, hcf, by simpa using h88⟩
        have hno : ¬ Reaches (Probe.step bios) s fun t => t.pc = .memGetOk := fun hr => by
          obtain ⟨v, hv⟩ := memGetOk_stores_some hr
          exact hv.not_errorHlt hhalt
        refine ⟨⟨fun hr => absurd hr hno, ?_⟩, ?_, ?_, fun _ => ⟨hf, hcf, h88⟩⟩
        · rintro (hw | ⟨-, h801⟩ | ⟨-, -, h88'⟩)
          · exact absurd hf (Bios.not_works_and_fails hw)
          · rw [hcf] at h801
            cases h801
          · rw [h88] at h88'
            cases h88'
        · intro _ h801
          rw [hcf] at h801
          cases h801
        · intro _ _ h88'
          rw [h88] at h88'
          cases h88'

end

/-- A BIOS that refuses E820. -/
def oldBios (e801 ah88 : Reply) : Bios :=
  { e820 := fun _ => (refused, ⟨0, 0, 0, 0, 0⟩), e801 := e801, ah88 := ah88 }

theorem oldBios_fails (e801 ah88 : Reply) : (oldBios e801 ah88).E820Fails :=
  ⟨0, fun j hj => absurd hj (by omega), rfl⟩

/-- 64 MB by E801: 15 MB, and 48 MB in units of 64 KB. -/
theorem probe_reaches_e801 :
    ProbeReaches (oldBios { refused with cf := false, eax := 0x3c00, ebx := 0x300 } refused) zeroedStart :=
  (probe_reaches_iff zeroedStart_atStart (fun k hk => by cases hk) (fun k _ hk => by cases hk)).mpr
    fun h => by cases h.2.1

/-- 16 MB by 88h: the loader halts. -/
theorem probe_halts_88 :
    ¬ ProbeReaches (oldBios refused { refused with cf := false, eax := 0x3c00 }) zeroedStart := by
  intro hp
  have hf := oldBios_fails refused { refused with cf := false, eax := 0x3c00 }
  obtain ⟨v, hv⟩ := memGetOk_stores_some (hp.memGetOk.mpr (.inr (.inr ⟨hf, rfl, rfl⟩)))
  exact hv.not_errorHlt (errorHlt_reached zeroedStart_atStart (fun k hk => by cases hk)
    (fun k _ hk => by cases hk) hf rfl)

end MyOs
