import MyOs.Boot.MemProbe

/-!
# boot/mbr.S and boot/loader.S: reading the disk

`rd_disk_m_16` and `rd_disk_m_32` are one routine in two operand sizes: six port writes, a loop that polls the
status once, and a loop that reads `256 * n` words.  The drive follows the PIO protocol: it hands out a sector
at a time, and each takes as long to reach the buffer as `delay` says.

    rdDisk_registers     the registers of the drive hold the sector and the count
    ReadInv.step         one word is read
    rdDisk_reads         what is in memory afterwards, and when the drive is done
-/

namespace MyOs

/-! ## The drive -/

/-- What the host does not choose: the words of every sector, how many port reads pass before the `k`-th sector
of a command is in the buffer, and what the data port gives in the meantime. -/
structure Media where
  word : Nat → Nat → BitVec 16
  delay : Nat → Nat
  floating : Nat → Nat → BitVec 16

/-- The task file, and the command in progress: `k` of its `total` sectors and `j` words of the next one have
been read, and the drive stays busy for `busy` port reads. -/
structure Drive where
  sectorCount : BitVec 8
  lbaLow : BitVec 8
  lbaMid : BitVec 8
  lbaHigh : BitVec 8
  device : BitVec 8
  first : Nat
  total : Nat
  k : Nat
  j : Nat
  busy : Nat

namespace Drive

/-- The 28 bits of the sector number. -/
def lba (d : Drive) : Nat :=
  d.lbaLow.toNat + 2 ^ 8 * d.lbaMid.toNat + 2 ^ 16 * d.lbaHigh.toNat + 2 ^ 24 * (d.device.toNat % 16)

/-- READ SECTORS; a count of 0 means 256. -/
def readSectors (M : Media) (d : Drive) : Drive :=
  { d with
    first := d.lba
    total := if d.sectorCount = 0 then 256 else d.sectorCount.toNat
    k := 0
    j := 0
    busy := M.delay 0 }

/-- The command goes to drive 0, addressed by sector number. -/
def Selected (d : Drive) : Prop := d.device.toNat / 16 % 2 = 0 ∧ d.device.toNat / 64 % 2 = 1

instance (d : Drive) : Decidable d.Selected := inferInstanceAs (Decidable (_ ∧ _))

def out (M : Media) (d : Drive) (port : BitVec 16) (v : BitVec 8) : Drive :=
  if port = 0x1f2 then { d with sectorCount := v }
  else if port = 0x1f3 then { d with lbaLow := v }
  else if port = 0x1f4 then { d with lbaMid := v }
  else if port = 0x1f5 then { d with lbaHigh := v }
  else if port = 0x1f6 then { d with device := v }
  else if port = 0x1f7 ∧ v = 0x20 ∧ d.Selected then d.readSectors M
  else d

/-- All sectors of the command have been read. -/
def Idle (d : Drive) : Prop := d.k = d.total

instance (d : Drive) : Decidable d.Idle := inferInstanceAs (Decidable (_ = _))

/-- `BSY` is bit 7, `DRQ` bit 3. -/
def status (d : Drive) : BitVec 8 := if d.Idle then 0x50 else if d.busy = 0 then 0x58 else 0xd0

def tick (d : Drive) : Drive := { d with busy := d.busy - 1 }

/-- The next word of the buffer has been taken. -/
def advance (M : Media) (d : Drive) : Drive :=
  if d.j + 1 < 256 then { d with j := d.j + 1 }
  else { d with k := d.k + 1, j := 0, busy := M.delay (d.k + 1) }

def inByte (d : Drive) (port : BitVec 16) : BitVec 8 × Drive :=
  if port = 0x1f7 then (d.status, d.tick) else (0xff, d)

def inWord (M : Media) (d : Drive) (port : BitVec 16) : BitVec 16 × Drive :=
  if port = 0x1f0 then
    if d.Idle ∨ 0 < d.busy then (M.floating d.k d.busy, d.tick)
    else (M.word (d.first + d.k) d.j, d.advance M)
  else (0xffff, d)

end Drive

/-! ## Algorithm -/

structure DiskCpu where
  eax : BitVec 32
  ebx : BitVec 32
  ecx : BitVec 32
  edx : BitVec 32
  esi : BitVec 32
  edi : BitVec 32
  mem : Bytes
  drive : Drive

def loByte (r : BitVec 32) : BitVec 8 := r.setWidth 8

/-- A register whose low byte was written. -/
def setByte (r : BitVec 32) (b : BitVec 8) : BitVec 32 := BitVec.ofNat 32 (r.toNat / 2 ^ 8 * 2 ^ 8 + b.toNat)

/-- `out dx, al` -/
def DiskCpu.outDxAl (M : Media) (c : DiskCpu) : DiskCpu :=
  { c with drive := c.drive.out M (lo c.edx) (loByte c.eax) }

/-- `rd_disk_m_32` up to `.not_ready`. -/
def rdDiskM32 (M : Media) (c : DiskCpu) : DiskCpu :=
  let c := { c with esi := c.eax }
  let c := { c with edi := setLo c.edi (lo c.ecx) }
  let c := { c with edx := setLo c.edx 0x1f2 }
  let c := { c with eax := setByte c.eax (loByte c.ecx) }
  let c := c.outDxAl M
  let c := { c with eax := c.esi }
  let c := { c with edx := setLo c.edx 0x1f3 }
  let c := c.outDxAl M
  let c := { c with ecx := setByte c.ecx 8 }
  let c := { c with eax := c.eax >>> (loByte c.ecx).toNat }
  let c := { c with edx := setLo c.edx 0x1f4 }
  let c := c.outDxAl M
  let c := { c with eax := c.eax >>> (loByte c.ecx).toNat }
  let c := { c with edx := setLo c.edx 0x1f5 }
  let c := c.outDxAl M
  let c := { c with eax := c.eax >>> (loByte c.ecx).toNat }
  let c := { c with eax := setByte c.eax (loByte c.eax &&& 0x0f) }
  let c := { c with eax := setByte c.eax (loByte c.eax ||| 0xe0) }
  let c := { c with edx := setLo c.edx 0x1f6 }
  let c := c.outDxAl M
  let c := { c with edx := setLo c.edx 0x1f7 }
  let c := { c with eax := setByte c.eax 0x20 }
  c.outDxAl M

/-- `rd_disk_m_16` up to `.not_ready`. -/
def rdDiskM16 (M : Media) (c : DiskCpu) : DiskCpu :=
  let c := { c with esi := c.eax }
  let c := { c with edi := setLo c.edi (lo c.ecx) }
  let c := { c with edx := setLo c.edx 0x1f2 }
  let c := { c with eax := setByte c.eax (loByte c.ecx) }
  let c := c.outDxAl M
  let c := { c with eax := c.esi }
  let c := { c with ecx := setByte c.ecx 8 }
  let c := { c with edx := setLo c.edx 0x1f3 }
  let c := c.outDxAl M
  let c := { c with edx := setLo c.edx 0x1f4 }
  let c := { c with eax := c.eax >>> (loByte c.ecx).toNat }
  let c := c.outDxAl M
  let c := { c with edx := setLo c.edx 0x1f5 }
  let c := { c with eax := c.eax >>> (loByte c.ecx).toNat }
  let c := c.outDxAl M
  let c := { c with eax := c.eax >>> (loByte c.ecx).toNat }
  let c := { c with eax := setByte c.eax (loByte c.eax &&& 0x0f) }
  let c := { c with eax := setByte c.eax (loByte c.eax ||| 0xe0) }
  let c := { c with edx := setLo c.edx 0x1f6 }
  let c := c.outDxAl M
  let c := { c with edx := setLo c.edx 0x1f7 }
  let c := { c with eax := setLo c.eax 0x20 }
  c.outDxAl M

/-- The mode the routine runs in: `bx` and `cx`, or `ebx` and `ecx`. -/
inductive Width where
  | bits16
  | bits32
  deriving DecidableEq

def Width.size : Width → Nat
  | .bits16 => 2 ^ 16
  | .bits32 => 2 ^ 32

def Width.reg (w : Width) (r : BitVec 32) : Nat := r.toNat % w.size

def Width.set (w : Width) (r : BitVec 32) (x : Nat) : BitVec 32 :=
  match w with
  | .bits16 => setLo r (BitVec.ofNat 16 x)
  | .bits32 => BitVec.ofNat 32 x

def rdDisk (w : Width) (M : Media) (c : DiskCpu) : DiskCpu :=
  match w with
  | .bits16 => rdDiskM16 M c
  | .bits32 => rdDiskM32 M c

/-- The labels of the two loops, and the `ret`. -/
inductive DiskRead where
  | notReady (c : DiskCpu)
  | goOnRead (c : DiskCpu)
  | ret (c : DiskCpu)

/-- The count of words: `mov ax, di; mov dx, 256; mul dx; mov cx, ax; mov dx, 0x1f0`. -/
def countWords (c : DiskCpu) : DiskCpu :=
  let c := { c with eax := setLo c.eax (lo c.edi) }
  let c := { c with edx := setLo c.edx 256 }
  let product := (lo c.eax).toNat * (lo c.edx).toNat
  let c := { c with
    eax := setLo c.eax (BitVec.ofNat 16 product), edx := setLo c.edx (BitVec.ofNat 16 (product / 2 ^ 16)) }
  let c := { c with ecx := setLo c.ecx (lo c.eax) }
  { c with edx := setLo c.edx 0x1f0 }

def DiskRead.step (w : Width) (M : Media) : DiskRead → DiskRead
  | .notReady c =>
    let (status, drive) := c.drive.inByte (lo c.edx)
    let c := { c with drive := drive, eax := setByte c.eax status }
    let c := { c with eax := setByte c.eax (loByte c.eax &&& 0x88) }
    if loByte c.eax = 0x08 then .goOnRead (countWords c) else .notReady c
  | .goOnRead c =>
    let (ax, drive) := c.drive.inWord M (lo c.edx)
    let c := { c with drive := drive, eax := setLo c.eax ax }
    let c := { c with mem := c.mem.write 2 (w.reg c.ebx) (lo c.eax).toNat }
    let c := { c with ebx := w.set c.ebx (w.reg c.ebx + 2) }
    let c := { c with ecx := w.set c.ecx (w.reg c.ecx + w.size - 1) }
    if w.reg c.ecx ≠ 0 then .goOnRead c else .ret c
  | .ret c => .ret c

/-! ## Registers -/

theorem toNat_loByte (r : BitVec 32) : (loByte r).toNat = r.toNat % 2 ^ 8 := by
  rw [loByte, BitVec.toNat_setWidth]

theorem toNat_setByte (r : BitVec 32) (b : BitVec 8) :
    (setByte r b).toNat = r.toNat / 2 ^ 8 * 2 ^ 8 + b.toNat := by
  have hr := r.isLt
  have hb := b.isLt
  rw [setByte, BitVec.toNat_ofNat]
  omega

@[simp] theorem loByte_setByte (r : BitVec 32) (b : BitVec 8) : loByte (setByte r b) = b := by
  apply BitVec.eq_of_toNat_eq
  have hb := b.isLt
  rw [toNat_loByte, toNat_setByte]
  omega

theorem Width.size_pos (w : Width) : 2 ^ 16 ≤ w.size := by
  cases w <;> decide

theorem Width.reg_set (w : Width) (r : BitVec 32) (x : Nat) : w.reg (w.set r x) = x % w.size := by
  unfold Width.reg Width.set Width.size
  cases w with
  | bits16 =>
    dsimp only
    rw [toNat_setLo, BitVec.toNat_ofNat]
    omega
  | bits32 =>
    dsimp only
    rw [BitVec.toNat_ofNat]
    omega

/-- The command that the routine gives, and the registers it keeps. -/
structure Commanded (M : Media) (c c' : DiskCpu) : Prop where
  first : c'.drive.first = c.eax.toNat % 2 ^ 28
  total : c'.drive.total = if loByte c.ecx = 0 then 256 else (loByte c.ecx).toNat
  k : c'.drive.k = 0
  j : c'.drive.j = 0
  busy : c'.drive.busy = M.delay 0
  edi : lo c'.edi = lo c.ecx
  edx : lo c'.edx = 0x1f7
  ecx : c'.ecx.toNat / 2 ^ 16 = c.ecx.toNat / 2 ^ 16
  ebx : c'.ebx = c.ebx
  mem : c'.mem = c.mem

theorem lba_bytes (x : BitVec 32) : (loByte x).toNat + 2 ^ 8 * (loByte (x >>> 8)).toNat +
    2 ^ 16 * (loByte (x >>> 8 >>> 8)).toNat +
    2 ^ 24 * ((loByte (x >>> 8 >>> 8 >>> 8) &&& 0x0f ||| 0xe0).toNat % 16) = x.toNat % 2 ^ 28 := by
  have hb : ∀ b : BitVec 8, (b &&& 0x0f ||| 0xe0).toNat % 16 = b.toNat % 16 := by decide
  rw [hb, toNat_loByte, toNat_loByte, toNat_loByte, toNat_loByte]
  simp only [BitVec.toNat_ushiftRight, Nat.shiftRight_eq_div_pow]
  omega

/-- The seven port writes: what the drive is told, byte by byte. -/
def Drive.command (M : Media) (d : Drive) (count : BitVec 8) (x : BitVec 32) : Drive :=
  let d := d.out M 0x1f2 count
  let d := d.out M 0x1f3 (loByte x)
  let d := d.out M 0x1f4 (loByte (x >>> 8))
  let d := d.out M 0x1f5 (loByte (x >>> 8 >>> 8))
  let d := d.out M 0x1f6 (loByte (x >>> 8 >>> 8 >>> 8) &&& 0x0f ||| 0xe0)
  d.out M 0x1f7 0x20

theorem Drive.command_eq (M : Media) (d : Drive) (count : BitVec 8) (x : BitVec 32) :
    (d.command M count x).first = x.toNat % 2 ^ 28 ∧
    (d.command M count x).total = (if count = 0 then 256 else count.toNat) ∧
    (d.command M count x).k = 0 ∧ (d.command M count x).j = 0 ∧ (d.command M count x).busy = M.delay 0 := by
  have hdrive : ∀ b : BitVec 8, (b &&& 0x0f ||| 0xe0).toNat / 16 % 2 = 0 := by decide
  have hmode : ∀ b : BitVec 8, (b &&& 0x0f ||| 0xe0).toNat / 64 % 2 = 1 := by decide
  have heq : d.command M count x = Drive.readSectors M { d with
      sectorCount := count
      lbaLow := loByte x
      lbaMid := loByte (x >>> 8)
      lbaHigh := loByte (x >>> 8 >>> 8)
      device := loByte (x >>> 8 >>> 8 >>> 8) &&& 0x0f ||| 0xe0 } := by
    show Drive.out M _ 0x1f7 0x20 = _
    unfold Drive.out
    rw [if_neg (by decide), if_neg (by decide), if_neg (by decide), if_neg (by decide), if_neg (by decide),
      if_pos ⟨rfl, rfl, hdrive _, hmode _⟩]
    rfl
  rw [heq]
  exact ⟨lba_bytes x, rfl, rfl, rfl, rfl⟩

theorem Commanded.of_eq {M : Media} {c c' : DiskCpu} (hdrive : c'.drive = c.drive.command M (loByte c.ecx) c.eax)
    (hedi : c'.edi = setLo c.edi (lo c.ecx)) (hedx : lo c'.edx = 0x1f7) (hecx : c'.ecx = setByte c.ecx 8)
    (hebx : c'.ebx = c.ebx) (hmem : c'.mem = c.mem) : Commanded M c c' := by
  obtain ⟨h1, h2, h3, h4, h5⟩ := c.drive.command_eq M (loByte c.ecx) c.eax
  rw [← hdrive] at h1 h2 h3 h4 h5
  refine ⟨h1, h2, h3, h4, h5, ?_, hedx, ?_, hebx, hmem⟩
  · rw [hedi, lo_setLo]
  · rw [hecx, toNat_setByte, show (8 : BitVec 8).toNat = 8 from rfl]
    omega

theorem rdDiskM32_commanded (M : Media) (c : DiskCpu) : Commanded M c (rdDiskM32 M c) := by
  refine Commanded.of_eq ?_ ?_ ?_ ?_ ?_ ?_
  all_goals
    simp only [rdDiskM32, DiskCpu.outDxAl, lo_setLo, loByte_setByte, Drive.command,
      show (8 : BitVec 8).toNat = 8 from rfl]

theorem rdDiskM16_commanded (M : Media) (c : DiskCpu) : Commanded M c (rdDiskM16 M c) := by
  have h20 : ∀ r : BitVec 32, loByte (setLo r 0x20) = 0x20 := by
    intro r
    apply BitVec.eq_of_toNat_eq
    rw [toNat_loByte, toNat_setLo, show (0x20 : BitVec 16).toNat = 0x20 from rfl,
      show (0x20 : BitVec 8).toNat = 0x20 from rfl]
    omega
  refine Commanded.of_eq ?_ ?_ ?_ ?_ ?_ ?_
  all_goals
    simp only [rdDiskM16, DiskCpu.outDxAl, lo_setLo, loByte_setByte, Drive.command, h20,
      show (8 : BitVec 8).toNat = 8 from rfl]

/-- Both versions. -/
theorem rdDisk_commanded (w : Width) (M : Media) (c : DiskCpu) : Commanded M c (rdDisk w M c) := by
  cases w with
  | bits16 => exact rdDiskM16_commanded M c
  | bits32 => exact rdDiskM32_commanded M c

/-! ## The loops -/

/-- The port reads that the drive asks for in the gaps before the sectors `1` to `k`. -/
def Media.gaps (M : Media) : Nat → Nat
  | 0 => 0
  | k + 1 => M.gaps k + M.delay (k + 1)

theorem Media.gaps_mono (M : Media) {k n : Nat} (h : k ≤ n) : M.gaps k ≤ M.gaps n := by
  induction n with
  | zero =>
    obtain rfl := Nat.le_zero.mp h
    exact Nat.le_refl _
  | succ n ih =>
    rcases Nat.lt_or_eq_of_le h with hlt | rfl
    · have := ih (by omega)
      rw [Media.gaps]
      omega
    · exact Nat.le_refl _

theorem Media.gaps_zero (M : Media) (n : Nat) : M.gaps n = 0 ↔ ∀ k, 1 ≤ k → k ≤ n → M.delay k = 0 := by
  induction n with
  | zero =>
    constructor
    · intro _ k h1 h2
      omega
    · exact fun _ => rfl
  | succ n ih =>
    rw [Media.gaps, Nat.add_eq_zero_iff, ih]
    constructor
    · rintro ⟨h1, h2⟩ k hk hkn
      rcases Nat.lt_or_eq_of_le hkn with hlt | rfl
      · exact h1 k hk (by omega)
      · exact h2
    · intro h
      exact ⟨fun k h1 h2 => h k h1 (by omega), h (n + 1) (by omega) (Nat.le_refl _)⟩

/-- The drive after `t` reads of the data port, in a command for `n` sectors from `lba` on: it is in the middle
of them, and every read so far was a word or part of a gap; or it is done. -/
structure DriveAt (M : Media) (lba n t : Nat) (d : Drive) : Prop where
  first : d.first = lba
  total : d.total = n
  k : d.k ≤ n
  j : d.j < 256
  busy : d.busy ≤ M.gaps d.k
  count : d.k < n → t + d.busy = 256 * d.k + d.j + M.gaps d.k
  done : d.k = n → 256 * n + M.gaps (n - 1) ≤ t

theorem DriveAt.step {M : Media} {lba n t : Nat} {d : Drive} (h : DriveAt M lba n t d) :
    DriveAt M lba n (t + 1) (d.inWord M 0x1f0).2 := by
  have hk := h.k
  have hj := h.j
  have hbusy := h.busy
  have hcount := h.count
  have hdone := h.done
  unfold Drive.inWord
  rw [if_pos rfl]
  by_cases hi : d.Idle ∨ 0 < d.busy
  · rw [if_pos hi]
    constructor
    case first => exact h.first
    case total => exact h.total
    case k => exact hk
    case j => exact hj
    case busy =>
      dsimp only [Drive.tick]
      omega
    case count =>
      intro hlt
      dsimp only [Drive.tick] at hlt ⊢
      have hne : ¬ d.Idle := fun he => by
        unfold Drive.Idle at he
        rw [h.total] at he
        omega
      have := hi.resolve_left hne
      have := hcount hlt
      omega
    case done =>
      intro he
      have := hdone he
      omega
  · rw [if_neg hi, not_or] at *
    obtain ⟨hne, hb⟩ := hi
    unfold Drive.Idle at hne
    rw [h.total] at hne
    have := hcount (by omega)
    unfold Drive.advance
    by_cases hlast : d.j + 1 < 256
    · rw [if_pos hlast]
      constructor
      case first => exact h.first
      case total => exact h.total
      case k => exact hk
      case j => exact hlast
      case busy => exact hbusy
      case count =>
        intro _
        dsimp only
        omega
      case done =>
        intro he
        exact absurd he hne
    · rw [if_neg hlast]
      constructor
      case first => exact h.first
      case total => exact h.total
      case k =>
        dsimp only
        omega
      case j => exact Nat.zero_lt_succ _
      case busy =>
        dsimp only
        rw [Media.gaps]
        omega
      case count =>
        intro _
        dsimp only
        rw [Media.gaps]
        omega
      case done =>
        intro (he : d.k + 1 = n)
        rw [← he, Nat.add_sub_cancel]
        omega

/-- Without gaps, the read number `t` gives the word number `t`. -/
theorem DriveAt.word {M : Media} {lba n t : Nat} {d : Drive} (h : DriveAt M lba n t d)
    (hgaps : M.gaps (n - 1) = 0) (ht : t < 256 * n) :
    (d.inWord M 0x1f0).1 = M.word (lba + t / 256) (t % 256) := by
  have hk := h.k
  have hj := h.j
  have hbusy := h.busy
  have hlt : d.k < n := by
    refine Nat.lt_of_le_of_ne hk fun he => ?_
    have := h.done he
    omega
  have hcount := h.count hlt
  have hzero := M.gaps_mono (show d.k ≤ n - 1 by omega)
  have hne : ¬ (d.Idle ∨ 0 < d.busy) := by
    unfold Drive.Idle
    rw [h.total]
    omega
  unfold Drive.inWord
  rw [if_pos rfl, if_neg hne, h.first, show t / 256 = d.k by omega, show t % 256 = d.j by omega]

/-- After as many reads as the sectors have words, the drive is done exactly when there was no gap. -/
theorem DriveAt.idle_iff {M : Media} {lba n : Nat} {d : Drive} (h : DriveAt M lba n (256 * n) d) (hn : 1 ≤ n) :
    d.Idle ↔ M.gaps (n - 1) = 0 := by
  have hk := h.k
  have hj := h.j
  have hbusy := h.busy
  unfold Drive.Idle
  rw [h.total]
  constructor
  · intro he
    have := h.done he
    omega
  · intro hz
    refine Nat.le_antisymm hk (Nat.le_of_not_lt fun hlt => ?_)
    have hcount := h.count hlt
    have hzero := M.gaps_mono (show d.k ≤ n - 1 by omega)
    omega

/-- After `t` words have been read to memory from `base` on, which was `m0`. -/
structure ReadInv (w : Width) (M : Media) (lba n base : Nat) (m0 : Bytes) (t : Nat) (c : DiskCpu) : Prop where
  drive : DriveAt M lba n t c.drive
  edx : lo c.edx = 0x1f0
  ebx : w.reg c.ebx = (base + 2 * t) % w.size
  ecx : w.reg c.ecx = 256 * n - t
  words : M.gaps (n - 1) = 0 → ∀ s, s < t →
    c.mem.read 2 (base + 2 * s) = (M.word (lba + s / 256) (s % 256)).toNat
  frame : ∀ a, a < base ∨ base + 2 * t ≤ a → c.mem a = m0 a

/-- One word. -/
theorem ReadInv.step {w : Width} {M : Media} {lba n base : Nat} {m0 : Bytes} {t : Nat} {c : DiskCpu}
    (h : ReadInv w M lba n base m0 t c) (ht : t < 256 * n) (hn : n ≤ 255) (hb : base + 512 * n ≤ w.size) :
    ∃ c', ReadInv w M lba n base m0 (t + 1) c' ∧
      DiskRead.step w M (.goOnRead c) = if t + 1 = 256 * n then .ret c' else .goOnRead c' := by
  have hsize := w.size_pos
  have hebx := h.ebx
  rw [Nat.mod_eq_of_lt (by omega)] at hebx
  have hecx : (w.reg c.ecx + w.size - 1) % w.size = 256 * n - (t + 1) := by
    rw [h.ecx, show 256 * n - t + w.size - 1 = 256 * n - (t + 1) + w.size by omega, Nat.add_mod_right]
    exact Nat.mod_eq_of_lt (by omega)
  refine ⟨{ c with
      drive := (c.drive.inWord M 0x1f0).2
      eax := setLo c.eax (c.drive.inWord M 0x1f0).1
      mem := c.mem.write 2 (base + 2 * t) (c.drive.inWord M 0x1f0).1.toNat
      ebx := w.set c.ebx (base + 2 * t + 2)
      ecx := w.set c.ecx (w.reg c.ecx + w.size - 1) }, ?_, ?_⟩
  · constructor
    case drive => exact h.drive.step
    case edx => exact h.edx
    case ebx =>
      dsimp only
      rw [w.reg_set]
      congr 1
    case ecx =>
      dsimp only
      rw [w.reg_set, hecx]
    case words =>
      intro hgaps s hs
      dsimp only
      by_cases hst : s = t
      · subst hst
        rw [Bytes.read_write, h.drive.word hgaps ht]
        exact Nat.mod_eq_of_lt (M.word _ _).isLt
      · rw [Bytes.read_write_out _ _ _ _ _ _ (by omega)]
        exact h.words hgaps s (by omega)
    case frame =>
      intro a ha
      dsimp only
      rw [Bytes.write_out _ _ _ _ _ (by omega)]
      exact h.frame a (by omega)
  · unfold DiskRead.step
    simp only [h.edx, lo_setLo, hebx, w.reg_set, hecx]
    by_cases hlast : t + 1 = 256 * n
    · rw [if_pos hlast, if_neg (by omega)]
    · rw [if_neg hlast, if_pos (by omega)]

/-- The whole loop. -/
theorem ReadInv.reads {w : Width} {M : Media} {lba n base : Nat} {m0 : Bytes} (hn : n ≤ 255)
    (hb : base + 512 * n ≤ w.size) : ∀ (r t : Nat) (c : DiskCpu), t + (r + 1) = 256 * n →
    ReadInv w M lba n base m0 t c → Reaches (DiskRead.step w M) (.goOnRead c) fun s =>
      ∃ c', s = .ret c' ∧ ReadInv w M lba n base m0 (256 * n) c' := by
  intro r
  induction r with
  | zero =>
    intro t c ht h
    obtain ⟨c', h', hs⟩ := h.step (by omega) hn hb
    rw [if_pos (by omega)] at hs
    refine .step hs (.here ⟨c', rfl, ?_⟩)
    rw [← ht]
    exact h'
  | succ r ih =>
    intro t c ht h
    obtain ⟨c', h', hs⟩ := h.step (by omega) hn hb
    rw [if_neg (by omega)] at hs
    exact .step hs (ih (t + 1) c' (by omega) h')

/-- What the poll does not change. -/
structure Polled (c c' : DiskCpu) : Prop where
  drive : c'.drive = { c.drive with busy := 0 }
  edi : c'.edi = c.edi
  ebx : c'.ebx = c.ebx
  ecx : c'.ecx = c.ecx
  mem : c'.mem = c.mem

/-- `.not_ready` ends when the first sector is in the buffer. -/
theorem poll_reaches (w : Width) (M : Media) : ∀ (busy : Nat) (c : DiskCpu), c.drive.busy = busy →
    ¬ c.drive.Idle → lo c.edx = 0x1f7 → Reaches (DiskRead.step w M) (.notReady c) fun s =>
      ∃ c', s = .goOnRead (countWords c') ∧ Polled c c' := by
  intro busy
  induction busy with
  | zero =>
    intro c hb hne hdx
    have hstatus : c.drive.status &&& 0x88 = 0x08 := by
      unfold Drive.status
      rw [if_neg hne, if_pos hb]
      decide
    have hs : DiskRead.step w M (.notReady c) = .goOnRead (countWords { c with
        drive := c.drive.tick
        eax := setByte (setByte c.eax c.drive.status) (c.drive.status &&& 0x88) }) := by
      unfold DiskRead.step Drive.inByte
      simp only [hdx, loByte_setByte, hstatus, if_true]
    refine .step hs (.here ⟨_, rfl, ?_, rfl, rfl, rfl, rfl⟩)
    dsimp only [Drive.tick]
    rw [hb]
  | succ busy ih =>
    intro c hb hne hdx
    have hstatus : c.drive.status &&& 0x88 ≠ 0x08 := by
      unfold Drive.status
      rw [if_neg hne, if_neg (by omega)]
      decide
    have hs : DiskRead.step w M (.notReady c) = .notReady { c with
        drive := c.drive.tick
        eax := setByte (setByte c.eax c.drive.status) (c.drive.status &&& 0x88) } := by
      unfold DiskRead.step Drive.inByte
      simp only [hdx, loByte_setByte, hstatus, if_true, if_false]
    have hbusy : c.drive.tick.busy = busy := by
      dsimp only [Drive.tick]
      omega
    refine .step hs ((ih { c with
        drive := c.drive.tick
        eax := setByte (setByte c.eax c.drive.status) (c.drive.status &&& 0x88) } hbusy hne hdx).mono ?_)
    rintro s ⟨c', rfl, hp⟩
    exact ⟨c', rfl, hp.drive, hp.edi, hp.ebx, hp.ecx, hp.mem⟩

/-- The count of words, in the register that `loop` uses. -/
theorem countWords_spec (w : Width) (c : DiskCpu) (n : Nat) (hn : n ≤ 255) (hedi : (lo c.edi).toNat = n)
    (hecx : w = .bits32 → c.ecx.toNat < 2 ^ 16) : w.reg (countWords c).ecx = 256 * n ∧
    lo (countWords c).edx = 0x1f0 := by
  have hprod : (lo (countWords c).ecx).toNat = 256 * n := by
    simp only [countWords, lo_setLo]
    rw [BitVec.toNat_ofNat, hedi, show (256 : BitVec 16).toNat = 256 from rfl]
    omega
  have hhigh : (countWords c).ecx.toNat / 2 ^ 16 = c.ecx.toNat / 2 ^ 16 := by
    simp only [countWords]
    rw [toNat_setLo]
    have := (lo (setLo (setLo c.eax (lo c.edi)) (BitVec.ofNat 16 ((lo (setLo c.eax (lo c.edi))).toNat *
      (lo (setLo c.edx 256)).toNat)))).isLt
    omega
  refine ⟨?_, by simp only [countWords, lo_setLo]⟩
  rw [toNat_lo] at hprod
  unfold Width.reg Width.size
  cases w with
  | bits16 => exact hprod
  | bits32 =>
    have := hecx rfl
    dsimp only
    omega

/-! ## The routine -/

/-- A call of the routine for `n` sectors from `lba` on, to `base`. -/
structure ReadCall (w : Width) (c : DiskCpu) (lba n base : Nat) : Prop where
  eax : c.eax.toNat = lba
  bits28 : lba < 2 ^ 28
  count : (lo c.ecx).toNat = n
  one : 1 ≤ n
  byte : n ≤ 255
  ecx : w = .bits32 → c.ecx.toNat < 2 ^ 16
  ebx : w.reg c.ebx = base
  fits : base + 512 * n ≤ w.size

theorem Media.gaps_iff (M : Media) (n : Nat) :
    M.gaps (n - 1) = 0 ↔ ∀ k, 1 ≤ k → k < n → M.delay k = 0 := by
  rw [M.gaps_zero]
  constructor
  · intro hz k h1 h2
    exact hz k h1 (by omega)
  · intro hz k h1 h2
    exact hz k h1 (by omega)

/-- The routine returns after the last word. -/
theorem ReadCall.returns {w : Width} {M : Media} {c : DiskCpu} {lba n base : Nat} (h : ReadCall w c lba n base) :
    Reaches (DiskRead.step w M) (.notReady (rdDisk w M c)) fun s =>
      ∃ c', s = .ret c' ∧ ReadInv w M lba n base c.mem (256 * n) c' := by
  have hn := h.one
  have hn' := h.byte
  have hcmd := rdDisk_commanded w M c
  have hcl : (loByte c.ecx).toNat = n := by
    have hcount := h.count
    rw [toNat_lo] at hcount
    rw [toNat_loByte]
    omega
  have htotal : (rdDisk w M c).drive.total = n := by
    rw [hcmd.total, hcl, if_neg]
    intro hz
    rw [hz] at hcl
    exact absurd hcl (by rw [show (0 : BitVec 8).toNat = 0 from rfl]; omega)
  have hne : ¬ (rdDisk w M c).drive.Idle := by
    unfold Drive.Idle
    rw [hcmd.k, htotal]
    omega
  refine (poll_reaches w M _ _ rfl hne hcmd.edx).trans ?_
  rintro s ⟨c1, rfl, hp⟩
  obtain ⟨hecx, hedx⟩ := countWords_spec w c1 n hn' (by rw [hp.edi, hcmd.edi, h.count]) (fun hw => by
    have h1 := hcmd.ecx
    have h2 := h.ecx hw
    rw [hp.ecx]
    omega)
  have hinv : ReadInv w M lba n base c.mem 0 (countWords c1) := by
    constructor
    case drive =>
      show DriveAt M lba n 0 c1.drive
      rw [hp.drive]
      constructor
      case first =>
        dsimp only
        rw [hcmd.first, h.eax]
        exact Nat.mod_eq_of_lt h.bits28
      case total => exact htotal
      case k =>
        dsimp only
        rw [hcmd.k]
        omega
      case j =>
        dsimp only
        rw [hcmd.j]
        omega
      case busy => exact Nat.zero_le _
      case count =>
        intro _
        dsimp only
        rw [hcmd.k, hcmd.j]
        rfl
      case done =>
        intro he
        dsimp only at he
        rw [hcmd.k] at he
        omega
    case edx => exact hedx
    case ebx =>
      show w.reg c1.ebx = _
      rw [hp.ebx, hcmd.ebx, h.ebx]
      exact (Nat.mod_eq_of_lt (by have := h.fits; omega)).symm
    case ecx => exact hecx
    case words =>
      intro _ s hs
      exact absurd hs (Nat.not_lt_zero s)
    case frame =>
      intro a _
      show c1.mem a = c.mem a
      rw [hp.mem, hcmd.mem]
  exact ReadInv.reads hn' h.fits (256 * n - 1) 0 _ (by omega) hinv

/-- **Reading the disk.**  In both versions and with every timing of the drive, the routine returns, having
written the `512 * n` bytes from `base` on and no others.  The status is polled once: the drive is done
exactly when none of the sectors after the first kept the host waiting, and then the bytes are those of the
sectors `lba` to `lba + n - 1`. -/
theorem rdDisk_reads (w : Width) (M : Media) (c : DiskCpu) (lba n base : Nat) (h : ReadCall w c lba n base) :
    Reaches (DiskRead.step w M) (.notReady (rdDisk w M c)) fun s => ∃ c', s = .ret c' ∧
      (c'.drive.Idle ↔ ∀ k, 1 ≤ k → k < n → M.delay k = 0) ∧
      ((∀ k, 1 ≤ k → k < n → M.delay k = 0) → ∀ i j, i < n → j < 256 →
        c'.mem.read 2 (base + 512 * i + 2 * j) = (M.word (lba + i) j).toNat) ∧
      ∀ a, a < base ∨ base + 512 * n ≤ a → c'.mem a = c.mem a := by
  refine h.returns.mono ?_
  rintro s ⟨c', rfl, hr⟩
  refine ⟨c', rfl, ?_, ?_, ?_⟩
  · rw [hr.drive.idle_iff h.one, M.gaps_iff]
  · intro hz i j hi hj
    have hw := hr.words ((M.gaps_iff n).mpr hz) (256 * i + j) (by omega)
    rw [show base + 2 * (256 * i + j) = base + 512 * i + 2 * j by omega,
      show (256 * i + j) / 256 = i by omega, show (256 * i + j) % 256 = j by omega] at hw
    exact hw
  · intro a ha
    exact hr.frame a (by omega)

/-- Sectors that hold their own number; `gap` port reads pass before each one after the first. -/
def countingMedia (gap : Nat) : Media where
  word i _ := BitVec.ofNat 16 i
  delay k := if k = 0 then 1000 else gap
  floating _ _ := 0xffff

/-- `mov eax, KERNEL_START_SECTOR; mov ebx, KERNEL_BIN_BASE_ADDR; mov ecx, 200`. -/
def loadKernel (c : DiskCpu) : DiskCpu := { c with eax := 9, ebx := 0x70000, ecx := 200 }

theorem loadKernel_call (c : DiskCpu) : ReadCall .bits32 (loadKernel c) 9 200 0x70000 where
  eax := rfl
  bits28 := by decide
  count := rfl
  one := by decide
  byte := by decide
  ecx _ := by
    show (200 : BitVec 32).toNat < 2 ^ 16
    decide
  ebx := rfl
  fits := by decide

def idleDisk : DiskCpu := ⟨0, 0, 0, 0, 0, 0, fun _ => 0, ⟨0, 0, 0, 0, 0, 0, 0, 0, 0, 0⟩⟩

/-- The kernel image from a drive that is always ready in time, and from one that takes a moment. -/
theorem rdDisk_reads_kernel :
    (Reaches (DiskRead.step .bits32 (countingMedia 0))
      (.notReady (rdDisk .bits32 (countingMedia 0) (loadKernel idleDisk))) fun s =>
        ∃ c', s = .ret c' ∧ c'.drive.Idle ∧ c'.mem.read 2 0x70200 = 10) ∧
    Reaches (DiskRead.step .bits32 (countingMedia 1))
      (.notReady (rdDisk .bits32 (countingMedia 1) (loadKernel idleDisk))) fun s =>
        ∃ c', s = .ret c' ∧ ¬ c'.drive.Idle := by
  have hcall := loadKernel_call idleDisk
  constructor
  · refine (rdDisk_reads .bits32 (countingMedia 0) _ 9 200 0x70000 hcall).mono ?_
    rintro s ⟨c', rfl, hidle, hread, -⟩
    have hgaps : ∀ k, 1 ≤ k → k < 200 → (countingMedia 0).delay k = 0 := by
      intro k h1 _
      exact if_neg (by omega)
    exact ⟨c', rfl, hidle.mpr hgaps, hread hgaps 1 0 (by decide) (by decide)⟩
  · refine (rdDisk_reads .bits32 (countingMedia 1) _ 9 200 0x70000 hcall).mono ?_
    rintro s ⟨c', rfl, hidle, -⟩
    refine ⟨c', rfl, fun h => ?_⟩
    exact absurd (hidle.mp h 1 (by decide) (by decide)) (by decide)

end MyOs
