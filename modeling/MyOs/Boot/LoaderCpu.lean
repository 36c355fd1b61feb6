import MyOs.Theory.Bytes
import MyOs.Boot.Loader

/-!
# boot/loader.S: the code of kernel_init

`kernel_init` walks the program headers of the image at `KERNEL_BIN_BASE_ADDR` and copies `p_filesz` bytes of
each to `p_vaddr` with `mem_cpy`.  Every access goes through the page tables that `setup_page` left in the same
memory; an access that they do not map faults, and the loader has no handler.

    repMovsb_copied       what `rep movsb` leaves in memory
    repMovsb_runs         it only faults on a byte that is not mapped
    copySegment_loaded    the call of `mem_cpy` with its stack frame
-/

namespace MyOs

open Paging

def KERNEL_BIN_BASE_ADDR : Nat := 0x70000
def LOADER_BASE_ADDR : Nat := 0x900
def LOADER_STACK_TOP : Nat := LOADER_BASE_ADDR
def PT_NULL : UInt8 := 0

/-! ## Memory behind the page tables -/

/-- Memory by words. -/
def words (m : Bytes) : Mem := fun f i => m.read 4 (f * 4096 + i * 4)

/-- `cr3` is `PAGE_DIR_TABLE_POS`. -/
def translate (m : Bytes) (v : BitVec 32) : Option Nat := walk (words m) (PAGE_DIR_TABLE_POS / 4096) v.toNat

def loadByte (m : Bytes) (v : BitVec 32) : Option UInt8 := (translate m v).map m

def storeByte (m : Bytes) (v : BitVec 32) (b : UInt8) : Option Bytes :=
  (translate m v).map fun a => Function.update m a b

/-- Little endian. -/
def loadBytes (m : Bytes) : Nat → BitVec 32 → Option Nat
  | 0, _ => some 0
  | n + 1, v => do
    let b ← loadByte m v
    let x ← loadBytes m n (v + 1)
    some (b.toNat + 256 * x)

def storeBytes : Nat → BitVec 32 → Nat → Bytes → Option Bytes
  | 0, _, _, m => some m
  | n + 1, v, x, m => do
    let m ← storeByte m v (UInt8.ofNat x)
    storeBytes n (v + 1) (x / 256) m

structure LoaderCpu where
  eax : BitVec 32
  ebx : BitVec 32
  ecx : BitVec 32
  edx : BitVec 32
  esi : BitVec 32
  edi : BitVec 32
  ebp : BitVec 32
  esp : BitVec 32
  mem : Bytes

namespace LoaderCpu

def word (c : LoaderCpu) (v : BitVec 32) : Option (BitVec 32) := (loadBytes c.mem 2 v).map (BitVec.ofNat 32)

def dword (c : LoaderCpu) (v : BitVec 32) : Option (BitVec 32) := (loadBytes c.mem 4 v).map (BitVec.ofNat 32)

def push (c : LoaderCpu) (x : BitVec 32) : Option LoaderCpu :=
  (storeBytes 4 (c.esp - 4) x.toNat c.mem).map fun m => { c with esp := c.esp - 4, mem := m }

def pop (c : LoaderCpu) : Option (BitVec 32 × LoaderCpu) :=
  (c.dword c.esp).map fun x => (x, { c with esp := c.esp + 4 })

end LoaderCpu

/-! ## Algorithm -/

/-- `rep movsb`, upwards. -/
def repMovsb : Nat → LoaderCpu → Option LoaderCpu
  | 0, c => some c
  | n + 1, c => do
    let b ← loadByte c.mem c.esi
    let m ← storeByte c.mem c.edi b
    repMovsb n { c with mem := m, esi := c.esi + 1, edi := c.edi + 1, ecx := c.ecx - 1 }

/-- `mem_cpy`, up to its `ret`. -/
def memCpy (c : LoaderCpu) : Option LoaderCpu := do
  let c ← c.push c.ebp
  let c := { c with ebp := c.esp }
  let c ← c.push c.ecx
  let edi ← c.dword (c.ebp + 8)
  let esi ← c.dword (c.ebp + 12)
  let ecx ← c.dword (c.ebp + 16)
  let c ← repMovsb ecx.toNat { c with edi := edi, esi := esi, ecx := ecx }
  let p ← c.pop
  let c := { p.2 with ecx := p.1 }
  let p ← c.pop
  some { p.2 with ebp := p.1 }

/-- `.each_segment` between the test of `p_type` and `.PTNULL`; `addEsp` is the address of `add esp, 12`, where
`mem_cpy` is to return. -/
def copySegment (addEsp : BitVec 32) (c : LoaderCpu) : Option LoaderCpu := do
  let filesz ← c.dword (c.ebx + 16)
  let c ← c.push filesz
  let offset ← c.dword (c.ebx + 4)
  let c := { c with eax := offset + BitVec.ofNat 32 KERNEL_BIN_BASE_ADDR }
  let c ← c.push c.eax
  let vaddr ← c.dword (c.ebx + 8)
  let c ← c.push vaddr
  let c ← c.push addEsp
  let c ← memCpy c
  let p ← c.pop
  if p.1 = addEsp then some { p.2 with esp := p.2.esp + 12 } else none

/-- `.each_segment` up to its `loop`. -/
def eachSegment (addEsp : BitVec 32) (c : LoaderCpu) : Option LoaderCpu := do
  let type ← loadByte c.mem c.ebx
  let c ← if type = PT_NULL then some c else copySegment addEsp c
  some { c with ebx := c.ebx + c.edx }

/-- Where control is: at the head of the loop, back at the address popped by `ret`, or at a fault. -/
inductive KernelInit where
  | eachSegment (c : LoaderCpu)
  | returned (eip : BitVec 32) (c : LoaderCpu)
  | fault

/-- One round of the loop, and the `ret` after the last. -/
def KernelInit.step (addEsp : BitVec 32) : KernelInit → KernelInit
  | .eachSegment c =>
    match MyOs.eachSegment addEsp c with
    | none => .fault
    | some c =>
      let c := { c with ecx := c.ecx - 1 }
      if c.ecx ≠ 0 then .eachSegment c
      else
        match c.pop with
        | none => .fault
        | some p => .returned p.1 p.2
  | t => t

/-- `kernel_init` up to `.each_segment`. -/
def kernelInit (c : LoaderCpu) : KernelInit :=
  let c := { c with eax := 0, ebx := 0, ecx := 0, edx := 0 }
  let base := BitVec.ofNat 32 KERNEL_BIN_BASE_ADDR
  match c.word (base + 42), c.dword (base + 28), c.word (base + 44) with
  | some dx, some ebx, some cx => .eachSegment { c with edx := dx, ebx := ebx + base, ecx := cx }
  | _, _, _ => .fault

/-! ## The page tables during the copy -/

/-- The tables are as `setup_page` left them in memory that held `ram`. -/
def TablesOf (ram : Mem) (m : Bytes) : Prop :=
  ∀ f i, 256 ≤ f → f < 512 → i < 1024 → words m f i = setupPage ram f i

/-- The mapping of those tables. -/
def bootTranslate (ram : Mem) (v : BitVec 32) : Option Nat := walk (setupPage ram) bootDir v.toNat

section
variable {ram : Mem} {m m' : Bytes}

/-- A present entry of the directory names one of the 256 tables. -/
theorem setupPage_table_range (p : Nat) (hp : p / 1024 < 1024) (h : setupPage ram bootDir (p / 1024) % 2 = 1) :
    256 ≤ table (setupPage ram) bootDir p ∧ table (setupPage ram) bootDir p < 512 := by
  unfold table
  rcases Nat.eq_zero_or_pos (p / 1024) with h0 | h0
  · rw [h0, setupPage_low]
    omega
  · by_cases huser : p / 1024 < 768
    · rw [setupPage_user ram _ h0 huser] at h
      omega
    · by_cases hself : p / 1024 = 1023
      · rw [hself, setupPage_self]
        decide
      · rw [setupPage_kernel ram _ (by omega) (by omega)]
        omega

theorem TablesOf.translate_eq (h : TablesOf ram m) (v : BitVec 32) : translate m v = bootTranslate ram v := by
  have hv := v.isLt
  unfold translate bootTranslate walk
  rw [show PAGE_DIR_TABLE_POS / 4096 = bootDir from rfl]
  congr 1
  refine walkPage_congr _ _ _ _ _ (h bootDir _ (by decide) (by decide) (by omega)) fun hp => ?_
  obtain ⟨h1, h2⟩ := setupPage_table_range (v.toNat / 4096) (by omega) hp
  exact h _ _ h1 h2 (by omega)

/-- The second megabyte holds the tables, and nothing else. -/
theorem TablesOf.congr (h : TablesOf ram m) (hm : ∀ a, 0x100000 ≤ a → a < 0x200000 → m' a = m a) :
    TablesOf ram m' := by
  intro f i h1 h2 h3
  rw [← h f i h1 h2 h3]
  exact Bytes.read_congr fun j hj => hm _ (by omega) (by omega)

/-- `v` is byte `a` of the first megabyte, in one of the two ranges that show it. -/
def Shows (v : BitVec 32) (a : Nat) : Prop := v.toNat = a ∨ v.toNat = 0xc0000000 + a

theorem Shows.translate {v : BitVec 32} {a : Nat} (hv : Shows v a) (ha : a < 0x100000) :
    bootTranslate ram v = some a := setupPage_megabyte ram v.toNat a ha hv

theorem Shows.add {v : BitVec 32} {a : Nat} (hv : Shows v a) (n : Nat) (ha : a + n ≤ 0x100000) :
    Shows (v + BitVec.ofNat 32 n) (a + n) := by
  unfold Shows at hv ⊢
  rw [BitVec.toNat_add, BitVec.toNat_ofNat]
  omega

theorem Shows.succ {v : BitVec 32} {a : Nat} (hv : Shows v a) (ha : a + 1 ≤ 0x100000) : Shows (v + 1) (a + 1) :=
  hv.add 1 ha

theorem loadBytes_eq (h : TablesOf ram m) : ∀ (n : Nat) (v : BitVec 32) (a : Nat), Shows v a →
    a + n ≤ 0x100000 → loadBytes m n v = some (m.read n a) := by
  intro n
  induction n with
  | zero => intro v a _ _; rfl
  | succ n ih =>
    intro v a hv ha
    have hbyte : loadByte m v = some (m a) := by
      unfold loadByte
      rw [h.translate_eq, hv.translate (by omega), Option.map_some]
    rw [loadBytes, hbyte, ih (v + 1) (a + 1) (hv.succ (by omega)) (by omega)]
    rfl

theorem storeBytes_eq : ∀ (n : Nat) (v : BitVec 32) (a x : Nat) (m : Bytes), TablesOf ram m → Shows v a →
    a + n ≤ 0x100000 → storeBytes n v x m = some (m.write n a x) := by
  intro n
  induction n with
  | zero => intro v a x m _ _ _; rfl
  | succ n ih =>
    intro v a x m h hv ha
    have hbyte : storeByte m v (UInt8.ofNat x) = some (Function.update m a (UInt8.ofNat x)) := by
      unfold storeByte
      rw [h.translate_eq, hv.translate (by omega), Option.map_some]
    have htables : TablesOf ram (Function.update m a (UInt8.ofNat x)) :=
      h.congr fun b hb _ => Function.update_of_ne (by omega) _ _
    rw [storeBytes, hbyte, Option.bind_eq_bind, Option.bind_some, Bytes.write]
    exact ih (v + 1) (a + 1) (x / 256) _ htables (hv.succ (by omega)) (by omega)

theorem TablesOf.write (h : TablesOf ram m) (n a x : Nat) (ha : a + n ≤ 0x100000) :
    TablesOf ram (m.write n a x) :=
  h.congr fun b hb _ => Bytes.write_out n a x b m (by omega)

end

/-! ## The copy -/

/-- `n` bytes from byte `src` on are at `d`, and no other byte has changed. -/
structure Copied (ram : Mem) (d : BitVec 32) (src n : Nat) (m m' : Bytes) : Prop where
  bytes : ∀ i a, i < n → bootTranslate ram (d + BitVec.ofNat 32 i) = some a → m' a = m (src + i)
  frame : ∀ a, (∀ i, i < n → bootTranslate ram (d + BitVec.ofNat 32 i) ≠ some a) → m' a = m a

/-- The bytes at `d` are `n` different ones, outside the source and the page tables. -/
structure Destination (ram : Mem) (d : BitVec 32) (src n : Nat) : Prop where
  inj : ∀ i l a, i < n → l < n → bootTranslate ram (d + BitVec.ofNat 32 i) = some a →
    bootTranslate ram (d + BitVec.ofNat 32 l) = some a → i = l
  source : ∀ i a, i < n → bootTranslate ram (d + BitVec.ofNat 32 i) = some a → a < src ∨ src + n ≤ a
  tables : ∀ i a, i < n → bootTranslate ram (d + BitVec.ofNat 32 i) = some a → a < 0x100000 ∨ 0x200000 ≤ a

/-- The registers that `rep movsb` does not use. -/
structure SameRegs (c c' : LoaderCpu) : Prop where
  ebx : c'.ebx = c.ebx
  edx : c'.edx = c.edx
  ebp : c'.ebp = c.ebp
  esp : c'.esp = c.esp

section
variable {ram : Mem}

theorem add_ofNat_succ (d : BitVec 32) (i : Nat) : d + 1 + BitVec.ofNat 32 i = d + BitVec.ofNat 32 (i + 1) := by
  rw [BitVec.add_assoc, show (1 : BitVec 32) = BitVec.ofNat 32 1 from rfl, ← BitVec.ofNat_add, Nat.add_comm]

theorem Destination.succ {d : BitVec 32} {src n : Nat} (h : Destination ram d src (n + 1)) :
    Destination ram (d + 1) (src + 1) n := by
  refine ⟨fun i l a hi hl h1 h2 => ?_, fun i a hi h1 => ?_, fun i a hi h1 => ?_⟩
  · rw [add_ofNat_succ] at h1 h2
    have := h.inj (i + 1) (l + 1) a (by omega) (by omega) h1 h2
    omega
  · rw [add_ofNat_succ] at h1
    have := h.source (i + 1) a (by omega) h1
    omega
  · rw [add_ofNat_succ] at h1
    exact h.tables (i + 1) a (by omega) h1

/-- One byte: it is read in the first megabyte and goes where `d` is mapped. -/
theorem movsb_eq {c : LoaderCpu} {src : Nat} (h : TablesOf ram c.mem) (hsrc : Shows c.esi src)
    (hlt : src < 0x100000) :
    loadByte c.mem c.esi = some (c.mem src) ∧
    storeByte c.mem c.edi (c.mem src) =
      (bootTranslate ram c.edi).map fun a => Function.update c.mem a (c.mem src) := by
  unfold loadByte storeByte
  rw [h.translate_eq, h.translate_eq, hsrc.translate hlt]
  exact ⟨rfl, rfl⟩

theorem repMovsb_copied : ∀ (n src : Nat) (c c' : LoaderCpu), TablesOf ram c.mem →
    (0 < n → Shows c.esi src ∧ src + n ≤ 0x100000) → Destination ram c.edi src n → repMovsb n c = some c' →
    SameRegs c c' ∧ TablesOf ram c'.mem ∧ Copied ram c.edi src n c.mem c'.mem := by
  intro n
  induction n with
  | zero =>
    intro src c c' h _ _ hrun
    obtain rfl := Option.some.inj hrun
    exact ⟨⟨rfl, rfl, rfl, rfl⟩, h, fun i a hi _ => absurd hi (by omega), fun _ _ => rfl⟩
  | succ n ih =>
    intro src c c' h hs hd hrun
    obtain ⟨hsrc, hlt⟩ := hs (by omega)
    obtain ⟨hload, hstore⟩ := movsb_eq h hsrc (by omega)
    have h0 : c.edi + BitVec.ofNat 32 0 = c.edi := BitVec.add_zero _
    rw [repMovsb, hload, Option.bind_eq_bind, Option.bind_some, hstore] at hrun
    cases ha : bootTranslate ram c.edi with
    | none =>
      rw [ha] at hrun
      cases hrun
    | some a0 =>
      rw [ha, Option.map_some, Option.bind_eq_bind, Option.bind_some] at hrun
      have hne := hd.source 0 a0 (by omega) (by rw [h0, ha])
      have hout := hd.tables 0 a0 (by omega) (by rw [h0, ha])
      have htables : TablesOf ram (Function.update c.mem a0 (c.mem src)) :=
        h.congr fun b h1 h2 => Function.update_of_ne (by omega) _ _
      obtain ⟨hregs, ht, hc⟩ :=
        ih (src + 1) _ c' htables (fun _ => ⟨hsrc.succ (by omega), by omega⟩) hd.succ hrun
      refine ⟨⟨hregs.ebx, hregs.edx, hregs.ebp, hregs.esp⟩, ht, fun i a hi hai => ?_, fun a hno => ?_⟩
      · cases i with
        | zero =>
          -- the first byte is not written again
          rw [h0, ha] at hai
          obtain rfl := Option.some.inj hai
          rw [hc.frame a0 fun i hi hai => ?_]
          · exact Function.update_self _ _ _
          · rw [add_ofNat_succ] at hai
            have := hd.inj 0 (i + 1) a0 (by omega) (by omega) (by rw [h0, ha]) hai
            omega
        | succ i =>
          have hbyte := hc.bytes i a (by omega) (by rw [add_ofNat_succ]; exact hai)
          rw [hbyte, show src + 1 + i = src + (i + 1) by omega]
          exact Function.update_of_ne (by omega) _ _
      · rw [hc.frame a fun i hi => ?_]
        · refine Function.update_of_ne ?_ _ _
          rintro rfl
          exact hno 0 (by omega) (by rw [h0, ha])
        · rw [add_ofNat_succ]
          exact hno (i + 1) (by omega)

/-- It only faults at a byte that is not mapped. -/
theorem repMovsb_runs : ∀ (n src : Nat) (c : LoaderCpu), TablesOf ram c.mem →
    (0 < n → Shows c.esi src ∧ src + n ≤ 0x100000) → Destination ram c.edi src n →
    (∀ i, i < n → ∃ a, bootTranslate ram (c.edi + BitVec.ofNat 32 i) = some a) →
    ∃ c', repMovsb n c = some c' := by
  intro n
  induction n with
  | zero => exact fun _ c _ _ _ _ => ⟨c, rfl⟩
  | succ n ih =>
    intro src c h hs hd hmap
    obtain ⟨hsrc, hlt⟩ := hs (by omega)
    obtain ⟨hload, hstore⟩ := movsb_eq h hsrc (by omega)
    obtain ⟨a0, ha⟩ := hmap 0 (by omega)
    have hout := hd.tables 0 a0 (by omega) ha
    rw [show c.edi + BitVec.ofNat 32 0 = c.edi from BitVec.add_zero _] at ha
    rw [repMovsb, hload, Option.bind_eq_bind, Option.bind_some, hstore, ha, Option.map_some, Option.bind_eq_bind,
      Option.bind_some]
    refine ih (src + 1) _ ?_ (fun _ => ⟨hsrc.succ (by omega), by omega⟩) hd.succ fun i hi => ?_
    · exact h.congr fun b h1 h2 => Function.update_of_ne (by omega) _ _
    · rw [add_ofNat_succ]
      exact hmap (i + 1) (by omega)

end

/-! ## The stack -/

/-- The address of byte `a` of the stack: `esp` has been moved up to 3 GB. -/
def stackAddr (a : Nat) : BitVec 32 := BitVec.ofNat 32 (0xc0000000 + a)

/-- `x` has been pushed to byte `a`. -/
def LoaderCpu.pushed (c : LoaderCpu) (a : Nat) (x : BitVec 32) : LoaderCpu :=
  { c with esp := stackAddr a, mem := c.mem.write 4 a x.toNat }

/-- The six dwords that are pushed for a segment, from `esp` down. -/
structure Frame where
  filesz : BitVec 32
  source : BitVec 32
  vaddr : BitVec 32
  addEsp : BitVec 32
  ebp : BitVec 32
  ecx : BitVec 32

/-- `esp` in `kernel_init` is 4 below the top: the return address is on the stack. -/
def Frame.store (f : Frame) (m : Bytes) : Bytes :=
  let m := m.write 4 0x8f8 f.filesz.toNat
  let m := m.write 4 0x8f4 f.source.toNat
  let m := m.write 4 0x8f0 f.vaddr.toNat
  let m := m.write 4 0x8ec f.addEsp.toNat
  let m := m.write 4 0x8e8 f.ebp.toNat
  m.write 4 0x8e4 f.ecx.toNat

section
variable {ram : Mem} {c : LoaderCpu}

theorem stackAddr_shows (a : Nat) (ha : a < 0x100000) : Shows (stackAddr a) a := by
  unfold Shows stackAddr
  rw [BitVec.toNat_ofNat]
  omega

theorem LoaderCpu.dword_eq (h : TablesOf ram c.mem) {v : BitVec 32} {a : Nat} (hv : Shows v a)
    (ha : a + 4 ≤ 0x100000) : c.dword v = some (BitVec.ofNat 32 (c.mem.read 4 a)) := by
  unfold LoaderCpu.dword
  rw [loadBytes_eq h 4 v a hv ha, Option.map_some]

theorem stackAddr_sub (a : Nat) : stackAddr (a + 4) - 4 = stackAddr a := by
  unfold stackAddr
  rw [show 0xc0000000 + (a + 4) = 0xc0000000 + a + 4 by omega, BitVec.ofNat_add]
  exact BitVec.add_sub_cancel _ _

theorem stackAddr_add (a n : Nat) : stackAddr a + BitVec.ofNat 32 n = stackAddr (a + n) := by
  unfold stackAddr
  rw [← BitVec.ofNat_add, Nat.add_assoc]

theorem LoaderCpu.push_eq (h : TablesOf ram c.mem) {a : Nat} (hesp : c.esp = stackAddr (a + 4))
    (ha : a + 4 ≤ 0x100000) (x : BitVec 32) : c.push x = some (c.pushed a x) := by
  unfold LoaderCpu.push
  rw [hesp, stackAddr_sub, storeBytes_eq 4 (stackAddr a) a _ _ h (stackAddr_shows a (by omega)) ha,
    Option.map_some]
  rfl

theorem TablesOf.pushed (h : TablesOf ram c.mem) (a : Nat) (x : BitVec 32) (ha : a + 4 ≤ 0x100000) :
    TablesOf ram (c.pushed a x).mem := h.write 4 a x.toNat ha

theorem LoaderCpu.pop_eq (h : TablesOf ram c.mem) {a : Nat} (hesp : c.esp = stackAddr a)
    (ha : a + 4 ≤ 0x100000) :
    c.pop = some (BitVec.ofNat 32 (c.mem.read 4 a), { c with esp := stackAddr (a + 4) }) := by
  unfold LoaderCpu.pop
  rw [LoaderCpu.dword_eq h (by rw [hesp]; exact stackAddr_shows a (by omega)) ha, Option.map_some, hesp,
    show (4 : BitVec 32) = BitVec.ofNat 32 4 from rfl, stackAddr_add]

/-- Only the 24 bytes below the return address change. -/
theorem Frame.store_out (f : Frame) (m : Bytes) (a : Nat) (h : a < 0x8e4 ∨ 0x8fc ≤ a) : f.store m a = m a := by
  unfold Frame.store
  rw [Bytes.write_out _ _ _ _ _ (by omega), Bytes.write_out _ _ _ _ _ (by omega),
    Bytes.write_out _ _ _ _ _ (by omega), Bytes.write_out _ _ _ _ _ (by omega),
    Bytes.write_out _ _ _ _ _ (by omega), Bytes.write_out _ _ _ _ _ (by omega)]

theorem read_write_dword (m : Bytes) (a : Nat) (x : BitVec 32) :
    BitVec.ofNat 32 ((m.write 4 a x.toNat).read 4 a) = x := by
  apply BitVec.eq_of_toNat_eq
  have hx := x.isLt
  rw [Bytes.read_write, BitVec.toNat_ofNat]
  omega

/-- The six dwords as they are read back. -/
theorem Frame.read_store (f : Frame) (m : Bytes) :
    BitVec.ofNat 32 ((f.store m).read 4 0x8e4) = f.ecx ∧ BitVec.ofNat 32 ((f.store m).read 4 0x8e8) = f.ebp ∧
    BitVec.ofNat 32 ((f.store m).read 4 0x8ec) = f.addEsp ∧
    BitVec.ofNat 32 ((f.store m).read 4 0x8f0) = f.vaddr ∧
    BitVec.ofNat 32 ((f.store m).read 4 0x8f4) = f.source ∧
    BitVec.ofNat 32 ((f.store m).read 4 0x8f8) = f.filesz := by
  unfold Frame.store
  refine ⟨read_write_dword _ _ _, ?_, ?_, ?_, ?_, ?_⟩
  · rw [Bytes.read_write_out _ _ _ _ _ _ (by omega), read_write_dword]
  · rw [Bytes.read_write_out _ _ _ _ _ _ (by omega), Bytes.read_write_out _ _ _ _ _ _ (by omega),
      read_write_dword]
  · rw [Bytes.read_write_out _ _ _ _ _ _ (by omega), Bytes.read_write_out _ _ _ _ _ _ (by omega),
      Bytes.read_write_out _ _ _ _ _ _ (by omega), read_write_dword]
  · rw [Bytes.read_write_out _ _ _ _ _ _ (by omega), Bytes.read_write_out _ _ _ _ _ _ (by omega),
      Bytes.read_write_out _ _ _ _ _ _ (by omega), Bytes.read_write_out _ _ _ _ _ _ (by omega),
      read_write_dword]
  · rw [Bytes.read_write_out _ _ _ _ _ _ (by omega), Bytes.read_write_out _ _ _ _ _ _ (by omega),
      Bytes.read_write_out _ _ _ _ _ _ (by omega), Bytes.read_write_out _ _ _ _ _ _ (by omega),
      Bytes.read_write_out _ _ _ _ _ _ (by omega), read_write_dword]

end

/-! ## One segment -/

/-- The fields of a program header that say what is loaded where. -/
structure Phdr where
  type : Nat
  offset : Nat
  vaddr : BitVec 32
  filesz : Nat
  memsz : Nat
  deriving DecidableEq, Repr

def phdrAt (m : Bytes) (t : Nat) : Phdr where
  type := m.read 4 t
  offset := m.read 4 (t + 4)
  vaddr := BitVec.ofNat 32 (m.read 4 (t + 8))
  filesz := m.read 4 (t + 16)
  memsz := m.read 4 (t + 20)

/-- What `copySegment` pushes for the header at `t`. -/
def frameFor (addEsp : BitVec 32) (c : LoaderCpu) (t : Nat) : Frame where
  filesz := BitVec.ofNat 32 (phdrAt c.mem t).filesz
  source := BitVec.ofNat 32 (phdrAt c.mem t).offset + BitVec.ofNat 32 KERNEL_BIN_BASE_ADDR
  vaddr := (phdrAt c.mem t).vaddr
  addEsp := addEsp
  ebp := c.ebp
  ecx := c.ecx

/-- The state in which `rep movsb` starts. -/
def copying (addEsp : BitVec 32) (c : LoaderCpu) (t : Nat) : LoaderCpu :=
  let f := frameFor addEsp c t
  { c with
    eax := f.source, ecx := f.filesz, esi := f.source, edi := f.vaddr, ebp := stackAddr 0x8e8,
    esp := stackAddr 0x8e4, mem := f.store c.mem }

/-- The end of `mem_cpy`, up to its `ret`. -/
def memCpyEnd (c : LoaderCpu) : Option LoaderCpu := do
  let p ← c.pop
  let c := { p.2 with ecx := p.1 }
  let p ← c.pop
  some { p.2 with ebp := p.1 }

/-- Back in `copySegment`: the `ret` of `mem_cpy` and `add esp, 12`. -/
def afterCall (addEsp : BitVec 32) (c : LoaderCpu) : Option LoaderCpu := do
  let p ← c.pop
  if p.1 = addEsp then some { p.2 with esp := p.2.esp + 12 } else none

section
variable {ram : Mem} {addEsp : BitVec 32} {c : LoaderCpu} {t : Nat}

/-- `mem_cpy` saves `ebp` and `ecx` and takes its arguments from above its return address. -/
theorem memCpy_eq (h : TablesOf ram c.mem) {a : Nat} (hesp : c.esp = stackAddr (a + 8)) (ha : a + 24 ≤ 0x100000)
    (m : Bytes) (hm : m = (c.mem.write 4 (a + 4) c.ebp.toNat).write 4 a c.ecx.toNat) :
    memCpy c =
      (repMovsb (BitVec.ofNat 32 (m.read 4 (a + 20))).toNat
        { c with
          edi := BitVec.ofNat 32 (m.read 4 (a + 12)), esi := BitVec.ofNat 32 (m.read 4 (a + 16)),
          ecx := BitVec.ofNat 32 (m.read 4 (a + 20)), ebp := stackAddr (a + 4), esp := stackAddr a,
          mem := m }).bind memCpyEnd := by
  subst hm
  -- the state after each push
  obtain ⟨c1, hc1⟩ : ∃ c1 : LoaderCpu, c1 = { c.pushed (a + 4) c.ebp with ebp := stackAddr (a + 4) } := ⟨_, rfl⟩
  obtain ⟨c2, hc2⟩ : ∃ c2 : LoaderCpu, c2 = c1.pushed a c.ecx := ⟨_, rfl⟩
  have t1 : TablesOf ram c1.mem := hc1 ▸ h.pushed (a + 4) c.ebp (by omega)
  have t2 : TablesOf ram c2.mem := hc2 ▸ t1.pushed a c.ecx (by omega)
  have e1 : c.push c.ebp = some (c.pushed (a + 4) c.ebp) := LoaderCpu.push_eq h hesp (by omega) _
  have e2 : c1.push c1.ecx = some c2 := by
    rw [LoaderCpu.push_eq t1 (by rw [hc1]; rfl) (by omega), hc2, hc1]
    rfl
  have harg : ∀ n, a + 4 + n + 4 ≤ 0x100000 → c2.dword (c2.ebp + BitVec.ofNat 32 n) =
      some (BitVec.ofNat 32 (c2.mem.read 4 (a + 4 + n))) := fun n hn =>
    LoaderCpu.dword_eq t2 (by rw [hc2, hc1]; exact (stackAddr_shows (a + 4) (by omega)).add n (by omega)) hn
  unfold memCpy
  rw [e1, Option.bind_eq_bind, Option.bind_some,
    show ({ c.pushed (a + 4) c.ebp with ebp := (c.pushed (a + 4) c.ebp).esp } : LoaderCpu) = c1 from hc1.symm]
  dsimp only
  rw [e2, Option.bind_eq_bind, Option.bind_some, show (8 : BitVec 32) = BitVec.ofNat 32 8 from rfl,
    show (12 : BitVec 32) = BitVec.ofNat 32 12 from rfl, show (16 : BitVec 32) = BitVec.ofNat 32 16 from rfl,
    harg 8 (by omega), harg 12 (by omega), harg 16 (by omega), Option.bind_some, Option.bind_some,
    Option.bind_some, hc2, hc1]
  rfl

/-- The arguments are those of the header that `ebx` points to. -/
theorem copySegment_eq (h : TablesOf ram c.mem) (hesp : c.esp = stackAddr 0x8fc) (hebx : c.ebx.toNat = t)
    (h1 : 0x8fc ≤ t) (h2 : t + 32 ≤ 0x100000) :
    copySegment addEsp c = (repMovsb (frameFor addEsp c t).filesz.toNat (copying addEsp c t)).bind fun c =>
      (memCpyEnd c).bind (afterCall addEsp) := by
  obtain ⟨f, hf⟩ : ∃ f, f = frameFor addEsp c t := ⟨_, rfl⟩
  -- the state after each push
  obtain ⟨c1, hc1⟩ : ∃ c1, c1 = c.pushed 0x8f8 f.filesz := ⟨_, rfl⟩
  obtain ⟨c2, hc2⟩ : ∃ c2, c2 = ({ c1 with eax := f.source } : LoaderCpu).pushed 0x8f4 f.source := ⟨_, rfl⟩
  obtain ⟨c3, hc3⟩ : ∃ c3, c3 = c2.pushed 0x8f0 f.vaddr := ⟨_, rfl⟩
  obtain ⟨c4, hc4⟩ : ∃ c4, c4 = c3.pushed 0x8ec addEsp := ⟨_, rfl⟩
  have t1 : TablesOf ram c1.mem := hc1 ▸ h.pushed 0x8f8 f.filesz (by omega)
  have t2 : TablesOf ram c2.mem := by
    rw [hc2]
    exact TablesOf.pushed (c := { c1 with eax := f.source }) t1 0x8f4 f.source (by omega)
  have t3 : TablesOf ram c3.mem := hc3 ▸ t2.pushed 0x8f0 f.vaddr (by omega)
  have t4 : TablesOf ram c4.mem := hc4 ▸ t3.pushed 0x8ec addEsp (by omega)
  have hfield : ∀ n, n < 28 → Shows (c.ebx + BitVec.ofNat 32 n) (t + n) :=
    fun n hn => Shows.add (.inl hebx) n (by omega)
  have e1 : c.dword (c.ebx + 16) = some f.filesz := by
    rw [LoaderCpu.dword_eq h (v := c.ebx + 16) (hfield 16 (by omega)) (by omega), hf]
    rfl
  have e2 : c.push f.filesz = some c1 := by
    rw [LoaderCpu.push_eq h hesp (by omega), hc1]
  have e3 : (c1.dword (c1.ebx + 4)).map (· + BitVec.ofNat 32 KERNEL_BIN_BASE_ADDR) = some f.source := by
    rw [LoaderCpu.dword_eq t1 (by rw [hc1]; exact hfield 4 (by omega)) (by omega), hc1, hf]
    show some (BitVec.ofNat 32 ((c.mem.write 4 _ _).read 4 (t + 4)) + _) = _
    rw [Bytes.read_write_out _ _ _ _ _ _ (by omega)]
    rfl
  have e4 : ({ c1 with eax := f.source } : LoaderCpu).push f.source = some c2 := by
    rw [LoaderCpu.push_eq (c := { c1 with eax := f.source }) t1 (by rw [hc1]; rfl) (by omega), hc2]
  have e5 : c2.dword (c2.ebx + 8) = some f.vaddr := by
    rw [LoaderCpu.dword_eq t2 (by rw [hc2, hc1]; exact hfield 8 (by omega)) (by omega), hc2, hc1, hf]
    show some (BitVec.ofNat 32 (((c.mem.write 4 _ _).write 4 _ _).read 4 (t + 8))) = _
    rw [Bytes.read_write_out _ _ _ _ _ _ (by omega), Bytes.read_write_out _ _ _ _ _ _ (by omega)]
    rfl
  have e6 : c2.push f.vaddr = some c3 := by
    rw [LoaderCpu.push_eq t2 (by rw [hc2]; rfl) (by omega), hc3]
  have e7 : c3.push addEsp = some c4 := by
    rw [LoaderCpu.push_eq t3 (by rw [hc3]; rfl) (by omega), hc4]
  have hmem : f.store c.mem = (c4.mem.write 4 (0x8e4 + 4) c4.ebp.toNat).write 4 0x8e4 c4.ecx.toNat := by
    simp only [hc4, hc3, hc2, hc1, hf, Frame.store, frameFor, LoaderCpu.pushed]
  obtain ⟨-, -, -, hv, hs, hz⟩ := f.read_store c.mem
  have e8 := memCpy_eq t4 (a := 0x8e4) (by rw [hc4]; rfl) (by omega) _ hmem
  rw [hv, hs, hz] at e8
  have hstart : copying addEsp c t = { c4 with
      edi := f.vaddr, esi := f.source, ecx := f.filesz, ebp := stackAddr (0x8e4 + 4), esp := stackAddr 0x8e4,
      mem := f.store c.mem } := by
    simp only [copying, hc4, hc3, hc2, hc1, hf, LoaderCpu.pushed]
  obtain ⟨offset, hoff, hsource⟩ := Option.map_eq_some_iff.mp e3
  unfold copySegment
  simp only [Option.bind_eq_bind, e1, e2, hoff, hsource, Option.bind_some, e4, e5, e6, e7, e8, Option.bind_assoc]
  rw [hstart, hf]
  rfl

theorem leave_eq (h : TablesOf ram c.mem) (hesp : c.esp = stackAddr 0x8e4) :
    (memCpyEnd c).bind (afterCall addEsp) =
      if BitVec.ofNat 32 (c.mem.read 4 0x8ec) = addEsp then
        some { c with
          ecx := BitVec.ofNat 32 (c.mem.read 4 0x8e4), ebp := BitVec.ofNat 32 (c.mem.read 4 0x8e8),
          esp := stackAddr 0x8fc }
      else none := by
  have e1 := LoaderCpu.pop_eq h hesp (by omega)
  have e2 := LoaderCpu.pop_eq (c := { c with
    esp := stackAddr (0x8e4 + 4), ecx := BitVec.ofNat 32 (c.mem.read 4 0x8e4) }) h rfl (by omega)
  have e3 := LoaderCpu.pop_eq (c := { c with
    esp := stackAddr (0x8e4 + 4 + 4), ecx := BitVec.ofNat 32 (c.mem.read 4 0x8e4),
    ebp := BitVec.ofNat 32 (c.mem.read 4 (0x8e4 + 4)) }) h rfl (by omega)
  unfold memCpyEnd afterCall
  simp only [Option.bind_eq_bind, e1, e2, e3, Option.bind_some]
  rw [show (12 : BitVec 32) = BitVec.ofNat 32 12 from rfl, stackAddr_add]

end

/-- The bytes of the segment are where its header says, and only the stack has changed besides. -/
structure Loaded (ram : Mem) (p : Phdr) (c c' : LoaderCpu) : Prop where
  ebx : c'.ebx = c.ebx
  ecx : c'.ecx = c.ecx
  edx : c'.edx = c.edx
  esp : c'.esp = c.esp
  tables : TablesOf ram c'.mem
  bytes : ∀ i a, i < p.filesz → bootTranslate ram (p.vaddr + BitVec.ofNat 32 i) = some a →
    c'.mem a = c.mem (KERNEL_BIN_BASE_ADDR + p.offset + i)
  frame : ∀ a, a < 0x8e4 ∨ 0x8fc ≤ a →
    (∀ i, i < p.filesz → bootTranslate ram (p.vaddr + BitVec.ofNat 32 i) ≠ some a) → c'.mem a = c.mem a

section
variable {ram : Mem} {addEsp : BitVec 32} {c c' : LoaderCpu} {t : Nat} {p : Phdr}

/-- Once the bytes are copied, what was pushed is still there, and comes back into the registers. -/
theorem Copied.leave {f : Frame} {src n : Nat} (hf : f = frameFor addEsp c t)
    (hregs : SameRegs (copying addEsp c t) c') (ht : TablesOf ram c'.mem)
    (hc : Copied ram p.vaddr src n (f.store c.mem) c'.mem)
    (hstack : ∀ i a, i < n → bootTranslate ram (p.vaddr + BitVec.ofNat 32 i) = some a → a < 0x8e4 ∨ 0x8fc ≤ a) :
    (memCpyEnd c').bind (afterCall addEsp) =
      some { c' with ecx := c.ecx, ebp := c.ebp, esp := stackAddr 0x8fc } := by
  have hread : ∀ b, 0x8e4 ≤ b → b + 4 ≤ 0x8fc → c'.mem.read 4 b = (f.store c.mem).read 4 b := by
    intro b h1 h2
    refine Bytes.read_congr fun j hj => hc.frame _ fun i hi ha => ?_
    have := hstack i _ hi ha
    omega
  obtain ⟨hecx, hebp, hret, -, -, -⟩ := f.read_store c.mem
  rw [leave_eq ht hregs.esp, hread _ (by omega) (by omega), hread _ (by omega) (by omega),
    hread _ (by omega) (by omega), hecx, hebp, hret, hf]
  exact if_pos rfl

theorem copySegment_loaded (addEsp : BitVec 32) (h : TablesOf ram c.mem) (hesp : c.esp = stackAddr 0x8fc)
    (hebx : c.ebx.toNat = t) (h1 : 0x8fc ≤ t) (h2 : t + 32 ≤ 0x100000) (hp : phdrAt c.mem t = p)
    (hsrc : 0 < p.filesz → KERNEL_BIN_BASE_ADDR + p.offset + p.filesz ≤ 0x100000)
    (hd : Destination ram p.vaddr (KERNEL_BIN_BASE_ADDR + p.offset) p.filesz)
    (hstack : ∀ i a, i < p.filesz → bootTranslate ram (p.vaddr + BitVec.ofNat 32 i) = some a →
      a < 0x8e4 ∨ 0x8fc ≤ a) :
    (∀ c', copySegment addEsp c = some c' → Loaded ram p c c') ∧
    ((∀ i, i < p.filesz → ∃ a, bootTranslate ram (p.vaddr + BitVec.ofNat 32 i) = some a) →
      ∃ c', copySegment addEsp c = some c') := by
  obtain ⟨f, hf⟩ : ∃ f, f = frameFor addEsp c t := ⟨_, rfl⟩
  have hsize : f.filesz.toNat = p.filesz := by
    have hlt := Bytes.read_lt c.mem 4 (t + 16)
    rw [hf, ← hp]
    exact Nat.mod_eq_of_lt hlt
  have hsource : f.source = BitVec.ofNat 32 (KERNEL_BIN_BASE_ADDR + p.offset) := by
    rw [hf, ← hp, Nat.add_comm, BitVec.ofNat_add]
    rfl
  have hedi : (copying addEsp c t).edi = p.vaddr := by
    rw [← hp]
    rfl
  have htables : TablesOf ram (copying addEsp c t).mem :=
    h.congr fun a ha _ => Frame.store_out _ _ _ (by omega)
  have hesi : 0 < p.filesz → Shows (copying addEsp c t).esi (KERNEL_BIN_BASE_ADDR + p.offset) ∧
      KERNEL_BIN_BASE_ADDR + p.offset + p.filesz ≤ 0x100000 := by
    intro h0
    have hlt := hsrc h0
    refine ⟨.inl ?_, hlt⟩
    show (frameFor addEsp c t).source.toNat = _
    rw [← hf, hsource, BitVec.toNat_ofNat]
    omega
  have hmem : (copying addEsp c t).mem = f.store c.mem := by
    rw [hf]
    rfl
  have hregs' : (copying addEsp c t).ebx = c.ebx ∧ (copying addEsp c t).edx = c.edx := by
    unfold copying
    exact ⟨rfl, rfl⟩
  rw [← hedi] at hd
  rw [copySegment_eq h hesp hebx h1 h2, ← hf, hsize]
  refine ⟨fun c' hrun => ?_, fun hmap => ?_⟩
  · obtain ⟨d, hcopy, hleave⟩ := Option.bind_eq_some_iff.mp hrun
    obtain ⟨hregs, ht, hc⟩ := repMovsb_copied p.filesz _ _ _ htables hesi hd hcopy
    rw [hedi, hmem] at hc
    rw [Copied.leave hf hregs ht hc hstack] at hleave
    obtain rfl := Option.some.inj hleave
    refine ⟨hregs.ebx.trans hregs'.1, rfl, hregs.edx.trans hregs'.2, hesp.symm, ht, fun i a hi ha => ?_,
      fun a hout hno => ?_⟩
    · show d.mem a = _
      rw [hc.bytes i a hi ha]
      exact Frame.store_out _ _ _ (by unfold KERNEL_BIN_BASE_ADDR; omega)
    · show d.mem a = _
      rw [hc.frame a hno]
      exact Frame.store_out _ _ _ hout
  · obtain ⟨d, hcopy⟩ := repMovsb_runs p.filesz _ _ htables hesi hd (by rw [hedi]; exact hmap)
    obtain ⟨hregs, ht, hc⟩ := repMovsb_copied p.filesz _ _ _ htables hesi hd hcopy
    rw [hedi, hmem] at hc
    rw [hcopy, Option.bind_some, Copied.leave hf hregs ht hc hstack]
    exact ⟨_, rfl⟩

end

end MyOs
