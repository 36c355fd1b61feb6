import MyOs.Boot.Disk
import MyOs.Boot.KernelInit

/-!
# boot/loader.S: from the disk to the kernel in memory

The second half of the loader as one program: `rd_disk_m_32` brings 200 sectors to `KERNEL_BIN_BASE_ADDR`,
`setup_page` builds the page tables, the descriptor table moves to the upper half, and `kernel_init` copies the
segments to the addresses they were linked at.

    KernelImage.elf         an image linked for the first megabyte meets what kernel_init asks for
    enterKernel_spec        what happens between rd_disk_m_32 and kernel_init leaves the image alone
    boot_loadsKernel        the bytes of the file are at their virtual addresses
-/

namespace MyOs

open Paging

/-! ## Algorithm -/

def GDT_BASE : Nat := 0x903
def GDT_LIMIT : Nat := 31
def GDT_PTR : Nat := 0xb04

/-- `sgdt [gdt_ptr]` stores what `lgdt [gdt_ptr]` loaded; then the descriptor of the video segment and the base
of the table move to the upper half. -/
def moveGdt (m : Bytes) : Bytes :=
  let m := m.write 2 GDT_PTR GDT_LIMIT
  let m := m.write 4 (GDT_PTR + 2) GDT_BASE
  let ebx := m.read 4 (GDT_PTR + 2)
  let m := m.write 4 (ebx + 0x18 + 4) (m.read 4 (ebx + 0x18 + 4) ||| 0xc0000000)
  m.write 4 (GDT_PTR + 2) ((m.read 4 (GDT_PTR + 2) + 0xc0000000) % 2 ^ 32)

/-- From the return of `rd_disk_m_32` to the first instruction of `kernel_init`: `call setup_page`, the move of
the descriptor table and of `esp`, paging, a character on the screen, and `call kernel_init`.  The two return
addresses lie below `LOADER_STACK_TOP`; `regs` has the other registers. -/
def enterKernel (retSetup retInit : BitVec 32) (regs : LoaderCpu) (m : Bytes) : Option LoaderCpu := do
  let m := m.write 4 (LOADER_STACK_TOP - 4) retSetup.toNat
  let m := moveGdt (ofWords (setupPage (words m)))
  let m ← storeByte m (0xc00b8000 + 320) 0x56
  LoaderCpu.push { regs with esp := stackAddr LOADER_STACK_TOP, mem := m } retInit

/-- The bytes of the sectors from `lba` on. -/
def Media.bytes (M : Media) (lba : Nat) : Bytes := fun x =>
  UInt8.ofNat ((M.word (lba + x / 512) (x % 512 / 2)).toNat / 256 ^ (x % 2))

/-- A file where the loader puts it. -/
def atKernelBin (file : Bytes) : Bytes := fun a => file (a - KERNEL_BIN_BASE_ADDR)

/-- An image of `size` bytes that fits the 200 sectors, with its segments linked for the part of the first
megabyte between the loader and the image, and apart from each other. -/
structure KernelImage (m : Bytes) (size : Nat) : Prop where
  header : 52 ≤ size
  sectors : size ≤ 200 * 512
  phnum : 1 ≤ ePhnum m
  phdrs : ∀ j, j < ePhnum m → ePhoff m + j * ePhentsize m + 32 ≤ size
  file : ∀ j, IsLoad m j → (phdr m j).offset + (phdr m j).filesz ≤ size
  filesz : ∀ j, IsLoad m j → (phdr m j).filesz ≤ (phdr m j).memsz
  others : ∀ j, j < ePhnum m → (phdr m j).type ≠ PT_LOAD → (phdr m j).filesz = 0
  place : ∀ j, IsLoad m j → 0xc0001100 ≤ (phdr m j).vaddr.toNat ∧
    (phdr m j).vaddr.toNat + (phdr m j).memsz ≤ 0xc0070000
  disjoint : ∀ j k, IsLoad m j → IsLoad m k → j ≠ k →
    (phdr m j).vaddr.toNat + (phdr m j).memsz ≤ (phdr m k).vaddr.toNat ∨
    (phdr m k).vaddr.toNat + (phdr m k).memsz ≤ (phdr m j).vaddr.toNat

/-! ## The image -/

section
variable {ram : Mem} {m m' : Bytes} {size j : Nat}

/-- Every byte of a segment lies in the upper half, and shows a byte of the first megabyte. -/
theorem KernelImage.shows (h : KernelImage m size) (hj : IsLoad m j) (i : Nat) (hi : i < (phdr m j).memsz) :
    Shows ((phdr m j).vaddr + BitVec.ofNat 32 i) ((phdr m j).vaddr.toNat - 0xc0000000 + i) := by
  obtain ⟨h1, h2⟩ := h.place j hj
  have hv : Shows (phdr m j).vaddr ((phdr m j).vaddr.toNat - 0xc0000000) := .inr (by omega)
  exact hv.add i (by omega)

theorem KernelImage.goesTo_iff (h : KernelImage m size) (h0 : TablesOf ram m) (i a : Nat) :
    GoesTo m j i a ↔ IsLoad m j ∧ i < (phdr m j).memsz ∧ a = (phdr m j).vaddr.toNat - 0xc0000000 + i := by
  rw [MyOs.goesTo_iff h0]
  constructor
  · rintro ⟨hj, hi, ha⟩
    obtain ⟨h1, h2⟩ := h.place j hj
    rw [(h.shows hj i hi).translate (by omega)] at ha
    exact ⟨hj, hi, (Option.some.inj ha).symm⟩
  · rintro ⟨hj, hi, rfl⟩
    obtain ⟨h1, h2⟩ := h.place j hj
    exact ⟨hj, hi, (h.shows hj i hi).translate (by omega)⟩

/-- What `kernel_init` asks for. -/
theorem KernelImage.elf (h : KernelImage m size) (h0 : TablesOf ram m) : ElfImage m size := by
  have hs := h.sectors
  constructor
  case fits =>
    unfold KERNEL_BIN_BASE_ADDR
    omega
  case header => exact h.header
  case phnum => exact h.phnum
  case phdrs => exact h.phdrs
  case file => exact h.file
  case filesz => exact h.filesz
  case others => exact h.others
  case disjoint =>
    intro j i k l a h1 h2
    obtain ⟨hj, hi, ha⟩ := (h.goesTo_iff h0 i a).mp h1
    obtain ⟨hk, hl, ha'⟩ := (h.goesTo_iff h0 l a).mp h2
    have hpj := h.place j hj
    have hpk := h.place k hk
    by_cases hjk : j = k
    · subst hjk
      exact ⟨rfl, by omega⟩
    · have := h.disjoint j k hj hk hjk
      omega
  case apart =>
    intro j i a h1
    obtain ⟨hj, hi, ha⟩ := (h.goesTo_iff h0 i a).mp h1
    have hpj := h.place j hj
    unfold InUse KERNEL_BIN_BASE_ADDR LOADER_STACK_TOP LOADER_BASE_ADDR PAGE_DIR_TABLE_POS
    omega

/-- The same image in another memory. -/
structure SameImage (m m' : Bytes) : Prop where
  phnum : ePhnum m' = ePhnum m
  phoff : ePhoff m' = ePhoff m
  phentsize : ePhentsize m' = ePhentsize m
  phdr : ∀ j, j < ePhnum m → phdr m' j = phdr m j

theorem KernelImage.same (h : KernelImage m size)
    (hm : ∀ a, KERNEL_BIN_BASE_ADDR ≤ a → a < KERNEL_BIN_BASE_ADDR + size → m' a = m a) : SameImage m m' := by
  have hread : ∀ n a, KERNEL_BIN_BASE_ADDR ≤ a → a + n ≤ KERNEL_BIN_BASE_ADDR + size →
      m'.read n a = m.read n a := by
    intro n a h1 h2
    exact Bytes.read_congr fun i hi => hm _ (by omega) (by omega)
  have hheader := h.header
  have hnum : ePhnum m' = ePhnum m := hread _ _ (by omega) (by omega)
  have hoff : ePhoff m' = ePhoff m := hread _ _ (by omega) (by omega)
  have hsize : ePhentsize m' = ePhentsize m := hread _ _ (by omega) (by omega)
  refine ⟨hnum, hoff, hsize, fun j hj => ?_⟩
  have hin := h.phdrs j hj
  have haddr : phdrAddr m' j = phdrAddr m j := by
    unfold phdrAddr
    rw [hoff, hsize]
  unfold MyOs.phdr phdrAt
  rw [haddr]
  unfold phdrAddr
  rw [hread _ _ (by omega) (by omega), hread _ _ (by omega) (by omega), hread _ _ (by omega) (by omega),
    hread _ _ (by omega) (by omega), hread _ _ (by omega) (by omega)]

theorem SameImage.isLoad_iff (h : SameImage m m') : IsLoad m' j ↔ IsLoad m j := by
  unfold IsLoad
  rw [h.phnum]
  constructor
  · rintro ⟨h1, h2⟩
    exact ⟨h1, by rw [← h.phdr j h1]; exact h2⟩
  · rintro ⟨h1, h2⟩
    exact ⟨h1, by rw [h.phdr j h1]; exact h2⟩

theorem KernelImage.congr (h : KernelImage m size) (hs : SameImage m m') : KernelImage m' size := by
  constructor
  case header => exact h.header
  case sectors => exact h.sectors
  case phnum =>
    rw [hs.phnum]
    exact h.phnum
  case phdrs =>
    intro j hj
    rw [hs.phnum] at hj
    rw [hs.phoff, hs.phentsize]
    exact h.phdrs j hj
  case file =>
    intro j hj
    rw [hs.isLoad_iff] at hj
    rw [hs.phdr j hj.1]
    exact h.file j hj
  case filesz =>
    intro j hj
    rw [hs.isLoad_iff] at hj
    rw [hs.phdr j hj.1]
    exact h.filesz j hj
  case others =>
    intro j hj
    rw [hs.phnum] at hj
    rw [hs.phdr j hj]
    exact h.others j hj
  case place =>
    intro j hj
    rw [hs.isLoad_iff] at hj
    rw [hs.phdr j hj.1]
    exact h.place j hj
  case disjoint =>
    intro j k hj hk
    rw [hs.isLoad_iff] at hj hk
    rw [hs.phdr j hj.1, hs.phdr k hk.1]
    exact h.disjoint j k hj hk

end

/-! ## Between rd_disk_m_32 and kernel_init -/

/-- Byte by byte, and back. -/
theorem ofWords_words (m : Bytes) (a : Nat) : ofWords (words m) a = m a := by
  have hb : a / 4096 * 4096 + a % 4096 / 4 * 4 = a / 4 * 4 := by omega
  have h0 := (m (a / 4 * 4)).toNat_lt
  have h1 := (m (a / 4 * 4 + 1)).toNat_lt
  have h2 := (m (a / 4 * 4 + 2)).toNat_lt
  have h3 := (m (a / 4 * 4 + 3)).toNat_lt
  unfold ofWords words
  rw [hb]
  apply UInt8.toNat_inj.mp
  rw [UInt8.toNat_ofNat']
  simp only [Bytes.read, Nat.add_assoc]
  have hmod : a % 4 < 4 := Nat.mod_lt _ (by decide)
  obtain ⟨k, hk⟩ : ∃ k, k = a % 4 := ⟨_, rfl⟩
  have ha : a = a / 4 * 4 + k := by omega
  rw [← hk]
  rw [← hk] at hmod
  generalize a / 4 * 4 = b at *
  subst ha
  have hcases : k = 0 ∨ k = 1 ∨ k = 2 ∨ k = 3 := by omega
  rcases hcases with rfl | rfl | rfl | rfl
  all_goals
    simp only [Nat.add_zero, Nat.reducePow, Nat.reduceAdd] at *
    omega

/-- The bytes that change on the way: the tables, the return addresses, two fields of the loader and a
character of the screen. -/
def Touched (a : Nat) : Prop :=
  (LOADER_STACK_TOP - 4 ≤ a ∧ a < LOADER_BASE_ADDR + 4 * 512) ∨ a = 0xb8140 ∨ 0x100000 ≤ a

theorem moveGdt_out (m : Bytes) (a : Nat) (ha : a < LOADER_BASE_ADDR ∨ LOADER_BASE_ADDR + 4 * 512 ≤ a) :
    moveGdt m a = m a := by
  unfold LOADER_BASE_ADDR at ha
  have hbase : ((m.write 2 GDT_PTR GDT_LIMIT).write 4 (GDT_PTR + 2) GDT_BASE).read 4 (GDT_PTR + 2) = GDT_BASE := by
    rw [Bytes.read_write]
    rfl
  unfold moveGdt
  rw [hbase]
  unfold GDT_PTR GDT_BASE
  rw [Bytes.write_out _ _ _ _ _ (by omega), Bytes.write_out _ _ _ _ _ (by omega),
    Bytes.write_out _ _ _ _ _ (by omega), Bytes.write_out _ _ _ _ _ (by omega)]

/-- The move of the descriptor table keeps the page tables. -/
theorem moveGdt_tables {ram : Mem} {m : Bytes} (h : TablesOf ram m) : TablesOf ram (moveGdt m) :=
  h.congr fun a h1 _ => moveGdt_out m a (.inr (by unfold LOADER_BASE_ADDR; omega))

theorem enterKernel_spec (retSetup retInit : BitVec 32) (regs : LoaderCpu) (m : Bytes) :
    ∃ c, enterKernel retSetup retInit regs m = some c ∧ AtKernelInit c ∧
      c.mem.read 4 0x8fc = retInit.toNat ∧ ∀ a, ¬ Touched a → c.mem a = m a := by
  obtain ⟨m1, hm1⟩ : ∃ m1, m1 = m.write 4 (LOADER_STACK_TOP - 4) retSetup.toNat := ⟨_, rfl⟩
  have hram : ∀ f i, words m1 f i < 2 ^ 32 := fun f i => Bytes.read_lt m1 4 _
  have h2 := moveGdt_tables (tablesOf_setupPage (words m1) hram)
  obtain ⟨m2, hm2⟩ : ∃ m2, m2 = moveGdt (ofWords (setupPage (words m1))) := ⟨_, rfl⟩
  rw [← hm2] at h2
  have hstore : storeByte m2 (0xc00b8000 + 320) 0x56 = some (Function.update m2 0xb8140 0x56) := by
    unfold storeByte
    rw [h2.translate_eq, Shows.translate (a := 0xb8140) (.inr rfl) (by decide), Option.map_some]
  have h3 : TablesOf (words m1) (Function.update m2 0xb8140 0x56) :=
    h2.congr fun a h1 _ => Function.update_of_ne (by omega) _ _
  have hpush := LoaderCpu.push_eq (c := { regs with
    esp := stackAddr LOADER_STACK_TOP, mem := Function.update m2 0xb8140 0x56 }) h3 (a := 0x8fc) rfl
    (by decide) retInit
  have h4 := TablesOf.pushed (c := { regs with
    esp := stackAddr LOADER_STACK_TOP, mem := Function.update m2 0xb8140 0x56 }) h3 0x8fc retInit (by decide)
  refine ⟨_, ?_, ⟨rfl, words m1, h4⟩, ?_, ?_⟩
  · unfold enterKernel
    dsimp only
    rw [← hm1, ← hm2, hstore, Option.bind_eq_bind, Option.bind_some]
    exact hpush
  · exact (Bytes.read_write _ _ _ _).trans (Nat.mod_eq_of_lt retInit.isLt)
  · intro a ha
    unfold Touched LOADER_STACK_TOP LOADER_BASE_ADDR at ha
    have hout : (LoaderCpu.pushed { regs with
        esp := stackAddr LOADER_STACK_TOP, mem := Function.update m2 0xb8140 0x56 } 0x8fc retInit).mem a = m2 a := by
      dsimp only [LoaderCpu.pushed]
      rw [Bytes.write_out _ _ _ _ _ (by omega), Function.update_of_ne (by omega)]
    rw [hout, hm2, moveGdt_out _ _ (by unfold LOADER_BASE_ADDR; omega), ofWords_setupPage _ _ (by omega),
      ofWords_words, hm1]
    unfold LOADER_STACK_TOP LOADER_BASE_ADDR
    exact Bytes.write_out _ _ _ _ _ (by omega)

/-! ## The kernel -/

/-- A word in memory is its two bytes. -/
theorem byte_of_read (m : Bytes) (b k : Nat) (v : BitVec 16) (hk : k < 2) (h : m.read 2 b = v.toNat) :
    m (b + k) = UInt8.ofNat (v.toNat / 256 ^ k) := by
  have h0 := (m b).toNat_lt
  have h1 := (m (b + 1)).toNat_lt
  apply UInt8.toNat_inj.mp
  rw [UInt8.toNat_ofNat', ← h]
  simp only [Bytes.read]
  have hcases : k = 0 ∨ k = 1 := by omega
  rcases hcases with rfl | rfl
  all_goals
    simp only [Nat.add_zero, Nat.reducePow] at *
    omega

/-- The words that have been read are the bytes of the sectors. -/
theorem ReadInv.bytes {w : Width} {M : Media} {lba n base : Nat} {m0 : Bytes} {c : DiskCpu}
    (h : ReadInv w M lba n base m0 (256 * n) c) (hgaps : M.gaps (n - 1) = 0) (x : Nat) (hx : x < 512 * n) :
    c.mem (base + x) = M.bytes lba x := by
  have hw := h.words hgaps (x / 2) (by omega)
  have hb := byte_of_read c.mem _ (x % 2) _ (by omega) hw
  rw [show base + 2 * (x / 2) + x % 2 = base + x by omega, show x / 2 / 256 = x / 512 by omega,
    show x / 2 % 256 = x % 512 / 2 by omega] at hb
  exact hb

/-- **From the disk to the kernel in memory.**  With a drive that never lets the host wait between sectors, an
image on the sectors from 9 on is loaded as its program headers say: every byte of the file part of a segment
is at its virtual address when `kernel_init` returns.  The rest of the segment is what memory held before. -/
theorem boot_loadsKernel (M : Media) (d : DiskCpu) (size : Nat)
    (hf : KernelImage (atKernelBin (M.bytes 9)) size) (hgaps : ∀ k, 1 ≤ k → k < 200 → M.delay k = 0)
    (retSetup retInit addEsp : BitVec 32) (regs : LoaderCpu) :
    Reaches (DiskRead.step .bits32 M) (.notReady (rdDisk .bits32 M (loadKernel d))) fun s =>
      ∃ c' c, s = .ret c' ∧ enterKernel retSetup retInit regs c'.mem = some c ∧
      Reaches (KernelInit.step addEsp) (kernelInit c) fun t => ∃ e, t = .returned retInit e ∧
        ∀ j i, IsLoad (atKernelBin (M.bytes 9)) j → i < (phdr (atKernelBin (M.bytes 9)) j).memsz →
          loadByte e.mem ((phdr (atKernelBin (M.bytes 9)) j).vaddr + BitVec.ofNat 32 i) =
            some (if i < (phdr (atKernelBin (M.bytes 9)) j).filesz
              then M.bytes 9 ((phdr (atKernelBin (M.bytes 9)) j).offset + i)
              else d.mem ((phdr (atKernelBin (M.bytes 9)) j).vaddr.toNat - 0xc0000000 + i)) := by
  refine (loadKernel_call d).returns.mono ?_
  rintro s ⟨c', rfl, hr⟩
  obtain ⟨c, hc, hat, hret, hsame⟩ := enterKernel_spec retSetup retInit regs c'.mem
  refine ⟨c', c, rfl, hc, ?_⟩
  generalize hm : atKernelBin (M.bytes 9) = m at hf ⊢
  -- the image is in place when kernel_init starts
  have himage : ∀ x, x < 200 * 512 → c.mem (KERNEL_BIN_BASE_ADDR + x) = M.bytes 9 x := by
    intro x hx
    rw [hsame _ (by
      unfold Touched KERNEL_BIN_BASE_ADDR LOADER_STACK_TOP LOADER_BASE_ADDR
      omega)]
    exact hr.bytes ((M.gaps_iff 200).mpr hgaps) x (by omega)
  have hsectors := hf.sectors
  have hs : SameImage m c.mem := hf.same fun a h1 h2 => by
    obtain ⟨x, rfl⟩ := Nat.exists_eq_add_of_le h1
    rw [himage x (by omega), ← hm]
    unfold atKernelBin
    rw [Nat.add_sub_cancel_left]
  have hk := hf.congr hs
  obtain ⟨ram, h0⟩ := hat.tables
  have hi := hk.elf h0
  obtain ⟨e0, he0, hstart⟩ := kernelInit_atSegment hi h0 hat.esp
  have hphnum := hi.phnum
  have hmap : ∀ j i, IsLoad c.mem j → i < (phdr c.mem j).memsz → ∃ a, GoesTo c.mem j i a :=
    fun j i hj hlt => ⟨_, (hk.goesTo_iff h0 i _).mpr ⟨hj, hlt, rfl⟩⟩
  rw [he0]
  refine (hstart.returns hi h0 hmap (ePhnum c.mem - 1) 0 e0 (by omega)).mono ?_
  rintro t ⟨eip, e, rfl, hp, heip, -⟩
  refine ⟨e, ?_, fun j i hj hlt => ?_⟩
  · rw [heip, hret, BitVec.ofNat_toNat, BitVec.setWidth_eq]
  · rw [← hs.phdr j hj.1] at hlt ⊢
    have hj' := hs.isLoad_iff.mpr hj
    obtain ⟨hp1, hp2⟩ := hk.place j hj'
    have hg := (hk.goesTo_iff h0 i _).mpr ⟨hj', hlt, rfl⟩
    rw [hp.loadByte_eq h0, hg.2.2, Option.map_some, hp.byte hi hg]
    by_cases hfile : i < (phdr c.mem j).filesz
    · have hin := hi.file j hj'
      have hsz := hk.sectors
      rw [if_pos hfile, if_pos hfile, Nat.add_assoc, himage _ (by omega)]
    · rw [if_neg hfile, if_neg hfile, hsame _ (by
        unfold Touched LOADER_STACK_TOP LOADER_BASE_ADDR
        omega), hr.frame _ (by omega)]
      rfl

/-! ## One disk -/

/-- A disk with the image of `smallImage` on sector 9. -/
def smallMedia : Media where
  word i j :=
    if i = 9 then
      match j with
      | 14 => 52
      | 21 => 32
      | 22 => 1
      | 26 => 1
      | 28 => 84
      | 30 => 0x1500
      | 31 => 0xc000
      | 34 => 4
      | 36 => 8
      | 42 => 0x5678
      | 43 => 0x1234
      | _ => 0
    else 0
  delay _ := 0
  floating _ _ := 0

theorem smallMedia_phdr : ePhoff (atKernelBin (smallMedia.bytes 9)) = 52 ∧
    ePhentsize (atKernelBin (smallMedia.bytes 9)) = 32 ∧ ePhnum (atKernelBin (smallMedia.bytes 9)) = 1 ∧
    phdr (atKernelBin (smallMedia.bytes 9)) 0 =
      { type := 1, offset := 84, vaddr := 0xc0001500, filesz := 4, memsz := 8 } := by
  decide +kernel

theorem smallMedia_image : KernelImage (atKernelBin (smallMedia.bytes 9)) 88 := by
  obtain ⟨hoff, hsize, hnum, hphdr⟩ := smallMedia_phdr
  have hzero : ∀ j, j < ePhnum (atKernelBin (smallMedia.bytes 9)) → j = 0 := fun j hj => by omega
  constructor
  case header => decide
  case sectors => decide
  case phnum => omega
  case phdrs =>
    intro j hj
    rw [hzero j hj, hoff]
    omega
  case file =>
    intro j hj
    rw [hzero j hj.1, hphdr]
    decide
  case filesz =>
    intro j hj
    rw [hzero j hj.1, hphdr]
    decide
  case others =>
    intro j hj ht
    rw [hzero j hj, hphdr] at ht
    exact absurd rfl ht
  case place =>
    intro j hj
    rw [hzero j hj.1, hphdr]
    decide
  case disjoint =>
    intro j k hj hk hne
    exact absurd ((hzero j hj.1).trans (hzero k hk.1).symm) hne

def idleLoader : LoaderCpu := ⟨0, 0, 0, 0, 0, 0, 0, 0, fun _ => 0⟩

/-- The second byte of the entry point. -/
theorem boot_loadsKernel_small :
    Reaches (DiskRead.step .bits32 smallMedia) (.notReady (rdDisk .bits32 smallMedia (loadKernel idleDisk)))
      fun s => ∃ c' c, s = .ret c' ∧ enterKernel 0xc20 0xd80 idleLoader c'.mem = some c ∧
      Reaches (KernelInit.step 0xdc0) (kernelInit c) fun t => ∃ e, t = .returned 0xd80 e ∧
        loadByte e.mem 0xc0001501 = some 0x56 := by
  refine (boot_loadsKernel smallMedia idleDisk 88 smallMedia_image (fun _ _ _ => rfl) 0xc20 0xd80 0xdc0
    idleLoader).mono ?_
  rintro s ⟨c', c, rfl, hc, hinit⟩
  refine ⟨c', c, rfl, hc, hinit.mono ?_⟩
  rintro t ⟨e, rfl, hbytes⟩
  obtain ⟨-, -, hnum, hphdr⟩ := smallMedia_phdr
  have hload : IsLoad (atKernelBin (smallMedia.bytes 9)) 0 := ⟨by omega, by rw [hphdr]; rfl⟩
  have hb := hbytes 0 1 hload (by rw [hphdr]; decide)
  rw [hphdr] at hb
  exact ⟨e, rfl, hb⟩

end MyOs
