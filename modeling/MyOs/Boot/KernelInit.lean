import MyOs.Theory.Reach
import MyOs.Boot.LoaderCpu

/-!
# boot/loader.S: the image that kernel_init loads

The loop over the program headers.  `p_memsz` is never read: the bytes after `p_filesz` keep what memory held.

    AtSegment.next       one round of `.each_segment`
    AtSegment.returns    the loop ends, with every segment copied
    loadsSegments_iff    when every segment is there as its program header says
-/

namespace MyOs

open Paging

/-! ## The image -/

def ePhoff (m : Bytes) : Nat := m.read 4 (KERNEL_BIN_BASE_ADDR + 28)
def ePhentsize (m : Bytes) : Nat := m.read 2 (KERNEL_BIN_BASE_ADDR + 42)
def ePhnum (m : Bytes) : Nat := m.read 2 (KERNEL_BIN_BASE_ADDR + 44)

def phdrAddr (m : Bytes) (j : Nat) : Nat := KERNEL_BIN_BASE_ADDR + ePhoff m + j * ePhentsize m

def phdr (m : Bytes) (j : Nat) : Phdr := phdrAt m (phdrAddr m j)

def PT_LOAD : Nat := 1

def IsLoad (m : Bytes) (j : Nat) : Prop := j < ePhnum m ∧ (phdr m j).type = PT_LOAD

/-- Byte `i` of segment `j` belongs at byte `a` of memory. -/
def GoesTo (m : Bytes) (j i a : Nat) : Prop :=
  IsLoad m j ∧ i < (phdr m j).memsz ∧ translate m ((phdr m j).vaddr + BitVec.ofNat 32 i) = some a

/-- The bytes in use while `kernel_init` runs: the image, the stack, the loader, and its page tables. -/
def InUse (size a : Nat) : Prop :=
  (KERNEL_BIN_BASE_ADDR ≤ a ∧ a < KERNEL_BIN_BASE_ADDR + size) ∨
  (0x8e4 ≤ a ∧ a < LOADER_STACK_TOP) ∨
  (LOADER_BASE_ADDR ≤ a ∧ a < LOADER_BASE_ADDR + 4 * 512) ∨
  (PAGE_DIR_TABLE_POS ≤ a ∧ a < PAGE_DIR_TABLE_POS + 256 * 4096)

/-- An image of `size` bytes, all in the first megabyte, with its program headers and segments inside it. -/
structure ElfImage (m : Bytes) (size : Nat) : Prop where
  fits : KERNEL_BIN_BASE_ADDR + size ≤ 0x100000
  header : 52 ≤ size
  phnum : 1 ≤ ePhnum m
  phdrs : ∀ j, j < ePhnum m → ePhoff m + j * ePhentsize m + 32 ≤ size
  file : ∀ j, IsLoad m j → (phdr m j).offset + (phdr m j).filesz ≤ size
  filesz : ∀ j, IsLoad m j → (phdr m j).filesz ≤ (phdr m j).memsz
  others : ∀ j, j < ePhnum m → (phdr m j).type ≠ PT_LOAD → (phdr m j).filesz = 0
  disjoint : ∀ j i k l a, GoesTo m j i a → GoesTo m k l a → j = k ∧ i = l
  apart : ∀ j i a, GoesTo m j i a → ¬ InUse size a

/-- The loader at `call kernel_init`, after `setup_page`: the return address is on the stack. -/
structure AtKernelInit (c : LoaderCpu) : Prop where
  esp : c.esp = stackAddr (LOADER_STACK_TOP - 4)
  tables : ∃ ram, TablesOf ram c.mem

/-- `kernel_init` returns to its caller, and then every byte of a segment is that of the file, or 0 past
`p_filesz`. -/
def LoadsSegments (addEsp : BitVec 32) (c : LoaderCpu) : Prop :=
  Reaches (KernelInit.step addEsp) (kernelInit c) fun t => ∃ eip c', t = .returned eip c' ∧
    c.dword c.esp = some eip ∧ c'.esp = c.esp + 4 ∧
    ∀ j i, IsLoad c.mem j → i < (phdr c.mem j).memsz →
      loadByte c'.mem ((phdr c.mem j).vaddr + BitVec.ofNat 32 i) =
        some (if i < (phdr c.mem j).filesz then c.mem (KERNEL_BIN_BASE_ADDR + (phdr c.mem j).offset + i) else 0)

/-- The segments before the `j`-th are in memory, which was `m0` at first. -/
structure Progress (ram : Mem) (m0 : Bytes) (j : Nat) (m : Bytes) : Prop where
  tables : TablesOf ram m
  bytes : ∀ k i a, k < j → i < (phdr m0 k).filesz → GoesTo m0 k i a →
    m a = m0 (KERNEL_BIN_BASE_ADDR + (phdr m0 k).offset + i)
  frame : ∀ a, a < 0x8e4 ∨ 0x8fc ≤ a → (∀ k i, k < j → i < (phdr m0 k).filesz → ¬ GoesTo m0 k i a) → m a = m0 a

/-- At the head of the loop, `j` segments have been seen to. -/
structure AtSegment (ram : Mem) (m0 : Bytes) (j : Nat) (c : LoaderCpu) : Prop where
  count : j < ePhnum m0
  ebx : c.ebx.toNat = phdrAddr m0 j
  ecx : c.ecx.toNat = ePhnum m0 - j
  edx : c.edx.toNat = ePhentsize m0
  esp : c.esp = stackAddr 0x8fc
  mem : Progress ram m0 j c.mem

section
variable {ram : Mem} {addEsp : BitVec 32} {m0 m : Bytes} {size j : Nat} {c : LoaderCpu}

theorem phdrAddr_succ (m : Bytes) (j : Nat) : phdrAddr m (j + 1) = phdrAddr m j + ePhentsize m := by
  unfold phdrAddr
  rw [Nat.succ_mul]
  omega

theorem goesTo_iff (h0 : TablesOf ram m0) (i a : Nat) : GoesTo m0 j i a ↔ IsLoad m0 j ∧ i < (phdr m0 j).memsz ∧
    bootTranslate ram ((phdr m0 j).vaddr + BitVec.ofNat 32 i) = some a := by
  unfold GoesTo
  rw [h0.translate_eq]

variable (hi : ElfImage m0 size) (h0 : TablesOf ram m0)

include hi

theorem phdrAddr_range (hj : j < ePhnum m0) : KERNEL_BIN_BASE_ADDR ≤ phdrAddr m0 j ∧
    phdrAddr m0 j + 32 ≤ KERNEL_BIN_BASE_ADDR + size := by
  have := hi.phdrs j hj
  unfold phdrAddr
  omega

/-- The image is as it was. -/
theorem Progress.image (h : Progress ram m0 j m) (a : Nat) (h1 : KERNEL_BIN_BASE_ADDR ≤ a)
    (h2 : a < KERNEL_BIN_BASE_ADDR + size) : m a = m0 a :=
  h.frame a (.inr (by unfold KERNEL_BIN_BASE_ADDR at h1; omega)) fun k i _ _ hg =>
    hi.apart k i a hg (.inl ⟨h1, h2⟩)

theorem Progress.phdr_eq (h : Progress ram m0 j m) (k : Nat) (hk : k < ePhnum m0) :
    phdrAt m (phdrAddr m0 k) = phdr m0 k := by
  obtain ⟨h1, h2⟩ := phdrAddr_range hi hk
  have hread : ∀ n, n + 4 ≤ 32 → m.read 4 (phdrAddr m0 k + n) = m0.read 4 (phdrAddr m0 k + n) := fun n hn =>
    Bytes.read_congr fun i _ => h.image hi _ (by omega) (by omega)
  have hr0 := hread 0 (by omega)
  unfold phdr phdrAt
  rw [Nat.add_zero] at hr0
  rw [hr0, hread 4 (by omega), hread 8 (by omega), hread 16 (by omega), hread 20 (by omega)]

/-- A header whose type has low byte 0 loads nothing. -/
theorem Progress.skip (h : Progress ram m0 j m) (hs : loadByte m (BitVec.ofNat 32 (phdrAddr m0 j)) = some PT_NULL)
    (hj : j < ePhnum m0) : Progress ram m0 (j + 1) m := by
  obtain ⟨h1, h2⟩ := phdrAddr_range hi hj
  have hfits := hi.fits
  have hsmall : phdrAddr m0 j % 2 ^ 32 = phdrAddr m0 j := by omega
  have hbyte : m (phdrAddr m0 j) = PT_NULL := by
    unfold loadByte at hs
    rw [h.tables.translate_eq, Shows.translate (a := phdrAddr m0 j) (.inl (by rw [BitVec.toNat_ofNat, hsmall]))
      (by omega), Option.map_some] at hs
    exact Option.some.inj hs
  have hne : ¬ IsLoad m0 j := by
    rintro ⟨-, htype⟩
    rw [← h.phdr_eq hi j hj] at htype
    have hread : m.read 4 (phdrAddr m0 j) % 256 = 0 := by
      rw [Bytes.read, hbyte]
      show ((0 : UInt8).toNat + _) % 256 = 0
      rw [show (0 : UInt8).toNat = 0 from rfl]
      omega
    rw [show m.read 4 (phdrAddr m0 j) = PT_LOAD from htype] at hread
    cases hread
  refine ⟨h.tables, fun k i a hk hlt hg => h.bytes k i a ?_ hlt hg, fun a hout hno =>
    h.frame a hout fun k i hk hlt => hno k i (by omega) hlt⟩
  rcases Nat.lt_succ_iff_lt_or_eq.mp hk with hlt | rfl
  · exact hlt
  · exact absurd hg.1 hne

include h0

/-- What a header that is not skipped asks for. -/
theorem destination (hj : j < ePhnum m0) : Destination ram (phdr m0 j).vaddr
      (KERNEL_BIN_BASE_ADDR + (phdr m0 j).offset) (phdr m0 j).filesz ∧
    (0 < (phdr m0 j).filesz →
      KERNEL_BIN_BASE_ADDR + (phdr m0 j).offset + (phdr m0 j).filesz ≤ 0x100000) ∧
    ∀ i a, i < (phdr m0 j).filesz → bootTranslate ram ((phdr m0 j).vaddr + BitVec.ofNat 32 i) = some a →
      a < 0x8e4 ∨ 0x8fc ≤ a := by
  by_cases hl : (phdr m0 j).type = PT_LOAD
  · have hload : IsLoad m0 j := ⟨hj, hl⟩
    have hle := hi.filesz j hload
    have hfile := hi.file j hload
    have hfits := hi.fits
    have hg : ∀ i a, i < (phdr m0 j).filesz →
        bootTranslate ram ((phdr m0 j).vaddr + BitVec.ofNat 32 i) = some a → GoesTo m0 j i a :=
      fun i a hlt ha => (goesTo_iff h0 i a).mpr ⟨hload, by omega, ha⟩
    have huse : ∀ i a, i < (phdr m0 j).filesz →
        bootTranslate ram ((phdr m0 j).vaddr + BitVec.ofNat 32 i) = some a → ¬ InUse size a :=
      fun i a hlt ha => hi.apart j i a (hg i a hlt ha)
    unfold InUse LOADER_STACK_TOP LOADER_BASE_ADDR PAGE_DIR_TABLE_POS at huse
    refine ⟨⟨fun i l a hil hll h1 h2 => (hi.disjoint j i j l a (hg i a hil h1) (hg l a hll h2)).2,
      fun i a hlt ha => ?_, fun i a hlt ha => ?_⟩, fun _ => by omega, fun i a hlt ha => ?_⟩
    · have := huse i a hlt ha
      omega
    · have := huse i a hlt ha
      omega
    · have := huse i a hlt ha
      omega
  · have hz := hi.others j hj hl
    rw [hz]
    exact ⟨⟨fun i _ _ h _ _ _ => absurd h (by omega), fun i _ h _ => absurd h (by omega),
      fun i _ h _ => absurd h (by omega)⟩, fun h => absurd h (by omega), fun i _ h _ => absurd h (by omega)⟩

/-- A round that copies segment `j`. -/
theorem Progress.next (h : Progress ram m0 j c.mem) (hj : j < ePhnum m0) {c' : LoaderCpu}
    (hl : Loaded ram (phdr m0 j) c c') : Progress ram m0 (j + 1) c'.mem := by
  obtain ⟨-, hsrc, hstack⟩ := destination hi h0 hj
  refine ⟨hl.tables, fun k i a hk hlt hg => ?_, fun a hout hno => ?_⟩
  · obtain ⟨hload, hmem, ha⟩ := (goesTo_iff h0 i a).mp hg
    have hnotin := hi.apart k i a hg
    unfold InUse LOADER_STACK_TOP LOADER_BASE_ADDR at hnotin
    by_cases hkj : k = j
    · subst hkj
      have hfile := hi.file k hload
      rw [hl.bytes i a hlt ha, h.image hi _ (by omega) (by omega)]
    · rw [hl.frame a (by omega) fun l hll hla => ?_]
      · exact h.bytes k i a (by omega) hlt hg
      · -- no byte of segment `j` goes where one of an earlier segment is
        by_cases htype : (phdr m0 j).type = PT_LOAD
        · have hle := hi.filesz j ⟨hj, htype⟩
          exact hkj (hi.disjoint k i j l a hg ((goesTo_iff h0 l a).mpr ⟨⟨hj, htype⟩, by omega, hla⟩)).1
        · rw [hi.others j hj htype] at hll
          omega
  · rw [hl.frame a hout fun i hlt ha => ?_]
    · exact h.frame a hout fun k i hk hlt => hno k i (by omega) hlt
    · by_cases htype : (phdr m0 j).type = PT_LOAD
      · have hle := hi.filesz j ⟨hj, htype⟩
        exact hno j i (by omega) hlt ((goesTo_iff h0 i a).mpr ⟨⟨hj, htype⟩, by omega, ha⟩)
      · rw [hi.others j hj htype] at hlt
        omega

/-- One round of `.each_segment`; it only faults on a byte that is not mapped. -/
theorem AtSegment.next (h : AtSegment ram m0 j c) :
    (∀ c', eachSegment addEsp c = some c' → Progress ram m0 (j + 1) c'.mem ∧ c'.ecx = c.ecx ∧ c'.edx = c.edx ∧
      c'.esp = c.esp ∧ c'.ebx = c.ebx + c.edx) ∧
    ((∀ i, i < (phdr m0 j).filesz → ∃ a, bootTranslate ram ((phdr m0 j).vaddr + BitVec.ofNat 32 i) = some a) →
      ∃ c', eachSegment addEsp c = some c') := by
  have hfits := hi.fits
  obtain ⟨h1, h2⟩ := phdrAddr_range hi h.count
  have hebx : Shows c.ebx (phdrAddr m0 j) := .inl h.ebx
  have hbyte : loadByte c.mem c.ebx = some (c.mem (phdrAddr m0 j)) := by
    unfold loadByte
    rw [h.mem.tables.translate_eq, hebx.translate (by omega), Option.map_some]
  obtain ⟨hd, hsrc, hstack⟩ := destination hi h0 h.count
  have hcopy := copySegment_loaded addEsp h.mem.tables h.esp h.ebx
    (by unfold KERNEL_BIN_BASE_ADDR at h1; omega) (by omega) (h.mem.phdr_eq hi j h.count) hsrc hd hstack
  unfold eachSegment
  rw [hbyte, Option.bind_eq_bind, Option.bind_some]
  by_cases hnull : c.mem (phdrAddr m0 j) = PT_NULL
  · rw [if_pos hnull, Option.bind_eq_bind, Option.bind_some]
    refine ⟨fun c' hc' => ?_, fun _ => ⟨_, rfl⟩⟩
    obtain rfl := Option.some.inj hc'
    refine ⟨h.mem.skip hi ?_ h.count, rfl, rfl, rfl, rfl⟩
    rw [← h.ebx, BitVec.ofNat_toNat, BitVec.setWidth_eq, hbyte, hnull]
  · rw [if_neg hnull, Option.bind_eq_bind]
    refine ⟨fun c' hc' => ?_, fun hmap => ?_⟩
    · obtain ⟨d, hd', he⟩ := Option.bind_eq_some_iff.mp hc'
      obtain rfl := Option.some.inj he
      have hl := hcopy.1 d hd'
      have hnext := h.mem.next hi h0 h.count hl
      refine ⟨hnext, hl.ecx, hl.edx, hl.esp, ?_⟩
      show d.ebx + d.edx = _
      rw [hl.ebx, hl.edx]
    · obtain ⟨d, hd'⟩ := hcopy.2 hmap
      rw [hd', Option.bind_some]
      exact ⟨_, rfl⟩

/-! ## The loop -/

/-- What holds at every round: the segments so far are loaded, and at the end all of them. -/
def Sound (ram : Mem) (m0 : Bytes) : KernelInit → Prop
  | .eachSegment c => ∃ j, AtSegment ram m0 j c
  | .returned eip c => Progress ram m0 (ePhnum m0) c.mem ∧ eip = BitVec.ofNat 32 (m0.read 4 0x8fc) ∧
    c.esp = stackAddr 0x900
  | .fault => True

/-- `loop`: on to the next header, or back to the caller. -/
theorem AtSegment.loop (h : AtSegment ram m0 j c) {c' : LoaderCpu} (hrun : eachSegment addEsp c = some c') :
    (j + 1 < ePhnum m0 → ∃ d, KernelInit.step addEsp (.eachSegment c) = .eachSegment d ∧
      AtSegment ram m0 (j + 1) d) ∧
    (j + 1 = ePhnum m0 → ∃ d, KernelInit.step addEsp (.eachSegment c) =
      .returned (BitVec.ofNat 32 (m0.read 4 0x8fc)) d ∧ Progress ram m0 (ePhnum m0) d.mem ∧
      d.esp = stackAddr 0x900) := by
  obtain ⟨hmem, hecx, hedx, hesp, hebx⟩ := (h.next hi h0).1 c' hrun
  have hcount := h.count
  have hfits := hi.fits
  have hnum : ePhnum m0 < 2 ^ 16 := Bytes.read_lt m0 2 _
  have hcx : (c'.ecx - 1).toNat = ePhnum m0 - (j + 1) := by
    rw [hecx, BitVec.toNat_sub, h.ecx, show (1 : BitVec 32).toNat = 1 from rfl]
    omega
  have hzero : c'.ecx - 1 ≠ 0 ↔ ePhnum m0 - (j + 1) ≠ 0 := by
    rw [Ne, ← BitVec.toNat_inj, hcx]
    rfl
  unfold KernelInit.step
  simp only [hrun, hzero]
  refine ⟨fun hlt => ?_, fun he => ?_⟩
  · rw [if_pos (by omega)]
    obtain ⟨h1, h2⟩ := phdrAddr_range hi hlt
    refine ⟨_, rfl, hlt, ?_, hcx, ?_, hesp.trans h.esp, hmem⟩
    · show c'.ebx.toNat = _
      rw [phdrAddr_succ] at h2 ⊢
      rw [hebx, BitVec.toNat_add, h.ebx, h.edx]
      omega
    · show c'.edx.toNat = _
      rw [hedx, h.edx]
  · rw [if_neg (by omega)]
    have hret : c'.mem.read 4 0x8fc = m0.read 4 0x8fc := by
      refine Bytes.read_congr fun n hn => hmem.frame _ (.inr (by omega)) fun k i _ _ hg => ?_
      exact hi.apart k i _ hg (.inr (.inl ⟨by omega, by unfold LOADER_STACK_TOP LOADER_BASE_ADDR; omega⟩))
    rw [LoaderCpu.pop_eq (c := { c' with ecx := c'.ecx - 1 }) hmem.tables (hesp.trans h.esp) (by omega)]
    dsimp only
    rw [hret]
    exact ⟨_, rfl, he ▸ hmem, rfl⟩

theorem sound_step (t : KernelInit) (ht : Sound ram m0 t) : Sound ram m0 (t.step addEsp) := by
  cases t with
  | returned eip c => exact ht
  | fault => exact ht
  | eachSegment c =>
    obtain ⟨j, h⟩ := ht
    cases hrun : eachSegment addEsp c with
    | none =>
      unfold KernelInit.step
      simp only [hrun]
      trivial
    | some c' =>
      obtain ⟨hmore, hlast⟩ := h.loop hi h0 hrun
      by_cases hj : j + 1 < ePhnum m0
      · obtain ⟨d, hd, hat⟩ := hmore hj
        rw [hd]
        exact ⟨j + 1, hat⟩
      · have hcount := h.count
        obtain ⟨d, hd, hp, hesp⟩ := hlast (by omega)
        rw [hd]
        exact ⟨hp, rfl, hesp⟩

/-- When every byte of the segments is mapped, the loop comes to its end. -/
theorem AtSegment.returns (hmap : ∀ j i, IsLoad m0 j → i < (phdr m0 j).memsz → ∃ a, GoesTo m0 j i a) :
    ∀ (n j : Nat) (c : LoaderCpu), j + (n + 1) = ePhnum m0 → AtSegment ram m0 j c →
    Reaches (KernelInit.step addEsp) (.eachSegment c) fun t => ∃ eip d, t = .returned eip d ∧ Sound ram m0 t := by
  have hmapped : ∀ j, j < ePhnum m0 → ∀ i, i < (phdr m0 j).filesz →
      ∃ a, bootTranslate ram ((phdr m0 j).vaddr + BitVec.ofNat 32 i) = some a := by
    intro j hj i hlt
    by_cases htype : (phdr m0 j).type = PT_LOAD
    · have hle := hi.filesz j ⟨hj, htype⟩
      obtain ⟨a, ha⟩ := hmap j i ⟨hj, htype⟩ (by omega)
      exact ⟨a, ((goesTo_iff h0 i a).mp ha).2.2⟩
    · rw [hi.others j hj htype] at hlt
      omega
  intro n
  induction n with
  | zero =>
    intro j c hjn h
    obtain ⟨c', hrun⟩ := (h.next hi h0).2 (hmapped j h.count)
    obtain ⟨d, hd, hp, hesp⟩ := (h.loop hi h0 hrun).2 (by omega)
    exact .step hd (.here ⟨_, d, rfl, hp, rfl, hesp⟩)
  | succ n ih =>
    intro j c hjn h
    obtain ⟨c', hrun⟩ := (h.next hi h0).2 (hmapped j h.count)
    obtain ⟨d, hd, hat⟩ := (h.loop hi h0 hrun).1 (by omega)
    exact .step hd (ih (j + 1) d (by omega) hat)

end

theorem LoaderCpu.word_eq {ram : Mem} {c : LoaderCpu} (h : TablesOf ram c.mem) {v : BitVec 32} {a : Nat}
    (hv : Shows v a) (ha : a + 2 ≤ 0x100000) : c.word v = some (BitVec.ofNat 32 (c.mem.read 2 a)) := by
  unfold LoaderCpu.word
  rw [loadBytes_eq h 2 v a hv ha, Option.map_some]

/-- The code before the loop. -/
theorem kernelInit_atSegment {ram : Mem} {c : LoaderCpu} {size : Nat} (hi : ElfImage c.mem size)
    (h0 : TablesOf ram c.mem) (hesp : c.esp = stackAddr 0x8fc) :
    ∃ d, kernelInit c = .eachSegment d ∧ AtSegment ram c.mem 0 d := by
  obtain ⟨c1, hc1⟩ : ∃ c1 : LoaderCpu, c1 = { c with eax := 0, ebx := 0, ecx := 0, edx := 0 } := ⟨_, rfl⟩
  have t1 : TablesOf ram c1.mem := hc1 ▸ h0
  have hmem : c1.mem = c.mem := by rw [hc1]
  have hfield : ∀ n, n < 0x1000 → Shows (BitVec.ofNat 32 KERNEL_BIN_BASE_ADDR + BitVec.ofNat 32 n)
      (KERNEL_BIN_BASE_ADDR + n) := fun n hn =>
    Shows.add (a := KERNEL_BIN_BASE_ADDR) (.inl rfl) n (by unfold KERNEL_BIN_BASE_ADDR; omega)
  have e1 : c1.word (BitVec.ofNat 32 KERNEL_BIN_BASE_ADDR + 42) = _ :=
    LoaderCpu.word_eq t1 (hfield 42 (by decide)) (by decide)
  have e2 : c1.dword (BitVec.ofNat 32 KERNEL_BIN_BASE_ADDR + 28) = _ :=
    LoaderCpu.dword_eq t1 (hfield 28 (by decide)) (by decide)
  have e3 : c1.word (BitVec.ofNat 32 KERNEL_BIN_BASE_ADDR + 44) = _ :=
    LoaderCpu.word_eq t1 (hfield 44 (by decide)) (by decide)
  rw [hmem] at e1 e2 e3
  have hsmall : ∀ n a, n ≤ 4 → (BitVec.ofNat 32 (c.mem.read n a)).toNat = c.mem.read n a := by
    intro n a hn
    have hlt := Bytes.read_lt c.mem n a
    have hpow : 256 ^ n ≤ 2 ^ 32 := by
      rw [show 256 = 2 ^ 8 from rfl, ← Nat.pow_mul]
      exact Nat.pow_le_pow_right (by decide) (by omega)
    rw [BitVec.toNat_ofNat]
    exact Nat.mod_eq_of_lt (by omega)
  have hphnum := hi.phnum
  obtain ⟨hbase, hend⟩ := phdrAddr_range hi (j := 0) (by omega)
  have hfits := hi.fits
  refine ⟨{ c1 with
      edx := BitVec.ofNat 32 (ePhentsize c.mem), ecx := BitVec.ofNat 32 (ePhnum c.mem),
      ebx := BitVec.ofNat 32 (ePhoff c.mem) + BitVec.ofNat 32 KERNEL_BIN_BASE_ADDR }, ?_, ?_⟩
  · unfold kernelInit
    dsimp only
    rw [← hc1, e1, e2, e3, hc1]
    rfl
  · refine ⟨by omega, ?_, ?_, hsmall 2 _ (by omega), ?_, ?_⟩
    · show (BitVec.ofNat 32 (ePhoff c.mem) + BitVec.ofNat 32 KERNEL_BIN_BASE_ADDR).toNat = _
      unfold phdrAddr KERNEL_BIN_BASE_ADDR at *
      rw [← BitVec.ofNat_add, BitVec.toNat_ofNat]
      omega
    · exact (hsmall 2 _ (by omega)).trans (Nat.sub_zero _).symm
    · show c1.esp = _
      rw [hc1]
      exact hesp
    · show Progress ram c.mem 0 c1.mem
      rw [hmem]
      exact ⟨h0, fun k _ _ hk => absurd hk (by omega), fun _ _ _ => rfl⟩

/-! ## The image in memory -/

section
variable {ram : Mem} {addEsp : BitVec 32} {m0 m : Bytes} {size j i a : Nat} {c : LoaderCpu}

/-- A byte past `p_filesz` is the one that memory held. -/
theorem Progress.byte (h : Progress ram m0 (ePhnum m0) m) (hi : ElfImage m0 size) (hg : GoesTo m0 j i a) :
    m a = if i < (phdr m0 j).filesz then m0 (KERNEL_BIN_BASE_ADDR + (phdr m0 j).offset + i) else m0 a := by
  have hout := hi.apart j i a hg
  unfold InUse LOADER_STACK_TOP LOADER_BASE_ADDR at hout
  split
  · next hlt => exact h.bytes j i a hg.1.1 hlt hg
  · next hge =>
    refine h.frame a (by omega) fun k l _ hl hgl => ?_
    obtain ⟨rfl, rfl⟩ := hi.disjoint j i k l a hg hgl
    exact hge hl

theorem Progress.loadByte_eq (h : Progress ram m0 (ePhnum m0) m) (h0 : TablesOf ram m0) (v : BitVec 32) :
    loadByte m v = (translate m0 v).map m := by
  unfold loadByte
  rw [h.tables.translate_eq, h0.translate_eq]

/-- The state in which `kernel_init` returns is a sound one. -/
theorem LoadsSegments.sound (hi : ElfImage c.mem size) (h0 : TablesOf ram c.mem) (hesp : c.esp = stackAddr 0x8fc)
    (hl : LoadsSegments addEsp c) : ∃ m, Progress ram c.mem (ePhnum c.mem) m ∧
      ∀ j i, IsLoad c.mem j → i < (phdr c.mem j).memsz →
        loadByte m ((phdr c.mem j).vaddr + BitVec.ofNat 32 i) =
          some (if i < (phdr c.mem j).filesz then
            c.mem (KERNEL_BIN_BASE_ADDR + (phdr c.mem j).offset + i) else 0) := by
  obtain ⟨d, hd, hat⟩ := kernelInit_atSegment hi h0 hesp
  obtain ⟨n, eip, c', hn, -, -, hbytes⟩ := hl
  have hstart : Sound ram c.mem ((KernelInit.step addEsp)^[0] (kernelInit c)) := by
    rw [Function.iterate_zero, id, hd]
    exact ⟨0, hat⟩
  have hsound := Reaches.stays (sound_step hi h0) hstart (Nat.zero_le n)
  rw [hn] at hsound
  exact ⟨c'.mem, hsound.1, hbytes⟩

/-- An image that is loaded had zeros past `p_filesz`. -/
theorem LoadsSegments.zero (hi : ElfImage c.mem size) (h : AtKernelInit c) (hl : LoadsSegments addEsp c)
    (hload : IsLoad c.mem j) (hlt : i < (phdr c.mem j).memsz) :
    ∃ a, GoesTo c.mem j i a ∧ ((phdr c.mem j).filesz ≤ i → c.mem a = 0) := by
  obtain ⟨ram, h0⟩ := h.tables
  obtain ⟨m, hp, hbytes⟩ := hl.sound hi h0 h.esp
  have hbyte := hbytes j i hload hlt
  rw [hp.loadByte_eq h0] at hbyte
  obtain ⟨a, ha, hma⟩ := Option.map_eq_some_iff.mp hbyte
  have hg : GoesTo c.mem j i a := ⟨hload, hlt, ha⟩
  refine ⟨a, hg, fun hge => ?_⟩
  rw [hp.byte hi hg, if_neg (by omega), if_neg (by omega)] at hma
  exact hma

/-- **`kernel_init`** loads the image exactly when all of it is mapped and the memory past `p_filesz` happens to
be 0 before. -/
theorem loadsSegments_iff (hi : ElfImage c.mem size) (h : AtKernelInit c) :
    LoadsSegments addEsp c ↔ ∀ j i, IsLoad c.mem j → i < (phdr c.mem j).memsz →
      ∃ a, GoesTo c.mem j i a ∧ ((phdr c.mem j).filesz ≤ i → c.mem a = 0) := by
  constructor
  · exact fun hl j i hload hlt => hl.zero hi h hload hlt
  · intro hall
    obtain ⟨ram, h0⟩ := h.tables
    obtain ⟨d, hd, hat⟩ := kernelInit_atSegment hi h0 h.esp
    have hphnum := hi.phnum
    have hmap : ∀ j i, IsLoad c.mem j → i < (phdr c.mem j).memsz → ∃ a, GoesTo c.mem j i a :=
      fun j i hload hlt => (hall j i hload hlt).imp fun a ha => ha.1
    unfold LoadsSegments
    rw [hd]
    refine (hat.returns hi h0 hmap (ePhnum c.mem - 1) 0 d (by omega)).mono ?_
    rintro t ⟨eip, c', rfl, hp, heip, hesp⟩
    refine ⟨eip, c', rfl, ?_, ?_, fun j i hload hlt => ?_⟩
    · rw [heip, h.esp]
      exact LoaderCpu.dword_eq h0 (stackAddr_shows _ (by decide)) (by decide)
    · rw [hesp, h.esp, show (4 : BitVec 32) = BitVec.ofNat 32 4 from rfl, stackAddr_add]
      rfl
    · obtain ⟨a, hg, hz⟩ := hall j i hload hlt
      rw [hp.loadByte_eq h0, hg.2.2, Option.map_some, hp.byte hi hg]
      by_cases hf : i < (phdr c.mem j).filesz
      · rw [if_pos hf, if_pos hf]
      · rw [if_neg hf, if_neg hf, hz (by omega)]

end

/-! ## Memory from words -/

/-- The bytes of a memory of words. -/
def ofWords (w : Mem) : Bytes := fun a => UInt8.ofNat (w (a / 4096) (a % 4096 / 4) / 256 ^ (a % 4))

theorem words_ofWords (w : Mem) (f i : Nat) (hi : i < 1024) (hw : w f i < 2 ^ 32) :
    words (ofWords w) f i = w f i := by
  have hbyte : ∀ k, k < 4 → (ofWords w (f * 4096 + i * 4 + k)).toNat = w f i / 256 ^ k % 256 := by
    intro k hk
    unfold ofWords
    rw [show (f * 4096 + i * 4 + k) / 4096 = f by omega,
      show (f * 4096 + i * 4 + k) % 4096 / 4 = i by omega, show (f * 4096 + i * 4 + k) % 4 = k by omega]
    exact UInt8.toNat_ofNat'
  have h0 := hbyte 0 (by omega)
  have h1 := hbyte 1 (by omega)
  have h2 := hbyte 2 (by omega)
  have h3 := hbyte 3 (by omega)
  unfold words
  simp only [Bytes.read, Nat.add_assoc, Nat.add_zero] at h0 h1 h2 h3 ⊢
  rw [h0, h1, h2, h3]
  omega

/-- `setup_page` leaves its tables in memory. -/
theorem tablesOf_setupPage (ram : Mem) (hr : ∀ f i, ram f i < 2 ^ 32) :
    TablesOf ram (ofWords (setupPage ram)) :=
  fun f i _ _ hi => words_ofWords _ f i hi (setupPage_lt ram hr f i hi)

theorem ofWords_setupPage (ram : Mem) (a : Nat) (ha : a < 0x100000) :
    ofWords (setupPage ram) a = ofWords ram a := by
  unfold ofWords
  rw [setupPage_other ram _ _ (by unfold bootDir; omega) (by omega)]

/-! ## One image -/

/-- An image with one program header: 4 bytes of file and 4 of zeros at `0xc0001500`.  Memory holds the word
`fill` elsewhere. -/
def smallImage (fill : Nat) : Mem := fun f i =>
  if f = 0x70 then
    match i with
    | 7 => 52
    | 10 => 32 * 65536 + 52
    | 11 => 1
    | 13 => 1
    | 14 => 84
    | 15 => 0xc0001500
    | 17 => 4
    | 18 => 8
    | 21 => 0x12345678
    | _ => 0
  else fill

def smallCpu (fill : Nat) : LoaderCpu where
  eax := 0
  ebx := 0
  ecx := 0
  edx := 0
  esi := 0
  edi := 0
  ebp := 0
  esp := stackAddr 0x8fc
  mem := ofWords (setupPage (smallImage fill))

section
variable (fill : Nat) (hf : fill < 2 ^ 32)

theorem smallImage_read (n a : Nat) (h : a + n ≤ 0x100000) :
    (smallCpu fill).mem.read n a = (ofWords (smallImage fill)).read n a :=
  Bytes.read_congr fun i hi => ofWords_setupPage _ _ (by omega)

theorem smallImage_header : ePhoff (smallCpu fill).mem = 52 ∧ ePhentsize (smallCpu fill).mem = 32 ∧
    ePhnum (smallCpu fill).mem = 1 := by
  unfold ePhoff ePhentsize ePhnum
  rw [smallImage_read fill _ _ (by decide), smallImage_read fill _ _ (by decide),
    smallImage_read fill _ _ (by decide)]
  simp [Bytes.read, ofWords, smallImage, KERNEL_BIN_BASE_ADDR]

theorem smallImage_phdr : phdr (smallCpu fill).mem 0 =
    { type := 1, offset := 84, vaddr := 0xc0001500, filesz := 4, memsz := 8 } := by
  unfold phdr phdrAt phdrAddr
  rw [(smallImage_header fill).1, Nat.zero_mul, smallImage_read fill _ _ (by decide),
    smallImage_read fill _ _ (by decide), smallImage_read fill _ _ (by decide),
    smallImage_read fill _ _ (by decide), smallImage_read fill _ _ (by decide)]
  simp [Bytes.read, ofWords, smallImage, KERNEL_BIN_BASE_ADDR]

include hf

theorem smallImage_lt (f i : Nat) : smallImage fill f i < 2 ^ 32 := by
  unfold smallImage
  split
  · split <;> decide
  · exact hf

theorem smallCpu_tables : TablesOf (smallImage fill) (smallCpu fill).mem :=
  tablesOf_setupPage _ (smallImage_lt fill hf)

theorem smallCpu_start : AtKernelInit (smallCpu fill) := ⟨rfl, _, smallCpu_tables fill hf⟩

theorem smallImage_goesTo (j i a : Nat) :
    GoesTo (smallCpu fill).mem j i a ↔ j = 0 ∧ i < 8 ∧ a = 0x1500 + i := by
  have hshow : i < 8 → bootTranslate (smallImage fill) (0xc0001500 + BitVec.ofNat 32 i) = some (0x1500 + i) :=
    fun hi => Shows.translate (Shows.add (a := 0x1500) (.inr rfl) i (by omega)) (by omega)
  rw [goesTo_iff (smallCpu_tables fill hf)]
  unfold IsLoad
  rw [(smallImage_header fill).2.2]
  constructor
  · rintro ⟨⟨hj, -⟩, hi, ha⟩
    obtain rfl : j = 0 := by omega
    rw [smallImage_phdr] at hi ha
    rw [hshow hi] at ha
    exact ⟨rfl, hi, (Option.some.inj ha).symm⟩
  · rintro ⟨rfl, hi, rfl⟩
    rw [smallImage_phdr]
    exact ⟨⟨by decide, rfl⟩, hi, hshow hi⟩

theorem smallImage_elf : ElfImage (smallCpu fill).mem 88 := by
  obtain ⟨hphoff, hsize, hnum⟩ := smallImage_header fill
  have hphdr := smallImage_phdr fill
  have hgoes := smallImage_goesTo fill hf
  have hzero : ∀ j, j < ePhnum (smallCpu fill).mem → j = 0 := fun j hj => by omega
  refine ⟨by decide, by decide, by omega, fun j hj => ?_, fun j hj => ?_, fun j hj => ?_, fun j hj ht => ?_,
    fun j i k l a h1 h2 => ?_, fun j i a h1 hu => ?_⟩
  · rw [hzero j hj, hphoff]
    omega
  · rw [hzero j hj.1, hphdr]
    decide
  · rw [hzero j hj.1, hphdr]
    decide
  · rw [hzero j hj, hphdr] at ht
    exact absurd rfl ht
  · have g1 := (hgoes j i a).mp h1
    have g2 := (hgoes k l a).mp h2
    omega
  · have g1 := (hgoes j i a).mp h1
    unfold InUse KERNEL_BIN_BASE_ADDR LOADER_STACK_TOP LOADER_BASE_ADDR PAGE_DIR_TABLE_POS at hu
    omega

end

theorem smallImage_byte (fill a : Nat) (h1 : 0x1500 ≤ a) (h2 : a < 0x1508) :
    (smallCpu fill).mem a = UInt8.ofNat (fill / 256 ^ (a % 4)) := by
  show ofWords (setupPage (smallImage fill)) a = _
  rw [ofWords_setupPage _ _ (by omega)]
  unfold ofWords smallImage
  rw [if_neg (by omega)]

/-- Memory that holds zeros. -/
theorem loadsSegments_zeroed : LoadsSegments 0xd80 (smallCpu 0) := by
  refine (loadsSegments_iff (smallImage_elf 0 (by decide)) (smallCpu_start 0 (by decide))).mpr ?_
  intro j i hload hi
  obtain rfl : j = 0 := by
    have hj := hload.1
    rw [(smallImage_header 0).2.2] at hj
    omega
  rw [smallImage_phdr] at hi ⊢
  have hg := (smallImage_goesTo 0 (by decide) 0 i (0x1500 + i)).mpr ⟨rfl, hi, rfl⟩
  refine ⟨0x1500 + i, hg, fun _ => ?_⟩
  have hi8 : i < 8 := hi
  rw [smallImage_byte 0 _ (by omega) (by omega), Nat.zero_div]
  rfl

/-- Memory that holds ones: `0xc0001504` is to be 0, and is not. -/
theorem loadsSegments_stale : ¬ LoadsSegments 0xd80 (smallCpu 1) := by
  intro hl
  have hload : IsLoad (smallCpu 1).mem 0 := by
    unfold IsLoad
    rw [(smallImage_header 1).2.2, smallImage_phdr]
    exact ⟨by decide, rfl⟩
  obtain ⟨a, hg, hz⟩ := hl.zero (smallImage_elf 1 (by decide)) (smallCpu_start 1 (by decide)) hload (i := 4)
    (by rw [smallImage_phdr]; decide)
  obtain ⟨-, -, rfl⟩ := (smallImage_goesTo 1 (by decide) 0 4 a).mp hg
  have hfilesz : (phdr (smallCpu 1).mem 0).filesz = 4 := congrArg Phdr.filesz (smallImage_phdr 1)
  have hzero := hz (Nat.le_of_eq hfilesz)
  rw [smallImage_byte 1 _ (by omega) (by omega)] at hzero
  exact absurd hzero (by decide)

end MyOs
