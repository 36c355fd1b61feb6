import MyOs.Kernel.AddressSpace

/-!
# boot/loader.S: setup_page

`setupPage` is the four loops of `setup_page` on a memory of arbitrary content: clear the page
directory at `PAGE_DIR_TABLE_POS`, point its entries 0 and 768 at the first table and entry 1023 at
itself, map the low megabyte in the first table, and point entries 769..1022 at the 254 tables after
it.  Those tables, and slots 256..1023 of the first one, are not written.

    setupPage_kernel, setupPage_self, setupPage_low, setupPage_user, setupPage_table,
    setupPage_other      the words of memory afterwards
    setupPage_maps_iff   when the mapping is the intended one
-/

namespace MyOs

open Paging

def PAGE_DIR_TABLE_POS : Nat := 0x100000

/-- `PG_US_U | PG_RW_W | PG_P`. -/
def PG_ATTR : Nat := 7

/-! ## Algorithm -/

/-- `.clear_page_dir`, its 4096 byte stores taken four at a time. -/
def clearPageDir : Nat → Nat → Mem → Mem
  | 0, _, m => m
  | ecx + 1, esi, m => clearPageDir ecx (esi + 1) (m.set (PAGE_DIR_TABLE_POS / 4096) esi 0)

/-- `.create_pte`; `ebx` is the address of the first table. -/
def createPte (ebx : Nat) : Nat → Nat → Nat → Mem → Mem
  | 0, _, _, m => m
  | ecx + 1, esi, edx, m => createPte ebx ecx (esi + 1) (edx + 4096) (m.set (ebx / 4096) esi edx)

/-- `.create_kernal_page`; `ebx` is the address of the directory. -/
def createKernalPage (ebx : Nat) : Nat → Nat → Nat → Mem → Mem
  | 0, _, _, m => m
  | ecx + 1, esi, eax, m =>
    createKernalPage ebx ecx (esi + 1) (eax + 0x1000) (m.set (ebx / 4096) esi eax)

def setupPage (m : Mem) : Mem :=
  let m := clearPageDir 1024 0 m
  let ebx := PAGE_DIR_TABLE_POS + 0x1000
  let eax := ebx ||| PG_ATTR
  let m := m.set (PAGE_DIR_TABLE_POS / 4096) 0 eax
  let m := m.set (PAGE_DIR_TABLE_POS / 4096) (0xc00 / 4) eax
  let m := m.set (PAGE_DIR_TABLE_POS / 4096) (4092 / 4) (eax - 0x1000)
  let m := createPte ebx 256 0 PG_ATTR m
  let eax := PAGE_DIR_TABLE_POS + 0x2000 ||| PG_ATTR
  createKernalPage PAGE_DIR_TABLE_POS 254 769 eax m

/-! ## The loops -/

theorem clearPageDir_eq : ∀ (n i : Nat) (m : Mem),
    clearPageDir n i m = m.setRange bootDir i n fun _ => 0 := by
  intro n
  induction n with
  | zero => intro i m; rw [clearPageDir, Mem.setRange_zero]
  | succ n ih =>
    intro i m
    rw [clearPageDir, ih, show PAGE_DIR_TABLE_POS / 4096 = bootDir from rfl]
    exact Mem.setRange_set m bootDir i n fun _ => 0

theorem createPte_eq (ebx : Nat) : ∀ (n i w : Nat) (m : Mem),
    createPte ebx n i (i * 4096 + w) m = m.setRange (ebx / 4096) i n fun j => j * 4096 + w := by
  intro n
  induction n with
  | zero => intro i w m; rw [createPte, Mem.setRange_zero]
  | succ n ih =>
    intro i w m
    rw [createPte, show i * 4096 + w + 4096 = (i + 1) * 4096 + w by omega, ih]
    exact Mem.setRange_set m (ebx / 4096) i n fun j => j * 4096 + w

theorem createKernalPage_eq (ebx : Nat) : ∀ (n i : Nat) (m : Mem), 511 ≤ i →
    createKernalPage ebx n i ((i - 511) * 4096 + 7) m =
      m.setRange (ebx / 4096) i n fun j => (j - 511) * 4096 + 7 := by
  intro n
  induction n with
  | zero => intro i m _; rw [createKernalPage, Mem.setRange_zero]
  | succ n ih =>
    intro i m hi
    rw [createKernalPage, show (i - 511) * 4096 + 7 + 0x1000 = (i + 1 - 511) * 4096 + 7 by omega,
      ih (i + 1) _ (by omega)]
    exact Mem.setRange_set m (ebx / 4096) i n fun j => (j - 511) * 4096 + 7

theorem setupPage_eq (m : Mem) : setupPage m =
    (((((m.setRange bootDir 0 1024 fun _ => 0).set bootDir 0 (257 * 4096 + 7)).set bootDir 768
      (257 * 4096 + 7)).set bootDir 1023 (256 * 4096 + 7)).setRange 257 0 256
      fun j => j * 4096 + 7).setRange bootDir 769 254 fun j => (j - 511) * 4096 + 7 := by
  have h1 := createPte_eq (PAGE_DIR_TABLE_POS + 0x1000) 256 0 7
  have h2 := createKernalPage_eq PAGE_DIR_TABLE_POS 254 769
  unfold setupPage
  simp only [clearPageDir_eq]
  rw [show PG_ATTR = 0 * 4096 + 7 from rfl, h1,
    show PAGE_DIR_TABLE_POS + 0x2000 ||| 0 * 4096 + 7 = (769 - 511) * 4096 + 7 from rfl,
    h2 _ (by decide)]
  rfl

/-! ## The memory afterwards -/

section
variable (m : Mem)

theorem setupPage_kernel (i : Nat) (h1 : 768 ≤ i) (h2 : i < 1023) :
    setupPage m bootDir i = (i - 511) * 4096 + 7 := by
  rw [setupPage_eq]
  by_cases hi : i = 768
  · subst hi
    rw [Mem.setRange_slot_out _ _ _ _ _ _ _ (by omega), Mem.setRange_frame_ne _ _ _ _ _ _ (by decide),
      Mem.set_slot_ne _ _ _ _ _ _ (by decide), Mem.set_same]
  · rw [Mem.setRange_same _ _ _ _ _ _ (by omega) (by omega)]

theorem setupPage_self : setupPage m bootDir 1023 = bootDir * 4096 + 7 := by
  rw [setupPage_eq, Mem.setRange_slot_out _ _ _ _ _ _ _ (by omega),
    Mem.setRange_frame_ne _ _ _ _ _ _ (by decide), Mem.set_same]
  rfl

theorem setupPage_low : setupPage m bootDir 0 = 257 * 4096 + 7 := by
  rw [setupPage_eq, Mem.setRange_slot_out _ _ _ _ _ _ _ (by omega),
    Mem.setRange_frame_ne _ _ _ _ _ _ (by decide), Mem.set_slot_ne _ _ _ _ _ _ (by decide),
    Mem.set_slot_ne _ _ _ _ _ _ (by decide), Mem.set_same]

theorem setupPage_user (i : Nat) (h1 : 0 < i) (h2 : i < 768) : setupPage m bootDir i = 0 := by
  rw [setupPage_eq, Mem.setRange_slot_out _ _ _ _ _ _ _ (by omega),
    Mem.setRange_frame_ne _ _ _ _ _ _ (by decide), Mem.set_slot_ne _ _ _ _ _ _ (by omega),
    Mem.set_slot_ne _ _ _ _ _ _ (by omega), Mem.set_slot_ne _ _ _ _ _ _ (by omega),
    Mem.setRange_same _ _ _ _ _ _ (by omega) (by omega)]

theorem setupPage_table (j : Nat) (hj : j < 256) : setupPage m 257 j = j * 4096 + 7 := by
  rw [setupPage_eq, Mem.setRange_frame_ne _ _ _ _ _ _ (by decide),
    Mem.setRange_same _ _ _ _ _ _ (by omega) (by omega)]

/-- The loops leave every other word as it was. -/
theorem setupPage_other (f j : Nat) (hf : f ≠ bootDir) (hj : f = 257 → 256 ≤ j) :
    setupPage m f j = m f j := by
  rw [setupPage_eq, Mem.setRange_frame_ne _ _ _ _ _ _ hf]
  by_cases h : f = 257
  · rw [Mem.setRange_slot_out _ _ _ _ _ _ _ (Or.inr (hj h)), Mem.set_frame_ne _ _ _ _ _ hf,
      Mem.set_frame_ne _ _ _ _ _ hf, Mem.set_frame_ne _ _ _ _ _ hf, Mem.setRange_frame_ne _ _ _ _ _ _ hf]
  · rw [Mem.setRange_frame_ne _ _ _ _ _ _ h, Mem.set_frame_ne _ _ _ _ _ hf,
      Mem.set_frame_ne _ _ _ _ _ hf, Mem.set_frame_ne _ _ _ _ _ hf, Mem.setRange_frame_ne _ _ _ _ _ _ hf]

theorem setupPage_lt (ram : Mem) (hr : ∀ f i, ram f i < 2 ^ 32) (f i : Nat) (hi : i < 1024) :
    setupPage ram f i < 2 ^ 32 := by
  have hword := hr f i
  by_cases hf : f = bootDir
  · subst hf
    rcases Nat.eq_zero_or_pos i with rfl | h0
    · rw [setupPage_low]
      decide
    · by_cases huser : i < 768
      · rw [setupPage_user ram i h0 huser]
        decide
      · by_cases hself : i = 1023
        · rw [hself, setupPage_self]
          decide
        · rw [setupPage_kernel ram i (by omega) (by omega)]
          omega
  · by_cases ht : f = 257 ∧ i < 256
    · rw [ht.1, setupPage_table ram i ht.2]
      omega
    · rw [setupPage_other ram f i hf (by omega)]
      exact hword

end

/-! ## The mapping -/

/-- The mapping `setup_page` is written to build: the first megabyte at 0 and at 3 GB, and nothing else below
the window; the last entry is the directory itself, and the entries of the rest of the kernel half name one
table each. -/
structure BootMapping (m : Mem) : Prop where
  low : ∀ a, a < 0x100000 → walk m bootDir a = some a
  high : ∀ a, a < 0x100000 → walk m bootDir (0xc0000000 + a) = some a
  other : ∀ v, 0x100000 ≤ v → v < 0xc0000000 ∨ 0xc0100000 ≤ v → v < 0xffc00000 → walk m bootDir v = none
  self : SelfMapped m bootDir
  tables : ∀ i, 769 ≤ i → i ≤ 1022 → m bootDir i % 2 = 1 ∧
    0x102000 ≤ m bootDir i / 4096 * 4096 ∧ m bootDir i / 4096 * 4096 + 4096 ≤ 0x200000
  distinct : ∀ i j, 769 ≤ i → i ≤ 1022 → 769 ≤ j → j ≤ 1022 →
    m bootDir i / 4096 = m bootDir j / 4096 → i = j

/-- No word of the page tables that `setup_page` names but does not write has its present bit set. -/
structure TablesClear (ram : Mem) : Prop where
  first : ∀ j, 256 ≤ j → j < 1024 → ram 257 j % 2 = 0
  others : ∀ f j, 258 ≤ f → f < 512 → j < 1024 → ram f j % 2 = 0

section
variable (ram : Mem)

/-- Entries 0 and 768 name the first table. -/
theorem setupPage_first (i : Nat) (hi : i = 0 ∨ i = 768) : setupPage ram bootDir i = 257 * 4096 + 7 := by
  rcases hi with rfl | rfl
  · exact setupPage_low ram
  · exact setupPage_kernel ram 768 (by decide) (by decide)

theorem walkPage_first (p : Nat) (hp : p / 1024 = 0 ∨ p / 1024 = 768) :
    walkPage (setupPage ram) bootDir p = if p % 1024 < 256 then some (p % 1024)
      else if ram 257 (p % 1024) % 2 = 1 then some (ram 257 (p % 1024) / 4096) else none := by
  have hd := setupPage_first ram (p / 1024) hp
  have ht : table (setupPage ram) bootDir p = 257 := by
    unfold table
    rw [hd]
  unfold walkPage
  rw [hd, if_pos rfl, ht]
  by_cases hlow : p % 1024 < 256
  · rw [setupPage_table ram _ hlow, if_pos (by omega), if_pos hlow,
      show (p % 1024 * 4096 + 7) / 4096 = p % 1024 by omega]
  · rw [setupPage_other ram 257 _ (by decide) (fun _ => by omega), if_neg hlow]

theorem walkPage_rest (p : Nat) (h1 : 769 ≤ p / 1024) (h2 : p / 1024 ≤ 1022) :
    walkPage (setupPage ram) bootDir p =
      if ram (p / 1024 - 511) (p % 1024) % 2 = 1 then some (ram (p / 1024 - 511) (p % 1024) / 4096)
      else none := by
  have hd := setupPage_kernel ram (p / 1024) (by omega) (by omega)
  have ht : table (setupPage ram) bootDir p = p / 1024 - 511 := by
    unfold table
    rw [hd]
    omega
  unfold walkPage
  rw [hd, if_pos (by omega), ht, setupPage_other ram _ _ (by unfold bootDir; omega) (by omega)]

theorem walkPage_user (p : Nat) (h1 : 0 < p / 1024) (h2 : p / 1024 < 768) :
    walkPage (setupPage ram) bootDir p = none := by
  unfold walkPage
  rw [setupPage_user ram _ h1 h2, if_neg (by decide)]

/-- What holds of the mapping whatever memory held before. -/
theorem setupPage_megabyte (v a : Nat) (ha : a < 0x100000) (hv : v = a ∨ v = 0xc0000000 + a) :
    walk (setupPage ram) bootDir v = some a := by
  have hpage := walkPage_first ram (v / 4096) (by omega)
  rw [if_pos (by omega)] at hpage
  rw [walk_of_walkPage hpage]
  congr 1
  omega

/-- **The boot mapping.**  It is the intended one exactly when the memory of the tables that the loops leave
alone happens to hold no present entry. -/
theorem setupPage_maps_iff : BootMapping (setupPage ram) ↔ TablesClear ram := by
  constructor
  · intro h
    -- a present word would map the page it stands for
    refine ⟨fun j h1 h2 => ?_, fun f j h1 h2 h3 => ?_⟩
    · have hnone := h.other (j * 4096) (by omega) (by omega) (by omega)
      rw [walk_eq_none_iff, walkPage_first ram _ (by omega), if_neg (by omega),
        show j * 4096 / 4096 % 1024 = j by omega] at hnone
      split at hnone
      · cases hnone
      · omega
    · have hnone := h.other (((f + 511) * 1024 + j) * 4096) (by omega) (by omega) (by omega)
      rw [walk_eq_none_iff, walkPage_rest ram _ (by omega) (by omega),
        show ((f + 511) * 1024 + j) * 4096 / 4096 / 1024 - 511 = f by omega,
        show ((f + 511) * 1024 + j) * 4096 / 4096 % 1024 = j by omega] at hnone
      split at hnone
      · cases hnone
      · omega
  · intro h
    have hk := setupPage_kernel ram
    refine ⟨?_, ?_, ?_, ?_, ?_, ?_⟩
    · exact fun a ha => setupPage_megabyte ram a a ha (.inl rfl)
    · exact fun a ha => setupPage_megabyte ram _ a ha (.inr rfl)
    · intro v h1 h2 h3
      rw [walk_eq_none_iff]
      by_cases hfirst : v / 4096 / 1024 = 0 ∨ v / 4096 / 1024 = 768
      · have hclear := h.first (v / 4096 % 1024) (by omega) (by omega)
        rw [walkPage_first ram _ hfirst, if_neg (by omega), if_neg (by omega)]
      · by_cases huser : v / 4096 / 1024 < 768
        · exact walkPage_user ram _ (by omega) huser
        · have hclear := h.others (v / 4096 / 1024 - 511) (v / 4096 % 1024) (by omega) (by omega) (by omega)
          rw [walkPage_rest ram _ (by omega) (by omega), if_neg (by omega)]
    · unfold SelfMapped
      rw [setupPage_self]
      decide
    · intro i h1 h2
      rw [hk i (by omega) (by omega)]
      omega
    · intro i j h1 h2 h3 h4
      rw [hk i (by omega) (by omega), hk j (by omega) (by omega)]
      omega

end

/-- Memory full of ones: the page at 1 MB is mapped. -/
theorem setupPage_mapsMore : ¬ BootMapping (setupPage fun _ _ => 1) := by
  intro h
  have hnone := h.other 0x100000 (by decide) (by decide) (by decide)
  rw [walk_eq_none_iff, walkPage_first _ _ (by decide), if_neg (by decide), if_pos rfl] at hnone
  cases hnone

end MyOs
