import MyOs.Theory.Paging

/-!
# Address spaces: who uses which frame

The kernel's page tables seen as a whole.  The boot directory is frame 256 (`0x100000`); its
entries 768..1022 name the 255 kernel tables in frames 257..511, which every process directory
shares.  A frame of one of the pools is in use for one of three reasons (`Use`): a page of the kernel
heap, a page table of a process, or a page of a process.

`Spaces Z mem pg U K W` is the invariant: `pg` are the heap pages that hold page directories, the first
`U` heap pages are handed out, `K` and `W` are the frames that the kernel pool and the user pool have
handed out.  `Z` says that memory was zero at boot; without it the entries of the kernel tables that no
heap page has reached yet are arbitrary.  The invariant says that the directories agree on the kernel
half and map themselves, that every frame is in use at most once (`unique`), and that a frame in use was
handed out by the pool it belongs to (`owned`).

    Spaces.addHeap       map one more heap page on a fresh frame
    Spaces.addTable      install a fresh zeroed frame as a page table of a process
    Spaces.addPage       map a process page on a fresh frame
    Spaces.writeFrames   write frames that are neither directories nor tables
    Spaces.addDir        make a heap page a page directory
-/

namespace MyOs

open Paging

/-- Why a frame is in use: heap page `p`, table `i` of directory `d`, page `p` of directory `d`. -/
inductive Use where
  | kpage (p : Nat)
  | utable (d i : Nat)
  | upage (d p : Nat)
  deriving DecidableEq, Repr

/-- The frame of the boot page directory, `PAGE_DIR_TABLE_POS / 4096`. -/
def bootDir : Nat := 256

/-- Frame `d` is the page directory of a process: some page of `pg` is mapped on it. -/
def IsDir (mem : Mem) (pg : Nat → Prop) (d : Nat) : Prop :=
  ∃ p, pg p ∧ walkPage mem bootDir p = some d

/-- Use `u` is made of frame `f`, counting the first `U` heap pages. -/
def Uses (mem : Mem) (pg : Nat → Prop) (U : Nat) : Use → Nat → Prop
  | .kpage p, f => 0xc0100 ≤ p ∧ p < 0xc0100 + U ∧ walkPage mem bootDir p = some f
  | .utable d i, f => IsDir mem pg d ∧ i < 768 ∧ mem d i % 2 = 1 ∧ mem d i / 4096 = f
  | .upage d p, f => IsDir mem pg d ∧ p < 0xc0000 ∧ walkPage mem d p = some f

/-- Everything in use stays in use, on the same frame. -/
def Grows (mem : Mem) (pg : Nat → Prop) (U : Nat) (mem' : Mem) (pg' : Nat → Prop) (U' : Nat) : Prop :=
  ∀ u f, Uses mem pg U u f → Uses mem' pg' U' u f

/-- The pool that frames for a use come from: process pages from the user pool, all else from the
kernel pool. -/
def Use.from (K W : Nat → Prop) : Use → Nat → Prop
  | .upage _ _, f => W f
  | _, f => K f

structure Spaces (Z : Prop) (mem : Mem) (pg : Nat → Prop) (U : Nat) (K W : Nat → Prop) : Prop where
  bootKernel : ∀ i, 768 ≤ i → i < 1023 → mem bootDir i = (i - 511) * 4096 + 7
  bootSelf : mem bootDir 1023 = bootDir * 4096 + 7
  bootLow : mem bootDir 0 = 257 * 4096 + 7
  lowTable : ∀ j, j < 256 → mem 257 j = j * 4096 + 7
  heap : ∀ p, 0xc0100 ≤ p → p < 0xc0100 + U → ∃ f, mem (p / 1024 - 511) (p % 1024) = f * 4096 + 7
  heapBound : 0xc0100 + U ≤ 0xffc00
  clean : Z → ∀ p, 0xc0100 + U ≤ p → p < 0xffc00 → mem (p / 1024 - 511) (p % 1024) % 2 = 0
  pgHeap : ∀ p, pg p → 0xc0100 ≤ p ∧ p < 0xc0100 + U
  dirKernel : ∀ d, IsDir mem pg d → ∀ i, 768 ≤ i → i < 1023 → mem d i = mem bootDir i
  dirSelf : ∀ d, IsDir mem pg d → mem d 1023 = d * 4096 + 7
  dirLow : ∀ d, IsDir mem pg d → ∀ i, i < 32 → mem d i = 0
  unique : ∀ u u' f, Uses mem pg U u f → Uses mem pg U u' f → u = u'
  owned : ∀ u f, Uses mem pg U u f → u.from K W f
  kernelFrame : ∀ f, K f → 512 ≤ f ∧ f < 2 ^ 20
  userFrame : ∀ f, W f → 512 ≤ f ∧ f < 2 ^ 20
  disjoint : ∀ f, K f → ¬ W f

namespace Spaces

variable {Z : Prop} {mem : Mem} {pg : Nat → Prop} {U : Nat} {K W : Nat → Prop}

/-! ## What the invariant gives -/

theorem frame_bounds (h : Spaces Z mem pg U K W) (u : Use) (f : Nat) (hu : Uses mem pg U u f) :
    512 ≤ f ∧ f < 2 ^ 20 := by
  have ho := h.owned u f hu
  cases u with
  | kpage p => exact h.kernelFrame f ho
  | utable d i => exact h.kernelFrame f ho
  | upage d p => exact h.userFrame f ho

theorem table_boot (h : Spaces Z mem pg U K W) (p : Nat) (h1 : 0xc0000 ≤ p) (h2 : p < 0xffc00) :
    table mem bootDir p = p / 1024 - 511 := by
  unfold table
  rw [h.bootKernel (p / 1024) (by omega) (by omega)]
  omega

/-- The walk of a kernel page under the boot directory reads the shared table. -/
theorem walkPage_boot (h : Spaces Z mem pg U K W) (p : Nat) (h1 : 0xc0000 ≤ p) (h2 : p < 0xffc00) :
    walkPage mem bootDir p = if mem (p / 1024 - 511) (p % 1024) % 2 = 1 then
      some (mem (p / 1024 - 511) (p % 1024) / 4096) else none := by
  unfold walkPage
  rw [h.table_boot p h1 h2, if_pos]
  rw [h.bootKernel (p / 1024) (by omega) (by omega)]
  omega

/-- A directory is a page of the kernel heap. -/
theorem dir_uses (h : Spaces Z mem pg U K W) (d : Nat) (hd : IsDir mem pg d) :
    ∃ p, pg p ∧ Uses mem pg U (.kpage p) d := by
  obtain ⟨p, hp, hw⟩ := hd
  obtain ⟨h1, h2⟩ := h.pgHeap p hp
  exact ⟨p, hp, h1, h2, hw⟩

theorem dir_bounds (h : Spaces Z mem pg U K W) (d : Nat) (hd : IsDir mem pg d) : 512 ≤ d ∧ d < 2 ^ 20 := by
  obtain ⟨p, -, hu⟩ := h.dir_uses d hd
  exact h.frame_bounds _ _ hu

/-- The table that a present directory entry names is in use as that table. -/
theorem uses_table {d p : Nat} (hd : IsDir mem pg d) (hp : p < 0xc0000)
    (hpres : mem d (p / 1024) % 2 = 1) : Uses mem pg U (.utable d (p / 1024)) (table mem d p) :=
  ⟨hd, by omega, hpres, rfl⟩

theorem selfMapped_boot (h : Spaces Z mem pg U K W) : SelfMapped mem bootDir := by
  unfold SelfMapped
  rw [h.bootSelf]
  omega

theorem selfMapped_dir (h : Spaces Z mem pg U K W) (d : Nat) (hd : IsDir mem pg d) : SelfMapped mem d := by
  unfold SelfMapped
  rw [h.dirSelf d hd]
  omega

/-- **Directories agree on the kernel half.** -/
theorem walkPage_dir (h : Spaces Z mem pg U K W) (d p : Nat) (hd : IsDir mem pg d) (h1 : 0xc0000 ≤ p)
    (h2 : p < 0xffc00) : walkPage mem d p = walkPage mem bootDir p :=
  walkPage_congr mem mem bootDir d p (h.dirKernel d hd (p / 1024) (by omega) (by omega)) (fun _ => rfl)

theorem heap_walk (h : Spaces Z mem pg U K W) (p : Nat) (h1 : 0xc0100 ≤ p) (h2 : p < 0xc0100 + U) :
    ∃ f, mem (p / 1024 - 511) (p % 1024) = f * 4096 + 7 ∧ Uses mem pg U (.kpage p) f := by
  obtain ⟨f, hf⟩ := h.heap p h1 h2
  have hb := h.heapBound
  refine ⟨f, hf, h1, h2, ?_⟩
  rw [h.walkPage_boot p (by omega) (by omega), hf, if_pos (by omega)]
  congr 1
  omega

/-- The pools may hand out more frames. -/
theorem mono {K' W' : Nat → Prop} (h : Spaces Z mem pg U K W) (hK : ∀ f, K f → K' f)
    (hW : ∀ f, W f → W' f) (hK' : ∀ f, K' f → 512 ≤ f ∧ f < 2 ^ 20)
    (hW' : ∀ f, W' f → 512 ≤ f ∧ f < 2 ^ 20) (hd : ∀ f, K' f → ¬ W' f) : Spaces Z mem pg U K' W' :=
  { h with
    owned := by
      intro u f hu
      have ho := h.owned u f hu
      cases u with
      | kpage p => exact hK f ho
      | utable d i => exact hK f ho
      | upage d p => exact hW f ho
    kernelFrame := hK'
    userFrame := hW'
    disjoint := hd }

/-! ## Updates -/

theorem grows_of_walks {mem' : Mem} {U' : Nat} (hU : U ≤ U')
    (hdir : ∀ d, IsDir mem pg d → IsDir mem' pg d)
    (hk : ∀ p, 0xc0100 ≤ p → p < 0xc0100 + U → walkPage mem' bootDir p = walkPage mem bootDir p)
    (ht : ∀ d i, IsDir mem pg d → i < 768 → mem d i % 2 = 1 → mem' d i = mem d i)
    (hu : ∀ d p f, IsDir mem pg d → p < 0xc0000 → walkPage mem d p = some f → walkPage mem' d p = some f) :
    Grows mem pg U mem' pg U' := by
  intro u f h
  cases u with
  | kpage p =>
    obtain ⟨h1, h2, h3⟩ := h
    exact ⟨h1, by omega, by rw [hk p h1 h2]; exact h3⟩
  | utable d i =>
    obtain ⟨h1, h2, h3, h4⟩ := h
    have he := ht d i h1 h2 h3
    exact ⟨hdir d h1, h2, by rw [he]; exact h3, by rw [he]; exact h4⟩
  | upage d p =>
    obtain ⟨h1, h2, h3⟩ := h
    exact ⟨hdir d h1, h2, hu d p f h1 h2 h3⟩

/-- The `unique` and `owned` parts after one more use of a fresh frame. -/
theorem addUse {mem' : Mem} {pg' : Nat → Prop} {U' : Nat} (h : Spaces Z mem pg U K W) (u0 : Use) (f0 : Nat)
    (hfresh : ∀ u, ¬ Uses mem pg U u f0) (hown : u0.from K W f0)
    (huse : ∀ u f, Uses mem' pg' U' u f → Uses mem pg U u f ∨ (u = u0 ∧ f = f0)) :
    (∀ u u' f, Uses mem' pg' U' u f → Uses mem' pg' U' u' f → u = u') ∧
    (∀ u f, Uses mem' pg' U' u f → u.from K W f) := by
  constructor
  · intro u u' f hu hu'
    rcases huse u f hu with h1 | ⟨rfl, rfl⟩
    · rcases huse u' f hu' with h2 | ⟨-, rfl⟩
      · exact h.unique u u' f h1 h2
      · exact absurd h1 (hfresh u)
    · rcases huse u' f hu' with h2 | ⟨rfl, -⟩
      · exact absurd h2 (hfresh u')
      · rfl
  · intro u f hu
    rcases huse u f hu with h1 | ⟨rfl, rfl⟩
    · exact h.owned u f h1
    · exact hown

/-- Two memories that agree on frames 256..511 have the same process directories. -/
theorem isDir_congr {mem' : Mem} (h : Spaces Z mem pg U K W)
    (hlow : ∀ g, 256 ≤ g → g < 512 → mem' g = mem g) (d : Nat) : IsDir mem' pg d ↔ IsDir mem pg d := by
  have hw : ∀ p, pg p → walkPage mem' bootDir p = walkPage mem bootDir p := by
    intro p hp
    obtain ⟨h1, h2⟩ := h.pgHeap p hp
    have hb := h.heapBound
    refine walkPage_of_frames mem mem' bootDir p (hlow _ (by decide) (by decide)) ?_
    rw [h.table_boot p (by omega) (by omega)]
    exact hlow _ (by omega) (by omega)
  constructor
  · rintro ⟨p, hp, hd⟩
    exact ⟨p, hp, by rw [← hw p hp]; exact hd⟩
  · rintro ⟨p, hp, hd⟩
    exact ⟨p, hp, by rw [hw p hp]; exact hd⟩

/-- A change outside frames 256..511 and outside the kernel half of the directories keeps the parts
of the invariant that do not speak of uses. -/
theorem ofUses {mem' : Mem} (h : Spaces Z mem pg U K W)
    (hlow : ∀ g, 256 ≤ g → g < 512 → mem' g = mem g)
    (hdir : ∀ d, IsDir mem pg d → ∀ i, i < 32 ∨ 768 ≤ i → mem' d i = mem d i)
    (hu : ∀ u u' f, Uses mem' pg U u f → Uses mem' pg U u' f → u = u')
    (ho : ∀ u f, Uses mem' pg U u f → u.from K W f) : Spaces Z mem' pg U K W where
  bootKernel i h1 h2 := by
    rw [hlow bootDir (by decide) (by decide)]
    exact h.bootKernel i h1 h2
  bootSelf := by
    rw [hlow bootDir (by decide) (by decide)]
    exact h.bootSelf
  bootLow := by
    rw [hlow bootDir (by decide) (by decide)]
    exact h.bootLow
  lowTable j hj := by
    rw [hlow 257 (by decide) (by decide)]
    exact h.lowTable j hj
  heap p h1 h2 := by
    have hb := h.heapBound
    rw [hlow (p / 1024 - 511) (by omega) (by omega)]
    exact h.heap p h1 h2
  heapBound := h.heapBound
  clean hz p h1 h2 := by
    rw [hlow (p / 1024 - 511) (by omega) (by omega)]
    exact h.clean hz p h1 h2
  pgHeap := h.pgHeap
  dirKernel d hd i h1 h2 := by
    rw [isDir_congr h hlow] at hd
    rw [hlow bootDir (by decide) (by decide), hdir d hd i (Or.inr h1)]
    exact h.dirKernel d hd i h1 h2
  dirSelf d hd := by
    rw [isDir_congr h hlow] at hd
    rw [hdir d hd 1023 (Or.inr (by decide))]
    exact h.dirSelf d hd
  dirLow d hd i hi := by
    rw [isDir_congr h hlow] at hd
    rw [hdir d hd i (Or.inl hi)]
    exact h.dirLow d hd i hi
  unique := hu
  owned := ho
  kernelFrame := h.kernelFrame
  userFrame := h.userFrame
  disjoint := h.disjoint

/-- The kernel half of the walk is unchanged when frames 256..511 are. -/
theorem kpage_congr {mem' : Mem} (h : Spaces Z mem pg U K W)
    (hlow : ∀ g, 256 ≤ g → g < 512 → mem' g = mem g) (p : Nat) (h1 : 0xc0100 ≤ p)
    (h2 : p < 0xc0100 + U) : walkPage mem' bootDir p = walkPage mem bootDir p := by
  have hb := h.heapBound
  refine walkPage_of_frames mem mem' bootDir p (hlow _ (by decide) (by decide)) ?_
  rw [h.table_boot p (by omega) (by omega)]
  exact hlow _ (by omega) (by omega)

/-- **Writing data frames.**  Nothing changes when the frames are neither directories nor tables. -/
theorem writeFrames {mem' : Mem} (h : Spaces Z mem pg U K W) (G : Nat → Prop) (hG : ∀ g, G g → 512 ≤ g)
    (hdir : ∀ g, G g → ¬ IsDir mem pg g) (htab : ∀ g, G g → ∀ d i, ¬ Uses mem pg U (.utable d i) g)
    (hmem : ∀ f, ¬ G f → mem' f = mem f) : Spaces Z mem' pg U K W ∧ Grows mem pg U mem' pg U := by
  have hlow : ∀ f, 256 ≤ f → f < 512 → mem' f = mem f := by
    intro f _ h2
    refine hmem f (fun hf => ?_)
    have := hG f hf
    omega
  have hd : ∀ d, IsDir mem pg d → mem' d = mem d := fun d hd => hmem d (fun hg => hdir d hg hd)
  have hwalk : ∀ d p, IsDir mem pg d → p < 0xc0000 → walkPage mem' d p = walkPage mem d p := by
    intro d p h1 h2
    refine walkPage_congr mem mem' d d p (by rw [hd d h1]) (fun hp => ?_)
    rw [hmem (table mem d p) (fun hg => htab _ hg d (p / 1024) (uses_table h1 h2 hp))]
  have huse : ∀ u f, Uses mem' pg U u f → Uses mem pg U u f := by
    intro u f hu
    cases u with
    | kpage p =>
      obtain ⟨h1, h2, hw⟩ := hu
      exact ⟨h1, h2, by rw [← kpage_congr h hlow p h1 h2]; exact hw⟩
    | utable d i =>
      obtain ⟨h1, h2, hw⟩ := hu
      rw [isDir_congr h hlow] at h1
      rw [hd d h1] at hw
      exact ⟨h1, h2, hw⟩
    | upage d p =>
      obtain ⟨h1, h2, hw⟩ := hu
      rw [isDir_congr h hlow] at h1
      exact ⟨h1, h2, by rw [← hwalk d p h1 h2]; exact hw⟩
  refine ⟨ofUses h hlow (fun d h1 i _ => by rw [hd d h1])
    (fun u u' f h1 h2 => h.unique u u' f (huse u f h1) (huse u' f h2))
    (fun u f h1 => h.owned u f (huse u f h1)), ?_⟩
  exact grows_of_walks (Nat.le_refl U) (fun d h1 => (isDir_congr h hlow d).mpr h1)
    (fun p h1 h2 => kpage_congr h hlow p h1 h2) (fun d i h1 _ _ => by rw [hd d h1])
    (fun d p f h1 h2 hw => by rw [hwalk d p h1 h2]; exact hw)

/-- The pages of the low megabyte's second mapping are in table 257. -/
theorem lowPage_slot (i : Nat) (hi : i < 256) :
    (0xc0000 + i) / 1024 - 511 = 257 ∧ (0xc0000 + i) % 1024 = i := by
  omega

/-- The entry of the next heap page is written, and no other word. -/
structure HeapWrite (mem : Mem) (U f : Nat) (mem' : Mem) : Prop where
  bound : 0xc0100 + U + 1 ≤ 0xffc00
  frame : ∀ g, g < 257 ∨ 512 ≤ g → mem' g = mem g
  word : ∀ p, 0xc0000 ≤ p → p < 0xffc00 → p ≠ 0xc0100 + U →
    mem' (p / 1024 - 511) (p % 1024) = mem (p / 1024 - 511) (p % 1024)
  entry : mem' ((0xc0100 + U) / 1024 - 511) ((0xc0100 + U) % 1024) = f * 4096 + 7

theorem HeapWrite.of_set (mem : Mem) (U f : Nat) (hb : 0xc0100 + U + 1 ≤ 0xffc00) :
    HeapWrite mem U f (mem.set ((0xc0100 + U) / 1024 - 511) ((0xc0100 + U) % 1024) (f * 4096 + 7)) := by
  refine ⟨hb, ?_, ?_, Mem.set_same _ _ _ _⟩
  · intro g hg
    exact Mem.set_frame_ne _ _ _ _ _ (by omega)
  · intro p h1 h2 hne
    by_cases hg : p / 1024 - 511 = (0xc0100 + U) / 1024 - 511
    · exact Mem.set_slot_ne _ _ _ _ _ _ (by omega)
    · rw [Mem.set_frame_ne _ _ _ _ _ hg]

namespace HeapWrite

variable {mem' : Mem} {f : Nat}

theorem walkPage_kernel (w : HeapWrite mem U f mem') (h : Spaces Z mem pg U K W) (p : Nat)
    (h1 : 0xc0000 ≤ p) (h2 : p < 0xffc00) (hne : p ≠ 0xc0100 + U) :
    walkPage mem' bootDir p = walkPage mem bootDir p := by
  refine walkPage_congr mem mem' bootDir bootDir p (by rw [w.frame bootDir (by decide)]) (fun _ => ?_)
  rw [h.table_boot p h1 h2]
  exact w.word p h1 h2 hne

theorem isDir_iff (w : HeapWrite mem U f mem') (h : Spaces Z mem pg U K W) (d : Nat) :
    IsDir mem' pg d ↔ IsDir mem pg d := by
  have hb := w.bound
  have hw : ∀ p, pg p → walkPage mem' bootDir p = walkPage mem bootDir p := by
    intro p hp
    obtain ⟨h1, h2⟩ := h.pgHeap p hp
    exact w.walkPage_kernel h p (by omega) (by omega) (by omega)
  constructor
  · rintro ⟨p, hp, hd⟩
    exact ⟨p, hp, by rw [← hw p hp]; exact hd⟩
  · rintro ⟨p, hp, hd⟩
    exact ⟨p, hp, by rw [hw p hp]; exact hd⟩

theorem dir_eq (w : HeapWrite mem U f mem') (h : Spaces Z mem pg U K W) {d : Nat} (hd : IsDir mem pg d) :
    mem' d = mem d :=
  w.frame d (.inr (h.dir_bounds d hd).1)

theorem walkPage_user (w : HeapWrite mem U f mem') (h : Spaces Z mem pg U K W) (d p : Nat)
    (hd : IsDir mem pg d) (hp : p < 0xc0000) : walkPage mem' d p = walkPage mem d p := by
  refine walkPage_congr mem mem' d d p (by rw [w.dir_eq h hd]) (fun hpres => ?_)
  rw [w.frame (table mem d p) (.inr (h.frame_bounds _ _ (uses_table hd hp hpres)).1)]

/-- The one new use is the new heap page. -/
theorem uses (w : HeapWrite mem U f mem') (h : Spaces Z mem pg U K W) (u : Use) (g : Nat)
    (hu : Uses mem' pg (U + 1) u g) : Uses mem pg U u g ∨ (u = .kpage (0xc0100 + U) ∧ g = f) := by
  have hb := w.bound
  cases u with
  | kpage p =>
    obtain ⟨h1, h2, hw⟩ := hu
    by_cases hp : p = 0xc0100 + U
    · subst hp
      right
      obtain ⟨-, -, hg⟩ := (walkPage_eq_some_iff _ _ _ _).mp hw
      rw [table_of_frame mem mem' _ _ (w.frame bootDir (by decide)), h.table_boot _ (by omega) (by omega),
        w.entry] at hg
      exact ⟨rfl, by omega⟩
    · left
      exact ⟨h1, by omega, by rw [← w.walkPage_kernel h p (by omega) (by omega) hp]; exact hw⟩
  | utable d i =>
    left
    obtain ⟨h1, h2, hw⟩ := hu
    rw [w.isDir_iff h] at h1
    rw [w.dir_eq h h1] at hw
    exact ⟨h1, h2, hw⟩
  | upage d p =>
    left
    obtain ⟨h1, h2, hw⟩ := hu
    rw [w.isDir_iff h] at h1
    exact ⟨h1, h2, by rw [← w.walkPage_user h d p h1 h2]; exact hw⟩

end HeapWrite

/-- **One more heap page.** -/
theorem addHeap {mem' : Mem} (h : Spaces Z mem pg U K W) (f : Nat) (hfresh : ∀ u, ¬ Uses mem pg U u f)
    (hK : K f) (hb : 0xc0100 + U + 1 ≤ 0xffc00)
    (hmem : mem' = mem.set ((0xc0100 + U) / 1024 - 511) ((0xc0100 + U) % 1024) (f * 4096 + 7)) :
    Spaces Z mem' pg (U + 1) K W ∧ Grows mem pg U mem' pg (U + 1) := by
  have w : HeapWrite mem U f mem' := by
    rw [hmem]
    exact HeapWrite.of_set mem U f hb
  have hboot : mem' bootDir = mem bootDir := w.frame _ (by decide)
  obtain ⟨hun, how⟩ := h.addUse (.kpage (0xc0100 + U)) f hfresh hK (w.uses h)
  have hgrow : Grows mem pg U mem' pg (U + 1) :=
    grows_of_walks (by omega) (fun d h1 => (w.isDir_iff h d).mpr h1)
      (fun p h1 h2 => w.walkPage_kernel h p (by omega) (by omega) (by omega))
      (fun d i h1 _ _ => by rw [w.dir_eq h h1])
      (fun d p g h1 h2 hw => by rw [w.walkPage_user h d p h1 h2]; exact hw)
  refine ⟨?_, hgrow⟩
  exact {
    bootKernel := fun i h1 h2 => by rw [hboot]; exact h.bootKernel i h1 h2
    bootSelf := by rw [hboot]; exact h.bootSelf
    bootLow := by rw [hboot]; exact h.bootLow
    lowTable := fun i hi => by
      obtain ⟨e1, e2⟩ := lowPage_slot i hi
      have hw := w.word (0xc0000 + i) (by omega) (by omega) (by omega)
      rw [e1, e2] at hw
      rw [hw]
      exact h.lowTable i hi
    heap := fun p h1 h2 => by
      by_cases hp : p = 0xc0100 + U
      · subst hp
        exact ⟨f, w.entry⟩
      · rw [w.word p (by omega) (by omega) hp]
        exact h.heap p h1 (by omega)
    heapBound := by omega
    clean := fun hz p h1 h2 => by
      rw [w.word p (by omega) h2 (by omega)]
      exact h.clean hz p (by omega) h2
    pgHeap := fun p hp => by
      obtain ⟨h1, h2⟩ := h.pgHeap p hp
      exact ⟨h1, by omega⟩
    dirKernel := fun d hd i h1 h2 => by
      rw [w.isDir_iff h] at hd
      rw [w.dir_eq h hd, hboot]
      exact h.dirKernel d hd i h1 h2
    dirSelf := fun d hd => by
      rw [w.isDir_iff h] at hd
      rw [w.dir_eq h hd]
      exact h.dirSelf d hd
    dirLow := fun d hd i hi => by
      rw [w.isDir_iff h] at hd
      rw [w.dir_eq h hd]
      exact h.dirLow d hd i hi
    unique := hun
    owned := how
    kernelFrame := h.kernelFrame
    userFrame := h.userFrame
    disjoint := h.disjoint }

/-- **A new page table of a process**, on a fresh zeroed frame. -/
theorem addTable {mem' : Mem} (h : Spaces Z mem pg U K W) (d i g : Nat) (hd : IsDir mem pg d)
    (hi1 : 32 ≤ i) (hi2 : i < 768) (habs : mem d i % 2 = 0) (hfresh : ∀ u, ¬ Uses mem pg U u g)
    (hK : K g) (hmem : mem' = (mem.set d i (g * 4096 + 7)).setRange g 0 1024 fun _ => 0) :
    Spaces Z mem' pg U K W ∧ Grows mem pg U mem' pg U ∧
      ∀ u f, Uses mem' pg U u f → Uses mem pg U u f ∨ (u = .utable d i ∧ f = g) := by
  obtain ⟨hd1, -⟩ := h.dir_bounds d hd
  obtain ⟨hg1, -⟩ := h.kernelFrame g hK
  obtain ⟨pd, hpd, hud⟩ := h.dir_uses d hd
  have hgd : g ≠ d := fun e => hfresh _ (e ▸ hud)
  have hgdir : ¬ IsDir mem pg g := by
    intro hdir
    obtain ⟨p, -, hu⟩ := h.dir_uses g hdir
    exact hfresh _ hu
  have hfr : ∀ f, f ≠ g → f ≠ d → mem' f = mem f := by
    intro f h1 h2
    rw [hmem, Mem.setRange_frame_ne _ _ _ _ _ _ h1, Mem.set_frame_ne _ _ _ _ _ h2]
  have hd' : ∀ j, j ≠ i → mem' d j = mem d j := by
    intro j hj
    rw [hmem, Mem.setRange_frame_ne _ _ _ _ _ _ hgd.symm, Mem.set_slot_ne _ _ _ _ _ _ hj]
  have hdi : mem' d i = g * 4096 + 7 := by
    rw [hmem, Mem.setRange_frame_ne _ _ _ _ _ _ hgd.symm, Mem.set_same]
  have hzero : ∀ j, j < 1024 → mem' g j = 0 := by
    intro j hj
    rw [hmem, Mem.setRange_same _ _ _ _ _ _ (by omega) (by omega)]
  have hlow : ∀ f, 256 ≤ f → f < 512 → mem' f = mem f := fun f _ h2 => hfr f (by omega) (by omega)
  have hslot : ∀ d', IsDir mem pg d' → ∀ j, (d' = d → j ≠ i) → mem' d' j = mem d' j := by
    intro d' hd'' j hj
    by_cases he : d' = d
    · subst he
      exact hd' j (hj rfl)
    · rw [hfr d' (fun e => hgdir (e ▸ hd'')) he]
  have hwalk : ∀ d' p, IsDir mem pg d' → p < 0xc0000 → (d' = d → p / 1024 ≠ i) →
      walkPage mem' d' p = walkPage mem d' p := by
    intro d' p h1 h2 he
    refine walkPage_congr mem mem' d' d' p (hslot d' h1 (p / 1024) he) (fun hp => ?_)
    -- the table of another entry is neither the fresh frame nor the directory
    have hut : Uses mem pg U (.utable d' (p / 1024)) (table mem d' p) := uses_table h1 h2 hp
    rw [hfr _ (fun e => hfresh _ (e ▸ hut)) (fun e => by
      have := h.unique _ _ _ hud (e ▸ hut)
      cases this)]
  have huse : ∀ u f, Uses mem' pg U u f → Uses mem pg U u f ∨ (u = .utable d i ∧ f = g) := by
    intro u f hu
    cases u with
    | kpage p =>
      left
      obtain ⟨h1, h2, hw⟩ := hu
      exact ⟨h1, h2, by rw [← kpage_congr h hlow p h1 h2]; exact hw⟩
    | utable d' j =>
      obtain ⟨h1, h2, hw⟩ := hu
      rw [isDir_congr h hlow] at h1
      by_cases he : d' = d ∧ j = i
      · obtain ⟨rfl, rfl⟩ := he
        right
        rw [hdi] at hw
        exact ⟨rfl, by omega⟩
      · left
        rw [hslot d' h1 j (fun e1 e2 => he ⟨e1, e2⟩)] at hw
        exact ⟨h1, h2, hw⟩
    | upage d' p =>
      left
      obtain ⟨h1, h2, hw⟩ := hu
      rw [isDir_congr h hlow] at h1
      by_cases he : d' = d ∧ p / 1024 = i
      · -- the new table maps nothing yet
        obtain ⟨rfl, hpi⟩ := he
        obtain ⟨-, hz, -⟩ := (walkPage_eq_some_iff _ _ _ _).mp hw
        have htab : table mem' d' p = g := by
          unfold table
          rw [hpi, hdi]
          omega
        rw [htab, hzero _ (by omega)] at hz
        omega
      · exact ⟨h1, h2, by rw [← hwalk d' p h1 h2 (fun e1 e2 => he ⟨e1, e2⟩)]; exact hw⟩
  obtain ⟨hun, how⟩ := h.addUse (.utable d i) g hfresh hK huse
  refine ⟨ofUses h hlow (fun d' hd'' j hj => hslot d' hd'' j (fun _ => by omega)) hun how, ?_, huse⟩
  refine grows_of_walks (Nat.le_refl U) (fun d' h1 => (isDir_congr h hlow d').mpr h1)
    (fun p h1 h2 => kpage_congr h hlow p h1 h2) ?_ ?_
  · intro d' j h1 _ hp
    exact hslot d' h1 j (fun e1 e2 => by subst e1 e2; omega)
  · intro d' p f h1 h2 hw
    obtain ⟨hp, -⟩ := (walkPage_eq_some_iff _ _ _ _).mp hw
    rw [hwalk d' p h1 h2 (fun e1 e2 => by subst e1 e2; omega)]
    exact hw

/-- **One more page of a process**, under a table it has. -/
theorem addPage {mem' : Mem} (h : Spaces Z mem pg U K W) (d p f : Nat) (hd : IsDir mem pg d)
    (hp : p < 0xc0000) (hpres : mem d (p / 1024) % 2 = 1) (hfresh : ∀ u, ¬ Uses mem pg U u f)
    (hfree : mem (table mem d p) (p % 1024) % 2 = 0)
    (hW : W f) (hmem : mem' = mem.set (table mem d p) (p % 1024) (f * 4096 + 7)) :
    Spaces Z mem' pg U K W ∧ Grows mem pg U mem' pg U := by
  have hut : Uses mem pg U (.utable d (p / 1024)) (table mem d p) := uses_table hd hp hpres
  obtain ⟨ht1, -⟩ := h.frame_bounds _ _ hut
  have hfr : ∀ g, g ≠ table mem d p → mem' g = mem g := by
    intro g hg
    rw [hmem]
    exact Mem.set_frame_ne _ _ _ _ _ hg
  have hlow : ∀ g, 256 ≤ g → g < 512 → mem' g = mem g := fun g _ h2 => hfr g (by omega)
  have hdir : ∀ d', IsDir mem pg d' → mem' d' = mem d' := by
    intro d' hd'
    obtain ⟨q, -, hu⟩ := h.dir_uses d' hd'
    refine hfr d' (fun e => ?_)
    have := h.unique _ _ _ hu (e ▸ hut)
    cases this
  have hwalk : ∀ d' q, IsDir mem pg d' → q < 0xc0000 → (d' = d → q ≠ p) →
      walkPage mem' d' q = walkPage mem d' q := by
    intro d' q h1 h2 he
    refine walkPage_congr mem mem' d' d' q (by rw [hdir d' h1]) (fun hq => ?_)
    by_cases ht : table mem d' q = table mem d p
    · -- a shared table means the same directory entry, so another slot
      have hut' : Uses mem pg U (.utable d' (q / 1024)) (table mem d' q) := uses_table h1 h2 hq
      have heq := h.unique _ _ _ hut' (ht ▸ hut)
      simp only [Use.utable.injEq] at heq
      rw [hmem]
      exact Mem.set_slot_ne _ _ _ _ _ _ (fun e => he heq.1 (by omega))
    · rw [hfr _ ht]
  have huse : ∀ u g, Uses mem' pg U u g → Uses mem pg U u g ∨ (u = .upage d p ∧ g = f) := by
    intro u g hu
    cases u with
    | kpage q =>
      left
      obtain ⟨h1, h2, hw⟩ := hu
      exact ⟨h1, h2, by rw [← kpage_congr h hlow q h1 h2]; exact hw⟩
    | utable d' j =>
      left
      obtain ⟨h1, h2, hw⟩ := hu
      rw [isDir_congr h hlow] at h1
      rw [hdir d' h1] at hw
      exact ⟨h1, h2, hw⟩
    | upage d' q =>
      obtain ⟨h1, h2, hw⟩ := hu
      rw [isDir_congr h hlow] at h1
      by_cases he : d' = d ∧ q = p
      · obtain ⟨rfl, rfl⟩ := he
        right
        obtain ⟨-, -, hg⟩ := (walkPage_eq_some_iff _ _ _ _).mp hw
        rw [table_of_frame mem mem' _ _ (hdir d' h1), hmem, Mem.set_same] at hg
        exact ⟨rfl, by omega⟩
      · left
        exact ⟨h1, h2, by rw [← hwalk d' q h1 h2 (fun e1 e2 => he ⟨e1, e2⟩)]; exact hw⟩
  obtain ⟨hun, how⟩ := h.addUse (.upage d p) f hfresh hW huse
  refine ⟨ofUses h hlow (fun d' hd' j _ => by rw [hdir d' hd']) hun how, ?_⟩
  refine grows_of_walks (Nat.le_refl U) (fun d' h1 => (isDir_congr h hlow d').mpr h1)
    (fun q h1 h2 => kpage_congr h hlow q h1 h2) (fun d' i h1 _ _ => by rw [hdir d' h1]) ?_
  intro d' q g h1 h2 hw
  obtain ⟨-, hq, -⟩ := (walkPage_eq_some_iff _ _ _ _).mp hw
  rw [hwalk d' q h1 h2 (fun e1 e2 => by subst e1 e2; omega)]
  exact hw

/-- **A new page directory**: heap page `q`, whose frame `d` holds the kernel half of the boot
directory, itself in the last entry, and no user entry. -/
theorem addDir (h : Spaces Z mem pg U K W) (q d : Nat) (hq1 : 0xc0100 ≤ q) (hq2 : q < 0xc0100 + U)
    (hw : walkPage mem bootDir q = some d) (hlow : ∀ i, i < 768 → mem d i = 0)
    (hker : ∀ i, 768 ≤ i → i < 1023 → mem d i = mem bootDir i)
    (hself : mem d 1023 = d * 4096 + 7) :
    Spaces Z mem (fun p => pg p ∨ p = q) U K W ∧ Grows mem pg U mem (fun p => pg p ∨ p = q) U := by
  have hdir : ∀ e, IsDir mem (fun p => pg p ∨ p = q) e → IsDir mem pg e ∨ e = d := by
    rintro e ⟨p, hp | rfl, he⟩
    · exact Or.inl ⟨p, hp, he⟩
    · rw [hw] at he
      exact Or.inr (Option.some.inj he).symm
  have huse : ∀ u f, Uses mem (fun p => pg p ∨ p = q) U u f → Uses mem pg U u f := by
    intro u f hu
    cases u with
    | kpage p => exact hu
    | utable e i =>
      obtain ⟨h1, h2, h3⟩ := hu
      rcases hdir e h1 with h1 | rfl
      · exact ⟨h1, h2, h3⟩
      · rw [hlow i h2] at h3
        omega
    | upage e p =>
      obtain ⟨h1, h2, h3⟩ := hu
      rcases hdir e h1 with h1 | rfl
      · exact ⟨h1, h2, h3⟩
      · obtain ⟨h4, -⟩ := (walkPage_eq_some_iff _ _ _ _).mp h3
        rw [hlow _ (by omega)] at h4
        omega
  have hdir' : ∀ e, IsDir mem pg e → IsDir mem (fun p => pg p ∨ p = q) e := by
    rintro e ⟨p, hp, he⟩
    exact ⟨p, Or.inl hp, he⟩
  have hgrow : Grows mem pg U mem (fun p => pg p ∨ p = q) U := by
    intro u f hu
    cases u with
    | kpage p => exact hu
    | utable e i => exact ⟨hdir' e hu.1, hu.2⟩
    | upage e p => exact ⟨hdir' e hu.1, hu.2⟩
  refine ⟨?_, hgrow⟩
  exact { h with
    pgHeap := by
      rintro p (hp | rfl)
      · exact h.pgHeap p hp
      · exact ⟨hq1, hq2⟩
    dirKernel := by
      intro e he
      rcases hdir e he with he | rfl
      · exact h.dirKernel e he
      · exact hker
    dirSelf := by
      intro e he
      rcases hdir e he with he | rfl
      · exact h.dirSelf e he
      · exact hself
    dirLow := by
      intro e he i hi
      rcases hdir e he with he | rfl
      · exact h.dirLow e he i hi
      · exact hlow i (by omega)
    unique := fun u u' f h1 h2 => h.unique u u' f (huse u f h1) (huse u' f h2)
    owned := fun u f h1 => h.owned u f (huse u f h1) }

end Spaces

end MyOs
