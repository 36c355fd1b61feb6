import MyOs.Userprog.PageDir

/-!
# kernel/interrupt.c: the operand of lidt

`idt_init` loads the interrupt descriptor table register from a 48-bit operand: the limit in bits
0..15 and the linear base in bits 16..47.  The processor fetches a gate through the page directory
that is active when the interrupt arrives, so the base must translate in every address space.

    lidtBase_idtOperand    the base keeps only the low 16 bits of the address of idt
    idt_reachable_iff      when the gates can be fetched
-/

namespace MyOs

open Paging

def IDT_DESC_CNT : Nat := 0x81

/-- `sizeof(idt)`: a `struct gate_desc` takes 8 bytes. -/
def sizeofIdt : Nat := IDT_DESC_CNT * 8

/-! ## Algorithm -/

/-- `(sizeof(idt) - 1) | ((uint64_t) ((uint32_t) idt << 16))`: the shift is made in 32 bits and only
its result is widened. -/
def idtOperand (idt : Nat) : Nat := (sizeofIdt - 1) ||| ((idt <<< 16) % 2 ^ 32)

/-- The linear base that `lidt` takes from its operand. -/
def lidtBase (operand : Nat) : Nat := (operand >>> 16) % 2 ^ 32

/-- The processor finds every byte of the table: what the base translates to under the active
directory is the physical address of `idt`. -/
def IdtReachable (s : Vm) (idt : Nat) : Prop :=
  ∀ off, off < sizeofIdt → ∃ phys, walk s.mem bootDir (idt + off) = some phys ∧
    walk s.mem s.dir (lidtBase (idtOperand idt) + off) = some phys

/-! ## Lemmas -/

/-- The high half of the address is shifted out before the widening. -/
theorem lidtBase_idtOperand (idt : Nat) : lidtBase (idtOperand idt) = idt % 2 ^ 16 := by
  have hshift : (idt <<< 16) % 2 ^ 32 = idt % 2 ^ 16 * 2 ^ 16 := by
    rw [Nat.shiftLeft_eq]
    omega
  have hor := Word.or_low_eq_add (idt % 2 ^ 16 * 2 ^ 16) (sizeofIdt - 1) 16 (by omega) (by decide)
  unfold lidtBase idtOperand
  rw [hshift, Nat.or_comm, hor, Nat.shiftRight_eq_div_pow, show sizeofIdt - 1 = 0x407 from rfl]
  omega

section
variable {Z : Prop} {U kfree : Nat} {s : Vm}

/-- The window `[0xc0000000, 0xc0100000)` shows the low megabyte. -/
theorem walk_window (h : VmInv Z U kfree s) (x : Nat) (hx : x < 0x100000) :
    walk s.mem bootDir (0xc0000000 + x) = some x := by
  have hp : (0xc0000000 + x) / 4096 = 0xc0000 + x / 4096 := by omega
  obtain ⟨ht, hj⟩ := Spaces.lowPage_slot (x / 4096) (by omega)
  have hw := h.spaces.walkPage_boot (0xc0000 + x / 4096) (by omega) (by omega)
  rw [ht, hj, h.spaces.lowTable (x / 4096) (by omega), if_pos (by omega)] at hw
  rw [walk_of_walkPage (hp ▸ hw), Option.some_inj]
  omega

/-- The boot directory also maps the low megabyte onto itself. -/
theorem walk_identity (h : VmInv Z U kfree s) (x : Nat) (hx : x < 0x100000) :
    walk s.mem bootDir x = some x := by
  have hi : x / 4096 / 1024 = 0 := by omega
  have hj : x / 4096 % 1024 = x / 4096 := by omega
  have ht : table s.mem bootDir (x / 4096) = 257 := by
    unfold table
    rw [hi, h.spaces.bootLow]
  have hw : walkPage s.mem bootDir (x / 4096) = some (x / 4096) := by
    refine (walkPage_eq_some_iff _ _ _ _).mpr ⟨by rw [hi, h.spaces.bootLow], ?_, ?_⟩
    · rw [ht, hj, h.spaces.lowTable (x / 4096) (by omega)]
      omega
    · rw [ht, hj, h.spaces.lowTable (x / 4096) (by omega)]
      omega
  rw [walk_of_walkPage hw, Option.some_inj]
  omega

/-- A process directory maps nothing below the user region. -/
theorem walk_process_low (h : VmInv Z U kfree s) (d : Nat) (hd : IsDir s.mem s.DirPage d) (x : Nat)
    (hx : x < 0x8000000) : walk s.mem d x = none := by
  have hw : walkPage s.mem d (x / 4096) = none := by
    unfold walkPage
    rw [h.spaces.dirLow d hd (x / 4096 / 1024) (by omega)]
    rfl
  exact (walk_eq_none_iff _ _ _).mpr hw

/-- The gates are found exactly when the table lies in the first 64 KB of the window and the boot
directory is active. -/
theorem idtReachable_state (h : VmInv Z U kfree s) (idt : Nat) (h1 : 0xc0000000 ≤ idt)
    (h2 : idt + sizeofIdt ≤ 0xc0100000) :
    IdtReachable s idt ↔ idt < 0xc0010000 ∧ (s.task s.cur).pgdir = NULL := by
  have hsize : sizeofIdt = 0x408 := rfl
  have hphys : ∀ off, off < sizeofIdt → walk s.mem bootDir (idt + off) = some (idt - 0xc0000000 + off) := by
    intro off hoff
    have := walk_window h (idt - 0xc0000000 + off) (by omega)
    rw [show 0xc0000000 + (idt - 0xc0000000 + off) = idt + off by omega] at this
    exact this
  unfold IdtReachable
  rw [lidtBase_idtOperand]
  rcases h.dir_cases with ⟨hdir, hn⟩ | ⟨hdir, hn⟩
  · rw [hdir]
    constructor
    · intro hr
      obtain ⟨phys, hp1, hp2⟩ := hr 0 (by decide)
      rw [hphys 0 (by decide)] at hp1
      rw [walk_identity h (idt % 2 ^ 16 + 0) (by omega)] at hp2
      simp only [Option.some.injEq] at hp1 hp2
      exact ⟨by omega, hn⟩
    · rintro ⟨hlt, -⟩ off hoff
      refine ⟨idt - 0xc0000000 + off, hphys off hoff, ?_⟩
      rw [walk_identity h (idt % 2 ^ 16 + off) (by omega)]
      simp only [Option.some.injEq]
      omega
  · constructor
    · intro hr
      obtain ⟨phys, -, hp2⟩ := hr 0 (by decide)
      rw [walk_process_low h s.dir hdir (idt % 2 ^ 16 + 0) (by omega)] at hp2
      cases hp2
    · rintro ⟨-, hn'⟩
      exact absurd hn' hn

end

/-- **When the interrupt descriptor table can be fetched.**  In every state of every run, exactly when
`idt` was linked into the first 64 KB of the kernel window and the running task has no page directory
of its own. -/
theorem idt_reachable_iff (allMem : Nat) (junk : Nat → Nat → UInt8) (ram : Mem) (ops : List MemOp)
    (s : MemSys) (hr : Runs MemSys.step MemOp.Allowed (bootSys allMem junk ram) ops s) (idt : Nat)
    (h1 : 0xc0000000 ≤ idt) (h2 : idt + sizeofIdt ≤ 0xc0100000) :
    IdtReachable s.vm idt ↔ idt < 0xc0010000 ∧ (s.vm.task s.vm.cur).pgdir = NULL := by
  obtain ⟨U, h⟩ := runs_inv allMem junk ram ops s hr
  exact idtReachable_state h.vm idt h1 h2

/-- At boot, a table at `0xc0003000` is found. -/
theorem idt_reachable_iff_boot :
    IdtReachable (bootSys 0x400000 (fun _ _ => 0) fun _ _ => 0).vm 0xc0003000 :=
  (idt_reachable_iff 0x400000 (fun _ _ => 0) (fun _ _ => 0) [] _ rfl 0xc0003000 (by decide)
    (by decide)).mpr ⟨by decide, rfl⟩

/-- While the first process runs no gate of a table at `0xc0003000` can be fetched; and a table at
`0xc0010000` is not found even at boot. -/
theorem idt_unreachable_process :
    (∃ s, Runs MemSys.step MemOp.Allowed (bootSys 0x400000 (fun _ _ => 0) fun _ _ => 0)
      [.createPageDir 1, .pageDirActivate 1] s ∧ ¬ IdtReachable s.vm 0xc0003000) ∧
    ¬ IdtReachable (bootSys 0x400000 (fun _ _ => 0) fun _ _ => 0).vm 0xc0010000 := by
  constructor
  · obtain ⟨s, hr, hcur, hpg⟩ := firstProcess_runs
    obtain ⟨U, h⟩ := runs_inv _ _ _ _ s hr
    refine ⟨s, hr, fun hi => ?_⟩
    have hn := ((idtReachable_state h.vm 0xc0003000 (by decide) (by decide)).mp hi).2
    rw [hcur] at hn
    exact hpg hn
  · intro hi
    have h := bootVm_inv 0x400000 (fun _ _ => 0) fun _ _ => 0
    have := ((idtReachable_state h.vm 0xc0010000 (by decide) (by decide)).mp hi).1
    omega

end MyOs
