import MyOs.Lib.CString

/-!
# thread.c: init_thread, byte by byte

`struct task_struct` as the compiler lays it out.  `strcpy` puts the name into its 16 bytes and goes on over the
fields behind it, of which the assignments that follow restore some.

    assigned_out        the assignments leave the rest of the structure alone
    initThread_eq       the bytes of the structure, for a name of any length
    initThread_iff      the PCB is right exactly when the name leaves room for its terminator
-/

namespace MyOs.TaskStruct

/-! ## Layout -/

def self_kstack : Nat := 0
def pid : Nat := 4
def status : Nat := 8
def name : Nat := 12
def priority : Nat := 28
def ticks : Nat := 29
def elapsed_ticks : Nat := 32
def general_tag : Nat := 36
def all_list_tag : Nat := 44
def pgdir : Nat := 52
def userprog_vaddr : Nat := 56
def stack_magic : Nat := 68
def sizeof : Nat := 72

/-- The offsets as numbers, for `omega`. -/
theorem layout : self_kstack = 0 ∧ pid = 4 ∧ status = 8 ∧ name = 12 ∧ priority = 28 ∧ ticks = 29 ∧
    elapsed_ticks = 32 ∧ general_tag = 36 ∧ all_list_tag = 44 ∧ pgdir = 52 ∧ userprog_vaddr = 56 ∧
    stack_magic = 68 ∧ sizeof = 72 := by decide

def TASK_RUNNING : Nat := 0
def TASK_READY : Nat := 1

/-! ## Algorithm -/

/-- The assignments after `strcpy`, in their order. -/
def assigned (m : Bytes) (mainThread pthread prio : Nat) : Bytes :=
  let m := m.write 4 (pthread + status) (if pthread = mainThread then TASK_RUNNING else TASK_READY)
  let m := m.write 1 (pthread + ticks) prio
  let m := m.write 4 (pthread + elapsed_ticks) 0
  let m := m.write 1 (pthread + priority) prio
  let m := m.write 4 (pthread + self_kstack) (pthread + 4096)
  let m := m.write 4 (pthread + pgdir) 0
  m.write 4 (pthread + stack_magic) 0x20040207

/-- `init_thread`; `newPid` is what `allocate_pid` returned, which touches neither the structure nor the name. -/
def initThread (fuel : Nat) (m : Bytes) (mainThread pthread nameAt prio newPid : Nat) : Option Bytes := do
  let m ← memset m pthread 0 sizeof
  let m := m.write 2 (pthread + pid) newPid
  let m ← strcpy fuel m (pthread + name) nameAt
  pure (assigned m mainThread pthread prio)

/-! ## A PCB -/

/-- The name field ends within its 16 bytes and holds a beginning of `s`. -/
def NameOk (m : Bytes) (pthread : Nat) (s : List UInt8) : Prop :=
  ∃ k, k < 16 ∧ k ≤ s.length ∧ StrAt m (pthread + name) (s.take k)

/-- A PCB as `init_thread` leaves it for a thread that is called `s`. -/
structure PcbOk (m : Bytes) (mainThread pthread : Nat) (s : List UInt8) (prio : Nat) : Prop where
  nameOk : NameOk m pthread s
  status : m.read 4 (pthread + status) = if pthread = mainThread then TASK_RUNNING else TASK_READY
  ticks : m.read 1 (pthread + ticks) = prio
  priority : m.read 1 (pthread + priority) = prio
  elapsed_ticks : m.read 4 (pthread + elapsed_ticks) = 0
  self_kstack : m.read 4 (pthread + self_kstack) = (pthread + 4096) % 2 ^ 32
  pgdir : m.read 4 (pthread + pgdir) = 0
  stack_magic : m.read 4 (pthread + stack_magic) = 0x20040207
  general_tag : m.read 8 (pthread + general_tag) = 0
  all_list_tag : m.read 8 (pthread + all_list_tag) = 0
  userprog_vaddr : m.read 12 (pthread + userprog_vaddr) = 0

/-! ## Lemmas -/

section
variable (m : Bytes) (mainThread pthread prio : Nat)

/-- What is not assigned. -/
theorem assigned_out (i : Nat) (h : (4 ≤ i ∧ i < 8) ∨ (12 ≤ i ∧ i < 28) ∨ (36 ≤ i ∧ i < 52) ∨ (56 ≤ i ∧ i < 68)) :
    assigned m mainThread pthread prio (pthread + i) = m (pthread + i) := by
  have hl := layout
  unfold assigned
  rw [Bytes.write_out _ _ _ _ _ (by omega), Bytes.write_out _ _ _ _ _ (by omega),
    Bytes.write_out _ _ _ _ _ (by omega), Bytes.write_out _ _ _ _ _ (by omega),
    Bytes.write_out _ _ _ _ _ (by omega), Bytes.write_out _ _ _ _ _ (by omega),
    Bytes.write_out _ _ _ _ _ (by omega)]

/-- What is assigned. -/
theorem assigned_fields : let m' := assigned m mainThread pthread prio
    m'.read 4 (pthread + status) = (if pthread = mainThread then TASK_RUNNING else TASK_READY) ∧
    m'.read 1 (pthread + ticks) = prio % 256 ∧ m'.read 1 (pthread + priority) = prio % 256 ∧
    m'.read 4 (pthread + elapsed_ticks) = 0 ∧ m'.read 4 (pthread + self_kstack) = (pthread + 4096) % 2 ^ 32 ∧
    m'.read 4 (pthread + pgdir) = 0 ∧ m'.read 4 (pthread + stack_magic) = 0x20040207 := by
  have hl := layout
  have hstatus : (if pthread = mainThread then TASK_RUNNING else TASK_READY) < 256 ^ 4 := by
    split <;> decide
  unfold assigned
  dsimp only
  refine ⟨?_, ?_, ?_, ?_, ?_, ?_, ?_⟩
  all_goals simp (disch := omega) only [Bytes.read_write_out, Bytes.read_write]
  · exact Nat.mod_eq_of_lt hstatus
  all_goals rfl

end

section
variable {m : Bytes} {mainThread pthread nameAt prio newPid fuel : Nat} {s : List UInt8}

/-- The structure when the assignments begin. -/
theorem initThread_eq (mainThread prio newPid : Nat) (hs : StrAt m nameAt s) (hp : pthread ≠ 0) (hn : nameAt ≠ 0) (hf : s.length < fuel)
    (hsep : nameAt + s.length < pthread ∨ pthread + sizeof ≤ nameAt) :
    ∃ m1, initThread fuel m mainThread pthread nameAt prio newPid = some (assigned m1 mainThread pthread prio) ∧
      StrAt m1 (pthread + name) s ∧ ∀ i, 12 + s.length < i → i < sizeof → m1 (pthread + i) = 0 := by
  have hl := layout
  obtain ⟨m0, hset, hm0⟩ := memset_eq m 0 sizeof hp
  have hs0 : StrAt (m0.write 2 (pthread + pid) newPid) nameAt s := by
    refine hs.congr fun b h1 h2 => ?_
    rw [Bytes.write_out _ _ _ _ _ (by omega), hm0, if_neg (by omega)]
  obtain ⟨m1, hcpy, hout, hs1⟩ := strcpy_eq (pthread + name) hs0 hf (by omega) hn (by omega)
  refine ⟨m1, ?_, hs1, fun i h1 h2 => ?_⟩
  · unfold initThread
    rw [hset]
    show (strcpy fuel (m0.write 2 (pthread + pid) newPid) (pthread + name) nameAt).bind _ = _
    rw [hcpy]
    rfl
  · rw [hout _ (by omega), Bytes.write_out _ _ _ _ _ (by omega), hm0, if_pos (by omega)]

/-- A name of at most 15 characters ends inside its field. -/
theorem pcbOk_short {m1 : Bytes} (hs : StrAt m1 (pthread + name) s)
    (hz : ∀ i, 12 + s.length < i → i < sizeof → m1 (pthread + i) = 0) (hprio : prio < 256) (hl : s.length ≤ 15) :
    PcbOk (assigned m1 mainThread pthread prio) mainThread pthread s prio := by
  have hoff := layout
  obtain ⟨h1, h2, h3, h4, h5, h6, h7⟩ := assigned_fields m1 mainThread pthread prio
  have hmod := Nat.mod_eq_of_lt hprio
  have hname : StrAt (assigned m1 mainThread pthread prio) (pthread + name) s := by
    refine hs.congr fun b hb hb' => ?_
    obtain ⟨i, rfl⟩ := Nat.exists_eq_add_of_le (Nat.le_trans (Nat.le_add_right pthread name) hb)
    exact assigned_out m1 mainThread pthread prio i (by omega)
  have hzero : ∀ i, (36 ≤ i ∧ i < 52) ∨ (56 ≤ i ∧ i < 68) →
      assigned m1 mainThread pthread prio (pthread + i) = 0 := by
    intro i hi
    rw [assigned_out m1 mainThread pthread prio i (by omega)]
    exact hz i (by omega) (by omega)
  refine ⟨⟨s.length, by omega, Nat.le_refl _, ?_⟩, h1, h2.trans hmod, h3.trans hmod, h4, h5, h6, h7, ?_, ?_, ?_⟩
  · rw [List.take_length]
    exact hname
  all_goals
    refine Bytes.read_zero fun i hi => ?_
    rw [Nat.add_assoc]
    exact hzero _ (by omega)

/-- A longer name fills the field, and nothing assigns to it again. -/
theorem not_nameOk_long {m1 : Bytes} (hs : StrAt m1 (pthread + name) s) (hl : 16 ≤ s.length) :
    ¬ NameOk (assigned m1 mainThread pthread prio) pthread s := by
  have hoff := layout
  rintro ⟨k, hk, hk', hstr⟩
  have hend := hstr.ends
  rw [List.length_take, Nat.min_eq_left hk', Nat.add_assoc, assigned_out m1 mainThread pthread prio _ (by omega),
    ← Nat.add_assoc, hs.char k (by omega)] at hend
  exact hs.nonzero _ (List.getElem_mem _) hend

/-- **The PCB of a thread** is right exactly when its name has at most 15 characters. -/
theorem initThread_iff (hs : StrAt m nameAt s) (hp : pthread ≠ 0) (hn : nameAt ≠ 0) (hf : s.length < fuel)
    (hsep : nameAt + s.length < pthread ∨ pthread + sizeof ≤ nameAt) (hprio : prio < 256) :
    (∃ m', initThread fuel m mainThread pthread nameAt prio newPid = some m' ∧
      PcbOk m' mainThread pthread s prio) ↔ s.length ≤ 15 := by
  obtain ⟨m1, hrun, hs1, hz⟩ := initThread_eq mainThread prio newPid hs hp hn hf hsep
  constructor
  · rintro ⟨m', hrun', hok⟩
    rw [hrun] at hrun'
    cases hrun'
    by_contra hl
    exact not_nameOk_long hs1 (by omega) hok.nameOk
  · exact fun hl => ⟨_, hrun, pcbOk_short hs1 hz hprio hl⟩

end

/-- Memory with the letters from `a` on at 0xc0008000, and nothing else. -/
def letters (n : Nat) : Bytes := fun b => if 0xc0008000 ≤ b ∧ b < 0xc0008000 + n then 0x61 else 0

theorem letters_strAt (n : Nat) : StrAt (letters n) 0xc0008000 (List.replicate n 0x61) where
  char i hi := by
    rw [List.length_replicate] at hi
    rw [List.getElem_replicate]
    exact if_pos (by omega)
  ends := by
    rw [List.length_replicate]
    exact if_neg (by omega)
  nonzero c hc := by
    rw [List.eq_of_mem_replicate hc]
    decide

theorem initThread_fifteen : ∃ m', initThread 16 (letters 15) 0xc009e000 0xc0100000 0xc0008000 31 1 = some m' ∧
    PcbOk m' 0xc009e000 0xc0100000 (List.replicate 15 0x61) 31 :=
  (initThread_iff (letters_strAt 15) (by decide) (by decide) (by decide) (by decide) (by decide)).mpr (by decide)

/-- Sixteen letters leave the name without its end. -/
theorem initThread_sixteen : ¬ ∀ (m : Bytes) (s : List UInt8) (mainThread pthread nameAt prio newPid : Nat),
    StrAt m nameAt s → pthread ≠ 0 → nameAt ≠ 0 →
    (nameAt + s.length < pthread ∨ pthread + sizeof ≤ nameAt) → prio < 256 →
    ∃ m', initThread (s.length + 1) m mainThread pthread nameAt prio newPid = some m' ∧
      PcbOk m' mainThread pthread s prio := by
  intro hall
  obtain ⟨m', hrun, hok⟩ := hall (letters 16) (List.replicate 16 0x61) 0xc009e000 0xc0100000 0xc0008000 31 1
    (letters_strAt 16) (by decide) (by decide) (by decide) (by decide)
  have hsep : 0xc0008000 + (List.replicate 16 (0x61 : UInt8)).length < 0xc0100000 ∨
      0xc0100000 + sizeof ≤ 0xc0008000 := by
    decide
  obtain ⟨m1, hrun1, hs1, -⟩ := initThread_eq 0xc009e000 31 1 (letters_strAt 16) (by decide) (by decide)
    (Nat.lt_succ_self _) hsep
  have heq : m' = assigned m1 0xc009e000 0xc0100000 31 := Option.some_inj.mp (hrun.symm.trans hrun1)
  rw [heq] at hok
  exact not_nameOk_long hs1 (by decide) hok.nameOk

end MyOs.TaskStruct
