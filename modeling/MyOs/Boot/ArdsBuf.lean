import MyOs.Boot.MemProbe

/-!
# boot/loader.S: the buffer of the E820 loop

`ards_buf` has 244 bytes, room for 12 entries; `ards_nr` and then the code of the loader follow it.  The loop
stops when the BIOS says that an entry is the last one, and asks for the next one otherwise, wherever `di` has
come to.

    step_stores        a step changes no byte outside the stores listed for it
    staysInBuffer_iff  the loop stays in its buffer when there are at most 12 entries, and only then
    thirteenth_store   the thirteenth entry lies over the counter and the first 14 bytes of the code
-/

namespace MyOs

/-! ## Algorithm -/

/-- The stores of the code from one label to the next, each with address and size.  The entry is stored by the
BIOS, at `es:di`; where it lies outside `ards_buf`, control is lost before the counter. -/
def Probe.stores (bios : Bios) (s : Probe) : List (Nat × Nat) :=
  match s.pc with
  | .e820MemGetLoop =>
    let di := (lo s.edi).toNat
    if (bios.e820 s.calls).1.cf then []
    else if InArdsBuf di then [(di, 20), (ARDS_NR, 2)]
    else [(di, 20)]
  | .memGetOk => [(TOTAL_MEM_BYTES, 4)]
  | _ => []

/-- A store into `ards_buf`, or of its counter. -/
def BufferStore (w : Nat × Nat) : Prop :=
  (ARDS_BUF ≤ w.1 ∧ w.1 + w.2 ≤ ARDS_BUF + 244) ∨ w = (ARDS_NR, 2)

/-- E820 gives `n` entries of 20 bytes, and `ebx` is 0 with the last and only then. -/
structure Bios.Responds (bios : Bios) (n : Nat) : Prop where
  cf : ∀ k, k < n → (bios.e820 k).1.cf = false
  size : ∀ k, k < n → lo (bios.e820 k).1.ecx = 20
  last : ∀ k, k < n → ((bios.e820 k).1.ebx = 0 ↔ k + 1 = n)

/-- The loop from `s` stores nothing elsewhere, and ends with `n` in the counter and the rest of memory as it
was. -/
structure StaysInBuffer (bios : Bios) (s : Probe) (n : Nat) : Prop where
  stores : ∀ j, ((Probe.step bios)^[j] s).pc = .e820MemGetLoop →
    ∀ w ∈ ((Probe.step bios)^[j] s).stores bios, BufferStore w
  ends : Reaches (Probe.step bios) s fun t => t.pc = .findMaxMemArea ∧ t.mem.read 2 ARDS_NR = n ∧
    ∀ a, a < ARDS_BUF ∨ ARDS_NR + 2 ≤ a → t.mem a = s.mem a

/-! ## Stores -/

section
variable (bios : Bios) (s : Probe)

theorem e820Next_mem : s.e820Next.mem = s.mem.write 2 ARDS_NR (s.mem.read 2 ARDS_NR + 1) := by
  unfold Probe.e820Next
  by_cases h : s.ebx ≠ 0
  · simp only [if_pos h]
  · simp only [if_neg h]

/-- A branch leaves memory alone if both its sides do. -/
theorem ite_mem {c : Prop} [Decidable c] {s t : Probe} {m : Bytes} (hs : s.mem = m) (ht : t.mem = m) :
    (if c then s else t).mem = m := by
  split
  · exact hs
  · exact ht

theorem findMaxMemArea_mem : s.findMaxMemArea.mem = s.mem := by
  unfold Probe.findMaxMemArea
  exact ite_mem rfl (ite_mem rfl rfl)

-- the state is taken apart so that `rfl` looks at one field only
theorem nextArds_mem : s.nextArds.mem = s.mem := by
  cases s with
  | mk _ _ _ _ _ _ _ mem _ => exact ite_mem (m := mem) rfl rfl

theorem ah88_mem : (s.e801FailedSoTry88 bios).mem = s.mem := by
  unfold Probe.e801FailedSoTry88
  rw [int15_88 bios { s with eax := (s.eax &&& 0xffff00ff) ||| 0x8800 } (ah_of_88 s.eax)]
  cases s with
  | mk _ _ _ _ _ _ _ mem _ => exact ite_mem (m := mem) rfl rfl

theorem e801Low_mem : s.e801Low.mem = s.mem := by
  cases s with
  | mk _ _ _ _ _ _ _ mem _ => exact (rfl : _ = mem)

theorem e801High_mem : s.e801High.mem = s.mem := by
  cases s with
  | mk _ _ _ _ _ _ _ mem _ => exact (rfl : _ = mem)

theorem e801_mem (hpc : s.pc = .e820FailedSoTryE801) : (s.step bios).mem = s.mem := by
  rw [step_e801 bios s hpc]
  split
  · rfl
  · show (s.load bios.e801).e801Low.e801High.mem = s.mem
    rw [e801High_mem, e801Low_mem]
    rfl

theorem e820MemGetLoop_stores (hpc : s.pc = .e820MemGetLoop) (a : Nat)
    (h : ∀ w ∈ s.stores bios, a < w.1 ∨ w.1 + w.2 ≤ a) : (s.e820MemGetLoop bios).mem a = s.mem a := by
  unfold Probe.stores at h
  rw [hpc] at h
  unfold Probe.e820MemGetLoop
  rw [int15_e820 bios { s with eax := 0xe820, ecx := 20 } rfl]
  cases hcf : (bios.e820 s.calls).1.cf with
  | true =>
    simp only [if_true]
    rfl
  | false =>
    simp only [hcf, Bool.false_eq_true, if_false] at h ⊢
    by_cases hin : InArdsBuf (lo s.edi).toNat
    · rw [if_pos hin] at h ⊢
      have hentry := h _ List.mem_cons_self
      have hnr := h _ (List.mem_cons_of_mem _ List.mem_cons_self)
      rw [e820Next_mem, Bytes.write_out _ _ _ _ _ hnr]
      exact Ards.store_out _ _ _ _ hentry
    · rw [if_neg hin] at h ⊢
      exact Ards.store_out _ _ _ _ (h _ List.mem_cons_self)

/-- **Every byte outside the stores of a step is as before.** -/
theorem step_stores (a : Nat) (h : ∀ w ∈ s.stores bios, a < w.1 ∨ w.1 + w.2 ≤ a) :
    (s.step bios).mem a = s.mem a := by
  cases hpc : s.pc with
  | e820MemGetLoop =>
    have hstep : s.step bios = s.e820MemGetLoop bios := by rw [Probe.step, hpc]
    rw [hstep]
    exact e820MemGetLoop_stores bios s hpc a h
  | findMaxMemArea =>
    have hstep : s.step bios = s.findMaxMemArea := by rw [Probe.step, hpc]
    rw [hstep, findMaxMemArea_mem]
  | nextArds =>
    have hstep : s.step bios = s.nextArds := by rw [Probe.step, hpc]
    rw [hstep, nextArds_mem]
  | e820FailedSoTryE801 => rw [e801_mem bios s hpc]
  | e801FailedSoTry88 =>
    have hstep : s.step bios = s.e801FailedSoTry88 bios := by rw [Probe.step, hpc]
    rw [hstep, ah88_mem]
  | memGetOk =>
    rw [Probe.stores, hpc] at h
    rw [Probe.step, hpc]
    exact Bytes.write_out 4 TOTAL_MEM_BYTES s.edx.toNat a s.mem (h (TOTAL_MEM_BYTES, 4) List.mem_cons_self)
  | loaderStart =>
    rw [Probe.step, hpc]
  | errorHlt =>
    rw [Probe.step, hpc]
  | protectedMode =>
    rw [Probe.step, hpc]
  | lost =>
    rw [Probe.step, hpc]

end

/-! ## The run -/

/-- Outside the buffer and its counter, memory is `m`. -/
def RestKept (m : Bytes) (s : Probe) : Prop := ∀ a, a < ARDS_BUF ∨ ARDS_NR + 2 ≤ a → s.mem a = m a

/-- The labels after the loop. -/
def ProbeLabel.leftLoop : ProbeLabel → Bool
  | .loaderStart => false
  | .e820MemGetLoop => false
  | _ => true

section
variable {bios : Bios} {m : Bytes} {k n : Nat} {s : Probe}

theorem RestKept.step (h : RestKept m s) (hst : ∀ w ∈ s.stores bios, BufferStore w) : RestKept m (s.step bios) := by
  intro a ha
  have hnr : ARDS_NR = ARDS_BUF + 244 := rfl
  rw [step_stores bios s a fun w hw => ?_]
  · exact h a ha
  · rcases hst w hw with ⟨h1, h2⟩ | rfl
    · omega
    · show a < ARDS_NR ∨ ARDS_NR + 2 ≤ a
      omega

theorem ite_leftLoop {c : Prop} [Decidable c] {s t : Probe} (hs : s.pc.leftLoop = true)
    (ht : t.pc.leftLoop = true) : (if c then s else t).pc.leftLoop = true := by
  split
  · exact hs
  · exact ht

theorem leftLoop_stays (h : s.pc.leftLoop = true) : (s.step bios).pc.leftLoop = true := by
  cases hpc : s.pc with
  | loaderStart =>
    rw [hpc] at h
    cases h
  | e820MemGetLoop =>
    rw [hpc] at h
    cases h
  | findMaxMemArea =>
    rw [Probe.step, hpc]
    exact ite_leftLoop rfl (ite_leftLoop rfl rfl)
  | nextArds =>
    rw [Probe.step, hpc]
    exact ite_leftLoop rfl rfl
  | e820FailedSoTryE801 =>
    rw [step_e801 bios s hpc]
    exact ite_leftLoop rfl rfl
  | e801FailedSoTry88 =>
    rw [(ah88_halts bios s hpc).1]
    rfl
  | memGetOk =>
    rw [Probe.step, hpc]
    rfl
  | errorHlt =>
    rw [Probe.step, hpc]
    exact h
  | protectedMode =>
    rw [Probe.step, hpc]
    exact h
  | lost =>
    rw [Probe.step, hpc]
    exact h

theorem AtLoop.stores_eq (h : AtLoop m k s) (hcf : (bios.e820 k).1.cf = false) : s.stores bios =
    if InArdsBuf (ARDS_BUF + 20 * k) then [(ARDS_BUF + 20 * k, 20), (ARDS_NR, 2)]
    else [(ARDS_BUF + 20 * k, 20)] := by
  unfold Probe.stores
  rw [h.pc]
  dsimp only
  rw [h.calls, h.di, hcf, if_neg Bool.false_ne_true]

/-- The first twelve entries lie in the buffer. -/
theorem AtLoop.stores_in (h : AtLoop m k s) (hk : k < 12) (hcf : (bios.e820 k).1.cf = false) :
    ∀ w ∈ s.stores bios, BufferStore w := by
  have hin : InArdsBuf (ARDS_BUF + 20 * k) := by
    unfold InArdsBuf ARDS_BUF ARDS_NR
    omega
  rw [h.stores_eq hcf, if_pos hin]
  intro w hw
  rcases List.mem_cons.mp hw with rfl | hw
  · refine .inl ⟨?_, ?_⟩
    · show ARDS_BUF ≤ ARDS_BUF + 20 * k
      omega
    · show ARDS_BUF + 20 * k + 20 ≤ ARDS_BUF + 244
      omega
  · exact .inr (List.mem_singleton.mp hw)

/-- The thirteenth does not. -/
theorem AtLoop.stores_out (h : AtLoop m 12 s) (hcf : (bios.e820 12).1.cf = false) :
    (ARDS_BUF + 240, 20) ∈ s.stores bios ∧ ¬ BufferStore (ARDS_BUF + 240, 20) := by
  constructor
  · rw [h.stores_eq hcf, if_neg (by decide)]
    exact List.mem_cons_self
  · rintro (⟨-, h2⟩ | h2)
    · exact absurd h2 (by decide)
    · exact absurd h2 (by decide)

theorem AtLoop.step_nr (h : AtLoop m k s) (hk : k < 12) (hcf : (bios.e820 k).1.cf = false) :
    (s.step bios).mem.read 2 ARDS_NR = k + 1 := by
  rw [h.step_answered hk hcf, e820Next_mem]
  dsimp only [Probe.load]
  rw [h.nr_stored hk, Bytes.read_write]
  omega

/-- What the loader overwrites with its thirteenth entry: `ards_nr` is at its bytes 4 and 5, and its last 14
bytes are code. -/
theorem thirteenth_store (h : AtLoop m 12 s) (hcf : (bios.e820 12).1.cf = false) :
    (s.step bios).mem = (bios.e820 12).2.store s.mem (ARDS_NR - 4) := by
  have hout : ¬ InArdsBuf (ARDS_BUF + 20 * 12) := by decide
  rw [h.step_eq]
  unfold Probe.e820MemGetLoop
  rw [int15_e820 bios { s with eax := 0xe820, ecx := 20 } rfl]
  simp only [h.calls, h.di, hcf, Bool.false_eq_true, if_false, hout]
  rfl

theorem Bios.Responds.ebx_ne (hr : bios.Responds n) (hk : k + 1 < n) : (bios.e820 k).1.ebx ≠ 0 := by
  intro h0
  have := (hr.last k (by omega)).mp h0
  omega

/-- The loop comes to every call up to the thirteenth, with the entries before it in the buffer. -/
theorem atLoop_iterate (h : AtStart s) (hr : bios.Responds n) : ∀ k, k < n → k ≤ 12 →
    AtLoop s.mem k ((Probe.step bios)^[k + 1] s) ∧ RestKept s.mem ((Probe.step bios)^[k + 1] s) := by
  intro k
  induction k with
  | zero =>
    intro _ _
    have hpc : s.stores bios = [] := by
      unfold Probe.stores
      rw [h.pc]
    have hkept : RestKept s.mem s := fun a _ => rfl
    exact ⟨loaderStart_atLoop h.pc h.calls h.nr, hkept.step fun w hw => by rw [hpc] at hw; cases hw⟩
  | succ k ih =>
    intro hk hle
    obtain ⟨hloop, hkept⟩ := ih (by omega) (by omega)
    have hcf := hr.cf k (by omega)
    rw [Function.iterate_succ_apply']
    exact ⟨(hloop.answered (by omega) hcf (hr.size k (by omega))).1 (hr.ebx_ne hk),
      hkept.step (hloop.stores_in (by omega) hcf)⟩

/-- The last of at most twelve calls. -/
theorem scan_iterate (h : AtStart s) (h1 : 1 ≤ n) (h12 : n ≤ 12) (hr : bios.Responds n) :
    ((Probe.step bios)^[n + 1] s).pc = .findMaxMemArea ∧
      ((Probe.step bios)^[n + 1] s).mem.read 2 ARDS_NR = n ∧ RestKept s.mem ((Probe.step bios)^[n + 1] s) := by
  obtain ⟨k, rfl⟩ := Nat.exists_eq_add_of_le' h1
  obtain ⟨hloop, hkept⟩ := atLoop_iterate h hr k (by omega) (by omega)
  have hcf := hr.cf k (by omega)
  have hlast := (hr.last k (by omega)).mpr rfl
  rw [Function.iterate_succ_apply']
  exact ⟨((hloop.answered (by omega) hcf (hr.size k (by omega))).2 hlast).pc, hloop.step_nr (by omega) hcf,
    hkept.step (hloop.stores_in (by omega) hcf)⟩

end

/-- **The loop stays in its buffer** exactly when the firmware has at most twelve entries to give. -/
theorem staysInBuffer_iff (bios : Bios) (s : Probe) (n : Nat) (h : AtStart s) (h1 : 1 ≤ n) (hr : bios.Responds n) :
    StaysInBuffer bios s n ↔ n ≤ 12 := by
  constructor
  · intro hstays
    by_contra hmore
    obtain ⟨hloop, -⟩ := atLoop_iterate h hr 12 (by omega) (by omega)
    obtain ⟨hmem, hout⟩ := hloop.stores_out (hr.cf 12 (by omega))
    exact hout (hstays.stores 13 hloop.pc _ hmem)
  · intro h12
    obtain ⟨hpc, hnr, hkept⟩ := scan_iterate h h1 h12 hr
    refine ⟨fun j hj => ?_, ⟨n + 1, hpc, hnr, hkept⟩⟩
    have hleft : ((Probe.step bios)^[n + 1] s).pc.leftLoop = true := by
      rw [hpc]
      rfl
    cases j with
    | zero =>
      have hstart : s.pc = .e820MemGetLoop := hj
      rw [h.pc] at hstart
      cases hstart
    | succ k =>
      by_cases hk : k < n
      · exact (atLoop_iterate h hr k hk (by omega)).1.stores_in (by omega) (hr.cf k hk)
      · have hstay := Reaches.stays (P := fun t : Probe => t.pc.leftLoop = true) (fun t ht => leftLoop_stays ht) hleft
          (show n + 1 ≤ k + 1 by omega)
        rw [hj] at hstay
        cases hstay

theorem mapBios_responds (es : List Ards) : (mapBios es).Responds es.length where
  cf := (mapBios_returns es).cf
  size k hk := mapBios_entries20 es k ((mapBios_returns es).cf k hk)
  last := (mapBios_returns es).last

/-- Twelve areas of 1 MB. -/
theorem staysInBuffer_twelve :
    StaysInBuffer (mapBios (List.replicate 12 ⟨0, 0, 0x100000, 0, 1⟩)) zeroedStart 12 :=
  (staysInBuffer_iff _ zeroedStart 12 zeroedStart_atStart (by decide) (mapBios_responds _)).mpr (by decide)

/-- One more, and the loop leaves its buffer. -/
theorem staysInBuffer_thirteen : ¬ ∀ (bios : Bios) (s : Probe) (n : Nat), AtStart s → 1 ≤ n → bios.Responds n →
    StaysInBuffer bios s n := by
  intro hall
  have hr := mapBios_responds (List.replicate 13 ⟨0, 0, 0x100000, 0, 1⟩)
  have hstays := hall _ zeroedStart 13 zeroedStart_atStart (by decide) hr
  obtain ⟨hloop, -⟩ := atLoop_iterate zeroedStart_atStart hr 12 (by decide) (by decide)
  obtain ⟨hmem, hout⟩ := hloop.stores_out (hr.cf 12 (by decide))
  exact hout (hstays.stores 13 hloop.pc _ hmem)

end MyOs
