import MyOs.Thread.Switch

/-!
# userprog/process.c: where start_process builds the user context

`thread_create` leaves an area for `struct intr_stack` at the top of the PCB page and `self_kstack` below
it; `start_process` finds the area again by adding to `self_kstack`.  In between `switch_to` uses the same
field for the stack pointer of a thread that leaves the CPU.

    startProcess_inPlace_iff    the area is found exactly when the process was not switched out before
-/

namespace MyOs

/-- The `proc_stack` that `start_process` computes next. -/
def procStackOf (s : Threads) : Nat := ptrAdd (s.cpu.mem s.cur) sizeofThreadStack

/-- The area reserved for `struct intr_stack` is the one used: it starts where `thread_create` put it, ends
inside the page, and lies above the frames of `kernel_thread` and everything it calls. -/
def ContextInPlace (pthread procStack : Nat) : Prop :=
  procStack = pthread + 4096 - 4 * sizeofIntrStack ∧ procStack + sizeofIntrStack ≤ pthread + 4096 ∧
    firstFrame pthread + sizeofThreadStack ≤ procStack

/-- What the kernel's code keeps to until `start_process` has run: only `switch_to`, `thread_create` and
`start_process` write `self_kstack`; a thread entered at `kernel_thread` has its frames below the stack
pointer it entered with; and `start_process` runs once, in a thread that was created. -/
def KernelStep (main : Nat) (s : Threads) (e : SwitchEvent) : Prop :=
  e.Allowed s ∧ match e with
  | .work m => ∀ t ∈ s.threads, m.mem t = s.cpu.mem t
  | .threadStart .. => True
  | .processExecute .. => True
  | .switchTo _ => s.cur ≠ main → s.procStack s.cur = none → s.cpu.esp + 12 ≤ firstFrame s.cur + 20
  | .startProcess => s.cur ≠ main ∧ s.procStack s.cur = none

/-- The two roles of `self_kstack`. -/
def KStack (mem : Nat → Nat) (t : Nat) : Option Saved → Prop
  | some (.fresh _ _) => mem t = firstFrame t
  | some (.called c) => mem t = c.esp - 16 ∧ t + sizeofTaskStruct + 16 ≤ c.esp ∧
      c.esp + 12 ≤ firstFrame t + 20
  | none => False

structure StartInv (kernelThread main : Nat) (s : Threads) : Prop where
  switch : SwitchInv kernelThread s
  kstack : ∀ t ∈ s.threads, t ≠ main → s.procStack t = none → KStack s.cpu.mem t (s.saved t)
  procStack : ∀ t, t ∉ s.threads → s.procStack t = none

theorem StartInv.addThread {kernelThread main : Nat} {s : Threads} (h : StartInv kernelThread main s)
    (p function funcArg : Nat) (hp : FreshPcb s p) (mem : Nat → Nat)
    (hf : FirstFrame kernelThread mem p function funcArg)
    (hm : ∀ a, a < p ∨ p + 4096 ≤ a → mem a = s.cpu.mem a) :
    StartInv kernelThread main { s with
      cpu := { s.cpu with mem := mem }
      threads := p :: s.threads
      saved := Function.update s.saved p (some (.fresh function funcArg)) } where
  switch := h.switch.addThread p function funcArg hp mem hf hm
  kstack t ht hne hps := by
    rcases List.mem_cons.mp ht with rfl | ht
    · simp only [Function.update_self]
      exact hf.kstack
    · have htp : t ≠ p := fun e => hp.2.2 (e ▸ ht)
      have hk := h.kstack t ht hne hps
      have hw : mem t = s.cpu.mem t :=
        hm t (pcb_disjoint t p t (h.switch.page t ht).1 hp.1 htp (Or.inl rfl))
      simp only [Function.update_of_ne htp]
      unfold KStack at hk ⊢
      rw [hw]
      exact hk
  procStack t ht := h.procStack t (fun hin => ht (List.mem_cons_of_mem _ hin))

theorem StartInv.step {kernelThread main : Nat} {s : Threads} (h : StartInv kernelThread main s)
    (e : SwitchEvent) (ha : KernelStep main s e) (s' : Threads)
    (hs : s.step kernelThread e = .ok s') : StartInv kernelThread main s' := by
  have hsw := h.switch.step e ha.1 s' hs
  cases e with
  | work m =>
    obtain rfl := Except.ok.inj hs
    refine ⟨hsw, fun t ht hne hps => ?_, h.procStack⟩
    have hk := h.kstack t ht hne hps
    unfold KStack at hk ⊢
    simp only [ha.2 t ht]
    exact hk
  | threadStart p info function funcArg =>
    obtain rfl := Except.ok.inj hs
    obtain ⟨hf, ho⟩ := threadStart_frame kernelThread s.cpu.mem p info function funcArg ha.1.2.1
    exact h.addThread p function funcArg ha.1 _ hf ho
  | processExecute p info startProcess filename pgdir va =>
    obtain rfl := Except.ok.inj hs
    obtain ⟨hf, ho⟩ := processPcb_frame kernelThread s.cpu.mem p info startProcess filename pgdir va
      ha.1.2.1
    exact h.addThread p startProcess filename ha.1 _ hf ho
  | switchTo next =>
    obtain ⟨⟨hn, hc⟩, hstack⟩ := ha
    obtain rfl := Except.ok.inj hs
    refine ⟨hsw, fun t ht hne hps => ?_, h.procStack⟩
    have hcb := (h.switch.page s.cur h.switch.cur).2
    simp only [switchTo_mem s.cpu s.cur next hcb hc]
    by_cases htc : t = s.cur
    · subst htc
      simp only [Function.update_self]
      have hsv := switchMem_saved kernelThread s.cpu s.cur next hc
      exact ⟨hsv.2.1, hsv.1.1, hstack hne hps⟩
    · have hk := h.kstack t ht hne hps
      have hw : switchMem s.cpu s.cur t = s.cpu.mem t :=
        switchMem_other s.cpu s.cur next hc t (pcb_disjoint t s.cur t (h.switch.page t ht).1
          (h.switch.page s.cur h.switch.cur).1 htc (Or.inl rfl))
      simp only [Function.update_of_ne htc]
      unfold KStack at hk ⊢
      rw [hw]
      exact hk
  | startProcess =>
    obtain rfl := Except.ok.inj hs
    refine ⟨hsw, fun t ht hne hps => ?_, fun t ht => ?_⟩
    · by_cases htc : t = s.cur
      · subst htc
        simp only [Function.update_self] at hps
        cases hps
      · simp only [Function.update_of_ne htc] at hps
        have hk := h.kstack t ht hne hps
        unfold KStack at hk ⊢
        simp only [Cpu.store, Function.update_of_ne htc]
        exact hk
    · have htc : t ≠ s.cur := fun e => ht (e ▸ h.switch.cur)
      simp only [Function.update_of_ne htc]
      exact h.procStack t ht

theorem StartInv.boot (kernelThread : Nat) (m : Cpu) (main : Nat) (h1 : main % 4096 = 0)
    (h2 : main + 4096 ≤ 2 ^ 32) : StartInv kernelThread main (bootThreads m main) where
  switch := SwitchInv.boot m main h1 h2
  kstack t ht hne := by
    simp only [bootThreads, List.mem_singleton] at ht
    exact absurd ht hne
  procStack _ _ := rfl

/-- Where `start_process` looks for the area, by how the process last left the CPU. -/
theorem StartInv.inPlace_iff {kernelThread main : Nat} {s : Threads} (h : StartInv kernelThread main s)
    (hne : s.cur ≠ main) (hps : s.procStack s.cur = none) :
    ContextInPlace s.cur (procStackOf s) ↔ ∃ function funcArg,
      s.saved s.cur = some (.fresh function funcArg) := by
  have hk := h.kstack s.cur h.switch.cur hne hps
  have hb := (h.switch.page s.cur h.switch.cur).2
  unfold ContextInPlace procStackOf ptrAdd
  cases hs : s.saved s.cur with
  | none =>
    rw [hs] at hk
    exact absurd hk id
  | some sv =>
    rw [hs] at hk
    cases sv with
    | fresh function funcArg =>
      constructor
      · intro _
        exact ⟨function, funcArg, rfl⟩
      · intro _
        rw [show s.cpu.mem s.cur = s.cur + 3664 from (show _ = firstFrame s.cur from hk).trans
          (firstFrame_eq _), firstFrame_eq]
        unfold sizeofThreadStack sizeofIntrStack
        omega
    | called c =>
      obtain ⟨hm, hlow, hhigh⟩ := hk
      constructor
      · rintro ⟨he, -⟩
        -- the frames of a thread that has been running lie below the area of the first frame
        rw [hm] at he
        rw [firstFrame_eq] at hhigh
        unfold sizeofTaskStruct at hlow
        unfold sizeofThreadStack sizeofIntrStack at he
        omega
      · rintro ⟨function, funcArg, he⟩
        cases he

/-- **Where `start_process` builds the user context.**  In every run, it is the area `thread_create`
reserved exactly when the process was never switched out after its first switch in. -/
theorem startProcess_inPlace_iff (kernelThread : Nat) (m : Cpu) (main : Nat) (h1 : main % 4096 = 0)
    (h2 : main + 4096 ≤ 2 ^ 32) (es : List SwitchEvent) (s : Threads)
    (hr : Runs (Threads.step kernelThread) (KernelStep main) (bootThreads m main) es s)
    (ha : KernelStep main s .startProcess) :
    ContextInPlace s.cur (procStackOf s) ↔ ∃ function funcArg,
      s.saved s.cur = some (.fresh function funcArg) := by
  have hinv : StartInv kernelThread main s :=
    Runs.invariant (StartInv kernelThread main) (fun s e s' h ha hs => h.step e ha s' hs) es _ s
      (StartInv.boot kernelThread m main h1 h2) hr
  exact hinv.inPlace_iff ha.2.1 ha.2.2

/-! ## A process that is preempted early -/

/-- In every state, the running thread can be switched out in favour of any other. -/
theorem StartInv.switch_runs {kernelThread main : Nat} {s : Threads} (h : StartInv kernelThread main s)
    (next : Nat) (hn : next ∈ s.threads) :
    ∃ s', Runs (Threads.step kernelThread) (KernelStep main) s
      [.work (callSwitch s.cpu s.cur next), .switchTo next] s' ∧ StartInv kernelThread main s' ∧
      s'.cur = next ∧ s'.threads = s.threads ∧ s'.procStack = s.procStack ∧
      s'.saved = Function.update s.saved s.cur (some (.called (callSwitch s.cpu s.cur next))) := by
  have hp := (h.switch.page s.cur h.switch.cur).1
  have hwork : KernelStep main s (.work (callSwitch s.cpu s.cur next)) := by
    refine ⟨h.switch.callSwitch_allowed next, fun t ht => ?_⟩
    have := (h.switch.page t ht).1
    exact callSwitch_other s.cpu s.cur next t (by omega)
  have h1 := h.step _ hwork _ rfl
  have hsw : KernelStep main { s with cpu := callSwitch s.cpu s.cur next } (.switchTo next) := by
    refine ⟨⟨hn, callSwitch_calls s.cpu s.cur next hp⟩, fun _ _ => ?_⟩
    simp only [callSwitch]
    rw [firstFrame_eq]
    omega
  have h2 := h1.step _ hsw _ rfl
  exact ⟨_, ⟨hwork, _, rfl, hsw, _, rfl, rfl⟩, h2, rfl, rfl, rfl, rfl⟩

/-- A process is created and switched in. -/
theorem newProcess_switched : ∃ es s, Runs (Threads.step 0xc0001500) (KernelStep 0xc009e000)
    (bootThreads zeroCpu 0xc009e000) es s ∧ StartInv 0xc0001500 0xc009e000 s ∧ s.cur = 0xc0100000 ∧
    s.threads = [0xc0100000, 0xc009e000] ∧ s.procStack = (fun _ => none) ∧
    s.saved 0xc0100000 = some (.fresh 0xc0003000 0x8048000) := by
  have h0 := StartInv.boot 0xc0001500 zeroCpu 0xc009e000 (by decide) (by decide)
  have hnew : KernelStep 0xc009e000 (bootThreads zeroCpu 0xc009e000) (.processExecute 0xc0100000
      ⟨1, fun _ => 0, 31, false⟩ 0xc0003000 0x8048000 0xc0118000 fun _ => 0) :=
    ⟨⟨by decide, by decide, by decide⟩, trivial⟩
  obtain ⟨s1, hs1⟩ : ∃ s1, (bootThreads zeroCpu 0xc009e000).step 0xc0001500 (.processExecute 0xc0100000
      ⟨1, fun _ => 0, 31, false⟩ 0xc0003000 0x8048000 0xc0118000 fun _ => 0) = .ok s1 := ⟨_, rfl⟩
  have h1 := h0.step _ hnew s1 hs1
  obtain rfl := Except.ok.inj hs1
  obtain ⟨s2, hr2, h2, hcur, hth, hps, hsv⟩ := h1.switch_runs 0xc0100000 List.mem_cons_self
  refine ⟨_, s2, Runs.cons hnew rfl hr2, h2, hcur, hth, hps, ?_⟩
  rw [hsv]
  rfl

/-- A process that nobody preempts builds its context in place. -/
theorem startProcess_inPlace_iff_fresh : ∃ s : Threads, s.cur = 0xc0100000 ∧
    ContextInPlace s.cur (procStackOf s) := by
  obtain ⟨es, s, hr, -, hcur, -, hps, hsv⟩ := newProcess_switched
  refine ⟨s, hcur, ?_⟩
  rw [startProcess_inPlace_iff 0xc0001500 zeroCpu 0xc009e000 (by decide) (by decide) es s hr
    ⟨trivial, by rw [hcur]; decide, by rw [hps]⟩, hcur]
  exact ⟨_, _, hsv⟩

/-- One timer tick between `kernel_thread` and `start_process` is enough: the process is switched out and
back in, and the user context is not built where it belongs. -/
theorem startProcess_preempted : ∃ es s, Runs (Threads.step 0xc0001500) (KernelStep 0xc009e000)
    (bootThreads zeroCpu 0xc009e000) es s ∧ KernelStep 0xc009e000 s .startProcess ∧
    ¬ ContextInPlace s.cur (procStackOf s) := by
  obtain ⟨es, s, hr, h, hcur, hth, hps, -⟩ := newProcess_switched
  obtain ⟨s1, hr1, h1, hcur1, hth1, hps1, hsv1⟩ := h.switch_runs 0xc009e000 (by rw [hth]; decide)
  obtain ⟨s2, hr2, h2, hcur2, hth2, hps2, hsv2⟩ := h1.switch_runs 0xc0100000 (by rw [hth1, hth]; decide)
  have hne : s2.cur ≠ 0xc009e000 := by rw [hcur2]; decide
  have hnone : s2.procStack s2.cur = none := by rw [hps2, hps1, hps]
  refine ⟨_, s2, (Runs.append _ _ _ _).mpr ⟨s, hr, (Runs.append _ _ _ _).mpr ⟨s1, hr1, hr2⟩⟩,
    ⟨trivial, hne, hnone⟩, fun hin => ?_⟩
  obtain ⟨function, funcArg, hf⟩ := (h2.inPlace_iff hne hnone).mp hin
  rw [hcur2, hsv2, hcur1, Function.update_of_ne (by decide), hsv1, hcur, Function.update_self] at hf
  cases hf

end MyOs
