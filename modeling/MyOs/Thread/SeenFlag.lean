import MyOs.Thread.Asserts

/-!
# The interrupt flag a thread sees

In the kernel's machine a suspended thread has its flag in the locals of `sema_down` and `thread_block`, in the
frame of its interrupt, or gets it from `kernel_thread`.  `seen` is that flag, and the CPU's for the running
thread.  It changes only when the thread itself calls `intr_enable` or `intr_disable`, so no call of the
machine, however often it blocks, returns with another flag than it was called with (`call_keeps_flag`).
-/

namespace MyOs

/-- The flag a thread with call stack `c` will see in its own function, when the CPU's is `intr`. -/
def Ctx.seen (c : Ctx) (intr : Bool) : Bool :=
  match c.sema, c.resume with
  | some (_, old), _ => old
  | none, some r => r.intr
  | none, none => intr

/-- What a suspended thread will see does not depend on the CPU's flag. -/
theorem Ctx.seen_congr {c : Ctx} {b b' : Bool} (h : c.resume ≠ none) : c.seen b = c.seen b' := by
  unfold Ctx.seen
  cases hs : c.sema with
  | some p => rfl
  | none =>
    cases hr : c.resume with
    | some r => rfl
    | none => exact absurd hr h

namespace Kernel

variable {k k' : Kernel} {l : LockId} {c : Ctx}

def seen (k : Kernel) (t : Tid) : Bool := (k.ctx t).seen k.intr

/-- A thread without the CPU was switched out, and the flag is off until it goes on. -/
structure SwitchedOut (k : Kernel) : Prop where
  others : ∀ t, t ≠ k.cur → (k.ctx t).resume ≠ none
  here : k.here.resume ≠ none → k.intr = false

/-- What a step does to the running thread: it sees the same flag after it, and keeps the CPU or is switched
out. -/
structure KeepsOwn (k k' : Kernel) : Prop where
  seen : (k'.ctx k.cur).seen k'.intr = k.here.seen k.intr
  out : k'.cur = k.cur ∧ (k'.here.resume ≠ none → k'.intr = false) ∨
    (k'.ctx k.cur).resume ≠ none ∧ k'.intr = false

theorem KeepsOwn.same (h : SwitchedOut k) (hctx : k'.ctx k.cur = c) (hintr : k'.intr = k.intr)
    (hcur : k'.cur = k.cur) (hsema : c.sema = k.here.sema) (hresume : c.resume = k.here.resume) :
    KeepsOwn k k' := by
  refine ⟨?_, .inl ⟨hcur, ?_⟩⟩
  · rw [hctx, hintr]
    unfold Ctx.seen
    rw [hsema, hresume]
  · intro hr
    rw [hintr]
    refine h.here ?_
    rw [show k'.here = c by unfold here; rw [hcur, hctx], hresume] at hr
    exact hr

/-- The thread is switched out, with the flag it sees in a frame of its own. -/
theorem KeepsOwn.block {k1 : Kernel} (hs : schedule k1 = .ok k') (hctx : k1.ctx k.cur = c)
    (hresume : c.resume ≠ none) (hseen : c.seen false = k.here.seen k.intr) : KeepsOwn k k' := by
  have hframe := schedule_frame hs
  have hintr : k'.intr = false := by
    rw [hframe]
    exact (schedule_ok hs).1
  have hctx' : k'.ctx k.cur = c := by
    rw [hframe]
    exact hctx
  refine ⟨?_, .inr ⟨?_, hintr⟩⟩
  · rw [hctx', hintr]
    exact hseen
  · rw [hctx']
    exact hresume

theorem semaDownLoop_own {k1 : Kernel} {old : Bool} (h : semaDownLoop k1 l old = .ok k')
    (hctx : k1.ctx = k.ctx) (hcur : k1.cur = k.cur) (hresume : k.here.resume = none)
    (hold : old = k.here.seen k.intr) : KeepsOwn k k' := by
  have hhere : k1.here = k.here := by
    unfold here
    rw [hctx, hcur]
  rcases semaDownLoop_ok h with ⟨-, -, hs⟩ | ⟨-, rfl⟩
  · refine .block (c := { k.here with sema := some (l, old), resume := some (.threadBlock k1.intr) }) hs ?_
      (by simp) hold
    rw [← hcur, ← hhere]
    simp [blocking, enqueue, retested, setHere, here, setSema, setLock, setStatus]
  · have hx : ((k1.retested l).takeSema l old).ctx k.cur = k.here.semaReturn := by
      rw [← hcur, ← hhere]
      exact Function.update_self _ _ _
    have hseen : k.here.semaReturn.seen old = old := by simp [Ctx.seen, Ctx.semaReturn, hresume]
    refine ⟨?_, .inl ⟨hcur, ?_⟩⟩
    · rw [hx]
      exact hseen.trans hold
    · intro hr
      rw [show ((k1.retested l).takeSema l old).here = _ from (congrArg _ hcur).trans hx] at hr
      exact absurd hresume hr

theorem semaUp_intr (h : semaUp k l = .ok k') : k'.intr = k.intr := (semaUp_frame h).1

theorem wakeupIfAny_intr {q : IoqId} {side : Side} (h : wakeupIfAny k q side = .ok k') : k'.intr = k.intr := by
  rcases wakeupIfAny_ok h with rfl | ⟨t, -, -, rfl⟩
  · rfl
  · rfl

theorem ioqWait_own {q : IoqId} {side : Side} {op : Op}
    (h : ioqWait (k.setHere { k.here with op := op }) q side = .ok k') (hresume : k.here.resume = none)
    (hsema : k.here.sema = none) : KeepsOwn k k' := by
  obtain ⟨-, hs⟩ := ioqWait_ok h
  refine .block (c := { k.here with op := op, resume := some (.threadBlock k.intr) }) hs ?_ (by simp) ?_
  · simp [blocking, setHere, here, setIoq, setStatus]
  · simp [Ctx.seen, hsema, hresume, Resume.intr]

/-- **What a step does to the flag the running thread sees.** -/
theorem trans_own {e : Event} (hq : Queues k) (ht : ThreadInv k) (h : SwitchedOut k) (he : e ≠ .call .intrEnable)
    (hd : e ≠ .call .intrDisable) (hs : Trans k e k') : KeepsOwn k k' := by
  have hat : ∀ {op : Op}, k.At op → k.here.resume = none ∧ k.here.sema = none :=
    fun ha => ⟨congrArg Ctx.resume ha, congrArg Ctx.sema ha⟩
  cases hs with
  | tick => exact .same (c := k.here) h rfl rfl rfl rfl rfl
  | preempt _ hi hs =>
    -- the flag is on, so the thread has not just been switched in
    have hr : k.here.resume = none := by
      by_contra hr
      rw [h.here hr] at hi
      cases hi
    refine .block (c := { k.here with resume := some .intrExit }) hs (Function.update_self _ _ _) (by simp) ?_
    unfold Ctx.seen
    cases hsema : k.here.sema <;> simp [hr, hi, Resume.intr]
  | keyLost => exact .same (c := k.here) h rfl rfl rfl rfl rfl
  | key q byte k1 hi _ hp =>
    exact .same (c := k.here) h (congrFun (wakeupIfAny_ctx hp).1 k.cur) hi.symm (wakeupIfAny_ctx hp).2 rfl rfl
  | intrEnable => exact absurd rfl he
  | intrDisable => exact absurd rfl hd
  | callDown l _ ha hd =>
    obtain ⟨hr, hsema⟩ := hat ha
    refine semaDownLoop_own hd rfl rfl hr ?_
    simp [Ctx.seen, hr, hsema]
  | callUp l _ ha hu =>
    exact .same (c := k.here) h (by rw [(semaUp_ctx hu).1]; rfl) (semaUp_intr hu) (semaUp_ctx hu).2 rfl rfl
  | resume r hr =>
    have hx : (k.setHere { k.here with resume := none }).ctx k.cur = { k.here with resume := none } :=
      Function.update_self _ _ _
    refine ⟨?_, .inl ⟨rfl, fun hne => absurd (congrArg Ctx.resume hx) hne⟩⟩
    show ((k.setHere { k.here with resume := none }).ctx k.cur).seen r.intr = _
    rw [hx]
    unfold Ctx.seen
    cases hsema : k.here.sema <;> simp [hr]
  | redown l old _ hr hsema hd => exact semaDownLoop_own hd rfl rfl hr (by simp [Ctx.seen, hsema])
  | lockDown l _ hr hsema _ hd => exact semaDownLoop_own hd rfl rfl hr (by simp [Ctx.seen, hr, hsema])
  | lockUp l _ _ _ _ hu =>
    have hintr := semaUp_intr hu
    refine .same (c := { k.here with lock := none }) h ?_ hintr (semaUp_ctx hu).2 rfl rfl
    rw [(semaUp_ctx hu).1]
    exact Function.update_self _ _ _
  | get q _ ha _ _ hb =>
    have hintr := wakeupIfAny_intr hb
    refine .same (c := { k.here with op := .idle }) h ?_ hintr (wakeupIfAny_ctx hb).2 rfl rfl
    rw [(wakeupIfAny_ctx hb).1]
    exact Function.update_self _ _ _
  | put q byte _ ha _ _ hb =>
    have hintr := wakeupIfAny_intr hb
    refine .same (c := { k.here with op := .idle }) h ?_ hintr (wakeupIfAny_ctx hb).2 rfl rfl
    rw [(wakeupIfAny_ctx hb).1]
    exact Function.update_self _ _ _
  | getWait q _ ha hw => exact ioqWait_own hw (hat ha).1 (hat ha).2
  | putWait q byte _ ha hw => exact ioqWait_own hw (hat ha).1 (hat ha).2
  | pidReturn n ha =>
    exact .same h (pidReturn_here hq ht ha) rfl rfl rfl rfl
  | _ => exact .same h (Function.update_self _ _ _) rfl rfl rfl rfl

theorem trans_switchedOut {e : Event} (hq : Queues k) (ht : ThreadInv k) (h : SwitchedOut k) (hs : Trans k e k') :
    SwitchedOut k' := by
  -- a thread that sets its flag itself is in its own function
  have hset : ∀ b, k.At .idle → SwitchedOut { k with intr := b } := by
    intro b ha
    refine ⟨h.others, fun hr => absurd ?_ hr⟩
    exact congrArg Ctx.resume ha
  by_cases he : e = .call .intrEnable
  · subst he
    cases hs with
    | intrEnable ha => exact hset true ha
  by_cases hd : e = .call .intrDisable
  · subst hd
    cases hs with
    | intrDisable ha => exact hset false ha
  have hown := trans_own hq ht h he hd hs
  constructor
  · intro t hne
    by_cases hc : t = k.cur
    · subst hc
      rcases hown.out with ⟨hcur, -⟩ | ⟨hr, -⟩
      · exact absurd hcur.symm hne
      · exact hr
    · rw [trans_ctx ht hs hc]
      exact h.others t hc
  · intro hr
    rcases hown.out with ⟨-, hi⟩ | ⟨-, hi⟩
    · exact hi hr
    · exact hi

/-- Thread `t` does not call `intr_enable` or `intr_disable` from its own function. -/
def LeavesFlag (t : Tid) (k : Kernel) (e : Event) : Prop :=
  k.cur = t → e ≠ .call .intrEnable ∧ e ≠ .call .intrDisable

instance (t : Tid) (k : Kernel) (e : Event) : Decidable (LeavesFlag t k e) :=
  inferInstanceAs (Decidable (_ → _ ∧ _))

theorem trans_seen {e : Event} {t : Tid} (hq : Queues k) (ht : ThreadInv k) (h : SwitchedOut k)
    (hg : LeavesFlag t k e) (hs : Trans k e k') : k'.seen t = k.seen t := by
  by_cases hc : t = k.cur
  · subst hc
    obtain ⟨he, hd⟩ := hg rfl
    exact (trans_own hq ht h he hd hs).seen
  · unfold seen
    rw [trans_ctx ht hs hc]
    exact Ctx.seen_congr (h.others t hc)

theorem boot_switchedOut (mainThread : Tid) (value : LockId → Nat) : SwitchedOut (boot mainThread value) := by
  constructor
  · intro t ht
    have hne : t ≠ mainThread := ht
    simp [boot, hne, Ctx.new]
  · intro _
    rfl

/-- What the result needs of a state. -/
structure FlagInv (k : Kernel) : Prop where
  queues : Queues k
  threads : ThreadInv k
  out : SwitchedOut k

theorem FlagInv.step {e : Event} (h : FlagInv k) (hs : k.step e = .ok k') : FlagInv k' := by
  have htr := step_trans hs
  exact ⟨step_queues h.queues h.threads htr, step_threads h.queues h.threads htr,
    trans_switchedOut h.queues h.threads h.out htr⟩

theorem run_flagInv {mainThread : Tid} {value : LockId → Nat} {G : Kernel → Event → Prop} {es : List Event}
    (hr : Runs step G (boot mainThread value) es k) : FlagInv k := by
  refine Runs.invariant FlagInv ?_ es _ k
    ⟨boot_queues mainThread value, boot_threads mainThread value, boot_switchedOut mainThread value⟩ hr
  intro k1 e k2 h _ hs
  exact h.step hs

theorem seen_of_idle {t : Tid} (hcur : k.cur = t) (ha : k.At .idle) : k.seen t = k.intr := by
  subst hcur
  show k.here.seen k.intr = k.intr
  rw [show k.here = _ from ha]
  rfl

/-- **A call does not change the flag of its caller**, whatever the other threads and the interrupts do before
it returns. -/
theorem call_keeps_flag (mainThread t : Tid) (value : LockId → Nat) (es calls : List Event) (k k' : Kernel)
    (hr : Runs step Free (boot mainThread value) es k) (hcalls : Runs step (LeavesFlag t) k calls k')
    (hcur : k.cur = t) (ha : k.At .idle) (hcur' : k'.cur = t) (ha' : k'.At .idle) : k'.intr = k.intr := by
  have hinv : FlagInv k' ∧ k'.seen t = k.seen t := by
    refine Runs.invariant (fun k1 => FlagInv k1 ∧ k1.seen t = k.seen t) ?_ calls k k' ⟨run_flagInv hr, rfl⟩ hcalls
    intro k1 e k2 h hg hs
    obtain ⟨hi, he⟩ := h
    exact ⟨hi.step hs, (trans_seen hi.queues hi.threads hi.out hg (step_trans hs)).trans he⟩
  calc k'.intr = k'.seen t := (seen_of_idle hcur' ha').symm
    _ = k.seen t := hinv.2
    _ = k.intr := seen_of_idle hcur ha

end Kernel

end MyOs
