import MyOs.Thread.Machine

/-!
# Sleeping on an ioqueue

`ioq_getchar` tests the queue, then takes the lock, then sleeps.  From the test to the sleep interrupts are
off, so nothing comes between, unless `lock_acquire` blocks: then other threads run, and the test the
thread made is old.  `FreshTest` says that whoever blocked there gets the lock only while its test would
still come out the same; in runs with that, nobody sleeps on a queue that is not empty, or not full
(`sleeps_empty_full`).  `sleeps_on_nonempty` is a run without it: two readers of one queue and two key presses.
-/

namespace MyOs

/-- In `ioq_getchar` or `ioq_putchar`. -/
def Op.inIoq : Op → Bool
  | .ioqGetchar _ _ | .ioqPutchar _ _ _ => true
  | _ => false

/-- Between the test of the loop and `ioq_wait`. -/
def Op.isWait : Op → Bool
  | .ioqGetchar _ .wait | .ioqPutchar _ _ .wait => true
  | _ => false

/-- Switched out inside `ioq_getchar` or `ioq_putchar`: in `thread_block`, and on the way to `ioq_wait`
only from `sema_down`. -/
structure Parked (c : Ctx) : Prop where
  resume : c.resume = some (.threadBlock false)
  sema : ∀ l old, c.sema = some (l, old) → old = false
  wait : c.op.isWait = true → c.sema ≠ none

/-- Running inside `ioq_getchar` or `ioq_putchar`. -/
structure Active (c : Ctx) : Prop where
  resume : c.resume = none
  sema : ∀ l old, c.sema = some (l, old) → old = false

/-- The test a thread made on its way to `ioq_wait` still comes out the same. -/
def Kernel.testHolds (k : Kernel) : Op → Bool
  | .ioqGetchar q .wait => (k.ioq q).empty
  | .ioqPutchar q _ .wait => (k.ioq q).full
  | _ => true

/-- Threads in the two functions keep interrupts off, and leave the CPU only through `thread_block`. -/
structure ParkInv (k : Kernel) : Prop where
  others : ∀ t, t ≠ k.cur → (k.ctx t).op.inIoq = true → Parked (k.ctx t)
  here : k.here.op.inIoq = true → k.intr = false ∧ (Parked k.here ∨ Active k.here)

structure SleepInv (k : Kernel) : Prop where
  others : ∀ t, t ≠ k.cur → (k.ctx t).op.inIoq = true → Parked (k.ctx t)
  here : k.here.op.inIoq = true → k.intr = false ∧ (Parked k.here ∨ Active k.here)
  test : k.here.resume = none → k.here.sema = none → k.testHolds k.here.op = true

/-- `FreshTest`, computed: in the loop of `sema_down`, with the value there to be taken, the test holds. -/
def Kernel.freshTest (k : Kernel) (e : Event) : Bool :=
  match e, k.here.resume, k.here.sema with
  | .step, none, some (l, _) => k.value l = 0 || k.testHolds k.here.op
  | _, _, _ => true

/-- Whoever blocked in `lock_acquire(&ioq->lock)` gets the lock only while its test still holds. -/
def FreshTest (k : Kernel) (e : Event) : Prop := k.freshTest e = true

theorem Op.isWait_of_not_inIoq {op : Op} (h : op.inIoq = false) : op.isWait = false := by
  cases op with
  | ioqGetchar => cases h
  | ioqPutchar => cases h
  | _ => rfl

/-- After `lock_release` comes the test. -/
theorem Op.releases_ioq {op op' : Op} {l : LockId} (h : op.releases = some (l, op')) :
    op'.isWait = false ∧ (op'.inIoq = true → op.inIoq = true) := by
  cases op with
  | idle => cases h
  | ioqGetchar q pc =>
    cases pc with
    | release =>
      cases h
      exact ⟨rfl, fun _ => rfl⟩
    | _ => cases h
  | ioqPutchar q byte pc =>
    cases pc with
    | release =>
      cases h
      exact ⟨rfl, fun _ => rfl⟩
    | _ => cases h
  | create n pc =>
    cases pc with
    | pidRelease =>
      cases h
      exact ⟨rfl, fun ht => ht⟩
    | _ => cases h
  | console rest pc =>
    cases pc with
    | release =>
      cases h
      exact ⟨rfl, fun ht => ht⟩
    | _ => cases h

namespace Kernel

variable {k k' k1 : Kernel}

theorem testHolds_of_not_isWait {op : Op} (h : op.isWait = false) : k.testHolds op = true := by
  cases op with
  | ioqGetchar q pc =>
    cases pc with
    | wait => cases h
    | _ => rfl
  | ioqPutchar q byte pc =>
    cases pc with
    | wait => cases h
    | _ => rfl
  | _ => rfl

theorem testHolds_of_not_inIoq {op : Op} (h : op.inIoq = false) : k.testHolds op = true :=
  testHolds_of_not_isWait (Op.isWait_of_not_inIoq h)

theorem testHolds_congr {op : Op} (hi : k'.ioq = k.ioq) : k'.testHolds op = k.testHolds op := by
  unfold testHolds
  rw [hi]

/-- The running thread leaves the CPU with call stack `c`: everybody in the two functions is parked now. -/
theorem schedule_parked {c : Ctx} (h : ParkInv k) (hctx : k1.ctx = Function.update k.ctx k.cur c)
    (hc : c.op.inIoq = true → Parked c) (hs : schedule k1 = .ok k') :
    ∀ t, (k'.ctx t).op.inIoq = true → Parked (k'.ctx t) := by
  have hctx' : k'.ctx = Function.update k.ctx k.cur c := by
    rw [schedule_frame hs]
    exact hctx
  intro t
  rw [hctx']
  by_cases ht : t = k.cur
  · rw [ht, Function.update_self]
    exact hc
  · rw [Function.update_of_ne ht]
    exact h.others t ht

theorem schedule_park {c : Ctx} (h : ParkInv k) (hctx : k1.ctx = Function.update k.ctx k.cur c)
    (hc : c.op.inIoq = true → Parked c) (hs : schedule k1 = .ok k') : ParkInv k' := by
  have hparked := schedule_parked h hctx hc hs
  have hintr : k'.intr = false := by
    rw [schedule_frame hs]
    exact (schedule_ok hs).1
  exact ⟨fun t _ => hparked t, fun ht => ⟨hintr, .inl (hparked _ ht)⟩⟩

/-- The running thread goes on with call stack `c`. -/
theorem own_park {c : Ctx} (h : ParkInv k) (hcur : k'.cur = k.cur)
    (hctx : k'.ctx = Function.update k.ctx k.cur c)
    (hhere : c.op.inIoq = true → k'.intr = false ∧ (Parked c ∨ Active c)) : ParkInv k' := by
  have hc : k'.here = c := by
    show k'.ctx k'.cur = c
    rw [hcur, hctx, Function.update_self]
  refine ⟨?_, ?_⟩
  · intro t ht
    rw [hcur] at ht
    rw [hctx, Function.update_of_ne ht]
    exact h.others t ht
  · rw [hc]
    exact hhere

/-- The running thread has left, or never entered, the two functions. -/
theorem outside_park {c : Ctx} (h : ParkInv k) (hcur : k'.cur = k.cur)
    (hctx : k'.ctx = Function.update k.ctx k.cur c) (hc : c.op.inIoq = false) : ParkInv k' := by
  refine own_park h hcur hctx ?_
  intro ht
  rw [hc] at ht
  cases ht

/-- The running thread, not blocked, stays where it is in the two functions. -/
theorem quiet_park {c : Ctx} (h : ParkInv k) (hcur : k'.cur = k.cur)
    (hctx : k'.ctx = Function.update k.ctx k.cur c) (hintr : k'.intr = k.intr) (hop : c.op = k.here.op)
    (hcr : c.resume = none) (hcs : c.sema = none) : ParkInv k' := by
  refine own_park h hcur hctx ?_
  intro ht
  rw [hop] at ht
  refine ⟨?_, .inr ⟨hcr, ?_⟩⟩
  · rw [hintr]
    exact (h.here ht).1
  · intro l old he
    rw [hcs] at he
    cases he

/-- All call stacks are as before. -/
theorem frame_park (h : ParkInv k) (hcur : k'.cur = k.cur) (hctx : k'.ctx = k.ctx)
    (hin : k.here.op.inIoq = true → k'.intr = false) : ParkInv k' := by
  have hh : k'.here = k.here := by
    show k'.ctx k'.cur = k.ctx k.cur
    rw [hctx, hcur]
  refine ⟨?_, ?_⟩
  · intro t ht
    rw [hcur] at ht
    rw [hctx]
    exact h.others t ht
  · intro ht
    rw [hh] at ht ⊢
    exact ⟨hin ht, (h.here ht).2⟩

/-- The call stack of a thread that blocks in `sema_down`. -/
theorem parked_semaDown {c : Ctx} {l : LockId} {old intr : Bool} (hi : intr = false) (ho : old = false) :
    Parked { c with sema := some (l, old), resume := some (.threadBlock intr) } := by
  refine ⟨?_, ?_, ?_⟩
  · rw [hi]
  · intro l' old' he
    cases he
    exact ho
  · intro _ he
    cases he

/-- One round of the loop of `sema_down`: the thread is parked, or goes on. -/
theorem semaDownLoop_park {l : LockId} {old : Bool} (h : ParkInv k)
    (hin : k.here.op.inIoq = true → k.intr = false ∧ old = false) (hr : k.here.resume = none)
    (hd : semaDownLoop k l old = .ok k') :
    ParkInv k' ∧ ((∀ t, (k'.ctx t).op.inIoq = true → Parked (k'.ctx t)) ∨
      k.value l ≠ 0 ∧ k'.here.op = k.here.op ∧ k'.ioq = k.ioq) := by
  rcases semaDownLoop_ok hd with ⟨-, -, hs⟩ | ⟨hv, rfl⟩
  · have hctx : (((k.retested l).enqueue l old).blocking .blocked).ctx = Function.update k.ctx k.cur
        { k.here with sema := some (l, old), resume := some (.threadBlock k.intr) } := by
      simp [blocking, enqueue, retested, setHere, here, setSema, setLock, setStatus]
    have hc : k.here.op.inIoq = true →
        Parked { k.here with sema := some (l, old), resume := some (.threadBlock k.intr) } :=
      fun ht => parked_semaDown (hin ht).1 (hin ht).2
    exact ⟨schedule_park h hctx hc hs, .inl (schedule_parked h hctx hc hs)⟩
  · refine ⟨own_park (c := k.here.semaReturn) h rfl rfl ?_, .inr ⟨by omega, ?_, rfl⟩⟩
    · intro ht
      refine ⟨(hin ht).2, .inr ⟨hr, ?_⟩⟩
      intro l' old' he
      cases he
    · show (Function.update k.ctx k.cur k.here.semaReturn k.cur).op = _
      rw [Function.update_self]
      rfl

/-- `sema_down` by a thread that is not in its loop yet. -/
theorem semaDown_park {l : LockId} (h : ParkInv k) (hr : k.here.resume = none) (hd : semaDown k l = .ok k') :
    ParkInv k' ∧ ((∀ t, (k'.ctx t).op.inIoq = true → Parked (k'.ctx t)) ∨
      k.value l ≠ 0 ∧ k'.here.op = k.here.op ∧ k'.ioq = k.ioq) := by
  have h1 : ParkInv { k with intr := false } := frame_park h rfl rfl fun _ => rfl
  have hin : k.here.op.inIoq = true → false = false ∧ k.intr = false := fun ht => ⟨rfl, (h.here ht).1⟩
  exact semaDownLoop_park (k := { k with intr := false }) h1 hin hr hd

theorem semaUp_frame {l : LockId} (hu : semaUp k l = .ok k') : k'.intr = k.intr ∧ k'.ioq = k.ioq := by
  obtain ⟨-, k1, h1, rfl⟩ := semaUp_ok hu
  rcases wakeFirst_ok h1 with ⟨-, rfl⟩ | ⟨t, rest, -, -, rfl⟩
  · exact ⟨rfl, rfl⟩
  · exact ⟨rfl, rfl⟩

theorem semaUp_park {l : LockId} (h : ParkInv k) (hu : semaUp k l = .ok k') : ParkInv k' := by
  obtain ⟨hctx, hcur⟩ := semaUp_ctx hu
  exact frame_park h hcur hctx fun ht => (semaUp_frame hu).1.trans (h.here ht).1

/-- `ioq_wait`, called with interrupts off. -/
theorem ioqWait_park {q : IoqId} {side : Side} {op : Op} (h : ParkInv k) (hi : k.intr = false)
    (hsema : k.here.sema = none) (hop : op.isWait = false)
    (hw : ioqWait (k.setHere { k.here with op := op }) q side = .ok k') :
    ParkInv k' ∧ ∀ t, (k'.ctx t).op.inIoq = true → Parked (k'.ctx t) := by
  obtain ⟨-, hs⟩ := ioqWait_ok hw
  have hctx : (((k.setHere { k.here with op := op }).setIoq q
      (((k.setHere { k.here with op := op }).ioq q).setWaiter side (some k.cur))).blocking .blocked).ctx =
      Function.update k.ctx k.cur { k.here with op := op, resume := some (.threadBlock k.intr) } := by
    simp [blocking, setHere, here, setIoq, setStatus]
  have hc : op.inIoq = true → Parked { k.here with op := op, resume := some (.threadBlock k.intr) } := by
    intro _
    refine ⟨?_, ?_, ?_⟩
    · rw [hi]
    · intro l old he
      rw [hsema] at he
      cases he
    · intro he
      rw [hop] at he
      cases he
  exact ⟨schedule_park h hctx hc hs, schedule_parked h hctx hc hs⟩

/-- The new call stack of a new thread. -/
theorem initPcb_park {n : NewTask} (h : ParkInv k) : ParkInv (initPcb k n) := by
  have hctx : ∀ t, t ≠ n.pcb → (initPcb k n).ctx t = k.ctx t := fun t ht => Function.update_of_ne ht _ _
  have hnew : (initPcb k n).ctx n.pcb = Ctx.new := Function.update_self _ _ _
  refine ⟨?_, ?_⟩
  · intro t ht
    by_cases hp : t = n.pcb
    · rw [hp, hnew]
      intro he
      cases he
    · rw [hctx t hp]
      exact h.others t ht
  · show ((initPcb k n).ctx k.cur).op.inIoq = true → k.intr = false ∧
      (Parked ((initPcb k n).ctx k.cur) ∨ Active ((initPcb k n).ctx k.cur))
    by_cases hp : k.cur = n.pcb
    · rw [hp, hnew]
      intro he
      cases he
    · rw [hctx k.cur hp]
      exact h.here

/-- The thread makes a call, of one of the two functions or from there. -/
theorem setOp_park {op : Op} {c : Ctx} (h : ParkInv k) (ha : k.At op) (hcur : k'.cur = k.cur)
    (hctx : k'.ctx = Function.update k.ctx k.cur c) (hr : c.resume = k.here.resume)
    (hsema : c.sema = k.here.sema) (hi : c.op.inIoq = true → k'.intr = false) : ParkInv k' := by
  refine own_park h hcur hctx ?_
  intro ht
  refine ⟨hi ht, .inr ⟨hr.trans (congrArg Ctx.resume ha), ?_⟩⟩
  intro l old he
  rw [hsema, congrArg Ctx.sema ha] at he
  cases he

/-- The thread that runs with interrupts on is in neither function. -/
theorem not_inIoq_of_intr (h : ParkInv k) (hi : k.intr = true) : k.here.op.inIoq = false := by
  cases hio : k.here.op.inIoq with
  | false => rfl
  | true =>
    rw [(h.here hio).1] at hi
    cases hi

theorem At.inIoq {op : Op} (ha : k.At op) : k.here.op.inIoq = op.inIoq := by
  rw [ha]

/-- In the two functions, `sema_down` was called with interrupts off. -/
theorem old_eq_false_of_park {l : LockId} {old : Bool} (h : ParkInv k) (hsema : k.here.sema = some (l, old))
    (ht : k.here.op.inIoq = true) : k.intr = false ∧ old = false := by
  obtain ⟨hi, hp | hac⟩ := h.here ht
  · exact ⟨hi, hp.sema l old hsema⟩
  · exact ⟨hi, hac.sema l old hsema⟩

theorem step_park {e : Event} (h : ParkInv k) (hs : Trans k e k') : ParkInv k' := by
  cases hs with
  | tick hi =>
    refine frame_park h rfl rfl ?_
    intro ht
    rw [not_inIoq_of_intr h hi] at ht
    cases ht
  | preempt _ hi hs =>
    refine schedule_park (c := { k.here with resume := some .intrExit }) h rfl ?_ hs
    intro ht
    have hno := not_inIoq_of_intr h hi
    rw [hno] at ht
    cases ht
  | keyLost => exact h
  | key q byte k1 hi _ hp =>
    obtain ⟨hctx, hcur⟩ := wakeupIfAny_ctx hp
    refine frame_park h hcur hctx ?_
    intro ht
    rw [not_inIoq_of_intr h hi] at ht
    cases ht
  | intrEnable ha =>
    refine frame_park h rfl rfl ?_
    intro ht
    rw [ha.inIoq] at ht
    cases ht
  | intrDisable ha => exact frame_park h rfl rfl fun _ => rfl
  | callDown l _ ha hd => exact (semaDown_park h (congrArg Ctx.resume ha) hd).1
  | callUp l _ _ hu => exact semaUp_park h hu
  | resume r hr =>
    refine own_park (c := { k.here with resume := none }) h rfl rfl ?_
    intro ht
    obtain ⟨-, hp | hac⟩ := h.here ht
    · have hrt := hp.resume
      rw [hr] at hrt
      cases hrt
      exact ⟨rfl, .inr ⟨rfl, hp.sema⟩⟩
    · have hrt := hac.resume
      rw [hr] at hrt
      cases hrt
  | redown l old _ hr hsema hd => exact (semaDownLoop_park h (old_eq_false_of_park h hsema) hr hd).1
  | lockDown l _ hr _ _ hd => exact (semaDown_park h hr hd).1
  | lockUp l _ hr hsema _ hu =>
    have h1 : ParkInv (k.setHere { k.here with lock := none }) := quiet_park h rfl rfl rfl rfl hr hsema
    exact semaUp_park h1 hu
  | lockNext l pc plock next hr hsema _ _ _ _ => exact quiet_park h rfl rfl rfl rfl hr hsema
  | callGetchar q ha hi => exact setOp_park h ha rfl rfl rfl rfl fun _ => hi
  | callPutchar q byte ha hi => exact setOp_park h ha rfl rfl rfl rfl fun _ => hi
  | getAcquire q ha hi he => exact setOp_park h ha rfl rfl rfl rfl fun _ => hi
  | putAcquire q byte ha hi hf => exact setOp_park h ha rfl rfl rfl rfl fun _ => hi
  | get q _ _ _ _ hb =>
    obtain ⟨hctx, hcur⟩ := wakeupIfAny_ctx hb
    exact outside_park (c := { k.here with op := .idle }) h hcur hctx rfl
  | put q byte _ _ _ _ hb =>
    obtain ⟨hctx, hcur⟩ := wakeupIfAny_ctx hb
    exact outside_park (c := { k.here with op := .idle }) h hcur hctx rfl
  | getWait q _ ha hw => exact (ioqWait_park h (h.here ha.inIoq).1 (congrArg Ctx.sema ha) rfl hw).1
  | putWait q byte _ ha hw => exact (ioqWait_park h (h.here ha.inIoq).1 (congrArg Ctx.sema ha) rfl hw).1
  | opRelease op op' l ha hrel =>
    refine setOp_park h ha rfl rfl rfl rfl ?_
    intro ht
    exact (h.here (ha.inIoq.trans ((Op.releases_ioq hrel).2 ht))).1
  | pidReturn n ha =>
    have h1 : ParkInv (k.setOp (.create n (if n.process then .insert else .readyAssert))) :=
      outside_park h rfl rfl rfl
    exact initPcb_park h1
  | callAcquire | callRelease | callCreate | callConsole | pidAcquire | pidLoad | pidStore | readyAssert
  | readyAppend | allAssert | allAppend | insert | consoleAcquire | consolePut | consoleDone =>
    exact outside_park h rfl rfl rfl

/-- What `SleepInv` says about the test of the running thread. -/
def TestFresh (k : Kernel) : Prop :=
  k.here.resume = none → k.here.sema = none → k.testHolds k.here.op = true

theorem testFresh_of_not_isWait (h : k.here.op.isWait = false) : k.TestFresh :=
  fun _ _ => testHolds_of_not_isWait h

/-- A parked thread still has `thread_block` to return from. -/
theorem testFresh_of_parked (h : ∀ t, (k.ctx t).op.inIoq = true → Parked (k.ctx t)) : k.TestFresh := by
  intro hr _
  cases hio : k.here.op.inIoq with
  | false => exact testHolds_of_not_inIoq hio
  | true =>
    have hp : k.here.resume = some (.threadBlock false) := (h k.cur hio).resume
    rw [hp] at hr
    cases hr

/-- The thread on the CPU is at the same statement, and the queues are as before. -/
theorem testFresh_congr (h : k.testHolds k.here.op = true) (hop : k'.here.op = k.here.op)
    (hi : k'.ioq = k.ioq) : k'.TestFresh := by
  intro _ _
  rw [hop, testHolds_congr hi]
  exact h

theorem step_test {e : Event} (h : ParkInv k) (htest : k.TestFresh) (hg : FreshTest k e)
    (hs : Trans k e k') : k'.TestFresh := by
  have hown : ∀ {c : Ctx}, k'.cur = k.cur → k'.ctx = Function.update k.ctx k.cur c → k'.here = c := by
    intro c hcur hctx
    show k'.ctx k'.cur = c
    rw [hcur, hctx, Function.update_self]
  have hidle : k.here.op.inIoq = false → k'.here.op = k.here.op → k'.TestFresh := by
    intro hio hop
    refine testFresh_of_not_isWait ?_
    rw [hop]
    exact Op.isWait_of_not_inIoq hio
  cases hs with
  | tick hi => exact hidle (not_inIoq_of_intr h hi) rfl
  | preempt _ hi hs =>
    refine testFresh_of_parked (schedule_parked (c := { k.here with resume := some .intrExit }) h rfl ?_ hs)
    intro ht
    have hno := not_inIoq_of_intr h hi
    rw [hno] at ht
    cases ht
  | keyLost => exact htest
  | key q byte k1 hi _ hp =>
    obtain ⟨hctx, hcur⟩ := wakeupIfAny_ctx hp
    refine hidle (not_inIoq_of_intr h hi) ?_
    show (k1.ctx k1.cur).op = _
    rw [hctx, hcur]
    rfl
  | intrEnable ha => exact hidle ha.inIoq rfl
  | intrDisable ha => exact hidle ha.inIoq rfl
  | callDown l _ ha hd =>
    rcases (semaDown_park h (congrArg Ctx.resume ha) hd).2 with hp | ⟨-, hop, -⟩
    · exact testFresh_of_parked hp
    · exact hidle ha.inIoq hop
  | callUp l _ ha hu =>
    obtain ⟨hctx, hcur⟩ := semaUp_ctx hu
    refine hidle ha.inIoq ?_
    show (k'.ctx k'.cur).op = _
    rw [hctx, hcur]
    rfl
  | resume r hr =>
    -- whoever has passed the test and left the CPU did so inside `sema_down`
    have hh := hown (c := { k.here with resume := none }) rfl rfl
    intro _ hsema
    rw [hh] at hsema ⊢
    refine testHolds_of_not_isWait ?_
    cases hio : k.here.op.inIoq with
    | false => exact Op.isWait_of_not_inIoq hio
    | true =>
      obtain ⟨-, hp | hac⟩ := h.here hio
      · by_contra hw
        exact hp.wait (by simpa using hw) hsema
      · have hrt := hac.resume
        rw [hr] at hrt
        cases hrt
  | redown l old _ hr hsema hd =>
    rcases (semaDownLoop_park h (old_eq_false_of_park h hsema) hr hd).2 with hp | ⟨hv, hop, hi⟩
    · exact testFresh_of_parked hp
    · refine testFresh_congr ?_ hop hi
      simpa [FreshTest, freshTest, hr, hsema, hv] using hg
  | lockDown l _ hr hsema _ hd =>
    rcases (semaDown_park h hr hd).2 with hp | ⟨-, hop, hi⟩
    · exact testFresh_of_parked hp
    · exact testFresh_congr (htest hr hsema) hop hi
  | lockUp l _ hr hsema _ hu =>
    obtain ⟨hctx, hcur⟩ := semaUp_ctx hu
    have hh := hown (c := { k.here with lock := none }) hcur hctx
    exact testFresh_congr (htest hr hsema) (by rw [hh]) (semaUp_frame hu).2
  | lockNext l pc plock next hr hsema _ _ _ _ =>
    have hh := hown (c := { k.here with lock := next.map fun pc => (l, pc) }) rfl rfl
    exact testFresh_congr (htest hr hsema) (by rw [hh]) rfl
  | getAcquire q ha hi he =>
    intro _ _
    rw [hown rfl rfl]
    exact he
  | putAcquire q byte ha hi hf =>
    intro _ _
    rw [hown rfl rfl]
    exact hf
  | get q _ _ _ _ hb =>
    obtain ⟨hctx, hcur⟩ := wakeupIfAny_ctx hb
    have hh := hown (c := { k.here with op := .idle }) hcur hctx
    exact testFresh_of_not_isWait (by rw [hh]; rfl)
  | put q byte _ _ _ _ hb =>
    obtain ⟨hctx, hcur⟩ := wakeupIfAny_ctx hb
    have hh := hown (c := { k.here with op := .idle }) hcur hctx
    exact testFresh_of_not_isWait (by rw [hh]; rfl)
  | getWait q _ ha hw =>
    exact testFresh_of_parked (ioqWait_park h (h.here ha.inIoq).1 (congrArg Ctx.sema ha) rfl hw).2
  | putWait q byte _ ha hw =>
    exact testFresh_of_parked (ioqWait_park h (h.here ha.inIoq).1 (congrArg Ctx.sema ha) rfl hw).2
  | opRelease op op' l ha hrel =>
    refine testFresh_of_not_isWait ?_
    rw [hown rfl rfl]
    exact (Op.releases_ioq hrel).1
  | pidReturn n ha =>
    refine testFresh_of_not_isWait ?_
    show (((initPcb _ n).ctx k.cur).op).isWait = false
    by_cases hp : k.cur = n.pcb
    · simp [initPcb, hp, Ctx.new, Ctx.idle, Op.isWait]
    · simp [initPcb, hp, setOp, setHere, Op.isWait]
  | callGetchar | callPutchar | callAcquire | callRelease | callCreate | callConsole | pidAcquire | pidLoad
  | pidStore | readyAssert | readyAppend | allAssert | allAppend | insert | consoleAcquire | consolePut
  | consoleDone =>
    refine testFresh_of_not_isWait ?_
    rw [hown rfl rfl]
    rfl

theorem step_sleep {e : Event} (h : SleepInv k) (hg : FreshTest k e) (hs : Trans k e k') : SleepInv k' := by
  have hp : ParkInv k := ⟨h.others, h.here⟩
  have hp' := step_park hp hs
  exact ⟨hp'.others, hp'.here, step_test hp h.test hg hs⟩

theorem boot_sleep (mainThread : Tid) (value : LockId → Nat) : SleepInv (boot mainThread value) := by
  have hidle : ∀ t, ((boot mainThread value).ctx t).op = .idle := by
    intro t
    by_cases ht : t = mainThread
    · simp [boot, ht, Ctx.idle]
    · simp [boot, ht, Ctx.new, Ctx.idle]
  have hno : ∀ t, ((boot mainThread value).ctx t).op.inIoq = false := by
    intro t
    rw [hidle t]
    rfl
  refine ⟨?_, ?_, fun _ _ => testHolds_of_not_inIoq (hno mainThread)⟩
  · intro t _ ht
    rw [hno t] at ht
    cases ht
  · intro ht
    have hfalse := hno mainThread
    rw [show (boot mainThread value).here.op.inIoq = _ from hfalse] at ht
    cases ht

end Kernel

/-- Whoever goes to sleep now in `ioq_wait` finds the queue as its loop says. -/
structure SleepsRight (k : Kernel) : Prop where
  /-- `ioq_wait(&ioq->consumer)`: the queue is empty. -/
  consumer : ∀ q k', k.At (.ioqGetchar q .wait) → k.step .step = .ok k' → (k.ioq q).empty = true
  /-- `ioq_wait(&ioq->producer)`: the queue is full. -/
  producer : ∀ q byte k', k.At (.ioqPutchar q byte .wait) → k.step .step = .ok k' → (k.ioq q).full = true

/-- **Nobody sleeps on a queue that has what it waits for**, in every state of every run in which whoever
blocked in `lock_acquire` gets the lock only while its test still holds. -/
theorem sleeps_empty_full (mainThread : Tid) (value : LockId → Nat) (es : List Event) (k : Kernel)
    (hr : Runs Kernel.step FreshTest (Kernel.boot mainThread value) es k) : SleepsRight k := by
  have h := Runs.invariant SleepInv
    (fun k1 e k2 h hg hs => Kernel.step_sleep h hg (Kernel.step_trans hs))
    es _ k (Kernel.boot_sleep mainThread value) hr
  have htest : ∀ op, k.At op → k.testHolds op = true := by
    intro op ha
    have hop : k.here.op = op := congrArg Ctx.op ha
    rw [← hop]
    exact h.test (congrArg Ctx.resume ha) (congrArg Ctx.sema ha)
  refine ⟨?_, ?_⟩
  · intro q _ ha _
    exact htest _ ha
  · intro q byte _ ha _
    exact htest _ ha

/-- Two readers of queue 0.  The main thread sleeps on the empty queue and has its lock; thread 1 finds the
queue empty too and blocks in `lock_acquire`; `keys` are pressed while thread 2 runs.  The main thread wakes
up, releases the lock and takes the first byte; then thread 1 gets the lock. -/
def twoReadersRun (keys : List UInt8) : List Event :=
  List.flatten [threadStartRun 1 8, threadStartRun 2 8,
    .call (.ioqGetchar 0) :: List.replicate 7 .step,
    [.step, .call .intrDisable, .call (.ioqGetchar 0), .step, .step, .step],
    .step :: keys.map (.keyboard 0), List.replicate 9 .timer,
    List.replicate 9 .step,
    .call .intrEnable :: List.replicate 32 .timer,
    List.replicate 5 .step]

/-- With one key press the queue is empty again when thread 1 gets the lock and sleeps. -/
theorem sleeps_empty_full_oneKey :
    ∃ k, Runs Kernel.step FreshTest (Kernel.boot 0 fun _ => 1) (twoReadersRun [97]) k ∧
      (k.cur = 1 ∧ k.At (.ioqGetchar 0 .wait) ∧ (k.step .step).isOk = true) ∧ SleepsRight k := by
  obtain ⟨k, hr, hk⟩ := Runs.exists_of_exec Kernel.step (G := FreshTest) Kernel.freshTest (fun _ _ h => h)
    (Kernel.boot 0 fun _ => 1) (twoReadersRun [97]) (fun k => (k.cur, k.here, (k.step .step).isOk))
    (b := (1, { Ctx.idle with op := .ioqGetchar 0 .wait }, true)) (by decide +kernel)
  refine ⟨k, hr, by simpa [Kernel.At] using hk, ?_⟩
  exact sleeps_empty_full 0 (fun _ => 1) (twoReadersRun [97]) k hr

/-- With two, thread 1 goes to sleep on a queue with a byte in it. -/
theorem sleeps_on_nonempty :
    ∃ k, Runs Kernel.step Kernel.Free (Kernel.boot 0 fun _ => 1) (twoReadersRun [97, 98]) k ∧
      ¬ SleepsRight k := by
  obtain ⟨k, hr, hk⟩ := Runs.exists_of_exec Kernel.step (G := Kernel.Free) (fun _ _ => true) (fun _ _ _ => trivial)
    (Kernel.boot 0 fun _ => 1) (twoReadersRun [97, 98])
    (fun k => (k.here, (k.step .step).isOk, (k.ioq 0).empty))
    (b := ({ Ctx.idle with op := .ioqGetchar 0 .wait }, true, false)) (by decide +kernel)
  simp only [Prod.mk.injEq] at hk
  obtain ⟨hat, hok, hne⟩ := hk
  refine ⟨k, hr, ?_⟩
  intro h
  cases hs : k.step .step with
  | error e =>
    rw [hs] at hok
    cases hok
  | ok k' =>
    have hempty := h.consumer 0 k' hat hs
    rw [hne] at hempty
    cases hempty

end MyOs
