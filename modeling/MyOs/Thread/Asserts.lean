import MyOs.Thread.Mutex
import MyOs.Device.Sleep

/-!
# The ASSERTs of the scheduler, the locks and the ioqueues

One joint invariant (`SyncInv`) and, for every function, the ASSERTs that it makes true.

    queues, threads    where every thread's tag is, and its status          (schedule, thread_unblock, sema_down)
    uses, views        the owner of every lock and the statement it is at   (sema_up, lock_acquire, lock_release)
    park               interrupts are off in the ioqueue functions          (ioq_full, ioq_empty)
    slots              whoever sleeps in a waiter field holds the lock      (ioq_wait)
    awake              the thread that never blocks is running or ready     (schedule)

    asserts_hold       no step of a run fails an ASSERT of these functions
-/

namespace MyOs

/-- The functions the result is about. -/
def assertedFunctions : List String :=
  ["schedule", "thread_unblock", "sema_down", "sema_up", "lock_acquire", "lock_release", "ioq_full",
    "ioq_empty", "ioq_wait", "wakeup"]

/-- The event reaches `thread_block` in the running thread. -/
def Kernel.blocks (k : Kernel) (e : Event) : Bool :=
  match e, k.here.resume, k.here.sema, k.here.lock, k.here.op with
  | .call (.semaDown l), _, _, _, _ => k.value l = 0
  | .step, none, some (l, _), _, _ => k.value l = 0
  | .step, none, none, some (l, .acquireDown), _ => k.value l = 0
  | .step, none, none, none, .ioqGetchar _ .wait => true
  | .step, none, none, none, .ioqPutchar _ _ .wait => true
  | _, _, _, _, _ => false

/-- Semaphores are used inside locks only, a lock is released by its holder, and the ioqueue functions are
called with interrupts off. -/
def Kernel.properCall (k : Kernel) : Event → Bool
  | .call (.semaDown _) | .call (.semaUp _) => false
  | .call (.lockRelease l) => 0 < k.hist.held k.cur l
  | .call (.ioqGetchar _) | .call (.ioqPutchar _ _) => !k.intr
  | _ => true

/-- A thread in `lock_acquire` has nested fewer than `2 ^ 32 - 1` holds. -/
def Kernel.shallow (k : Kernel) : Bool :=
  match k.here.lock with
  | none => true
  | some (l, pc) => !pc.isAcquire || k.hist.held k.cur l + 1 < 2 ^ 32

/-- How a run may use semaphores, locks and ioqueues, while thread `m` never blocks. -/
def SyncUse (m : Tid) (k : Kernel) (e : Event) : Prop :=
  k.properCall e = true ∧ k.shallow = true ∧ (k.cur = m → k.blocks e = false)

instance (m : Tid) (k : Kernel) (e : Event) : Decidable (SyncUse m k e) :=
  inferInstanceAs (Decidable (_ ∧ _ ∧ (_ → _)))

theorem SyncUse.lockUse {m : Tid} {k : Kernel} {e : Event} (h : SyncUse m k e) (l : LockId) :
    LockUse l k e := by
  obtain ⟨hcall, hdepth, -⟩ := h
  refine ⟨?_, ?_, ?_, ?_⟩
  · rintro rfl
    cases hcall
  · rintro rfl
    cases hcall
  · rintro rfl
    simpa [Kernel.properCall] using hcall
  · intro ha
    unfold Ctx.inAcquire Ctx.lockPc at ha
    unfold Kernel.shallow at hdepth
    cases hl : k.here.lock with
    | none => simp [hl] at ha
    | some p =>
      rw [hl] at ha hdepth
      by_cases he : p.1 = l
      · subst he
        simp only [if_true] at ha
        simpa [ha] using hdepth
      · simp [he] at ha

/-! ## The invariant -/

structure SyncInv (m : Tid) (k : Kernel) : Prop where
  queues : Queues k
  threads : ThreadInv k
  uses : ∀ l, LockUses k l
  views : ∀ l, (k.view l).Inv
  park : ParkInv k
  slots : ∀ q side t, (k.ioq q).waiter side = some t →
    (k.ctx t).lock = none ∧ (k.ctx t).op.holds = some (.ioqLock q)
  awake : (∀ l, m ∉ k.waiters l) ∧ ∀ q side, (k.ioq q).waiter side ≠ some m

namespace Kernel

variable {k k' : Kernel}

/-- Who waits after a step waited before it, or is the running thread, in a step that blocks it. -/
structure NewWaits (blocks : Bool) (k k' : Kernel) : Prop where
  waiters : ∀ l t, t ∈ k'.waiters l → t ∈ k.waiters l ∨ t = k.cur ∧ blocks = true
  slots : ∀ q side t, (k'.ioq q).waiter side = some t → (k.ioq q).waiter side = some t ∨
    t = k.cur ∧ blocks = true ∧ (k'.ctx t).lock = none ∧ (k'.ctx t).op.holds = some (.ioqLock q)

variable {b : Bool}

theorem NewWaits.same (hl : ∀ l, k'.waiters l = k.waiters l)
    (hi : ∀ q side, (k'.ioq q).waiter side = (k.ioq q).waiter side) : NewWaits b k k' := by
  refine ⟨?_, ?_⟩
  · intro l t h
    rw [hl] at h
    exact .inl h
  · intro q side t h
    rw [hi] at h
    exact .inl h

/-- The state `k1` the step passes through waits as `k` does. -/
theorem NewWaits.after {k1 : Kernel} (h : NewWaits b k1 k') (hc : k1.cur = k.cur)
    (hl : ∀ l, k1.waiters l = k.waiters l) (hi : ∀ q side, (k1.ioq q).waiter side = (k.ioq q).waiter side) :
    NewWaits b k k' := by
  refine ⟨?_, ?_⟩
  · intro l t ht
    rw [← hl, ← hc]
    exact h.waiters l t ht
  · intro q side t ht
    rw [← hi, ← hc]
    exact h.slots q side t ht

theorem semaDownLoop_waits {l : LockId} {old : Bool} (hd : semaDownLoop k l old = .ok k')
    (hb : k.value l = 0 → b = true) : NewWaits b k k' := by
  rcases semaDownLoop_ok hd with ⟨hv, -, hs⟩ | ⟨-, rfl⟩
  · rw [schedule_frame hs]
    refine ⟨?_, fun q side t h => .inl h⟩
    intro l' t h
    replace h : t ∈ ((k.retested l).enqueue l old).waiters l' := h
    unfold enqueue at h
    replace h : t ∈ (k.setSema l { (k.lock l).semaphore with waiters := k.waiters l ++ [k.cur] }).waiters l' := h
    rw [waiters_setSema] at h
    by_cases hl : l' = l
    · subst hl
      rw [if_pos rfl] at h
      rcases List.mem_append.mp h with h | h
      · exact .inl h
      · exact .inr ⟨List.mem_singleton.mp h, hb hv⟩
    · rw [if_neg hl] at h
      exact .inl h
  · refine NewWaits.same ?_ fun _ _ => rfl
    intro l'
    show (k.setSema l { (k.lock l).semaphore with value := k.value l - 1 }).waiters l' = _
    rw [waiters_setSema]
    by_cases hl : l' = l
    · subst hl
      rw [if_pos rfl]
      rfl
    · rw [if_neg hl]

theorem semaUp_waits {l : LockId} (hu : semaUp k l = .ok k') : NewWaits b k k' := by
  obtain ⟨-, k1, h1, rfl⟩ := semaUp_ok hu
  have hraise : ∀ l', (k1.raiseSema l).waiters l' = k1.waiters l' := by
    intro l'
    show (k1.setSema l _).waiters l' = _
    rw [waiters_setSema]
    by_cases hl : l' = l
    · subst hl
      rw [if_pos rfl]
      rfl
    · rw [if_neg hl]
  rcases wakeFirst_ok h1 with ⟨-, rfl⟩ | ⟨t, rest, hw, -, rfl⟩
  · exact NewWaits.same hraise fun _ _ => rfl
  · refine ⟨?_, fun q side t h => .inl h⟩
    intro l' s h
    rw [hraise] at h
    replace h : s ∈ (k.setSema l { (k.lock l).semaphore with waiters := rest }).waiters l' := h
    rw [waiters_setSema] at h
    by_cases hl : l' = l
    · subst hl
      rw [if_pos rfl] at h
      rw [hw]
      exact .inl (List.mem_cons_of_mem _ h)
    · rw [if_neg hl] at h
      exact .inl h

theorem wakeupIfAny_waits {q : IoqId} {side : Side} (h : wakeupIfAny k q side = .ok k') :
    NewWaits b k k' := by
  rcases wakeupIfAny_ok h with rfl | ⟨t, -, -, rfl⟩
  · exact NewWaits.same (fun _ => rfl) fun _ _ => rfl
  · refine ⟨fun l t h => .inl h, ?_⟩
    intro q' side' s hs
    replace hs : (((k.setStatus t .ready).setIoq q ((k.ioq q).setWaiter side none)).ioq q').waiter side' =
      some s := hs
    rw [ioq_setIoq] at hs
    by_cases hq : q' = q
    · subst hq
      rw [if_pos rfl, Ioqueue.waiter_setWaiter] at hs
      by_cases hside : side' = side
      · rw [if_pos hside] at hs
        cases hs
      · rw [if_neg hside] at hs
        exact .inl hs
    · rw [if_neg hq] at hs
      exact .inl hs

theorem ioqWait_waits {q : IoqId} {side : Side} (hw : ioqWait k q side = .ok k')
    (hb : b = true) (hl : k.here.lock = none) (ho : k.here.op.holds = some (.ioqLock q)) :
    NewWaits b k k' := by
  have hctx := ioqWait_ctx hw
  obtain ⟨-, hs⟩ := ioqWait_ok hw
  have hioq : k'.ioq = (k.setIoq q ((k.ioq q).setWaiter side (some k.cur))).ioq := by
    rw [schedule_frame hs]
    rfl
  have hwait : ∀ l, k'.waiters l = k.waiters l := by
    intro l
    rw [schedule_frame hs]
    rfl
  refine ⟨?_, ?_⟩
  · intro l t h
    rw [hwait] at h
    exact .inl h
  · intro q' side' t h
    rw [hioq, ioq_setIoq] at h
    by_cases hq : q' = q
    · subst hq
      rw [if_pos rfl, Ioqueue.waiter_setWaiter] at h
      by_cases hside : side' = side
      · rw [if_pos hside] at h
        cases h
        refine .inr ⟨rfl, hb, ?_, ?_⟩
        · rw [hctx, Function.update_self]
          exact hl
        · rw [hctx, Function.update_self]
          exact ho
      · rw [if_neg hside] at h
        exact .inl h
    · rw [if_neg hq] at h
      exact .inl h

theorem slots_setIoq {q : IoqId} {ioq : Ioqueue} (h : ∀ side, ioq.waiter side = (k.ioq q).waiter side)
    (q' : IoqId) (side : Side) : ((k.setIoq q ioq).ioq q').waiter side = (k.ioq q').waiter side := by
  rw [ioq_setIoq]
  by_cases hq : q' = q
  · rw [if_pos hq, hq]
    exact h side
  · rw [if_neg hq]

theorem slots_storeByte (k : Kernel) (q : IoqId) (byte : UInt8) (q' : IoqId) (side : Side) :
    ((k.storeByte q byte).ioq q').waiter side = (k.ioq q').waiter side :=
  slots_setIoq (fun side => by cases side <;> rfl) q' side

theorem slots_takeByte (k : Kernel) (q q' : IoqId) (side : Side) :
    ((k.takeByte q).ioq q').waiter side = (k.ioq q').waiter side :=
  slots_setIoq (fun side => by cases side <;> rfl) q' side

theorem lockNext_waits {l : LockId} {pc : LockPc} {plock : Lock} {next : Option LockPc}
    (hc : lockCode k.cur (k.lock l) pc = .ok (plock, next)) : NewWaits b k (k.lockNext l pc plock next) := by
  refine NewWaits.same ?_ fun _ _ => rfl
  intro l'
  show (Function.update k.lock l plock l').semaphore.waiters = _
  by_cases hl : l' = l
  · subst hl
    rw [Function.update_self, lockCode_semaphore hc]
    rfl
  · rw [Function.update_of_ne hl]
    rfl

theorem trans_waits {e : Event} (hs : Trans k e k') : NewWaits (k.blocks e) k k' := by
  cases hs with
  | preempt _ _ hs =>
    rw [schedule_frame hs]
    exact NewWaits.same (fun _ => rfl) fun _ _ => rfl
  | key q byte k1 _ _ hp =>
    have h1 := wakeupIfAny_waits (b := k.blocks (.keyboard q byte)) hp
    exact NewWaits.after ⟨h1.waiters, h1.slots⟩ rfl (fun _ => rfl) (slots_storeByte _ q byte)
  | callDown l _ ha hd =>
    refine (semaDownLoop_waits hd ?_).after rfl (fun _ => rfl) fun _ _ => rfl
    intro hv
    have hv' : k.value l = 0 := hv
    simp [blocks, hv']
  | callUp l _ _ hu => exact semaUp_waits hu
  | redown l old _ hr hsema hd =>
    refine semaDownLoop_waits hd ?_
    intro hv
    simp [blocks, hr, hsema, hv]
  | lockDown l _ hr hsema hlock hd =>
    refine (semaDownLoop_waits hd ?_).after rfl (fun _ => rfl) fun _ _ => rfl
    intro hv
    have hv' : k.value l = 0 := hv
    simp [blocks, hr, hsema, hlock, hv']
  | lockUp l _ _ _ _ hu => exact (semaUp_waits hu).after rfl (fun _ => rfl) fun _ _ => rfl
  | lockNext l pc plock next _ _ _ _ _ hc => exact lockNext_waits hc
  | get q _ ha _ _ hb => exact (wakeupIfAny_waits hb).after rfl (fun _ => rfl) (slots_takeByte _ q)
  | put q byte _ ha _ _ hb => exact (wakeupIfAny_waits hb).after rfl (fun _ => rfl) (slots_storeByte _ q byte)
  | getWait q _ ha hw =>
    refine (ioqWait_waits hw ?_ ?_ ?_).after rfl (fun _ => rfl) fun _ _ => rfl
    · simp [blocks, show k.here = _ from ha, Ctx.idle]
    · simp [here, setHere]
      exact congrArg Ctx.lock ha
    · simp [here, setHere, Op.holds]
  | putWait q byte _ ha hw =>
    refine (ioqWait_waits hw ?_ ?_ ?_).after rfl (fun _ => rfl) fun _ _ => rfl
    · simp [blocks, show k.here = _ from ha, Ctx.idle]
    · simp [here, setHere]
      exact congrArg Ctx.lock ha
    · simp [here, setHere, Op.holds]
  | _ => exact NewWaits.same (fun _ => rfl) fun _ _ => rfl

/-- A step writes no call stack but the running thread's. -/
theorem trans_ctx {e : Event} (ht : ThreadInv k) (hs : Trans k e k') {t : Tid} (hne : t ≠ k.cur) :
    k'.ctx t = k.ctx t := by
  have hsema : ∀ {k1 : Kernel} {l : LockId} {old : Bool}, semaDownLoop k1 l old = .ok k' → k1.ctx = k.ctx →
      k1.cur = k.cur → k'.ctx t = k.ctx t := by
    intro k1 l old hd hctx hcur
    rcases semaDownLoop_ctx hd with ⟨-, hx⟩ | ⟨-, hx⟩
    · rw [hx, hcur, Function.update_of_ne hne, hctx]
    · rw [hx, hcur, Function.update_of_ne hne, hctx]
  cases hs with
  | tick | keyLost | intrEnable | intrDisable => rfl
  | preempt _ _ hs =>
    rw [schedule_frame hs]
    exact Function.update_of_ne hne _ _
  | key q byte k1 _ _ hp =>
    show k1.ctx t = _
    rw [(wakeupIfAny_ctx hp).1]
    rfl
  | callDown l _ _ hd => exact hsema hd rfl rfl
  | callUp l _ _ hu => rw [(semaUp_ctx hu).1]
  | redown l old _ _ _ hd => exact hsema hd rfl rfl
  | lockDown l _ _ _ _ hd => exact hsema hd rfl rfl
  | lockUp l _ _ _ _ hu =>
    rw [(semaUp_ctx hu).1]
    exact Function.update_of_ne hne _ _
  | get q _ _ _ _ hb =>
    rw [(wakeupIfAny_ctx hb).1]
    exact Function.update_of_ne hne _ _
  | put q byte _ _ _ _ hb =>
    rw [(wakeupIfAny_ctx hb).1]
    exact Function.update_of_ne hne _ _
  | getWait q _ _ hw =>
    rw [ioqWait_ctx hw]
    exact (Function.update_of_ne hne _ _).trans (Function.update_of_ne hne _ _)
  | putWait q byte _ _ hw =>
    rw [ioqWait_ctx hw]
    exact (Function.update_of_ne hne _ _).trans (Function.update_of_ne hne _ _)
  | pidReturn n ha =>
    have hfresh := ht.fresh n.pcb (pidReturn_new ht ha)
    by_cases hp : t = n.pcb
    · rw [hp, hfresh]
      exact Function.update_self _ _ _
    · exact (Function.update_of_ne hp _ _).trans (Function.update_of_ne hne _ _)
  | _ => exact Function.update_of_ne hne _ _

/-- A sleeper is a thread, and not the running one. -/
theorem sleeper_ne_cur (hq : Queues k) {q : IoqId} {side : Side} {t : Tid}
    (h : (k.ioq q).waiter side = some t) : t ≠ k.cur := by
  obtain ⟨place, hplace⟩ := hq
  rintro rfl
  have hs : k.cur ∈ k.lists [k.cur] (.sleeper q side) := by simp [lists, h]
  cases hplace.placed.eq_of_mem hs (q := .cpu) (List.mem_singleton.mpr rfl)

theorem step_sync {m : Tid} {e : Event} (h : SyncInv m k) (hg : SyncUse m k e) (hs : Trans k e k') :
    SyncInv m k' := by
  have hwaits := trans_waits hs
  refine ⟨step_queues h.queues h.threads hs, step_threads h.queues h.threads hs,
    fun l => trans_uses (h.uses l) (hg.lockUse l) hs, ?_, step_park h.park hs, ?_, ?_, ?_⟩
  · intro l
    rcases trans_view h.queues h.threads (h.uses l) (hg.lockUse l) hs with he | hm
    · rw [he]
      exact h.views l
    · exact (h.views l).move hm
  · intro q side t ht
    rcases hwaits.slots q side t ht with hold | ⟨-, -, hl, ho⟩
    · rw [trans_ctx h.threads hs (sleeper_ne_cur h.queues hold)]
      exact h.slots q side t hold
    · exact ⟨hl, ho⟩
  · intro l hm
    rcases hwaits.waiters l m hm with hold | ⟨rfl, hb⟩
    · exact h.awake.1 l hold
    · rw [hg.2.2 rfl] at hb
      cases hb
  · intro q side hm
    rcases hwaits.slots q side m hm with hold | ⟨rfl, hb, -⟩
    · exact h.awake.2 q side hold
    · rw [hg.2.2 rfl] at hb
      cases hb

theorem run_sync {mainThread m : Tid} {es : List Event}
    (hr : Runs step (SyncUse m) (boot mainThread fun _ => 1) es k) : SyncInv m k := by
  refine Runs.invariant (SyncInv m) (fun k1 e k2 h hg hs => step_sync h hg (step_trans hs)) es _ k ?_ hr
  have hsleep := boot_sleep mainThread fun _ => 1
  refine ⟨boot_queues mainThread _, boot_threads mainThread _, boot_uses mainThread _,
    fun l => .inl (boot_view mainThread _ l rfl), ⟨hsleep.others, hsleep.here⟩, ?_, ?_, ?_⟩
  · intro q side t ht
    cases side <;> cases ht
  · intro l hm
    cases hm
  · intro q side hm
    cases side <;> cases hm

end Kernel

/-! ## The ASSERTs -/

/-- The computation `x` does not stop at an ASSERT of the functions. -/
def AssertsHold {α : Type} (x : Except Halt α) : Prop :=
  ∀ f c, x = .error (.panicSpin f c) → f ∉ assertedFunctions

namespace AssertsHold

variable {α β : Type}

theorem ok (a : α) : AssertsHold (.ok a : Except Halt α) := by
  intro f c h
  cases h

theorem disabled : AssertsHold (.error .disabled : Except Halt α) := by
  intro f c h
  cases h

theorem bind {x : Except Halt α} {g : α → Except Halt β} (hx : AssertsHold x)
    (hg : ∀ a, x = .ok a → AssertsHold (g a)) : AssertsHold (x >>= g) := by
  intro f c h
  cases hxe : x with
  | error e =>
    rw [hxe] at h hx
    cases h
    exact hx f c rfl
  | ok a =>
    rw [hxe] at h
    exact hg a hxe f c h

/-- An ASSERT that holds. -/
theorem assert {g : Unit → Except Halt β} {f c : String} {p : Bool} (hp : p = true) (hg : AssertsHold (g ())) :
    AssertsHold (MyOs.assert .debug f c p >>= g) := by
  rw [hp]
  exact hg

/-- An ASSERT of another function. -/
theorem assert_other {g : Unit → Except Halt β} {f c : String} {p : Bool} (hf : f ∉ assertedFunctions)
    (hg : AssertsHold (g ())) : AssertsHold (MyOs.assert .debug f c p >>= g) := by
  cases p with
  | true => exact hg
  | false =>
    intro f' c' h
    cases h
    exact hf

end AssertsHold

namespace Kernel

variable {k : Kernel} {place : Tid → Option Place} {m : Tid}

theorem cur_not_mem_ready (h : QueueInv k [k.cur] place) : k.cur ∉ k.readyList := by
  intro hm
  cases h.placed.eq_of_mem (p := .ready) (q := .cpu) hm (List.mem_singleton.mpr rfl)

theorem cur_not_mem_waiters (h : QueueInv k [k.cur] place) (l : LockId) : k.cur ∉ k.waiters l := by
  intro hm
  cases h.placed.eq_of_mem (p := .waiters l) (q := .cpu) hm (List.mem_singleton.mpr rfl)

/-- Whoever is in a place outside the CPU and the ready list is blocked. -/
theorem blocked_of_place (h : QueueInv k [k.cur] place) {t : Tid} {p : Place}
    (hm : t ∈ k.lists [k.cur] p) (hp : p.status = .blocked) :
    (k.task t).status = .blocked ∧ t ∉ k.readyList := by
  refine ⟨(h.status t p ((h.placed.mem_iff p t).mp hm)).trans hp, ?_⟩
  intro hr
  cases h.placed.eq_of_mem (q := .ready) hm hr
  cases hp

/-- The thread that never blocks is ready while another one runs. -/
theorem ready_ne_nil (h : SyncInv m k) (hm : m ∈ k.hist.threads) (hne : k.cur ≠ m) : k.readyList ≠ [] := by
  obtain ⟨place, hplace⟩ := h.queues
  obtain ⟨p, hp⟩ := Option.ne_none_iff_exists'.mp ((hplace.threads m).mp hm)
  have hmem := (hplace.placed.mem_iff p m).mpr hp
  cases p with
  | cpu => exact absurd (List.mem_singleton.mp hmem).symm hne
  | ready => exact List.ne_nil_of_mem hmem
  | waiters l => exact absurd hmem (h.awake.1 l)
  | sleeper q side => exact absurd (by simpa [lists] using hmem) (h.awake.2 q side)

/-- A caller that is still running goes to the ready list, which is then not empty. -/
theorem schedule_asserts (hi : k.intr = false) (hrun : (k.task k.cur).status = .running → k.cur ∉ k.readyList)
    (hready : (k.task k.cur).status ≠ .running → k.readyList ≠ []) : AssertsHold (schedule k) := by
  have hdispatch : ∀ k1 : Kernel, k1.readyList ≠ [] → AssertsHold (dispatch k1) := by
    intro k1 hne
    unfold dispatch
    split
    · rename_i hnil
      exact absurd hnil hne
    · exact AssertsHold.ok _
  unfold schedule
  refine AssertsHold.assert (by simp [hi]) ?_
  split
  · rename_i hs
    refine AssertsHold.assert (decide_eq_true (hrun hs)) (hdispatch _ ?_)
    simp [requeue]
  · rename_i hs
    exact hdispatch _ (hready hs)

theorem threadBlock_asserts (hready : k.readyList ≠ []) : AssertsHold (threadBlock k .blocked) := by
  unfold threadBlock
  refine AssertsHold.assert_other (by decide) (schedule_asserts rfl ?_ fun _ => hready)
  intro hs
  simp [blocking, setStatus, setHere] at hs

theorem threadUnblock_asserts {t : Tid} (hs : (k.task t).status = .blocked) (hn : t ∉ k.readyList) :
    AssertsHold (threadUnblock k t) := by
  unfold threadUnblock
  refine AssertsHold.assert (by simp [hs]) ?_
  split
  · exact AssertsHold.assert (decide_eq_true hn) (AssertsHold.ok _)
  · exact AssertsHold.ok _

theorem semaDownLoop_asserts {l : LockId} {old : Bool} (hw : k.cur ∉ k.waiters l) (hv : k.value l ≤ 1)
    (hready : k.value l = 0 → k.readyList ≠ []) : AssertsHold (semaDownLoop k l old) := by
  unfold semaDownLoop
  split
  · rename_i h0
    exact AssertsHold.assert (decide_eq_true hw) (threadBlock_asserts (hready h0))
  · exact AssertsHold.assert (decide_eq_true (by omega)) (AssertsHold.ok _)

theorem semaUp_asserts {l : LockId} (hv : k.value l = 0)
    (hw : ∀ t ∈ k.waiters l, (k.task t).status = .blocked ∧ t ∉ k.readyList) : AssertsHold (semaUp k l) := by
  unfold semaUp
  refine AssertsHold.assert (decide_eq_true hv) (AssertsHold.bind ?_ ?_)
  · unfold wakeFirst
    split
    · exact AssertsHold.ok _
    · rename_i t rest hl
      have ht := hw t (by rw [hl]; simp)
      exact threadUnblock_asserts ht.1 ht.2
  · intro k1 h1
    have hv1 : k1.value l = 0 := by
      rcases wakeFirst_ok h1 with ⟨-, rfl⟩ | ⟨t, rest, -, -, rfl⟩
      · exact hv
      · show ((k.setSema l _).setStatus t .ready).value l = 0
        show (k.setSema l _).value l = 0
        rw [value_setSema, if_pos rfl]
        exact hv
    exact AssertsHold.assert (decide_eq_true (by rw [hv1])) (AssertsHold.ok _)

/-- The ASSERTs of `lock_acquire` and `lock_release`, from what the owner's statement says of the lock. -/
theorem lockCode_asserts {l : LockId} {pc : LockPc} (hv : (k.view l).Inv)
    (hpc : k.here.lock = some (l, pc)) : AssertsHold (lockCode k.cur (k.lock l) pc) := by
  have hat : (k.view l).pc k.cur = some pc := Ctx.lockPc_of_some hpc
  -- at every statement but the first two of lock_acquire, the thread is the owner
  have howner : pc ≠ .acquireTest → pc ≠ .acquireDown →
      OwnerAt k.cur (k.lock l).holder (k.lock l).holderRepeatNr (k.hist.held k.cur l) (some pc) := by
    intro h1 h2
    have hout : ¬ OutsideAt ((k.view l).held k.cur) ((k.view l).pc k.cur) := by
      rintro ⟨-, h | h | h⟩
      · rw [hat] at h
        cases h
      · rw [hat] at h
        exact h1 (Option.some.inj h)
      · rw [hat] at h
        exact h2 (Option.some.inj h)
    rcases hv with hfree | ⟨o, hown⟩
    · exact absurd (hfree.outside k.cur) hout
    · by_cases ho : k.cur = o
      · subst ho
        have hat' := hown.owner
        rw [hat] at hat'
        exact hat'
      · exact absurd (hown.outside k.cur ho) hout
  cases pc with
  | acquireTest =>
    simp only [lockCode]
    split <;> exact AssertsHold.ok _
  | releaseTest =>
    simp only [lockCode]
    split <;> exact AssertsHold.ok _
  | assertFresh =>
    have h := howner (by simp) (by simp)
    exact AssertsHold.assert (decide_eq_true h.2.1) (AssertsHold.ok _)
  | releaseAssert =>
    have h := howner (by simp) (by simp)
    exact AssertsHold.assert (decide_eq_true h.1) (AssertsHold.ok _)
  | assertOne =>
    have h := howner (by simp) (by simp)
    obtain ⟨-, hnr, h0⟩ := h
    exact AssertsHold.assert (decide_eq_true (by omega)) (AssertsHold.ok _)
  | _ => exact AssertsHold.ok _

theorem value_le_one {l : LockId} (hv : (k.view l).Inv) : k.value l ≤ 1 := by
  rcases hv with h | ⟨o, h⟩
  · have h1 : k.value l = 1 := h.value
    omega
  · have h0 : k.value l = 0 := h.value
    omega

/-- A thread at `sema_up` is the owner, so the value is 0. -/
theorem value_eq_zero {l : LockId} (hv : (k.view l).Inv) (hpc : k.here.lock = some (l, .releaseUp)) :
    k.value l = 0 := by
  have hat : (k.view l).pc k.cur = some .releaseUp := Ctx.lockPc_of_some hpc
  rcases hv with h | ⟨o, h⟩
  · obtain ⟨-, he | he | he⟩ := h.outside k.cur <;> (rw [hat] at he; cases he)
  · exact h.value

theorem waiters_blocked (h : QueueInv k [k.cur] place) (l : LockId) :
    ∀ t ∈ k.waiters l, (k.task t).status = .blocked ∧ t ∉ k.readyList :=
  fun _ ht => blocked_of_place (p := .waiters l) h ht rfl

/-- The waiter of an ioqueue is blocked. -/
theorem wakeupIfAny_asserts {q : IoqId} {side : Side}
    (hs : ∀ t, (k.ioq q).waiter side = some t → (k.task t).status = .blocked ∧ t ∉ k.readyList) :
    AssertsHold (wakeupIfAny k q side) := by
  unfold wakeupIfAny
  split
  · rename_i hne
    unfold wakeup
    split
    · rename_i hnone
      exact absurd hnone hne
    · rename_i t ht
      exact AssertsHold.bind (threadUnblock_asserts (hs t ht).1 (hs t ht).2) fun _ _ => AssertsHold.ok _
  · exact AssertsHold.ok _

theorem sleeper_blocked (h : QueueInv k [k.cur] place) (q : IoqId) (side : Side) :
    ∀ t, (k.ioq q).waiter side = some t → (k.task t).status = .blocked ∧ t ∉ k.readyList :=
  fun t ht => blocked_of_place (p := .sleeper q side) h (by simp [lists, ht]) rfl

theorem putByte_asserts (h : QueueInv k [k.cur] place) (q : IoqId) (byte : UInt8) :
    AssertsHold (putByte k q byte) := by
  refine wakeupIfAny_asserts ?_
  rw [slots_storeByte]
  exact sleeper_blocked h q .consumer

theorem getByte_asserts (h : QueueInv k [k.cur] place) (q : IoqId) : AssertsHold (getByte k q) := by
  refine wakeupIfAny_asserts ?_
  rw [slots_takeByte]
  exact sleeper_blocked h q .producer

/-- A thread about to sleep holds the ioqueue's lock, and so does whoever sleeps in its waiter fields. -/
theorem slot_free (h : SyncInv m k) {op : Op} {q : IoqId} (ha : k.At op) (ho : op.holds = some (.ioqLock q))
    (side : Side) : (k.ioq q).waiter side = none := by
  have huses := h.uses (.ioqLock q)
  cases hs : (k.ioq q).waiter side with
  | none => rfl
  | some t =>
    obtain ⟨hl, hop⟩ := h.slots q side t hs
    have hcur : 0 < (k.view (.ioqLock q)).held k.cur := huses.holds_at ha ho
    exact absurd ((h.views (.ioqLock q)).holder_unique (huses.holds hop hl) hcur) (sleeper_ne_cur h.queues hs)

theorem ioqWait_asserts {q : IoqId} {side : Side} (hs : (k.ioq q).waiter side = none)
    (hready : k.readyList ≠ []) : AssertsHold (ioqWait k q side) := by
  unfold ioqWait
  exact AssertsHold.assert (decide_eq_true hs) (threadBlock_asserts hready)

/-! ## Events -/

theorem lockStep_asserts (h : SyncInv m k) {l : LockId} {pc : LockPc} (hpc : k.here.lock = some (l, pc))
    (hready : pc = .acquireDown → k.value l = 0 → k.readyList ≠ []) : AssertsHold (lockStep k l pc) := by
  obtain ⟨place, hplace⟩ := h.queues
  unfold lockStep
  split
  · exact semaDownLoop_asserts (cur_not_mem_waiters hplace l) (value_le_one (h.views l)) (hready rfl)
  · have hv := value_eq_zero (h.views l) hpc
    exact semaUp_asserts (k := k.setHere { k.here with lock := none }) hv (waiters_blocked hplace l)
  · exact AssertsHold.bind (lockCode_asserts (h.views l) hpc) fun _ _ => AssertsHold.ok _

theorem createStep_asserts (n : NewTask) (pc : CreatePc) : AssertsHold (createStep k n pc) := by
  cases pc with
  | readyAssert | allAssert => exact AssertsHold.assert_other (by decide) (AssertsHold.ok _)
  | insert =>
    exact AssertsHold.assert_other (by decide) (AssertsHold.assert_other (by decide) (AssertsHold.ok _))
  | _ => exact AssertsHold.ok _

theorem opStep_asserts (h : SyncInv m k) {op : Op} (ha : k.At op)
    (hready : op.isWait = true → k.readyList ≠ []) : AssertsHold (opStep k op) := by
  obtain ⟨place, hplace⟩ := h.queues
  have hintr : op.inIoq = true → k.intr = false := fun hi => (h.park.here (ha.inIoq.trans hi)).1
  cases op with
  | idle => exact AssertsHold.disabled
  | ioqGetchar q pc =>
    cases pc with
    | loop =>
      refine AssertsHold.assert (by simp [hintr rfl]) ?_
      split
      · exact AssertsHold.ok _
      · exact getByte_asserts (setHere_queues hplace _) q
    | wait => exact ioqWait_asserts (slot_free h ha rfl .consumer) (hready rfl)
    | release => exact AssertsHold.ok _
  | ioqPutchar q byte pc =>
    cases pc with
    | loop =>
      refine AssertsHold.assert (by simp [hintr rfl]) ?_
      split
      · exact AssertsHold.ok _
      · exact putByte_asserts (setHere_queues hplace _) q byte
    | wait => exact ioqWait_asserts (slot_free h ha rfl .producer) (hready rfl)
    | release => exact AssertsHold.ok _
  | create n pc => exact createStep_asserts n pc
  | console rest pc =>
    cases pc with
    | put => cases rest <;> exact AssertsHold.ok _
    | _ => exact AssertsHold.ok _

theorem innermost_asserts (h : SyncInv m k) (hready : k.blocks .step = true → k.readyList ≠ []) :
    AssertsHold (innermost k) := by
  obtain ⟨place, hplace⟩ := h.queues
  cases hr : k.here.resume with
  | some r =>
    simp only [innermost, hr]
    exact AssertsHold.ok _
  | none =>
    cases hs : k.here.sema with
    | some p =>
      obtain ⟨l, old⟩ := p
      simp only [innermost, hr, hs]
      refine semaDownLoop_asserts (cur_not_mem_waiters hplace l) (value_le_one (h.views l)) ?_
      intro hv
      exact hready (by simp [blocks, hr, hs, hv])
    | none =>
      cases hl : k.here.lock with
      | some p =>
        obtain ⟨l, pc⟩ := p
        simp only [innermost, hr, hs, hl]
        refine lockStep_asserts h hl ?_
        rintro rfl hv
        exact hready (by simp [blocks, hr, hs, hl, hv])
      | none =>
        simp only [innermost, hr, hs, hl]
        have ha : k.At k.here.op := by
          unfold At Ctx.idle
          rw [← hr, ← hs, ← hl]
        refine opStep_asserts h ha ?_
        intro hw
        refine hready ?_
        cases hop : k.here.op with
        | ioqGetchar q pc => cases pc <;> simp [hop, Op.isWait] at hw; simp [blocks, hr, hs, hl, hop]
        | ioqPutchar q byte pc => cases pc <;> simp [hop, Op.isWait] at hw; simp [blocks, hr, hs, hl, hop]
        | _ => simp [hop, Op.isWait] at hw

theorem intrTimerHandler_asserts (h : SyncInv m k) : AssertsHold (intrTimerHandler k) := by
  obtain ⟨place, hplace⟩ := h.queues
  unfold intrTimerHandler
  refine AssertsHold.assert_other (by decide) ?_
  split
  · have hcur := cur_not_mem_ready hplace
    refine schedule_asserts (k := k.countTick.preempted) rfl (fun _ => hcur) ?_
    intro hs
    refine absurd ?_ hs
    show (k.countTick.task k.cur).status = .running
    rw [countTick_status]
    exact status_cur hplace
  · exact AssertsHold.ok _

theorem intrKeyboardHandler_asserts (h : SyncInv m k) (q : IoqId) (byte : UInt8) :
    AssertsHold (intrKeyboardHandler k q byte) := by
  obtain ⟨place, hplace⟩ := h.queues
  unfold intrKeyboardHandler
  refine AssertsHold.assert rfl ?_
  split
  · exact AssertsHold.ok _
  · refine AssertsHold.assert rfl (AssertsHold.assert rfl (AssertsHold.bind ?_ fun _ _ => AssertsHold.ok _))
    exact putByte_asserts (intr_queues hplace false) q byte

theorem call_asserts {c : Call} (hg : k.properCall (.call c) = true) : AssertsHold (call k c) := by
  cases c with
  | semaDown | semaUp => cases hg
  | ioqGetchar | ioqPutchar => exact AssertsHold.assert_other (by decide) (AssertsHold.ok _)
  | create n =>
    simp only [call]
    split
    · exact AssertsHold.disabled
    · exact AssertsHold.ok _
  | _ => exact AssertsHold.ok _

end Kernel

/-- **No ASSERT fails** in the scheduler, the semaphores, the locks and the ioqueues: in every state of every
run that uses them properly and has a thread `m` that never blocks, whatever happens next. -/
theorem asserts_hold (mainThread m : Tid) (es : List Event) (k : Kernel)
    (hr : Runs Kernel.step (SyncUse m) (Kernel.boot mainThread fun _ => 1) es k) (hm : m ∈ k.hist.threads)
    (e : Event) (hg : SyncUse m k e) : AssertsHold (k.step e) := by
  have h := Kernel.run_sync hr
  have hready : k.blocks e = true → k.readyList ≠ [] := by
    intro hb
    refine Kernel.ready_ne_nil h hm ?_
    intro hc
    rw [hg.2.2 hc] at hb
    cases hb
  cases e with
  | timer =>
    simp only [Kernel.step]
    split
    · exact Kernel.intrTimerHandler_asserts h
    · exact AssertsHold.disabled
  | keyboard q byte =>
    simp only [Kernel.step]
    split
    · exact Kernel.intrKeyboardHandler_asserts h q byte
    · exact AssertsHold.disabled
  | call c =>
    simp only [Kernel.step]
    split
    · exact Kernel.call_asserts hg.1
    · exact AssertsHold.disabled
  | step => exact Kernel.innermost_asserts h hready

/-- Thread 1 reads from queue 0, which is empty, up to its `ioq_wait`, and again after a key was pressed; the
main thread only spins. -/
def spinningMainRun : List Event :=
  List.flatten [threadStartRun 1 8, .call .intrEnable :: List.replicate 32 .timer,
    [.step, .call .intrDisable, .call (.ioqGetchar 0)], List.replicate 7 .step,
    [.step, .keyboard 0 97], List.replicate 32 .timer, List.replicate 9 .step,
    .call (.ioqGetchar 0) :: List.replicate 6 .step]

theorem asserts_hold_reader :
    ∃ k, Runs Kernel.step (SyncUse 0) (Kernel.boot 0 fun _ => 1) spinningMainRun k ∧
      (k.cur = 1 ∧ k.At (.ioqGetchar 0 .wait) ∧ k.hist.got 0 = [97]) ∧ AssertsHold (k.step .step) := by
  obtain ⟨k, hr, hk⟩ := Runs.exists_of_exec Kernel.step (G := SyncUse 0)
    (fun k e => decide (SyncUse 0 k e)) (fun _ _ h => of_decide_eq_true h) (Kernel.boot 0 fun _ => 1) spinningMainRun
    (fun k => (k.cur, k.here, k.hist.got 0, decide (0 ∈ k.hist.threads), decide (SyncUse 0 k .step)))
    (b := (1, { Ctx.idle with op := .ioqGetchar 0 .wait }, [97], true, true)) (by decide +kernel)
  simp only [Prod.mk.injEq] at hk
  obtain ⟨hcur, hat, hgot, hm, hg⟩ := hk
  exact ⟨k, hr, ⟨hcur, hat, hgot⟩,
    asserts_hold 0 0 spinningMainRun k hr (of_decide_eq_true hm) .step (of_decide_eq_true hg)⟩

end MyOs
