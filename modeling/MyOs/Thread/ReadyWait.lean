import MyOs.Theory.Waiting
import MyOs.Thread.TimeSlices

/-!
# How long a ready thread waits

`schedule` serves the head of the ready list and `list_append` joins its end, but `thread_unblock` pushes to the
front: a ready thread is overtaken by whoever is woken after it, and by nobody else.

    step_shift      what a step does to the ready list, the CPU and the slice of the running thread
    ready_waits     the place of a waiting thread in every run, and the timer interrupts it can last
-/

namespace MyOs

open Kernel

/-- The event does not give `t` the CPU. -/
def Passes (t : Tid) (k : Kernel) (e : Event) : Prop := ∀ k1, step k e = .ok k1 → k1.cur ≠ t

namespace Kernel

/-- 1 if the CPU went from one thread to another. -/
def switched (k : Kernel) (_ : Event) (k' : Kernel) : Nat := if k'.cur = k.cur then 0 else 1

/-- The threads that were blocked and are now ready. -/
def woken (k : Kernel) (_ : Event) (k' : Kernel) : Nat :=
  k'.readyList.countP fun t => decide ((k.task t).status = .blocked)

def timerInterrupt (_ : Kernel) (e : Event) (_ : Kernel) : Nat := if e = .timer then 1 else 0

/-- What a step does to the ready list, the CPU and the slice of the running thread. -/
inductive Shift (k : Kernel) (e : Event) (k' : Kernel) : Prop
  | stay (xs : List Tid) (cur : k'.cur = k.cur) (list : k'.readyList = k.readyList ++ xs)
      (new : ∀ t ∈ xs, (k.task t).status ≠ .blocked)
      (left : (k'.task k.cur).ticks + timerInterrupt k e k' = (k.task k.cur).ticks)
  | wake (t : Tid) (cur : k'.cur = k.cur) (list : k'.readyList = t :: k.readyList) (out : t ∉ k.readyList)
      (blocked : (k.task t).status = .blocked)
      (left : (k'.task k.cur).ticks + timerInterrupt k e k' = (k.task k.cur).ticks)
  | switch (xs : List Tid) (list : k.readyList ++ xs = k'.cur :: k'.readyList) (caller : ∀ t ∈ xs, t = k.cur)

variable {k k' : Kernel} {e : Event}

/-! ## The steps -/

theorem schedule_shift (hs : schedule k = .ok k') : ∃ xs, k.readyList ++ xs = k'.cur :: k'.readyList ∧
    ∀ t ∈ xs, t = k.cur := by
  obtain ⟨-, ⟨-, -, hd⟩ | ⟨-, hd⟩⟩ := schedule_ok hs
  · obtain ⟨next, rest, hl, rfl⟩ := dispatch_ok hd
    refine ⟨[k.cur], hl, ?_⟩
    intro t ht
    exact List.mem_singleton.mp ht
  · obtain ⟨next, rest, hl, rfl⟩ := dispatch_ok hd
    refine ⟨[], ?_, ?_⟩
    · rw [List.append_nil]
      exact hl
    · intro t ht
      cases ht

/-- A call of `schedule` in a state with the ready list and the running thread of `k`. -/
theorem Shift.ofSchedule {k1 : Kernel} (hs : schedule k1 = .ok k') (hl : k1.readyList = k.readyList)
    (hc : k1.cur = k.cur) : Shift k e k' := by
  obtain ⟨xs, hxs, hcall⟩ := schedule_shift hs
  rw [hl] at hxs
  rw [hc] at hcall
  exact .switch xs hxs hcall

/-- A step that leaves the ready list and the task of the running thread. -/
theorem Shift.quiet (hc : k'.cur = k.cur) (hl : k'.readyList = k.readyList)
    (ht : (k'.task k.cur).ticks = (k.task k.cur).ticks) (he : e ≠ .timer) : Shift k e k' := by
  refine .stay [] hc ?_ ?_ ?_
  · rw [List.append_nil]
    exact hl
  · intro t ht
    cases ht
  · rw [timerInterrupt, if_neg he]
    exact ht

theorem setStatus_ticks (k : Kernel) (t u : Tid) (stat : TaskStatus) :
    ((k.setStatus t stat).task u).ticks = (k.task u).ticks := by
  rw [setStatus_task]
  split <;> rfl

/-- `thread_unblock(t)` in a state with the threads of `k`. -/
theorem Shift.ofWake {t : Tid} (hc : k'.cur = k.cur) (hl : k'.readyList = t :: k.readyList)
    (ho : t ∉ k.readyList) (hb : (k.task t).status = .blocked)
    (ht : (k'.task k.cur).ticks = (k.task k.cur).ticks) (he : e ≠ .timer) : Shift k e k' := by
  refine .wake t hc hl ho hb ?_
  rw [timerInterrupt, if_neg he]
  exact ht

theorem semaDownLoop_shift {k1 : Kernel} {l : LockId} {old : Bool} (hd : semaDownLoop k1 l old = .ok k')
    (hl : k1.readyList = k.readyList) (hc : k1.cur = k.cur) (ht : k1.task = k.task) (he : e ≠ .timer) :
    Shift k e k' := by
  rcases semaDownLoop_ok hd with ⟨-, -, hs⟩ | ⟨-, rfl⟩
  · exact .ofSchedule hs hl hc
  · exact .quiet hc hl (by rw [← ht]; rfl) he

theorem semaUp_shift {k1 : Kernel} {l : LockId} (hq : Queues k) (hu : semaUp k1 l = .ok k')
    (hl : k1.readyList = k.readyList) (hc : k1.cur = k.cur) (ht : k1.task = k.task)
    (hw : k1.waiters l = k.waiters l) (he : e ≠ .timer) : Shift k e k' := by
  obtain ⟨-, k2, h2, rfl⟩ := semaUp_ok hu
  rcases wakeFirst_ok h2 with ⟨-, rfl⟩ | ⟨t, rest, hwt, ho, rfl⟩
  · exact .quiet hc hl (by rw [← ht]; rfl) he
  · obtain ⟨place, h⟩ := hq
    have hmem : t ∈ k.waiters l := by
      rw [← hw, hwt]
      exact List.mem_cons_self
    have hb := h.status t (.waiters l) ((h.placed.mem_iff (.waiters l) t).mp hmem)
    refine .ofWake hc (congrArg (t :: ·) hl) (hl ▸ ho) hb ?_ he
    rw [← ht]
    exact setStatus_ticks k1 t k.cur .ready

theorem wakeupIfAny_shift {k1 : Kernel} {q : IoqId} {side : Side} (hq : Queues k)
    (hw : wakeupIfAny k1 q side = .ok k') (hl : k1.readyList = k.readyList) (hc : k1.cur = k.cur)
    (ht : k1.task = k.task) (hwt : (k1.ioq q).waiter side = (k.ioq q).waiter side) (he : e ≠ .timer) :
    Shift k e k' := by
  rcases wakeupIfAny_ok hw with rfl | ⟨t, hs, ho, rfl⟩
  · exact .quiet hc hl (by rw [ht]) he
  · obtain ⟨place, h⟩ := hq
    have hmem : t ∈ k.lists [k.cur] (.sleeper q side) := by
      show t ∈ ((k.ioq q).waiter side).toList
      rw [← hwt, hs]
      exact List.mem_singleton.mpr rfl
    have hb := h.status t (.sleeper q side) ((h.placed.mem_iff (.sleeper q side) t).mp hmem)
    refine .ofWake hc (congrArg (t :: ·) hl) (hl ▸ ho) hb ?_ he
    rw [← ht]
    exact setStatus_ticks k1 t k.cur .ready

/-- The handler takes a tick of the slice, or calls `schedule`. -/
theorem timer_shift (hs : step k .timer = .ok k') : Shift k .timer k' := by
  simp only [step] at hs
  split at hs
  · unfold intrTimerHandler at hs
    rw [bind_eq_ok] at hs
    obtain ⟨-, -, hs⟩ := hs
    split at hs
    · exact .ofSchedule hs rfl rfl
    · rename_i h0
      cases hs
      refine .stay [] rfl (List.append_nil _).symm ?_ ?_
      · intro t ht
        cases ht
      · have hu : (k.countTick.useTick.task k.cur).ticks = (k.task k.cur).ticks - 1 := by
          rw [useTick_task, if_pos (show k.cur = k.countTick.cur from rfl), countTick_task, if_pos rfl]
        rw [hu, timerInterrupt, if_pos rfl]
        omega
  · cases hs

theorem Shift.setIntr (h : Shift k e k') (intr : Bool) : Shift k e { k' with intr := intr } := by
  cases h with
  | stay xs cur list new left => exact .stay xs cur list new left
  | wake t cur list out blocked left => exact .wake t cur list out blocked left
  | switch xs list caller => exact .switch xs list caller

theorem storeByte_waiter (k : Kernel) (q : IoqId) (byte : UInt8) (side : Side) :
    ((k.storeByte q byte).ioq q).waiter side = (k.ioq q).waiter side := by
  show ((k.setIoq q _).ioq q).waiter side = _
  rw [ioq_setIoq, if_pos rfl]
  cases side <;> rfl

theorem takeByte_waiter (k : Kernel) (q : IoqId) (side : Side) :
    ((k.takeByte q).ioq q).waiter side = (k.ioq q).waiter side := by
  show ((k.setIoq q _).ioq q).waiter side = _
  rw [ioq_setIoq, if_pos rfl]
  cases side <;> rfl

/-- A thread that enters the list was not blocked. -/
theorem appendReady_shift {n : NewTask} {c : Ctx} {pc : CreatePc} (ht : ThreadInv k)
    (ha : k.here.op = .create n pc) (hb : pc.beforeReady = true) (hi : pc.initialised = true)
    (hl : k'.readyList = (appendReady (k.setHere c) n.pcb).readyList) (hc : k'.cur = k.cur)
    (htask : k'.task = k.task) (he : e ≠ .timer) : Shift k e k' := by
  obtain ⟨-, -, -, hready⟩ := ht.creating k.cur n pc ha
  refine .stay [n.pcb] hc hl ?_ ?_
  · intro t hm
    rw [List.mem_singleton.mp hm, hready hb hi]
    simp
  · rw [timerInterrupt, if_neg he, htask, Nat.add_zero]

theorem step_shift (hq : Queues k) (ht : ThreadInv k) (hs : step k e = .ok k') : Shift k e k' := by
  by_cases he : e = .timer
  · subst he
    exact timer_shift hs
  have hcur := hq.elim fun place h => cur_mem_threads h
  cases step_trans hs with
  | tick | preempt => exact absurd rfl he
  | key q byte k1 _ _ hp =>
    exact (wakeupIfAny_shift hq hp rfl rfl rfl (storeByte_waiter _ q byte .consumer) he).setIntr true
  | callDown l _ _ hd => exact semaDownLoop_shift hd rfl rfl rfl he
  | callUp l _ _ hu => exact semaUp_shift hq hu rfl rfl rfl rfl he
  | redown l old _ _ _ hd => exact semaDownLoop_shift hd rfl rfl rfl he
  | lockDown l _ _ _ _ hd => exact semaDownLoop_shift hd rfl rfl rfl he
  | lockUp l _ _ _ _ hu => exact semaUp_shift hq hu rfl rfl rfl rfl he
  | get q _ _ _ _ hg => exact wakeupIfAny_shift hq hg rfl rfl rfl (takeByte_waiter _ q .producer) he
  | put q byte _ _ _ _ hp => exact wakeupIfAny_shift hq hp rfl rfl rfl (storeByte_waiter _ q byte .consumer) he
  | getWait q _ _ hw => exact .ofSchedule (ioqWait_ok hw).2 rfl rfl
  | putWait q byte _ _ hw => exact .ofSchedule (ioqWait_ok hw).2 rfl rfl
  | callCreate n _ hn =>
    have hne : k.cur ≠ n.pcb := fun h => hn (h ▸ ht.threads_pcbs _ hcur)
    exact .quiet rfl rfl (congrArg Task.ticks (Function.update_of_ne hne _ _)) he
  | pidReturn n ha =>
    have hop : (k.ctx k.cur).op = .create n .pidReturn := congrArg Ctx.op ha
    have hne : k.cur ≠ n.pcb := fun h => (ht.creating _ n _ hop).2.2.1 rfl (h ▸ hcur)
    exact .quiet rfl rfl (congrArg Task.ticks (Function.update_of_ne hne _ _)) he
  | readyAppend n ha => exact appendReady_shift ht (congrArg Ctx.op ha) rfl rfl rfl rfl rfl he
  | insert n ha => exact appendReady_shift (c := k.here) ht (congrArg Ctx.op ha) rfl rfl rfl rfl rfl he
  | _ => exact .quiet rfl rfl rfl he

/-! ## Places in the ready list -/

theorem woken_zero (h : ∀ t ∈ k'.readyList, (k.task t).status ≠ .blocked) : woken k e k' = 0 := by
  refine List.countP_eq_zero.mpr fun t ht => ?_
  rw [decide_eq_true_eq]
  exact h t ht

/-- While some thread is ready, `schedule` gives the CPU to the head of the list, which is not its caller. -/
theorem switched_head {t : Tid} {xs : List Tid} (hq : Queues k) (ht : t ∈ k.readyList)
    (list : k.readyList ++ xs = k'.cur :: k'.readyList) :
    switched k e k' = 1 ∧ k.readyList.head? = some k'.cur := by
  obtain ⟨place, hi⟩ := hq
  obtain ⟨y, r, hl⟩ := List.exists_cons_of_ne_nil (List.ne_nil_of_mem ht)
  have hy : y = k'.cur := by
    rw [hl] at list
    exact (List.cons.inj list).1
  have hmem : k'.cur ∈ k.readyList := by
    rw [hl, hy]
    exact List.mem_cons_self
  refine ⟨if_neg fun he => ?_, ?_⟩
  · have hready := hi.status k'.cur .ready ((hi.placed.mem_iff .ready k'.cur).mp hmem)
    rw [he, status_cur hi] at hready
    cases hready
  · rw [hl, hy]
    rfl

/-- While some thread is ready, a step is a move of the ready list, which serves whoever gets the CPU. -/
theorem Shift.move {t : Tid} (h : Shift k e k') (hq : Queues k) (ht : t ∈ k.readyList) :
    QueueMove k.readyList (switched k e k') (woken k e k') k'.readyList ∧
      (switched k e k' = 1 → k.readyList.head? = some k'.cur) := by
  obtain ⟨place, hi⟩ := hq
  have hready : ∀ u ∈ k.readyList, (k.task u).status = .ready := fun u hu =>
    hi.status u .ready ((hi.placed.mem_iff .ready u).mp hu)
  have hnot : ∀ u ∈ k.readyList, (k.task u).status ≠ .blocked := by
    intro u hu hb
    rw [hready u hu] at hb
    cases hb
  cases h with
  | stay xs cur list new left =>
    have h0 : switched k e k' = 0 := if_pos cur
    have hw : woken k e k' = 0 := by
      refine woken_zero fun u hu => ?_
      rw [list] at hu
      rcases List.mem_append.mp hu with hu | hu
      · exact hnot u hu
      · exact new u hu
    rw [h0, hw, list]
    refine ⟨.join xs, ?_⟩
    intro h1
    cases h1
  | wake u cur list out blocked left =>
    have h0 : switched k e k' = 0 := if_pos cur
    have hw : woken k e k' = 1 := by
      have hrest : k.readyList.countP (fun t => decide ((k.task t).status = .blocked)) = 0 := by
        refine List.countP_eq_zero.mpr fun v hv => ?_
        rw [decide_eq_true_eq]
        exact hnot v hv
      unfold woken
      rw [list, List.countP_cons_of_pos (by rw [decide_eq_true_eq]; exact blocked), hrest]
    rw [h0, hw, list]
    refine ⟨.jump u out, ?_⟩
    intro h1
    cases h1
  | switch xs list caller =>
    obtain ⟨h1, hhead⟩ := switched_head ⟨place, hi⟩ ht list
    have hw : woken k e k' = 0 := by
      refine woken_zero fun u hu => ?_
      have hm : u ∈ k.readyList ++ xs := by
        rw [list]
        exact List.mem_cons_of_mem _ hu
      rcases List.mem_append.mp hm with hm | hm
      · exact hnot u hm
      · rw [caller u hm, status_cur hi]
        simp
    rw [h1, hw]
    exact ⟨.serve k'.cur xs k'.readyList list, fun _ => hhead⟩

/-! ## Slices are short -/

/-- `ticks` and `priority` are bytes. -/
def ByteTicks (task : Tid → Task) : Prop := ∀ t, (task t).ticks < 256 ∧ (task t).priority < 256

theorem ByteTicks.update {task : Tid → Task} (h : ByteTicks task) (t : Tid) {v : Task} (h1 : v.ticks < 256)
    (h2 : v.priority < 256) : ByteTicks (Function.update task t v) := by
  intro u
  by_cases hu : u = t
  · rw [hu, Function.update_self]
    exact ⟨h1, h2⟩
  · rw [Function.update_of_ne hu]
    exact h u

theorem ByteTicks.setStatus (h : ByteTicks k.task) (t : Tid) (stat : TaskStatus) : ByteTicks (k.setStatus t stat).task :=
  h.update t (h t).1 (h t).2

theorem ByteTicks.schedule (h : ByteTicks k.task) (hs : Kernel.schedule k = .ok k') : ByteTicks k'.task := by
  obtain ⟨-, ⟨-, -, hd⟩ | ⟨-, hd⟩⟩ := schedule_ok hs
  · obtain ⟨next, rest, -, rfl⟩ := dispatch_ok hd
    have hr : ByteTicks k.requeue.task := h.update k.cur (h k.cur).2 (h k.cur).2
    exact hr.setStatus next .running
  · obtain ⟨next, rest, -, rfl⟩ := dispatch_ok hd
    exact h.setStatus next .running

theorem ByteTicks.semaDownLoop {l : LockId} {old : Bool} (h : ByteTicks k.task)
    (hd : Kernel.semaDownLoop k l old = .ok k') : ByteTicks k'.task := by
  rcases semaDownLoop_ok hd with ⟨-, -, hs⟩ | ⟨-, rfl⟩
  · have hb : ByteTicks (((k.retested l).enqueue l old).blocking .blocked).task :=
      ByteTicks.setStatus (k := (k.retested l).enqueue l old) h k.cur .blocked
    exact hb.schedule hs
  · exact h

theorem ByteTicks.semaUp {l : LockId} (h : ByteTicks k.task) (hu : Kernel.semaUp k l = .ok k') : ByteTicks k'.task := by
  obtain ⟨-, k1, h1, rfl⟩ := semaUp_ok hu
  rcases wakeFirst_ok h1 with ⟨-, rfl⟩ | ⟨t, rest, -, -, rfl⟩
  · exact h
  · exact h.update t (h t).1 (h t).2

theorem ByteTicks.wakeupIfAny {q : IoqId} {side : Side} (h : ByteTicks k.task)
    (hw : Kernel.wakeupIfAny k q side = .ok k') : ByteTicks k'.task := by
  rcases wakeupIfAny_ok hw with rfl | ⟨t, -, -, rfl⟩
  · exact h
  · exact h.setStatus t .ready

theorem ByteTicks.ioqWait {q : IoqId} {side : Side} (h : ByteTicks k.task) (hw : Kernel.ioqWait k q side = .ok k') :
    ByteTicks k'.task := by
  obtain ⟨-, hs⟩ := ioqWait_ok hw
  have hb : ByteTicks ((k.setIoq q ((k.ioq q).setWaiter side (some k.cur))).blocking .blocked).task :=
    ByteTicks.setStatus (k := k.setIoq q ((k.ioq q).setWaiter side (some k.cur))) h k.cur .blocked
  exact hb.schedule hs

theorem ByteTicks.countTick (h : ByteTicks k.task) : ByteTicks k.countTick.task := h.update k.cur (h k.cur).1 (h k.cur).2

theorem step_small (h : ByteTicks k.task) (hs : step k e = .ok k') : ByteTicks k'.task := by
  cases step_trans hs with
  | tick =>
    have h1 := h.countTick k.cur
    refine h.countTick.update k.cur ?_ h1.2
    show (k.countTick.task k.cur).ticks - 1 < 256
    omega
  | preempt _ _ hs => exact ByteTicks.schedule (k := k.countTick.preempted) h.countTick hs
  | key q byte k1 _ _ hp =>
    have h1 : ByteTicks k1.task := ByteTicks.wakeupIfAny (k := storeByte { k with intr := false } q byte) h hp
    exact h1
  | callDown l _ _ hd => exact ByteTicks.semaDownLoop (k := { k with intr := false }) h hd
  | callUp l _ _ hu => exact h.semaUp hu
  | redown l old _ _ _ hd => exact h.semaDownLoop hd
  | lockDown l _ _ _ _ hd => exact ByteTicks.semaDownLoop (k := { k with intr := false }) h hd
  | lockUp l _ _ _ _ hu => exact ByteTicks.semaUp (k := k.setHere { k.here with lock := none }) h hu
  | get q _ _ _ _ hg => exact ByteTicks.wakeupIfAny (k := takeByte (k.setHere { k.here with op := .idle }) q) h hg
  | put q byte _ _ _ _ hp =>
    exact ByteTicks.wakeupIfAny (k := storeByte (k.setHere { k.here with op := .idle }) q byte) h hp
  | getWait q _ _ hw => exact ByteTicks.ioqWait (k := k.setHere { k.here with op := .ioqGetchar q .release }) h hw
  | putWait q byte _ _ hw =>
    exact ByteTicks.ioqWait (k := k.setHere { k.here with op := .ioqPutchar q byte .release }) h hw
  | callCreate n => exact h.update n.pcb (by decide) (by decide)
  | pidReturn n => exact h.update n.pcb (Nat.mod_lt _ (by decide)) (Nat.mod_lt _ (by decide))
  | _ => exact h

/-- A timer interrupt that does not end a slice shortens it, and a slice is shorter than 256. -/
theorem Shift.left_le {t : Tid} (h : Shift k e k') (hq : Queues k) (ht : t ∈ k.readyList) (hsm : ByteTicks k'.task) :
    (k'.task k'.cur).ticks + timerInterrupt k e k' ≤ (k.task k.cur).ticks + 256 * switched k e k' := by
  have hleft := (hsm k'.cur).1
  have htimer : timerInterrupt k e k' ≤ 1 := by
    unfold timerInterrupt
    split <;> omega
  cases h with
  | stay xs cur list new left =>
    rw [cur]
    omega
  | wake u cur list out blocked left =>
    rw [cur]
    omega
  | switch xs list caller =>
    rw [(switched_head hq ht list).1]
    omega

end Kernel

/-! ## Runs -/

/-- The times the CPU goes to another thread, the threads woken, and the timer interrupts of a run. -/
def Kernel.switches (k : Kernel) (es : List Event) : Nat := tally step switched k es
def Kernel.wakeups (k : Kernel) (es : List Event) : Nat := tally step woken k es
def Kernel.timers (k : Kernel) (es : List Event) : Nat := tally step timerInterrupt k es

theorem Kernel.boot_small (mainThread : Tid) (value : LockId → Nat) : ByteTicks (boot mainThread value).task :=
  have hzero : ByteTicks fun _ => zeroTask := fun _ => show 0 < 256 ∧ 0 < 256 by decide
  hzero.update mainThread (by decide) (by decide)

/-- `t` is ready, in a state of a run. -/
structure Waits (t : Tid) (k : Kernel) : Prop where
  queues : Queues k
  threads : ThreadInv k
  mem : t ∈ k.readyList
  small : ByteTicks k.task

/-- **How long a ready thread waits.**  As long as it does not get the CPU it stays in the ready list; a switch
brings it one place forward, a thread that is woken puts it one place back, and no thread runs longer than 256
ticks. -/
theorem ready_waits (mainThread : Tid) (value : LockId → Nat) (es₀ : List Event) (k : Kernel)
    (hr₀ : Runs step Free (boot mainThread value) es₀ k) (t : Tid) (ht : t ∈ k.readyList) (es : List Event)
    (k' : Kernel) (hr : Runs step (Passes t) k es k') :
    t ∈ k'.readyList ∧ k'.readyList.idxOf t + k.switches es = k.readyList.idxOf t + k.wakeups es ∧
      k.timers es ≤ 255 + 256 * (k.readyList.idxOf t + k.wakeups es) := by
  obtain ⟨hq, hth⟩ := run_queues hr₀
  have hsmall : ByteTicks k.task :=
    Runs.invariant (fun k => ByteTicks k.task) (fun _ _ _ h _ hs => step_small h hs) es₀ _ k
      (boot_small mainThread value) hr₀
  have hstep : ∀ k1 e k2, Waits t k1 → Passes t k1 e → step k1 e = .ok k2 → Waits t k2 ∧
      k2.readyList.idxOf t + switched k1 e k2 = k1.readyList.idxOf t + woken k1 e k2 := by
    intro k1 e k2 h hp hs
    obtain ⟨hmove, hhead⟩ := (step_shift h.queues h.threads hs).move h.queues h.mem
    have hnot : switched k1 e k2 = 1 → k1.readyList.head? ≠ some t := by
      intro h1 he
      rw [hhead h1] at he
      exact hp k2 hs (Option.some.inj he)
    obtain ⟨hmem, hidx⟩ := hmove.idxOf_add h.mem hnot
    have htr := step_trans hs
    exact ⟨⟨step_queues h.queues h.threads htr, step_threads h.queues h.threads htr, hmem,
      step_small h.small hs⟩, hidx⟩
  have h0 : Waits t k := ⟨hq, hth, ht, hsmall⟩
  obtain ⟨h', hplace⟩ := Runs.tally_eq (Waits t) (fun k => k.readyList.idxOf t) hstep es k k' h0 hr
  have hticks := Runs.tally_le (Waits t) (fun k => (k.task k.cur).ticks) 256
    (fun k1 e k2 h hp hs => ⟨(hstep k1 e k2 h hp hs).1,
      (step_shift h.queues h.threads hs).left_le h.queues h.mem (step_small h.small hs)⟩) es k k' h0 hr
  refine ⟨h'.mem, hplace, ?_⟩
  have hslice := (hsmall k.cur).1
  unfold timers wakeups
  omega

/-- The test of `Passes`. -/
def passes (t : Tid) (k : Kernel) (e : Event) : Bool :=
  match step k e with
  | .ok k1 => decide (k1.cur ≠ t)
  | .error _ => true

theorem passes_iff (t : Tid) (k : Kernel) (e : Event) (h : passes t k e = true) : Passes t k e := by
  intro k1 hs
  unfold passes at h
  rw [hs] at h
  exact of_decide_eq_true h

/-- A new thread waits while the main thread uses up three ticks. -/
theorem ready_waits_created : ∃ k k', Runs step (Passes 1) k (List.replicate 3 .timer) k' ∧ k.readyList = [1] ∧
    1 ∈ k'.readyList ∧ k'.readyList.idxOf 1 + k.switches (List.replicate 3 .timer) =
      k.readyList.idxOf 1 + k.wakeups (List.replicate 3 .timer) := by
  obtain ⟨k, hr₀, hk⟩ := Runs.exists_of_exec step (G := Free) (fun _ _ => true) (fun _ _ _ => trivial)
    (boot 0 fun _ => 1) (threadStartRun 1 8 ++ [.call .intrEnable])
    (fun k => (k.readyList, (Runs.exec step (passes 1) k (List.replicate 3 .timer)).isSome)) (b := ([1], true))
    (by decide +kernel)
  obtain ⟨hl, hsome⟩ := Prod.mk.inj hk
  obtain ⟨k', hk'⟩ := Option.isSome_iff_exists.mp hsome
  have hr := Runs.of_exec (G := Passes 1) (passes_iff 1) _ k k' hk'
  have hw := ready_waits 0 (fun _ => 1) _ k hr₀ 1 (by rw [hl]; exact List.mem_singleton.mpr rfl) _ k' hr
  exact ⟨k, k', hr, hl, hw.1, hw.2.1⟩

end MyOs
