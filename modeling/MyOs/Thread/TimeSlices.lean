import MyOs.Theory.RoundRobin
import MyOs.Thread.Scheduler

/-!
# Time slices

The timer handler counts `ticks` of the running thread down, and `schedule` gives it a new slice of `priority` when
it puts it at the end of the ready list: the CPU and the ready list are a `RoundRobin` with slices `priority`.

    timer_turn       a timer interrupt is a turn
    step_elapsed     only a timer interrupt changes elapsed_ticks
    time_slices      whom the interrupts are charged to, and how often altogether
-/

namespace MyOs

open Kernel

/-- The threads that the timer interrupts of a run are charged to, by their `elapsed_ticks++`. -/
def Kernel.charged : Kernel → List Event → List Tid
  | _, [] => []
  | k, e :: es =>
    match step k e with
    | .error _ => []
    | .ok k1 => if e = .timer then k.cur :: k1.charged es else k1.charged es

/-- Between two timer interrupts nobody is switched, queued or taken from the ready list. -/
def NoSchedule (k : Kernel) (e : Event) : Prop :=
  e ≠ .timer → ∀ k1, step k e = .ok k1 → k1.cur = k.cur ∧ k1.readyList = k.readyList ∧
    ∀ t ∈ k.cur :: k.readyList, k1.task t = k.task t

/-- The running thread and the ready threads have a whole slice each. -/
structure FreshSlices (k : Kernel) : Prop where
  nodup : (k.cur :: k.readyList).Nodup
  running : (k.task k.cur).status = .running
  fresh : ∀ t ∈ k.cur :: k.readyList, (k.task t).ticks = (k.task t).priority
  magic : ∀ t ∈ k.cur :: k.readyList, (k.task t).stackMagic = 0x20040207

/-- The running thread may have used some of its slice. -/
structure Slices (slice : Tid → Nat) (k : Kernel) : Prop where
  nodup : (k.cur :: k.readyList).Nodup
  running : (k.task k.cur).status = .running
  priority : ∀ t ∈ k.cur :: k.readyList, (k.task t).priority = slice t
  ready : ∀ t ∈ k.readyList, (k.task t).ticks = slice t
  left : (k.task k.cur).ticks ≤ slice k.cur
  magic : ∀ t ∈ k.cur :: k.readyList, (k.task t).stackMagic = 0x20040207

/-- The CPU and the ready list. -/
def Kernel.robin (k : Kernel) : RoundRobin Tid where
  head := k.cur
  rest := k.readyList
  left := (k.task k.cur).ticks

namespace Kernel

variable {k k' : Kernel} {slice : Tid → Nat}

/-! ## What the steps write in a PCB -/

section
variable (k : Kernel) (t u : Tid)

theorem countTick_task : k.countTick.task t =
    if t = k.cur then { k.task t with elapsedTicks := ((k.task t).elapsedTicks + 1) % 2 ^ 32 } else k.task t := by
  by_cases h : t = k.cur
  · rw [if_pos h, h]
    exact Function.update_self _ _ _
  · rw [if_neg h]
    exact Function.update_of_ne h _ _

theorem useTick_task : k.useTick.task t =
    if t = k.cur then { k.task t with ticks := (k.task t).ticks - 1 } else k.task t := by
  by_cases h : t = k.cur
  · rw [if_pos h, h]
    exact Function.update_self _ _ _
  · rw [if_neg h]
    exact Function.update_of_ne h _ _

theorem requeue_task : k.requeue.task t =
    if t = k.cur then { k.task t with ticks := (k.task t).priority, status := .ready } else k.task t := by
  by_cases h : t = k.cur
  · rw [if_pos h, h]
    exact Function.update_self _ _ _
  · rw [if_neg h]
    exact Function.update_of_ne h _ _

theorem setStatus_task (stat : TaskStatus) : (k.setStatus u stat).task t =
    if t = u then { k.task t with status := stat } else k.task t := by
  by_cases h : t = u
  · rw [if_pos h, h]
    exact Function.update_self _ _ _
  · rw [if_neg h]
    exact Function.update_of_ne h _ _

end

/-! ## The handler -/

theorem schedule_running (hi : k.intr = false) (hr : (k.task k.cur).status = .running) (hn : k.cur ∉ k.readyList) :
    schedule k = dispatch k.requeue := by
  unfold schedule
  rw [hi, if_pos hr]
  simp [assert, hn, bind, Except.bind]

theorem timer_handler (hi : k.intr = true) (hm : (k.task k.cur).stackMagic = 0x20040207)
    (hr : (k.task k.cur).status = .running) (hn : k.cur ∉ k.readyList) : step k .timer =
      if (k.task k.cur).ticks = 0 then dispatch k.countTick.preempted.requeue else .ok k.countTick.useTick := by
  have hr' : (k.countTick.task k.cur).status = .running := by
    rw [countTick_status]
    exact hr
  have hs : schedule k.countTick.preempted = dispatch k.countTick.preempted.requeue :=
    schedule_running rfl hr' hn
  show (if k.intr = true then intrTimerHandler k else .error .disabled) = _
  rw [if_pos hi, ← hs]
  unfold intrTimerHandler
  rw [hm]
  rfl

/-- A thread whose slice is used up. -/
theorem preempted_dispatch (k : Kernel) : ∃ next rest, k.readyList ++ [k.cur] = next :: rest ∧
    dispatch k.countTick.preempted.requeue = .ok { (k.countTick.preempted.requeue.setStatus next .running) with
      readyList := rest
      cur := next
      screen := k.screen ++ (k.countTick.preempted.requeue.task next).name } := by
  cases hl : k.readyList with
  | nil =>
    refine ⟨k.cur, [], rfl, ?_⟩
    have hr : k.countTick.preempted.requeue.readyList = [k.cur] := congrArg (· ++ [k.cur]) hl
    unfold dispatch
    rw [hr]
    rfl
  | cons t ts =>
    refine ⟨t, ts ++ [k.cur], rfl, ?_⟩
    have hr : k.countTick.preempted.requeue.readyList = t :: (ts ++ [k.cur]) := congrArg (· ++ [k.cur]) hl
    unfold dispatch
    rw [hr]
    rfl

/-- What preemption leaves in the PCBs. -/
theorem preempted_task (k : Kernel) (next t : Tid) :
    let task := (k.countTick.preempted.requeue.setStatus next .running).task t
    task.priority = (k.task t).priority ∧ task.stackMagic = (k.task t).stackMagic ∧
      task.ticks = (if t = k.cur then (k.task t).priority else (k.task t).ticks) ∧
      task.elapsedTicks = (k.countTick.task t).elapsedTicks ∧ (t = next → task.status = .running) := by
  have htask : k.countTick.preempted.requeue.task t = if t = k.cur then
      { k.countTick.task t with ticks := (k.countTick.task t).priority, status := .ready } else k.countTick.task t :=
    requeue_task k.countTick.preempted t
  dsimp only
  rw [setStatus_task, htask, countTick_task]
  by_cases hc : t = k.cur
  · by_cases hn : t = next
    · simp only [if_pos hc, if_pos hn, and_self, implies_true]
    · simp only [if_pos hc, hn, if_false, false_implies, and_self]
  · by_cases hn : t = next
    · simp only [if_neg hc, if_pos hn, and_self, implies_true]
    · simp only [if_neg hc, hn, if_false, false_implies, and_self]

/-- The slice is used up: the next thread gets the CPU. -/
theorem preempted_turn (h : Slices slice k) (h0 : (k.task k.cur).ticks = 0) :
    ∃ k1, dispatch k.countTick.preempted.requeue = .ok k1 ∧ k1.robin = k.robin.turn slice ∧ Slices slice k1 := by
  obtain ⟨next, rest, hl, hd⟩ := preempted_dispatch k
  have htask := preempted_task k next
  have hperm : (next :: rest).Perm (k.cur :: k.readyList) := by
    rw [← hl]
    exact List.perm_append_singleton k.cur k.readyList
  have hmem : ∀ t ∈ next :: rest, t ∈ k.cur :: k.readyList := fun t ht => hperm.mem_iff.mp ht
  have hnodup : (next :: rest).Nodup := hperm.nodup_iff.mpr h.nodup
  -- the slice of the one that was preempted is new, the others have not touched theirs
  have hticks : ∀ t ∈ next :: rest,
      ((k.countTick.preempted.requeue.setStatus next .running).task t).ticks = slice t := by
    intro t ht
    rw [(htask t).2.2.1]
    by_cases hc : t = k.cur
    · rw [if_pos hc]
      exact h.priority t (hmem t ht)
    · rw [if_neg hc]
      exact h.ready t ((List.mem_cons.mp (hmem t ht)).resolve_left hc)
  refine ⟨_, hd, ?_, hnodup, (htask next).2.2.2.2 rfl, ?_, ?_, ?_, ?_⟩
  · unfold RoundRobin.turn
    rw [if_pos (show k.robin.left = 0 from h0)]
    show RoundRobin.mk next rest _ = _
    rw [hticks next List.mem_cons_self]
    cases hr : k.readyList with
    | nil =>
      rw [hr] at hl
      cases hl
      have hrest : k.robin.rest = [] := hr
      rw [hrest]
      rfl
    | cons t ts =>
      rw [hr] at hl
      cases hl
      have hrest : k.robin.rest = next :: ts := hr
      rw [hrest]
      rfl
  · exact fun t ht => (htask t).1.trans (h.priority t (hmem t ht))
  · exact fun t ht => hticks t (List.mem_cons_of_mem next ht)
  · exact Nat.le_of_eq (hticks next List.mem_cons_self)
  · exact fun t ht => (htask t).2.1.trans (h.magic t (hmem t ht))

/-- The thread keeps the CPU and has one tick less. -/
theorem useTick_turn (h : Slices slice k) (h0 : (k.task k.cur).ticks ≠ 0) :
    k.countTick.useTick.robin = k.robin.turn slice ∧ Slices slice k.countTick.useTick := by
  obtain ⟨hnot, -⟩ := List.nodup_cons.mp h.nodup
  have htask : ∀ t, k.countTick.useTick.task t = if t = k.cur then
      { k.countTick.task t with ticks := (k.countTick.task t).ticks - 1 } else k.countTick.task t :=
    useTick_task k.countTick
  have hsame : ∀ t, (k.countTick.useTick.task t).priority = (k.task t).priority ∧
      (k.countTick.useTick.task t).stackMagic = (k.task t).stackMagic ∧
      (k.countTick.useTick.task t).status = (k.task t).status ∧
      (k.countTick.useTick.task t).ticks = if t = k.cur then (k.task t).ticks - 1 else (k.task t).ticks := by
    intro t
    rw [htask, countTick_task]
    by_cases hc : t = k.cur
    · simp only [if_pos hc, and_self]
    · simp only [if_neg hc, and_self]
  have hleft : (k.countTick.useTick.task k.cur).ticks = (k.task k.cur).ticks - 1 := by
    rw [(hsame k.cur).2.2.2, if_pos rfl]
  refine ⟨?_, h.nodup, (hsame k.cur).2.2.1.trans h.running, ?_, ?_, ?_, ?_⟩
  · unfold RoundRobin.turn
    rw [if_neg (show k.robin.left ≠ 0 from h0)]
    show RoundRobin.mk k.cur k.readyList (k.countTick.useTick.task k.cur).ticks = _
    rw [hleft]
    rfl
  · exact fun t ht => (hsame t).1.trans (h.priority t ht)
  · intro t ht
    have hc : t ≠ k.cur := fun he => hnot (he ▸ ht)
    show (k.countTick.useTick.task t).ticks = _
    rw [(hsame t).2.2.2, if_neg hc]
    exact h.ready t ht
  · show (k.countTick.useTick.task k.cur).ticks ≤ _
    rw [hleft]
    exact Nat.le_trans (Nat.sub_le _ _) h.left
  · exact fun t ht => (hsame t).2.1.trans (h.magic t ht)

/-- **A timer interrupt** is a turn of the round robin. -/
theorem timer_turn (h : Slices slice k) (hi : k.intr = true) : ∃ k1, step k .timer = .ok k1 ∧
    k1.robin = k.robin.turn slice ∧ Slices slice k1 := by
  obtain ⟨hnot, -⟩ := List.nodup_cons.mp h.nodup
  rw [timer_handler hi (h.magic _ List.mem_cons_self) h.running hnot]
  by_cases h0 : (k.task k.cur).ticks = 0
  · rw [if_pos h0]
    exact preempted_turn h h0
  · rw [if_neg h0]
    exact ⟨_, rfl, useTick_turn h h0⟩

/-- What is no scheduling event is no turn. -/
theorem quiet_turn {e : Event} (h : Slices slice k) (hg : NoSchedule k e) (he : e ≠ .timer)
    (hs : step k e = .ok k') : k'.robin = k.robin ∧ Slices slice k' := by
  obtain ⟨hc, hr, ht⟩ := hg he k' hs
  have hcur := ht k.cur List.mem_cons_self
  refine ⟨?_, ?_, ?_, ?_, ?_, ?_, ?_⟩
  · unfold robin
    rw [hc, hr, hcur]
  · rw [hc, hr]
    exact h.nodup
  · rw [hc, hcur]
    exact h.running
  · rw [hc, hr]
    exact fun t hm => (congrArg Task.priority (ht t hm)).trans (h.priority t hm)
  · rw [hr]
    exact fun t hm => (congrArg Task.ticks (ht t (List.mem_cons_of_mem _ hm))).trans (h.ready t hm)
  · rw [hc, hcur]
    exact h.left
  · rw [hc, hr]
    exact fun t hm => (congrArg Task.stackMagic (ht t hm)).trans (h.magic t hm)

/-- **A run** charges its timer interrupts as the round robin does. -/
theorem run_charged : ∀ (es : List Event) (k : Kernel), Slices slice k → Runs step NoSchedule k es k' →
    ∃ n, k.charged es = RoundRobin.charged slice n k.robin ∧ Slices slice k' := by
  intro es
  induction es with
  | nil =>
    intro k h hr
    cases hr
    exact ⟨0, rfl, h⟩
  | cons e es ih =>
    rintro k h ⟨hg, k1, hs, hr⟩
    rw [charged, hs]
    dsimp only
    by_cases he : e = .timer
    · rw [if_pos he]
      subst he
      have hi : k.intr = true := by
        by_contra hn
        have hoff : step k .timer = .error .disabled := if_neg hn
        rw [hoff] at hs
        cases hs
      obtain ⟨k2, hs2, hturn, h2⟩ := timer_turn h hi
      cases hs.symm.trans hs2
      obtain ⟨n, hn, h'⟩ := ih k1 h2 hr
      refine ⟨n + 1, ?_, h'⟩
      rw [hn, hturn]
      rfl
    · rw [if_neg he]
      obtain ⟨hsame, h1⟩ := quiet_turn h hg he hs
      obtain ⟨n, hn, h'⟩ := ih k1 h1 hr
      refine ⟨n, ?_, h'⟩
      rw [hn, hsame]

/-! ## elapsed_ticks -/

def elapsed (k : Kernel) (t : Tid) : Nat := (k.task t).elapsedTicks

/-- No tick is counted, and no thread becomes a thread. -/
structure Untimed (k k' : Kernel) : Prop where
  elapsed : ∀ t, k'.elapsed t = k.elapsed t
  ticks : k'.ticks = k.ticks
  threads : k'.hist.threads = k.hist.threads

theorem Untimed.refl (k : Kernel) : Untimed k k := ⟨fun _ => rfl, rfl, rfl⟩

theorem Untimed.trans {k1 : Kernel} (h1 : Untimed k k1) (h2 : Untimed k1 k') : Untimed k k' :=
  ⟨fun t => (h2.elapsed t).trans (h1.elapsed t), h2.ticks.trans h1.ticks, h2.threads.trans h1.threads⟩

theorem setStatus_untimed (k : Kernel) (t : Tid) (stat : TaskStatus) : Untimed k (k.setStatus t stat) := by
  refine ⟨fun u => ?_, rfl, rfl⟩
  unfold elapsed
  rw [setStatus_task]
  split <;> rfl

theorem requeue_untimed (k : Kernel) : Untimed k k.requeue := by
  refine ⟨fun t => ?_, rfl, rfl⟩
  unfold elapsed
  rw [requeue_task]
  split <;> rfl

theorem useTick_untimed (k : Kernel) : Untimed k k.useTick := by
  refine ⟨fun t => ?_, rfl, rfl⟩
  unfold elapsed
  rw [useTick_task]
  split <;> rfl

theorem dispatch_untimed (h : dispatch k = .ok k') : Untimed k k' := by
  obtain ⟨next, rest, -, rfl⟩ := dispatch_ok h
  have hs := setStatus_untimed k next .running
  exact ⟨hs.elapsed, rfl, rfl⟩

theorem schedule_untimed (h : schedule k = .ok k') : Untimed k k' := by
  obtain ⟨-, ⟨-, -, hd⟩ | ⟨-, hd⟩⟩ := schedule_ok h
  · exact (requeue_untimed k).trans (dispatch_untimed hd)
  · exact dispatch_untimed hd

/-- `thread_block`, called in `k1`. -/
theorem blocking_untimed {k1 : Kernel} {stat : TaskStatus} (h : schedule (k1.blocking stat) = .ok k')
    (h1 : Untimed k k1) : Untimed k k' := by
  have hs := setStatus_untimed k1 k1.cur stat
  have hb : Untimed k1 (k1.blocking stat) := ⟨hs.elapsed, rfl, rfl⟩
  exact (h1.trans hb).trans (schedule_untimed h)

theorem semaDownLoop_untimed {l : LockId} {old : Bool} (h : semaDownLoop k l old = .ok k') : Untimed k k' := by
  rcases semaDownLoop_ok h with ⟨-, -, hs⟩ | ⟨-, rfl⟩
  · exact blocking_untimed hs ⟨fun _ => rfl, rfl, rfl⟩
  · exact ⟨fun _ => rfl, rfl, rfl⟩

theorem semaUp_untimed {l : LockId} (h : semaUp k l = .ok k') : Untimed k k' := by
  obtain ⟨-, k1, h1, rfl⟩ := semaUp_ok h
  rcases wakeFirst_ok h1 with ⟨-, rfl⟩ | ⟨t, rest, -, -, rfl⟩
  · exact ⟨fun _ => rfl, rfl, rfl⟩
  · exact ⟨(setStatus_untimed k t .ready).elapsed, rfl, rfl⟩

theorem ioqWait_untimed {q : IoqId} {side : Side} (h : ioqWait k q side = .ok k') : Untimed k k' :=
  blocking_untimed (ioqWait_ok h).2 ⟨fun _ => rfl, rfl, rfl⟩

theorem wakeupIfAny_untimed {q : IoqId} {side : Side} (h : wakeupIfAny k q side = .ok k') : Untimed k k' := by
  rcases wakeupIfAny_ok h with rfl | ⟨t, -, -, rfl⟩
  · exact Untimed.refl _
  · exact ⟨(setStatus_untimed k t .ready).elapsed, rfl, rfl⟩

/-- The ticks are those of the threads. -/
structure Counted (k : Kernel) : Prop where
  nodup : k.hist.threads.Nodup
  fresh : ∀ t, t ∉ k.hist.threads → k.elapsed t = 0
  sum : (k.hist.threads.map k.elapsed).sum % 2 ^ 32 = k.ticks

theorem Counted.untimed (h : Counted k) (hu : Untimed k k') : Counted k' := by
  have helapsed : k'.elapsed = k.elapsed := funext hu.elapsed
  refine ⟨?_, ?_, ?_⟩
  · rw [hu.threads]
    exact h.nodup
  · rw [hu.threads, helapsed]
    exact h.fresh
  · rw [hu.threads, helapsed, hu.ticks]
    exact h.sum

theorem sum_map_update {f : Tid → Nat} {t : Tid} (v : Nat) : ∀ (l : List Tid), l.Nodup → t ∈ l →
    (l.map (Function.update f t v)).sum + f t = (l.map f).sum + v := by
  intro l
  induction l with
  | nil => exact fun _ ht => by cases ht
  | cons u l ih =>
    intro hnd ht
    obtain ⟨hu, hnd'⟩ := List.nodup_cons.mp hnd
    rw [List.map_cons, List.map_cons, List.sum_cons, List.sum_cons]
    by_cases htu : t = u
    · subst htu
      have hrest : l.map (Function.update f t v) = l.map f := by
        refine List.map_congr_left fun x hx => ?_
        have hne : x ≠ t := fun he => hu (he ▸ hx)
        exact Function.update_of_ne hne _ _
      rw [hrest, Function.update_self]
      omega
    · have hl := ih hnd' ((List.mem_cons.mp ht).resolve_left htu)
      rw [Function.update_of_ne (Ne.symm htu)]
      omega

/-- A tick goes to the running thread. -/
theorem Counted.countTick (h : Counted k) (hc : k.cur ∈ k.hist.threads) : Counted k.countTick := by
  have helapsed : k.countTick.elapsed = Function.update k.elapsed k.cur ((k.elapsed k.cur + 1) % 2 ^ 32) := by
    funext t
    unfold elapsed
    rw [countTick_task]
    by_cases ht : t = k.cur
    · rw [if_pos ht, ht, Function.update_self]
    · rw [if_neg ht, Function.update_of_ne ht]
  have hsum := sum_map_update (f := k.elapsed) ((k.elapsed k.cur + 1) % 2 ^ 32) k.hist.threads h.nodup hc
  have hold := h.sum
  refine ⟨h.nodup, fun t ht => ?_, ?_⟩
  · have hne : t ≠ k.cur := fun he => ht (he ▸ hc)
    rw [helapsed, Function.update_of_ne hne]
    exact h.fresh t ht
  · rw [helapsed]
    show (k.hist.threads.map _).sum % 2 ^ 32 = (k.ticks + 1) % 2 ^ 32
    omega

/-- A new thread has run for no tick. -/
theorem Counted.appendReady {t : Tid} (h : Counted k) (ht : t ∉ k.hist.threads) : Counted (appendReady k t) := by
  refine ⟨List.nodup_cons.mpr ⟨ht, h.nodup⟩, fun u hu => ?_, ?_⟩
  · exact h.fresh u fun hm => hu (List.mem_cons_of_mem t hm)
  · show ((t :: k.hist.threads).map k.elapsed).sum % 2 ^ 32 = k.ticks
    rw [List.map_cons, List.sum_cons, h.fresh t ht, Nat.zero_add]
    exact h.sum

/-- The PCB of a thread to be is written. -/
theorem newTask_untimed {t : Tid} {task : Task} (h : Counted k) (ht : t ∉ k.hist.threads)
    (h0 : task.elapsedTicks = 0) (htask : k'.task = Function.update k.task t task) (hticks : k'.ticks = k.ticks)
    (hth : k'.hist.threads = k.hist.threads) : Untimed k k' := by
  refine ⟨fun u => ?_, hticks, hth⟩
  unfold elapsed
  rw [htask]
  by_cases hu : u = t
  · rw [hu, Function.update_self, h0]
    exact (h.fresh t ht).symm
  · rw [Function.update_of_ne hu]

/-- **Every step** keeps the count. -/
theorem step_counted {e : Event} (h : Counted k) (hq : Queues k) (ht : ThreadInv k) (hs : Trans k e k') :
    Counted k' := by
  obtain ⟨place, hplace⟩ := hq
  have hc := cur_mem_threads hplace
  cases hs with
  | tick => exact (h.countTick hc).untimed (useTick_untimed _)
  | preempt _ _ hs =>
    have hp : Untimed k.countTick k.countTick.preempted := ⟨fun _ => rfl, rfl, rfl⟩
    exact (h.countTick hc).untimed (hp.trans (schedule_untimed hs))
  | key q byte k1 _ _ hp =>
    have h1 : Untimed k ({ k with intr := false }.storeByte q byte) := ⟨fun _ => rfl, rfl, rfl⟩
    have h2 := h1.trans (wakeupIfAny_untimed hp)
    exact h.untimed ⟨h2.elapsed, h2.ticks, h2.threads⟩
  | callDown l _ _ hd =>
    have h1 : Untimed k { k with intr := false } := ⟨fun _ => rfl, rfl, rfl⟩
    exact h.untimed (h1.trans (semaDownLoop_untimed hd))
  | callUp l _ _ hu => exact h.untimed (semaUp_untimed hu)
  | redown l old _ _ _ hd => exact h.untimed (semaDownLoop_untimed hd)
  | lockDown l _ _ _ _ hd =>
    have h1 : Untimed k { k with intr := false } := ⟨fun _ => rfl, rfl, rfl⟩
    exact h.untimed (h1.trans (semaDownLoop_untimed hd))
  | lockUp l _ _ _ _ hu =>
    have h1 : Untimed k (k.setHere { k.here with lock := none }) := ⟨fun _ => rfl, rfl, rfl⟩
    exact h.untimed (h1.trans (semaUp_untimed hu))
  | lockNext l pc plock next => exact h.untimed ⟨fun _ => rfl, rfl, countHeld_threads l pc next⟩
  | get q _ _ _ _ hg =>
    have h1 : Untimed k ((k.setHere { k.here with op := .idle }).takeByte q) := ⟨fun _ => rfl, rfl, rfl⟩
    exact h.untimed (h1.trans (wakeupIfAny_untimed hg))
  | put q byte _ _ _ _ hp =>
    have h1 : Untimed k ((k.setHere { k.here with op := .idle }).storeByte q byte) := ⟨fun _ => rfl, rfl, rfl⟩
    exact h.untimed (h1.trans (wakeupIfAny_untimed hp))
  | getWait q _ _ hw =>
    have h1 : Untimed k (k.setHere { k.here with op := .ioqGetchar q .release }) := ⟨fun _ => rfl, rfl, rfl⟩
    exact h.untimed (h1.trans (ioqWait_untimed hw))
  | putWait q byte _ _ hw =>
    have h1 : Untimed k (k.setHere { k.here with op := .ioqPutchar q byte .release }) := ⟨fun _ => rfl, rfl, rfl⟩
    exact h.untimed (h1.trans (ioqWait_untimed hw))
  | callCreate n _ hn =>
    have hnew : n.pcb ∉ k.hist.threads := fun hm => hn (ht.threads_pcbs _ hm)
    exact h.untimed (newTask_untimed h hnew rfl rfl rfl rfl)
  | pidReturn n ha =>
    have hnew := (ht.creating k.cur n .pidReturn (congrArg Ctx.op ha)).2.2.1 rfl
    exact h.untimed (newTask_untimed h hnew rfl rfl rfl rfl)
  | readyAppend n ha =>
    have hnew := (ht.creating k.cur n .readyAppend (congrArg Ctx.op ha)).2.2.1 rfl
    exact (h.appendReady hnew).untimed ⟨fun _ => rfl, rfl, rfl⟩
  | insert n ha =>
    have hnew := (ht.creating k.cur n .insert (congrArg Ctx.op ha)).2.2.1 rfl
    exact (h.appendReady hnew).untimed ⟨fun _ => rfl, rfl, rfl⟩
  | _ => exact h.untimed ⟨fun _ => rfl, rfl, rfl⟩

theorem boot_counted (mainThread : Tid) (value : LockId → Nat) : Counted (boot mainThread value) := by
  have h0 : ∀ t, (boot mainThread value).elapsed t = 0 := by
    intro t
    show (Function.update (fun _ => zeroTask) mainThread _ t).elapsedTicks = 0
    by_cases ht : t = mainThread
    · rw [ht, Function.update_self]
    · rw [Function.update_of_ne ht]
      rfl
  refine ⟨List.nodup_singleton mainThread, fun t _ => h0 t, ?_⟩
  show ([mainThread].map (boot mainThread value).elapsed).sum % 2 ^ 32 = 0
  rw [List.map_singleton, h0]
  rfl

theorem run_counted {mainThread : Tid} {value : LockId → Nat} {es : List Event}
    (hr : Runs step Free (boot mainThread value) es k) : Counted k := by
  have hinv : Counted k ∧ Queues k ∧ ThreadInv k := by
    refine Runs.invariant (fun k => Counted k ∧ Queues k ∧ ThreadInv k) ?_ es _ k
      ⟨boot_counted mainThread value, boot_queues mainThread value, boot_threads mainThread value⟩ hr
    rintro k1 e k2 ⟨hc, hq, ht⟩ _ hs
    have htr := step_trans hs
    exact ⟨step_counted hc hq ht htr, step_queues hq ht htr, step_threads hq ht htr⟩
  exact hinv.1

end Kernel

/-- The slots of the running thread and the ready threads, one after the other. -/
def Kernel.slots (k : Kernel) : List Tid :=
  (k.cur :: k.readyList).flatMap fun t => List.replicate ((k.task t).priority + 1) t

/-- How the timer interrupts of a run are charged. -/
structure RoundRobinRun (k : Kernel) (es : List Event) (k' : Kernel) : Prop where
  /-- Around and around the slots. -/
  periodic : ∀ i, i < (k.charged es).length → (k.charged es)[i]? = k.slots[i % k.slots.length]?
  length : k.slots.length = ((k.cur :: k.readyList).map fun t => (k.task t).priority + 1).sum
  /-- Within a round every thread runs. -/
  window : ∀ j, j + k.slots.length ≤ (k.charged es).length →
    ∀ t ∈ k.cur :: k.readyList, t ∈ ((k.charged es).drop j).take k.slots.length
  /-- The next interrupt fails no ASSERT. -/
  goes_on : k'.intr = true → ∃ k1, step k' .timer = .ok k1

/-- **Time slices.**  From any state with whole slices, the timer interrupts are charged round robin, as long as
nothing else schedules; and in every state of every run the threads have run for as many ticks as there were. -/
theorem time_slices (mainThread : Tid) (value : LockId → Nat) :
    (∀ (k : Kernel) (es : List Event) (k' : Kernel), FreshSlices k → Runs step NoSchedule k es k' →
      RoundRobinRun k es k') ∧
    ∀ (es : List Event) (k : Kernel), Runs step Free (boot mainThread value) es k →
      (k.hist.threads.map fun t => (k.task t).elapsedTicks).sum % 2 ^ 32 = k.ticks := by
  refine ⟨fun k es k' hf hr => ?_, fun es k hr => (run_counted hr).sum⟩
  have h : Slices (fun t => (k.task t).priority) k :=
    ⟨hf.nodup, hf.running, fun _ _ => rfl, fun t ht => hf.fresh t (List.mem_cons_of_mem _ ht),
      Nat.le_of_eq (hf.fresh _ List.mem_cons_self), hf.magic⟩
  obtain ⟨n, hn, h'⟩ := run_charged es k h hr
  have hfair : k.robin.Fair fun t => (k.task t).priority := h.left
  have hslots : k.robin.ahead (fun t => (k.task t).priority) = k.slots :=
    RoundRobin.ahead_full (hf.fresh _ List.mem_cons_self)
  refine ⟨?_, RoundRobin.length_slots _, ?_, fun hi => ?_⟩
  · intro i hi
    rw [hn, RoundRobin.length_charged] at hi
    rw [hn, RoundRobin.charged_getElem n i _ hfair hi, hslots]
  · intro j hj t ht
    rw [hn, RoundRobin.length_charged, ← hslots] at hj
    rw [hn, ← hslots, RoundRobin.charged_window j n _ hfair hj, List.mem_rotate]
    exact RoundRobin.mem_ahead ht
  · obtain ⟨k1, hs, -⟩ := timer_turn h' hi
    exact ⟨k1, hs⟩

/-- The main thread, and a thread that `thread_start` created with priority 8. -/
def twoThreads : Kernel :=
  { boot 0 (fun _ => 1) with
    intr := true
    readyList := [1]
    task := Function.update (boot 0 fun _ => 1).task 1
      { pid := 2, status := .ready, name := [], priority := 8, ticks := 8, elapsedTicks := 0,
        stackMagic := 0x20040207 } }

/-- Both use up a slice; the second one starts in `kernel_thread`. -/
def twoSlices : List Event := List.replicate 32 .timer ++ .step :: List.replicate 9 .timer

theorem noSchedule_resume {k : Kernel} {e : Event} (h : e = .timer ∨ e = .step ∧ k.here.resume.isSome = true) :
    NoSchedule k e := by
  rintro he k1 hs
  rcases h with rfl | ⟨rfl, hr⟩
  · exact absurd rfl he
  · obtain ⟨r, hr⟩ := Option.isSome_iff_exists.mp hr
    have hstep : step k .step = .ok { (k.setHere { k.here with resume := none }) with intr := r.intr } := by
      show innermost k = _
      unfold innermost
      rw [hr]
    rw [hstep] at hs
    cases hs
    exact ⟨rfl, rfl, fun _ _ => rfl⟩

theorem time_slices_two :
    (∃ k', Runs step NoSchedule twoThreads twoSlices k' ∧ twoThreads.charged twoSlices =
      List.replicate 32 0 ++ List.replicate 9 1 ∧ RoundRobinRun twoThreads twoSlices k') ∧
    ∃ k, Runs step Free (boot 0 fun _ => 1) preemptedRun k ∧ k.ticks = 32 ∧
      (k.hist.threads.map fun t => (k.task t).elapsedTicks).sum % 2 ^ 32 = 32 := by
  constructor
  · obtain ⟨k', hr, -⟩ := Runs.exists_of_exec step (G := NoSchedule)
      (fun k e => e = .timer ∨ e = .step ∧ k.here.resume.isSome) (fun k e h => noSchedule_resume (of_decide_eq_true h))
      twoThreads twoSlices (fun k => k.cur) (b := 0) (by decide +kernel)
    refine ⟨k', hr, by decide +kernel, (time_slices 0 fun _ => 1).1 twoThreads twoSlices k' ?_ hr⟩
    exact ⟨by decide, rfl, by decide, by decide⟩
  · obtain ⟨k, hr, hk⟩ := Runs.exists_of_exec step (G := Free) (fun _ _ => true) (fun _ _ _ => trivial)
      (boot 0 fun _ => 1) preemptedRun (fun k => k.ticks) (b := 32) (by decide +kernel)
    refine ⟨k, hr, hk, ?_⟩
    have hsum := (time_slices 0 fun _ => 1).2 preemptedRun k hr
    rw [hk] at hsum
    exact hsum

end MyOs
