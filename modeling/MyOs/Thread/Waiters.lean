import MyOs.Thread.Scheduler

/-!
# No waiter is left behind

`sema_up` wakes one waiter and raises the value, but does not hand the value over: any thread may take it
before the woken one tests again.  `hist.woken` are the threads that were woken and have not tested again.
While the value is 1 every test takes it, so as long as it stays 1 nobody leaves `woken`, and nobody joins
the waiters.

    WakeInv.frame         steps that do not touch the semaphore
    step_wake             every event keeps the invariant
    sema_no_stranded      in every run
-/

namespace MyOs

structure WakeInv (k : Kernel) (l : LockId) : Prop where
  value : k.value l ≤ 1
  waiting : ∀ t ∈ k.waiters l, ∃ old, (k.ctx t).sema = some (l, old)
  woken : ∀ t ∈ k.hist.woken l, (∃ old, (k.ctx t).sema = some (l, old)) ∧
    ((k.task t).status = .ready ∨ t = k.cur)
  nodup : (k.hist.woken l).Nodup
  pending : k.value l = 1 → k.waiters l ≠ [] → k.hist.woken l ≠ []

namespace WakeInv

variable {k k' : Kernel} {l : LockId} {place : Tid → Option Place}

/-- The semaphore `l` is not touched; woken threads stay ready, or get the CPU. -/
theorem frame (h : WakeInv k l) (hv : k'.value l = k.value l) (hw : k'.waiters l = k.waiters l)
    (hk : k'.hist.woken l = k.hist.woken l)
    (hs : ∀ t, (k.ctx t).sema ≠ none → (t ∈ k.waiters l ∨ t ∈ k.hist.woken l) →
      (k'.ctx t).sema = (k.ctx t).sema)
    (hr : ∀ t ∈ k.hist.woken l, (k'.task t).status = .ready ∨ t = k'.cur) : WakeInv k' l := by
  refine ⟨?_, ?_, ?_, ?_, ?_⟩
  · rw [hv]
    exact h.value
  · intro t ht
    rw [hw] at ht
    obtain ⟨old, ho⟩ := h.waiting t ht
    refine ⟨old, ?_⟩
    rw [hs t (by simp [ho]) (.inl ht), ho]
  · intro t ht
    rw [hk] at ht
    obtain ⟨⟨old, ho⟩, -⟩ := h.woken t ht
    refine ⟨⟨old, ?_⟩, hr t ht⟩
    rw [hs t (by simp [ho]) (.inr ht), ho]
  · rw [hk]
    exact h.nodup
  · rw [hv, hw, hk]
    exact h.pending

/-- A thread that is not in `sema_down` of `l` is neither waiting nor woken. -/
theorem not_mem (h : WakeInv k l) {t : Tid} (ht : ∀ old, (k.ctx t).sema ≠ some (l, old)) :
    t ∉ k.waiters l ∧ t ∉ k.hist.woken l := by
  refine ⟨?_, ?_⟩
  · intro hm
    obtain ⟨old, ho⟩ := h.waiting t hm
    exact ht old ho
  · intro hm
    obtain ⟨⟨old, ho⟩, -⟩ := h.woken t hm
    exact ht old ho

/-- The running thread's call stack becomes `c`; it is not in `sema_down`, or stays where it is in it. -/
theorem own {c : Ctx} (h : WakeInv k l) (hv : k'.value l = k.value l) (hw : k'.waiters l = k.waiters l)
    (hk : k'.hist.woken l = k.hist.woken l) (hctx : k'.ctx = Function.update k.ctx k.cur c)
    (hc : k.here.sema = none ∨ c.sema = k.here.sema)
    (hr : ∀ t ∈ k.hist.woken l, (k'.task t).status = .ready ∨ t = k'.cur) : WakeInv k' l := by
  refine h.frame hv hw hk ?_ hr
  intro t ht _
  rw [hctx]
  by_cases hcur : t = k.cur
  · subst hcur
    rw [Function.update_self]
    rcases hc with hn | he
    · exact absurd hn ht
    · exact he
  · rw [Function.update_of_ne hcur]

/-- Statuses and the running thread are as before. -/
theorem status_same (h : WakeInv k l) (hc : k'.cur = k.cur)
    (hs : ∀ t, (k'.task t).status = (k.task t).status) :
    ∀ t ∈ k.hist.woken l, (k'.task t).status = .ready ∨ t = k'.cur := by
  intro t ht
  rw [hs t, hc]
  exact (h.woken t ht).2

end WakeInv

namespace Kernel

variable {k k' : Kernel} {l l' : LockId} {place : Tid → Option Place}

/-- Who gets the CPU was ready. -/
theorem dispatch_status (h : dispatch k = .ok k') {t : Tid} (ht : (k.task t).status = .ready) :
    (k'.task t).status = .ready ∨ t = k'.cur := by
  obtain ⟨next, rest, -, rfl⟩ := dispatch_ok h
  by_cases hn : t = next
  · exact .inr hn
  · left
    show ((k.setStatus next .running).task t).status = _
    rw [status_setStatus, if_neg hn]
    exact ht

/-- A ready thread stays ready or gets the CPU; so does the caller when it is still running. -/
theorem schedule_status (h : schedule k = .ok k') {t : Tid}
    (ht : (k.task t).status = .ready ∨ t = k.cur ∧ (k.task k.cur).status = .running) :
    (k'.task t).status = .ready ∨ t = k'.cur := by
  obtain ⟨-, ⟨hrun, -, hd⟩ | ⟨hn, hd⟩⟩ := schedule_ok h
  · refine dispatch_status hd ?_
    by_cases hc : t = k.cur
    · subst hc
      simp [requeue]
    · rcases ht with ht | ⟨he, -⟩
      · simp [requeue, hc, ht]
      · exact absurd he hc
  · refine dispatch_status hd ?_
    rcases ht with ht | ⟨-, hr⟩
    · exact ht
    · exact absurd hr hn

/-- `thread_block` of the running thread keeps the others ready, or gives them the CPU. -/
theorem blocking_status {k1 : Kernel} (h : schedule (k1.blocking .blocked) = .ok k') {t : Tid}
    (hne : t ≠ k1.cur) (ht : (k1.task t).status = .ready) : (k'.task t).status = .ready ∨ t = k'.cur := by
  refine schedule_status h (.inl ?_)
  have hb : (k1.blocking .blocked).task = (k1.setStatus k1.cur .blocked).task := rfl
  rw [hb, status_setStatus, if_neg hne]
  exact ht

/-! ## sema_down and sema_up -/

theorem cur_not_waiting (hq : QueueInv k [k.cur] place) (l : LockId) : k.cur ∉ k.waiters l := by
  intro hm
  have hb := hq.status k.cur (.waiters l) ((hq.placed.mem_iff (.waiters l) k.cur).mp hm)
  rw [status_cur hq] at hb
  cases hb

/-- Blocked: one more waiter, while the value is 0. -/
theorem enqueue_wake {old : Bool} (hq : QueueInv k [k.cur] place) (h : WakeInv k l) (hv : k.value l = 0)
    (hs : schedule (((k.retested l).enqueue l old).blocking .blocked) = .ok k') : WakeInv k' l := by
  have hcurw := cur_not_waiting hq l
  have hnot : k.cur ∉ (k.hist.woken l).erase k.cur := by
    intro hm
    exact (h.nodup.mem_erase_iff.mp hm).1 rfl
  have hf := schedule_frame hs
  have hctx : ∀ t, t ≠ k.cur → k'.ctx t = k.ctx t := by
    intro t ht
    rw [hf]
    simp [blocking, enqueue, retested, setHere, setSema, setLock, setStatus, ht]
  have hcur : (k'.ctx k.cur).sema = some (l, old) := by
    rw [hf]
    simp [blocking, enqueue, retested, setHere, setSema, setLock, setStatus, here]
  have hval : k'.value l = 0 := by
    rw [hf]
    show (k.setSema l _).value l = 0
    rw [value_setSema, if_pos rfl]
    exact hv
  have hw : k'.waiters l = k.waiters l ++ [k.cur] := by
    rw [hf]
    show (k.setSema l _).waiters l = _
    rw [waiters_setSema, if_pos rfl]
    rfl
  have hk : k'.hist.woken l = (k.hist.woken l).erase k.cur := by
    rw [hf]
    show Function.update k.hist.woken l _ l = _
    rw [Function.update_self]
  refine ⟨by omega, ?_, ?_, ?_, by omega⟩
  · intro t ht
    rw [hw, List.mem_append, List.mem_singleton] at ht
    rcases ht with ht | rfl
    · rw [hctx t (fun he => hcurw (he ▸ ht))]
      exact h.waiting t ht
    · exact ⟨old, hcur⟩
  · intro t ht
    rw [hk] at ht
    have hne : t ≠ k.cur := fun he => hnot (he ▸ ht)
    obtain ⟨ho, hready | he⟩ := h.woken t (List.mem_of_mem_erase ht)
    · rw [hctx t hne]
      exact ⟨ho, blocking_status hs hne hready⟩
    · exact absurd he hne
  · rw [hk]
    exact h.nodup.erase k.cur

/-- Taken: the value is 0 now. -/
theorem takeSema_wake {old : Bool} (hq : QueueInv k [k.cur] place) (h : WakeInv k l) (hv : k.value l = 1) :
    WakeInv ((k.retested l).takeSema l old) l := by
  have hcurw := cur_not_waiting hq l
  have hval : ((k.retested l).takeSema l old).value l = 0 := by
    show (k.setSema l _).value l = 0
    rw [value_setSema, if_pos rfl]
    show k.value l - 1 = 0
    omega
  have hw : ((k.retested l).takeSema l old).waiters l = k.waiters l := by
    show (k.setSema l _).waiters l = _
    rw [waiters_setSema, if_pos rfl]
    rfl
  have hk : ((k.retested l).takeSema l old).hist.woken l = (k.hist.woken l).erase k.cur := by
    show Function.update k.hist.woken l _ l = _
    rw [Function.update_self]
  have hctx : ∀ t, t ≠ k.cur → ((k.retested l).takeSema l old).ctx t = k.ctx t :=
    fun t ht => Function.update_of_ne ht _ _
  refine ⟨by omega, ?_, ?_, ?_, by omega⟩
  · intro t ht
    rw [hw] at ht
    rw [hctx t (fun he => hcurw (he ▸ ht))]
    exact h.waiting t ht
  · intro t ht
    rw [hk] at ht
    have hne : t ≠ k.cur := by
      rintro rfl
      exact (h.nodup.mem_erase_iff.mp ht).1 rfl
    rw [hctx t hne]
    exact h.woken t (List.mem_of_mem_erase ht)
  · rw [hk]
    exact h.nodup.erase k.cur

/-- `sema_down` of another semaphore, by a thread that is not in `sema_down` of `l`. -/
theorem semaDownLoop_wake_ne {old : Bool} (hq : QueueInv k [k.cur] place) (h : WakeInv k l) (hl : l' ≠ l)
    (hc : ∀ old, k.here.sema ≠ some (l, old)) (hd : semaDownLoop k l' old = .ok k') : WakeInv k' l := by
  have hcurw := cur_not_waiting hq l
  have hcurk : k.cur ∉ k.hist.woken l := (h.not_mem hc).2
  have hx : ∀ t, t ≠ k.cur → k'.ctx t = k.ctx t := by
    intro t ht
    rcases semaDownLoop_ctx hd with ⟨-, he⟩ | ⟨-, he⟩
    · rw [he, Function.update_of_ne ht]
    · rw [he, Function.update_of_ne ht]
  have hsame : ∀ t, (k.ctx t).sema ≠ none → (t ∈ k.waiters l ∨ t ∈ k.hist.woken l) →
      (k'.ctx t).sema = (k.ctx t).sema := by
    intro t _ hm
    have hne : t ≠ k.cur := by
      rintro rfl
      tauto
    rw [hx t hne]
  rcases semaDownLoop_ok hd with ⟨-, -, hs⟩ | ⟨-, rfl⟩
  · have hf := schedule_frame hs
    refine h.frame ?_ ?_ ?_ hsame ?_
    · rw [hf]
      show (k.setSema l' _).value l = _
      rw [value_setSema, if_neg (Ne.symm hl)]
    · rw [hf]
      show (k.setSema l' _).waiters l = _
      rw [waiters_setSema, if_neg (Ne.symm hl)]
    · rw [hf]
      show Function.update k.hist.woken l' _ l = _
      rw [Function.update_of_ne (Ne.symm hl)]
    · intro t ht
      have hne : t ≠ k.cur := fun he => hcurk (he ▸ ht)
      rcases (h.woken t ht).2 with hready | he
      · exact blocking_status hs hne hready
      · exact absurd he hne
  · refine h.frame ?_ ?_ ?_ hsame (h.status_same rfl fun _ => rfl)
    · show (k.setSema l' _).value l = _
      rw [value_setSema, if_neg (Ne.symm hl)]
    · show (k.setSema l' _).waiters l = _
      rw [waiters_setSema, if_neg (Ne.symm hl)]
    · show Function.update k.hist.woken l' _ l = _
      rw [Function.update_of_ne (Ne.symm hl)]

/-- A round of `sema_down`, of `l` or of another semaphore. -/
theorem semaDownLoop_wake {old : Bool} (hq : QueueInv k [k.cur] place) (h : WakeInv k l)
    (hs : k.here.sema = none ∨ ∃ old', k.here.sema = some (l', old'))
    (hd : semaDownLoop k l' old = .ok k') : WakeInv k' l := by
  by_cases hl : l' = l
  · subst hl
    rcases semaDownLoop_ok hd with ⟨hv, -, hsch⟩ | ⟨hv, rfl⟩
    · exact enqueue_wake hq h hv hsch
    · exact takeSema_wake hq h hv
  · refine semaDownLoop_wake_ne hq h hl ?_ hd
    intro old1 he
    rcases hs with hn | ⟨old', hs⟩
    · rw [hn] at he
      cases he
    · rw [hs] at he
      cases he
      exact hl rfl

/-- `sema_up(l)`: the value becomes 1, and the first waiter, if there is one, is woken. -/
theorem semaUp_effect (h : semaUp k l = .ok k') :
    k'.value l = 1 ∧
      (k.waiters l = [] ∧ k'.waiters l = [] ∧ k'.hist.woken l = k.hist.woken l ∧ k'.task = k.task ∨
        ∃ t, k.waiters l = t :: k'.waiters l ∧ k'.hist.woken l = t :: k.hist.woken l ∧
          k'.task = (k.setStatus t .ready).task) := by
  obtain ⟨hv, k1, h1, rfl⟩ := semaUp_ok h
  have hraise : (k1.raiseSema l).waiters l = k1.waiters l := by
    show (k1.setSema l _).waiters l = _
    rw [waiters_setSema, if_pos rfl]
    rfl
  have hval : (k1.raiseSema l).value l = (k1.value l + 1) % 256 := by
    show (k1.setSema l _).value l = _
    rw [value_setSema, if_pos rfl]
  rcases wakeFirst_ok h1 with ⟨hw, rfl⟩ | ⟨t, rest, hw, -, rfl⟩
  · refine ⟨?_, .inl ⟨hw, hraise.trans hw, rfl, rfl⟩⟩
    rw [hval, hv]
  · refine ⟨?_, .inr ⟨t, ?_, ?_, rfl⟩⟩
    · rw [hval]
      show ((k.setSema l _).value l + 1) % 256 = 1
      rw [value_setSema, if_pos rfl]
      show (k.value l + 1) % 256 = 1
      rw [hv]
    · rw [hraise, hw]
      show t :: rest = t :: (k.setSema l _).waiters l
      rw [waiters_setSema, if_pos rfl]
    · show Function.update k.hist.woken l _ l = _
      rw [Function.update_self]

theorem semaUp_effect_ne (hl : l' ≠ l) (h : semaUp k l' = .ok k') :
    k'.value l = k.value l ∧ k'.waiters l = k.waiters l ∧ k'.hist.woken l = k.hist.woken l ∧
      (k'.task = k.task ∨ ∃ t, k'.task = (k.setStatus t .ready).task) := by
  obtain ⟨-, k1, h1, rfl⟩ := semaUp_ok h
  have hw : (k1.raiseSema l').waiters l = k1.waiters l := by
    show (k1.setSema l' _).waiters l = _
    rw [waiters_setSema, if_neg (Ne.symm hl)]
  have hv : (k1.raiseSema l').value l = k1.value l := by
    show (k1.setSema l' _).value l = _
    rw [value_setSema, if_neg (Ne.symm hl)]
  rcases wakeFirst_ok h1 with ⟨-, rfl⟩ | ⟨t, rest, -, -, rfl⟩
  · exact ⟨hv, hw, rfl, .inl rfl⟩
  · refine ⟨hv.trans ?_, hw.trans ?_, ?_, .inr ⟨t, rfl⟩⟩
    · show (k.setSema l' _).value l = _
      rw [value_setSema, if_neg (Ne.symm hl)]
    · show (k.setSema l' _).waiters l = _
      rw [waiters_setSema, if_neg (Ne.symm hl)]
    · show Function.update k.hist.woken l' _ l = _
      rw [Function.update_of_ne (Ne.symm hl)]

/-- Making a thread ready keeps every ready thread ready. -/
theorem ready_setStatus {t s : Tid} (hs : (k.task s).status = .ready ∨ s = k.cur) :
    ((k.setStatus t .ready).task s).status = .ready ∨ s = k.cur := by
  rcases hs with hs | hs
  · left
    rw [status_setStatus]
    split
    · rfl
    · exact hs
  · exact .inr hs

theorem semaUp_wake (hq : QueueInv k [k.cur] place) (h : WakeInv k l) (hu : semaUp k l' = .ok k') :
    WakeInv k' l := by
  obtain ⟨hctx, hcur⟩ := semaUp_ctx hu
  by_cases hl : l' = l
  · subst hl
    obtain ⟨hv, ⟨-, hw, hk, htask⟩ | ⟨t, hw, hk, htask⟩⟩ := semaUp_effect hu
    · refine ⟨by omega, ?_, ?_, ?_, ?_⟩
      · rw [hw]
        intro t ht
        cases ht
      · rw [hk, hctx, htask, hcur]
        exact h.woken
      · rw [hk]
        exact h.nodup
      · intro _ hne
        exact absurd hw hne
    · have ht : t ∈ k.waiters l' := by
        rw [hw]
        simp
      -- a waiter is blocked, so it is not among the woken yet
      have hnew : t ∉ k.hist.woken l' := by
        intro hm
        have hb := hq.status t (.waiters l') ((hq.placed.mem_iff (.waiters l') t).mp ht)
        rcases (h.woken t hm).2 with hr | he
        · rw [hr] at hb
          cases hb
        · exact cur_not_waiting hq l' (he ▸ ht)
      refine ⟨by omega, ?_, ?_, ?_, ?_⟩
      · intro s hs
        rw [hctx]
        refine h.waiting s ?_
        rw [hw]
        exact List.mem_cons_of_mem t hs
      · intro s hs
        rw [hctx, htask, hcur]
        rw [hk] at hs
        rcases List.mem_cons.mp hs with rfl | hs
        · refine ⟨h.waiting s ht, .inl ?_⟩
          rw [status_setStatus, if_pos rfl]
        · obtain ⟨ho, hr⟩ := h.woken s hs
          exact ⟨ho, ready_setStatus hr⟩
      · rw [hk]
        exact List.nodup_cons.mpr ⟨hnew, h.nodup⟩
      · intro _ _
        rw [hk]
        simp
  · obtain ⟨hv, hw, hk, htask⟩ := semaUp_effect_ne hl hu
    refine h.frame hv hw hk (fun t _ _ => by rw [hctx]) ?_
    intro t ht
    rw [hcur]
    rcases htask with htask | ⟨s, htask⟩
    · rw [htask]
      exact (h.woken t ht).2
    · rw [htask]
      exact ready_setStatus (h.woken t ht).2

/-! ## Steps and runs -/

theorem wakeupIfAny_wake {q : IoqId} {side : Side} (h : WakeInv k l) (hw : wakeupIfAny k q side = .ok k') :
    WakeInv k' l := by
  rcases wakeupIfAny_ok hw with rfl | ⟨t, -, -, rfl⟩
  · exact h
  · exact h.frame rfl rfl rfl (fun _ _ _ => rfl) (fun s hs => ready_setStatus (h.woken s hs).2)

theorem ioqWait_wake {q : IoqId} {side : Side} (h : WakeInv k l) (hs : k.here.sema = none)
    (hw : ioqWait k q side = .ok k') : WakeInv k' l := by
  have hcurk : k.cur ∉ k.hist.woken l := by
    refine (h.not_mem ?_).2
    intro old he
    have hs' : (k.ctx k.cur).sema = none := hs
    rw [hs'] at he
    cases he
  have hx := ioqWait_ctx hw
  obtain ⟨-, hsch⟩ := ioqWait_ok hw
  have hf := schedule_frame hsch
  refine h.own ?_ ?_ ?_ hx (.inl hs) ?_
  · rw [hf]
    rfl
  · rw [hf]
    rfl
  · rw [hf]
    rfl
  · intro t ht
    have hne : t ≠ k.cur := fun he => hcurk (he ▸ ht)
    rcases (h.woken t ht).2 with hready | he
    · exact blocking_status hsch hne hready
    · exact absurd he hne

theorem intr_wake (h : WakeInv k l) (intr : Bool) : WakeInv { k with intr := intr } l :=
  ⟨h.value, h.waiting, h.woken, h.nodup, h.pending⟩

theorem setHere_wake {c : Ctx} (h : WakeInv k l) (hc : k.here.sema = none ∨ c.sema = k.here.sema) :
    WakeInv (k.setHere c) l :=
  h.own rfl rfl rfl rfl hc (h.status_same rfl fun _ => rfl)

theorem preempt_wake (hq : QueueInv k [k.cur] place) (h : WakeInv k l)
    (hs : schedule k.countTick.preempted = .ok k') : WakeInv k' l := by
  have hf := schedule_frame hs
  refine h.own (c := { k.here with resume := some .intrExit }) ?_ ?_ ?_ ?_ (.inr rfl) ?_
  · rw [hf]
    rfl
  · rw [hf]
    rfl
  · rw [hf]
    rfl
  · rw [hf]
    rfl
  · intro t ht
    refine schedule_status hs ?_
    rcases (h.woken t ht).2 with hr | rfl
    · exact .inl ((countTick_status k t).trans hr)
    · exact .inr ⟨rfl, (countTick_status k k.cur).trans (status_cur hq)⟩

theorem lockNext_wake {pc : LockPc} {plock : Lock} {next : Option LockPc} (h : WakeInv k l)
    (hc : lockCode k.cur (k.lock l') pc = .ok (plock, next)) : WakeInv (k.lockNext l' pc plock next) l := by
  refine h.own ?_ (lockNext_waiters hc l) ?_ rfl (.inr rfl) (h.status_same rfl fun _ => rfl)
  · show (Function.update k.lock l' plock l).semaphore.value = (k.lock l).semaphore.value
    by_cases hl : l = l'
    · rw [hl, Function.update_self, lockCode_semaphore hc]
    · rw [Function.update_of_ne hl]
  · show (countHeld k l' pc next).woken l = _
    unfold countHeld
    split <;> rfl

/-- A page that is nobody's yet is neither waiting nor woken. -/
theorem fresh_not_woken (ht : ThreadInv k) (h : WakeInv k l) {t : Tid} (hn : t ∉ k.hist.threads) :
    t ∉ k.hist.woken l := by
  refine (h.not_mem ?_).2
  intro old he
  rw [ht.fresh t hn] at he
  cases he

theorem step_wake {e : Event} (hq : Queues k) (ht : ThreadInv k) (h : WakeInv k l) (hs : Trans k e k') :
    WakeInv k' l := by
  obtain ⟨place, hplace⟩ := hq
  cases hs with
  | tick =>
    refine h.frame rfl rfl rfl (fun _ _ _ => rfl) (h.status_same rfl ?_)
    intro t
    rw [useTick_status, countTick_status]
  | preempt _ _ hs => exact preempt_wake hplace h hs
  | keyLost => exact h
  | key q byte k1 _ _ hp =>
    have h1 : WakeInv (Kernel.storeByte { k with intr := false } q byte) l :=
      (intr_wake h false).frame rfl rfl rfl (fun _ _ _ => rfl) (h.status_same rfl fun _ => rfl)
    exact intr_wake (wakeupIfAny_wake h1 hp) true
  | intrEnable => exact intr_wake h true
  | intrDisable => exact intr_wake h false
  | callDown l' _ ha hd =>
    exact semaDownLoop_wake (intr_queues hplace false) (intr_wake h false) (.inl (congrArg Ctx.sema ha)) hd
  | callUp l' _ _ hu => exact semaUp_wake hplace h hu
  | redown l' old _ _ hsema hd => exact semaDownLoop_wake hplace h (.inr ⟨old, hsema⟩) hd
  | lockDown l' _ _ hsema _ hd =>
    exact semaDownLoop_wake (intr_queues hplace false) (intr_wake h false) (.inl hsema) hd
  | lockUp l' _ _ hsema _ hu =>
    exact semaUp_wake (setHere_queues hplace _) (setHere_wake h (.inl hsema)) hu
  | lockNext l' pc plock next _ _ _ _ _ hc => exact lockNext_wake h hc
  | resume r _ => exact h.own rfl rfl rfl rfl (.inr rfl) (h.status_same rfl fun _ => rfl)
  | get q _ ha _ _ hb =>
    have h1 := setHere_wake (c := { k.here with op := .idle }) h (.inl (congrArg Ctx.sema ha))
    have h2 : WakeInv ((k.setHere { k.here with op := .idle }).takeByte q) l :=
      h1.frame rfl rfl rfl (fun _ _ _ => rfl) (h1.status_same rfl fun _ => rfl)
    exact wakeupIfAny_wake h2 hb
  | put q byte _ ha _ _ hb =>
    have h1 := setHere_wake (c := { k.here with op := .idle }) h (.inl (congrArg Ctx.sema ha))
    have h2 : WakeInv ((k.setHere { k.here with op := .idle }).storeByte q byte) l :=
      h1.frame rfl rfl rfl (fun _ _ _ => rfl) (h1.status_same rfl fun _ => rfl)
    exact wakeupIfAny_wake h2 hb
  | getWait q _ ha hw =>
    have hsema : k.here.sema = none := congrArg Ctx.sema ha
    refine ioqWait_wake (setHere_wake h (.inl hsema)) ?_ hw
    simpa [here, setHere] using hsema
  | putWait q byte _ ha hw =>
    have hsema : k.here.sema = none := congrArg Ctx.sema ha
    refine ioqWait_wake (setHere_wake h (.inl hsema)) ?_ hw
    simpa [here, setHere] using hsema
  | callCreate n ha hn =>
    have hnew : n.pcb ∉ k.hist.threads := fun hm => hn (ht.threads_pcbs _ hm)
    refine h.own rfl rfl rfl rfl (.inl (congrArg Ctx.sema ha)) ?_
    intro t hw
    have hne : t ≠ n.pcb := fun he => fresh_not_woken ht h hnew (he ▸ hw)
    show (Function.update k.task n.pcb zeroTask t).status = .ready ∨ t = k.cur
    rw [Function.update_of_ne hne]
    exact (h.woken t hw).2
  | pidReturn n ha =>
    have hnew := pidReturn_new ht ha
    have h1 := setHere_wake (c := { k.here with
      op := .create n (if n.process then .insert else .readyAssert) }) h (.inl (congrArg Ctx.sema ha))
    have hfresh : ((k.setOp (.create n (if n.process then .insert else .readyAssert))).ctx n.pcb).sema =
        none := by
      by_cases hc : n.pcb = k.cur
      · have hsema : k.here.sema = none := congrArg Ctx.sema ha
        rw [hc]
        simpa [setOp, setHere] using hsema
      · simp [setOp, setHere, hc, ht.fresh n.pcb hnew, Ctx.new, Ctx.idle]
    refine h1.frame rfl rfl rfl ?_ ?_
    · intro t hsema _
      have hne : t ≠ n.pcb := by
        rintro rfl
        exact hsema hfresh
      simp [initPcb, setOp, hne]
    · intro t hw
      have hne : t ≠ n.pcb := fun he => fresh_not_woken ht h hnew (he ▸ hw)
      show (Function.update k.task n.pcb _ t).status = .ready ∨ t = k.cur
      rw [Function.update_of_ne hne]
      exact (h.woken t hw).2
  | opRelease op op' l' ha _ =>
    exact h.own rfl rfl rfl rfl (.inl (congrArg Ctx.sema ha)) (h.status_same rfl fun _ => rfl)
  | callAcquire _ ha | callRelease _ ha | callGetchar _ ha | callPutchar _ _ ha | callConsole _ ha
  | getAcquire _ ha | putAcquire _ _ ha | pidAcquire _ ha | pidLoad _ ha | pidStore _ _ ha
  | readyAssert _ ha | readyAppend _ ha | allAssert _ ha | allAppend _ ha | insert _ ha
  | consoleAcquire _ ha | consolePut _ _ ha | consoleDone ha =>
    exact h.own rfl rfl rfl rfl (.inl (congrArg Ctx.sema ha)) (h.status_same rfl fun _ => rfl)

theorem boot_wake (mainThread : Tid) (value : LockId → Nat) (hv : value l ≤ 1) :
    WakeInv (boot mainThread value) l where
  value := hv
  waiting := fun _ ht => by cases ht
  woken := fun _ ht => by cases ht
  nodup := List.nodup_nil
  pending := fun _ hne => absurd rfl hne

end Kernel

/-- The event executes `sema_up(&l->semaphore)`, called by the thread or by `lock_release`. -/
def RunsUp (k : Kernel) (l : LockId) (e : Event) : Prop :=
  e = .call (.semaUp l) ∨
    e = .step ∧ k.here.resume = none ∧ k.here.sema = none ∧ k.here.lock = some (l, .releaseUp)

/-- Nobody is left behind on the semaphore of `l`. -/
structure NoStranded (k : Kernel) (l : LockId) : Prop where
  /-- With the value at 1 and threads waiting, some thread was taken from the waiters and made ready by
  `sema_up`, is in the loop of `sema_down`, and has not tested the value again. -/
  pending : k.value l = 1 → k.waiters l ≠ [] → ∃ t ∈ k.hist.woken l, t ∉ k.waiters l ∧
    ((k.task t).status = .ready ∨ t = k.cur) ∧ ∃ old, (k.ctx t).sema = some (l, old)
  /-- `sema_up` removes at most one waiter. -/
  up : ∀ e k', k.step e = .ok k' → RunsUp k l e →
    k'.waiters l = k.waiters l ∨ ∃ t, k.waiters l = t :: k'.waiters l

theorem semaUp_removes {k k' : Kernel} {l : LockId} (h : k.semaUp l = .ok k') :
    k'.waiters l = k.waiters l ∨ ∃ t, k.waiters l = t :: k'.waiters l := by
  obtain ⟨-, ⟨hw, hw', -⟩ | ⟨t, hw, -⟩⟩ := Kernel.semaUp_effect h
  · left
    rw [hw, hw']
  · exact .inr ⟨t, hw⟩

/-- **No stranded waiter**, in every run, for every semaphore that starts at 1. -/
theorem sema_no_stranded (mainThread : Tid) (value : LockId → Nat) (l : LockId) (hv : value l = 1)
    (es : List Event) (k : Kernel)
    (hr : Runs Kernel.step Kernel.Free (Kernel.boot mainThread value) es k) : NoStranded k l := by
  obtain ⟨⟨place, hq⟩, -, h⟩ := Runs.invariant (fun k => Queues k ∧ ThreadInv k ∧ WakeInv k l)
    (by
      rintro k1 e k2 ⟨hq, ht, hw⟩ - hs
      have htr := Kernel.step_trans hs
      exact ⟨Kernel.step_queues hq ht htr, Kernel.step_threads hq ht htr, Kernel.step_wake hq ht hw htr⟩)
    es _ k ⟨Kernel.boot_queues mainThread value, Kernel.boot_threads mainThread value,
      Kernel.boot_wake mainThread value (by omega)⟩ hr
  refine ⟨?_, ?_⟩
  · intro h1 hw
    obtain ⟨t, ht⟩ := List.exists_mem_of_ne_nil _ (h.pending h1 hw)
    obtain ⟨ho, hready⟩ := h.woken t ht
    refine ⟨t, ht, ?_, hready, ho⟩
    intro hm
    have hb := hq.status t (.waiters l) ((hq.placed.mem_iff (.waiters l) t).mp hm)
    rcases hready with hr | he
    · rw [hr] at hb
      cases hb
    · exact Kernel.cur_not_waiting hq l (he ▸ hm)
  · intro e k' hs hup
    have htr := Kernel.step_trans hs
    rcases hup with rfl | ⟨rfl, h1, h2, h3⟩
    · cases htr with
      | callUp _ _ _ hu => exact semaUp_removes hu
    · have hu : (k.setHere { k.here with lock := none }).semaUp l = .ok k' := by
        have hs' : k.innermost = .ok k' := hs
        simp only [Kernel.innermost, h1, h2, h3] at hs'
        exact hs'
      have hremoves := semaUp_removes hu
      exact hremoves

/-- The main thread takes a lock, two threads queue up, and the main thread gives it back: the value is 1,
one thread has been woken and the other still waits. -/
def queuedRun : List Event :=
  List.flatten [threadStartRun 1 8, threadStartRun 2 8,
    .call .intrEnable :: .call (.lockAcquire (.lock 0)) :: List.replicate 5 .step,
    List.replicate 32 .timer, [.step, .call (.lockAcquire (.lock 0)), .step, .step],
    [.step, .call (.lockAcquire (.lock 0)), .step, .step],
    .step :: .call (.lockRelease (.lock 0)) :: List.replicate 6 .step]

theorem sema_no_stranded_queued :
    ∃ k, Runs Kernel.step Kernel.Free (Kernel.boot 0 fun _ => 1) queuedRun k ∧
      (k.value (.lock 0) = 1 ∧ k.waiters (.lock 0) = [2] ∧ k.hist.woken (.lock 0) = [1]) ∧
      NoStranded k (.lock 0) := by
  obtain ⟨k, hr, hk⟩ := Runs.exists_of_exec Kernel.step (G := Kernel.Free) (fun _ _ => true) (fun _ _ _ => trivial)
    (Kernel.boot 0 fun _ => 1) queuedRun
    (fun k => (k.value (.lock 0), k.waiters (.lock 0), k.hist.woken (.lock 0))) (b := (1, [2], [1]))
    (by decide +kernel)
  refine ⟨k, hr, by simpa using hk, ?_⟩
  exact sema_no_stranded 0 (fun _ => 1) (.lock 0) rfl queuedRun k hr

end MyOs
