import MyOs.Thread.Machine
import MyOs.Theory.Places

/-!
# The scheduler's queues

Every thread's `general_tag` has one place: the CPU (no list), the ready list, the waiters of a semaphore,
or nothing but a field of an ioqueue that names the thread.  The status says which kind of place it is.

    QueueInv.move        a tag goes from one place to another
    schedule_queues      schedule, whether the caller is still running or has just been parked
    semaDownLoop_queues, semaUp_queues, ioqWait_queues, wakeupIfAny_queues
-/

namespace MyOs

/-- Where a thread can be. -/
inductive Place where
  | cpu
  | ready
  | waiters (l : LockId)
  | sleeper (q : IoqId) (side : Side)
  deriving DecidableEq, Repr

/-- The status of a thread in a place. -/
def Place.status : Place → TaskStatus
  | .cpu => .running
  | .ready => .ready
  | .waiters _ => .blocked
  | .sleeper _ _ => .blocked

/-- The lists of tags; `onCpu` is the running thread, or nobody in the middle of `schedule`. -/
def Kernel.lists (k : Kernel) (onCpu : List Tid) : Place → List Tid
  | .cpu => onCpu
  | .ready => k.readyList
  | .waiters l => k.waiters l
  | .sleeper q side => ((k.ioq q).waiter side).toList

structure QueueInv (k : Kernel) (onCpu : List Tid) (place : Tid → Option Place) : Prop where
  placed : Placed (k.lists onCpu) place
  status : ∀ t p, place t = some p → (k.task t).status = p.status
  threads : ∀ t, t ∈ k.hist.threads ↔ place t ≠ none

namespace QueueInv

variable {k k' : Kernel} {onCpu onCpu' : List Tid} {place : Tid → Option Place}

/-- Nothing the invariant speaks of has changed. -/
theorem congr (h : QueueInv k onCpu place) (hl : ∀ p, k'.lists onCpu' p = k.lists onCpu p)
    (hs : ∀ t ∈ k.hist.threads, (k'.task t).status = (k.task t).status)
    (ht : k'.hist.threads = k.hist.threads) : QueueInv k' onCpu' place := by
  have hl' : k'.lists onCpu' = k.lists onCpu := funext hl
  refine ⟨?_, ?_, ?_⟩
  · rw [hl']
    exact h.placed
  · intro t p hp
    have hmem : t ∈ k.hist.threads := by
      rw [h.threads t, hp]
      simp
    rw [hs t hmem]
    exact h.status t p hp
  · intro t
    rw [ht]
    exact h.threads t

/-- `t` goes from `p` to `q`. -/
theorem move (h : QueueInv k onCpu place) {t : Tid} {p q : Place} (hpq : p ≠ q)
    (hout : (k.lists onCpu p).Perm (t :: k'.lists onCpu' p))
    (hin : (k'.lists onCpu' q).Perm (t :: k.lists onCpu q))
    (hother : ∀ r, r ≠ p → r ≠ q → k'.lists onCpu' r = k.lists onCpu r)
    (hs : ∀ s, s ≠ t → (k'.task s).status = (k.task s).status) (hst : (k'.task t).status = q.status)
    (hth : k'.hist.threads = k.hist.threads) :
    QueueInv k' onCpu' (Function.update place t (some q)) := by
  have hp : place t = some p := (h.placed.mem_iff p t).mp (hout.mem_iff.mpr (by simp))
  -- between the two lists `t` is nowhere
  have hmid : Placed (Function.update (k.lists onCpu) p (k'.lists onCpu' p))
      (Function.update place t none) := by
    refine h.placed.leave p ?_ ?_
    · rw [Function.update_self]
      exact hout
    · intro r hr
      exact Function.update_of_ne hr _ _
  refine ⟨?_, ?_, ?_⟩
  · have hup : Function.update place t (some q) =
        Function.update (Function.update place t none) t (some q) := by simp
    rw [hup]
    refine hmid.enter q (Function.update_self ..) ?_ ?_
    · rw [Function.update_of_ne (Ne.symm hpq)]
      exact hin
    · intro r hr
      by_cases hrp : r = p
      · rw [hrp, Function.update_self]
      · rw [Function.update_of_ne hrp]
        exact hother r hrp hr
  · intro s r hr
    by_cases hst' : s = t
    · subst hst'
      rw [Function.update_self] at hr
      cases hr
      exact hst
    · rw [Function.update_of_ne hst'] at hr
      rw [hs s hst']
      exact h.status s r hr
  · intro s
    rw [hth, h.threads s]
    by_cases hst' : s = t
    · subst hst'
      simp [hp]
    · rw [Function.update_of_ne hst']

theorem mem_threads (h : QueueInv k onCpu place) {p : Place} {t : Tid} (hm : t ∈ k.lists onCpu p) :
    t ∈ k.hist.threads := by
  rw [h.threads t, (h.placed.mem_iff p t).mp hm]
  simp

/-- A new thread enters the ready list. -/
theorem insert (h : QueueInv k onCpu place) {t : Tid} (ht : t ∉ k.hist.threads)
    (hin : k'.readyList = k.readyList ++ [t])
    (hother : ∀ r, r ≠ .ready → k'.lists onCpu' r = k.lists onCpu r)
    (hs : ∀ s, s ≠ t → (k'.task s).status = (k.task s).status) (hst : (k'.task t).status = .ready)
    (hth : k'.hist.threads = t :: k.hist.threads) :
    QueueInv k' onCpu' (Function.update place t (some .ready)) := by
  have hp : place t = none := by
    by_contra hne
    exact ht ((h.threads t).mpr hne)
  refine ⟨?_, ?_, ?_⟩
  · refine h.placed.enter .ready hp ?_ hother
    show (k'.readyList).Perm (t :: k.readyList)
    rw [hin]
    exact List.perm_append_singleton t k.readyList
  · intro s r hr
    by_cases hst' : s = t
    · subst hst'
      rw [Function.update_self] at hr
      cases hr
      exact hst
    · rw [Function.update_of_ne hst'] at hr
      rw [hs s hst']
      exact h.status s r hr
  · intro s
    rw [hth]
    by_cases hst' : s = t
    · subst hst'
      simp
    · rw [Function.update_of_ne hst', List.mem_cons]
      simp [hst', h.threads s]

end QueueInv

/-- The queues between two steps. -/
def Queues (k : Kernel) : Prop := ∃ place, QueueInv k [k.cur] place

namespace Kernel

variable {k k' : Kernel} {place : Tid → Option Place}

/-! ## The operations of thread.c -/

theorem place_cur (h : QueueInv k [k.cur] place) : place k.cur = some .cpu :=
  (h.placed.mem_iff .cpu k.cur).mp (by simp [lists])

theorem status_cur (h : QueueInv k [k.cur] place) : (k.task k.cur).status = .running :=
  h.status k.cur .cpu (place_cur h)

theorem dispatch_queues (h : QueueInv k [] place) (hd : dispatch k = .ok k') : Queues k' := by
  obtain ⟨next, rest, hl, rfl⟩ := dispatch_ok hd
  refine ⟨_, h.move (t := next) (p := .ready) (q := .cpu) (by simp) ?_ ?_ ?_ ?_ ?_ rfl⟩
  · show (k.readyList).Perm (next :: rest)
    rw [hl]
  · exact List.Perm.refl _
  · intro r h1 h2
    cases r with
    | cpu => exact absurd rfl h2
    | ready => exact absurd rfl h1
    | waiters l => rfl
    | sleeper q side => rfl
  · intro s hs
    show ((k.setStatus next .running).task s).status = _
    rw [status_setStatus, if_neg hs]
  · show ((k.setStatus next .running).task next).status = _
    rw [status_setStatus, if_pos rfl]
    rfl

theorem requeue_queues (h : QueueInv k [k.cur] place) :
    QueueInv k.requeue [] (Function.update place k.cur (some .ready)) := by
  refine h.move (p := .cpu) (by simp) ?_ ?_ ?_ ?_ ?_ rfl
  · exact List.Perm.refl _
  · exact List.perm_append_singleton k.cur k.readyList
  · intro r h1 h2
    cases r with
    | cpu => exact absurd rfl h1
    | ready => exact absurd rfl h2
    | waiters l => rfl
    | sleeper q side => rfl
  · intro s hs
    simp [requeue, hs]
  · simp [requeue, Place.status]

/-- `schedule` called by a thread that goes on running. -/
theorem schedule_queues (h : QueueInv k [k.cur] place) (hs : schedule k = .ok k') : Queues k' := by
  obtain ⟨-, ⟨-, -, hd⟩ | ⟨hn, -⟩⟩ := schedule_ok hs
  · exact dispatch_queues (requeue_queues h) hd
  · exact absurd (status_cur h) hn

/-- `thread_block(TASK_BLOCKED)`, called in `k1` after the running thread's tag was put into `p`. -/
theorem park_queues {k1 : Kernel} {p : Place} (h : QueueInv k [k.cur] place)
    (hs : schedule (k1.blocking .blocked) = .ok k') (hp : p.status = .blocked)
    (hin : (k1.lists [] p).Perm (k.cur :: k.lists [] p))
    (hother : ∀ r, r ≠ .cpu → r ≠ p → k1.lists [] r = k.lists [] r) (hcur : k1.cur = k.cur)
    (htask : k1.task = k.task) (hth : k1.hist.threads = k.hist.threads) : Queues k' := by
  have hcpu : p ≠ .cpu := by
    rintro rfl
    cases hp
  have hstat : ∀ t, ((k1.blocking .blocked).task t).status =
      if t = k.cur then .blocked else (k.task t).status := by
    intro t
    have hb : (k1.blocking .blocked).task = (k1.setStatus k1.cur .blocked).task := rfl
    rw [hb, status_setStatus, hcur, htask]
  have hpark : QueueInv (k1.blocking .blocked) [] (Function.update place k.cur (some p)) := by
    refine h.move (p := .cpu) (Ne.symm hcpu) (List.Perm.refl _) ?_ ?_ ?_ ?_ hth
    · cases p with
      | cpu => exact absurd rfl hcpu
      | ready => cases hp
      | waiters l => exact hin
      | sleeper q side => exact hin
    · intro r h1 h2
      have hr := hother r h1 h2
      cases r with
      | cpu => exact absurd rfl h1
      | ready => exact hr
      | waiters l => exact hr
      | sleeper q side => exact hr
    · intro t ht
      rw [hstat t, if_neg ht]
    · rw [hstat k.cur, if_pos rfl, hp]
  obtain ⟨-, ⟨hr, -, -⟩ | ⟨-, hd⟩⟩ := schedule_ok hs
  · have hb : (k1.blocking .blocked).cur = k.cur := hcur
    rw [hb, hstat k.cur, if_pos rfl] at hr
    cases hr
  · exact dispatch_queues hpark hd

/-! ## The operations of sync.c -/

theorem semaDownLoop_queues {l : LockId} {old : Bool} (h : QueueInv k [k.cur] place)
    (hd : semaDownLoop k l old = .ok k') : Queues k' := by
  rcases semaDownLoop_ok hd with ⟨-, -, hs⟩ | ⟨-, rfl⟩
  · refine park_queues (p := .waiters l) h hs rfl ?_ ?_ rfl rfl rfl
    · show ((k.setSema l _).waiters l).Perm (k.cur :: k.waiters l)
      rw [waiters_setSema, if_pos rfl]
      exact List.perm_append_singleton k.cur (k.waiters l)
    · intro r h1 h2
      cases r with
      | cpu => exact absurd rfl h1
      | ready => rfl
      | waiters l' =>
        show (k.setSema l _).waiters l' = k.waiters l'
        rw [waiters_setSema, if_neg (fun he => h2 (by rw [he]))]
      | sleeper q side => rfl
  · refine ⟨place, h.congr ?_ (fun _ _ => rfl) rfl⟩
    intro r
    cases r with
    | cpu => rfl
    | ready => rfl
    | waiters l' =>
      show (k.setSema l _).waiters l' = k.waiters l'
      rw [waiters_setSema]
      split
      · rename_i he
        rw [he]
        rfl
      · rfl
    | sleeper q side => rfl

theorem wakeFirst_queues {l : LockId} (h : QueueInv k [k.cur] place) (hw : wakeFirst k l = .ok k') :
    Queues k' := by
  rcases wakeFirst_ok hw with ⟨-, rfl⟩ | ⟨t, rest, hl, -, rfl⟩
  · exact ⟨place, h⟩
  · refine ⟨_, h.move (t := t) (p := .waiters l) (q := .ready) (by simp) ?_ ?_ ?_ ?_ ?_ rfl⟩
    · show (k.waiters l).Perm (t :: (k.setSema l _).waiters l)
      rw [waiters_setSema, if_pos rfl, hl]
    · exact List.Perm.refl _
    · intro r h1 h2
      cases r with
      | cpu => rfl
      | ready => exact absurd rfl h2
      | waiters l' =>
        show (k.setSema l _).waiters l' = k.waiters l'
        rw [waiters_setSema, if_neg (fun he => h1 (by rw [he]))]
      | sleeper q side => rfl
    · intro s hs
      show ((k.setStatus t .ready).task s).status = _
      rw [status_setStatus, if_neg hs]
    · show ((k.setStatus t .ready).task t).status = _
      rw [status_setStatus, if_pos rfl]
      rfl

theorem semaUp_queues {l : LockId} (h : QueueInv k [k.cur] place) (hu : semaUp k l = .ok k') :
    Queues k' := by
  obtain ⟨-, k1, h1, rfl⟩ := semaUp_ok hu
  obtain ⟨place1, hq⟩ := wakeFirst_queues h h1
  refine ⟨place1, hq.congr ?_ (fun _ _ => rfl) rfl⟩
  intro r
  cases r with
  | cpu => rfl
  | ready => rfl
  | waiters l' =>
    show (k1.setSema l _).waiters l' = k1.waiters l'
    rw [waiters_setSema]
    split
    · rename_i he
      rw [he]
      rfl
    · rfl
  | sleeper q side => rfl

/-! ## The operations of ioqueue.c -/

theorem ioqWait_queues {q : IoqId} {side : Side} (h : QueueInv k [k.cur] place)
    (hw : ioqWait k q side = .ok k') : Queues k' := by
  obtain ⟨hn, hs⟩ := ioqWait_ok hw
  refine park_queues (p := .sleeper q side) h hs rfl ?_ ?_ rfl rfl rfl
  · show ((((k.setIoq q _).ioq q).waiter side).toList).Perm (k.cur :: ((k.ioq q).waiter side).toList)
    rw [ioq_setIoq, if_pos rfl, Ioqueue.waiter_setWaiter, if_pos rfl, hn]
    exact List.Perm.refl _
  · intro r h1 h2
    cases r with
    | cpu => exact absurd rfl h1
    | ready => rfl
    | waiters l => rfl
    | sleeper q' side' =>
      show (((k.setIoq q _).ioq q').waiter side').toList = ((k.ioq q').waiter side').toList
      rw [ioq_setIoq]
      split
      · rename_i he
        rw [Ioqueue.waiter_setWaiter, if_neg (fun hs => h2 (by rw [he, hs])), he]
      · rfl

theorem wakeupIfAny_queues {q : IoqId} {side : Side} (h : QueueInv k [k.cur] place)
    (hw : wakeupIfAny k q side = .ok k') : Queues k' := by
  rcases wakeupIfAny_ok hw with rfl | ⟨t, ht, -, rfl⟩
  · exact ⟨place, h⟩
  · refine ⟨_, h.move (t := t) (p := .sleeper q side) (q := .ready) (by simp) ?_ ?_ ?_ ?_ ?_ rfl⟩
    · show (((k.ioq q).waiter side).toList).Perm (t :: (((k.setIoq q _).ioq q).waiter side).toList)
      rw [ioq_setIoq, if_pos rfl, Ioqueue.waiter_setWaiter, if_pos rfl, ht]
      exact List.Perm.refl _
    · exact List.Perm.refl _
    · intro r h1 h2
      cases r with
      | cpu => rfl
      | ready => exact absurd rfl h2
      | waiters l => rfl
      | sleeper q' side' =>
        show (((k.setIoq q _).ioq q').waiter side').toList = ((k.ioq q').waiter side').toList
        rw [ioq_setIoq]
        split
        · rename_i he
          rw [Ioqueue.waiter_setWaiter, if_neg (fun hs => h1 (by rw [he, hs])), he]
        · rfl
    · intro s hs
      show ((k.setStatus t .ready).task s).status = _
      rw [status_setStatus, if_neg hs]
    · show ((k.setStatus t .ready).task t).status = _
      rw [status_setStatus, if_pos rfl]
      rfl

/-- The positions and the bytes of a queue are no place for a thread. -/
theorem setIoq_queues {q : IoqId} (ioq : Ioqueue) (h : QueueInv k [k.cur] place)
    (hw : ∀ side, ioq.waiter side = (k.ioq q).waiter side) : QueueInv (k.setIoq q ioq) [k.cur] place := by
  refine h.congr ?_ (fun _ _ => rfl) rfl
  intro r
  cases r with
  | cpu => rfl
  | ready => rfl
  | waiters l => rfl
  | sleeper q' side =>
    show (((k.setIoq q ioq).ioq q').waiter side).toList = ((k.ioq q').waiter side).toList
    rw [ioq_setIoq]
    split
    · rename_i he
      rw [hw side, he]
    · rfl

/-! ## Steps that move no tag -/

/-- A step that moves no tag. -/
theorem quiet_queues (h : QueueInv k [k.cur] place) (hc : k'.cur = k.cur)
    (hr : k'.readyList = k.readyList) (hw : ∀ l, k'.waiters l = k.waiters l)
    (hi : ∀ q side, (k'.ioq q).waiter side = (k.ioq q).waiter side)
    (hs : ∀ t ∈ k.hist.threads, (k'.task t).status = (k.task t).status)
    (ht : k'.hist.threads = k.hist.threads) : QueueInv k' [k'.cur] place := by
  refine h.congr ?_ hs ht
  intro r
  cases r with
  | cpu =>
    show [k'.cur] = [k.cur]
    rw [hc]
  | ready => exact hr
  | waiters l => exact hw l
  | sleeper q side =>
    show ((k'.ioq q).waiter side).toList = ((k.ioq q).waiter side).toList
    rw [hi q side]

/-- The PCB of a thread that is not inserted yet may be written. -/
theorem status_update_pcb {t : Tid} (task : Task) (ht : t ∉ k.hist.threads) :
    ∀ s ∈ k.hist.threads, (Function.update k.task t task s).status = (k.task s).status := by
  intro s hs
  have hne : s ≠ t := by
    rintro rfl
    exact ht hs
  rw [Function.update_of_ne hne]

theorem countTick_status (k : Kernel) (t : Tid) : (k.countTick.task t).status = (k.task t).status := by
  by_cases ht : t = k.cur
  · subst ht
    simp [countTick]
  · simp [countTick, ht]

theorem useTick_status (k : Kernel) (t : Tid) : (k.useTick.task t).status = (k.task t).status := by
  by_cases ht : t = k.cur
  · subst ht
    simp [useTick]
  · simp [useTick, ht]

theorem storeByte_queues {q : IoqId} {byte : UInt8} (h : QueueInv k [k.cur] place) :
    QueueInv (k.storeByte q byte) [(k.storeByte q byte).cur] place := by
  have h1 := setIoq_queues (q := q) ({ k.ioq q with
    buf := Function.update (k.ioq q).buf (k.ioq q).head byte, head := nextPos (k.ioq q).head }) h
    (by intro side; cases side <;> rfl)
  exact quiet_queues h1 rfl rfl (fun _ => rfl) (fun _ _ => rfl) (fun _ _ => rfl) rfl

theorem takeByte_queues {q : IoqId} (h : QueueInv k [k.cur] place) :
    QueueInv (k.takeByte q) [(k.takeByte q).cur] place := by
  have h1 := setIoq_queues (q := q) ({ k.ioq q with tail := nextPos (k.ioq q).tail }) h
    (by intro side; cases side <;> rfl)
  exact quiet_queues h1 rfl rfl (fun _ => rfl) (fun _ _ => rfl) (fun _ _ => rfl) rfl

theorem lockNext_waiters {l : LockId} {pc : LockPc} {plock : Lock} {next : Option LockPc}
    (h : lockCode k.cur (k.lock l) pc = .ok (plock, next)) (l' : LockId) :
    (k.lockNext l pc plock next).waiters l' = k.waiters l' := by
  show (Function.update k.lock l plock l').semaphore.waiters = (k.lock l').semaphore.waiters
  by_cases hl : l' = l
  · rw [hl, Function.update_self, lockCode_semaphore h]
  · rw [Function.update_of_ne hl]

theorem countHeld_threads (l : LockId) (pc : LockPc) (next : Option LockPc) :
    (countHeld k l pc next).threads = k.hist.threads := by
  unfold countHeld
  split <;> rfl

theorem countTick_queues (h : QueueInv k [k.cur] place) : QueueInv k.countTick [k.countTick.cur] place :=
  quiet_queues h rfl rfl (fun _ => rfl) (fun _ _ => rfl) (fun t _ => countTick_status k t) rfl

theorem preempted_queues (h : QueueInv k [k.cur] place) : QueueInv k.preempted [k.preempted.cur] place :=
  quiet_queues h rfl rfl (fun _ => rfl) (fun _ _ => rfl) (fun _ _ => rfl) rfl

theorem useTick_queues (h : QueueInv k [k.cur] place) : QueueInv k.useTick [k.useTick.cur] place :=
  quiet_queues h rfl rfl (fun _ => rfl) (fun _ _ => rfl) (fun t _ => useTick_status k t) rfl

theorem intr_queues (h : QueueInv k [k.cur] place) (intr : Bool) :
    QueueInv { k with intr := intr } [k.cur] place :=
  quiet_queues h rfl rfl (fun _ => rfl) (fun _ _ => rfl) (fun _ _ => rfl) rfl

theorem setHere_queues (h : QueueInv k [k.cur] place) (c : Ctx) : QueueInv (k.setHere c) [k.cur] place :=
  quiet_queues h rfl rfl (fun _ => rfl) (fun _ _ => rfl) (fun _ _ => rfl) rfl

end Kernel

end MyOs
