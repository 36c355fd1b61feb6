import MyOs.Thread.Creation

/-!
# The scheduler in every run

    step_queues         every event keeps the queues
    step_threads        every event keeps who is being created
    scheduler_queues    what holds in every state of every run
-/

namespace MyOs

namespace Kernel

variable {k k' : Kernel} {place : Tid → Option Place}

/-- A thread that is being created enters the ready list. -/
theorem appendReady_queues {n : NewTask} {pc : CreatePc} {c : Ctx} (h : QueueInv k [k.cur] place)
    (ht : ThreadInv k) (ha : k.here.op = .create n pc) (hb : pc.beforeReady = true)
    (hi : pc.initialised = true) : Queues (appendReady (k.setHere c) n.pcb) := by
  obtain ⟨-, -, hnew, hready⟩ := ht.creating k.cur n pc ha
  refine ⟨_, h.insert (hnew hb) rfl ?_ (fun _ _ => rfl) (hready hb hi) rfl⟩
  intro r hr
  cases r with
  | cpu => rfl
  | ready => exact absurd rfl hr
  | waiters l => rfl
  | sleeper q side => rfl

theorem step_queues {e : Event} (hq : Queues k) (ht : ThreadInv k) (hs : Trans k e k') : Queues k' := by
  obtain ⟨place, h⟩ := hq
  cases hs with
  | tick => exact ⟨place, useTick_queues (countTick_queues h)⟩
  | preempt _ _ hs => exact schedule_queues (preempted_queues (countTick_queues h)) hs
  | keyLost => exact ⟨place, h⟩
  | key q byte k1 _ _ hp =>
    obtain ⟨place1, h1⟩ := wakeupIfAny_queues (storeByte_queues (intr_queues h false)) hp
    exact ⟨place1, intr_queues h1 true⟩
  | callDown l _ _ hd => exact semaDownLoop_queues (k := { k with intr := false }) (intr_queues h false) hd
  | callUp l _ _ hu => exact semaUp_queues h hu
  | redown l old _ _ _ hd => exact semaDownLoop_queues h hd
  | lockDown l _ _ _ _ hd =>
    exact semaDownLoop_queues (k := { k with intr := false }) (intr_queues h false) hd
  | lockUp l _ _ _ _ hu =>
    exact semaUp_queues (k := k.setHere { k.here with lock := none }) (setHere_queues h _) hu
  | lockNext l pc plock next _ _ _ _ _ hc =>
    exact ⟨place, quiet_queues h rfl rfl (lockNext_waiters hc) (fun _ _ => rfl) (fun _ _ => rfl)
      (countHeld_threads l pc next)⟩
  | get q _ _ _ _ hg =>
    exact wakeupIfAny_queues (takeByte_queues (setHere_queues h _)) hg
  | put q byte _ _ _ _ hp =>
    exact wakeupIfAny_queues (storeByte_queues (setHere_queues h _)) hp
  | getWait q _ _ hw => exact ioqWait_queues (setHere_queues h _) hw
  | putWait q byte _ _ hw => exact ioqWait_queues (setHere_queues h _) hw
  | callCreate n _ hn =>
    have hnew : n.pcb ∉ k.hist.threads := fun hm => hn (ht.threads_pcbs _ hm)
    exact ⟨place, quiet_queues h rfl rfl (fun _ => rfl) (fun _ _ => rfl) (status_update_pcb _ hnew) rfl⟩
  | pidReturn n ha =>
    have hop : (k.ctx k.cur).op = .create n .pidReturn := congrArg Ctx.op ha
    have hnew : n.pcb ∉ k.hist.threads := (ht.creating _ n _ hop).2.2.1 rfl
    exact ⟨place, quiet_queues h rfl rfl (fun _ => rfl) (fun _ _ => rfl) (status_update_pcb _ hnew) rfl⟩
  | readyAppend n ha => exact appendReady_queues h ht (congrArg Ctx.op ha) rfl rfl
  | insert n ha _ _ =>
    obtain ⟨place1, h1⟩ := appendReady_queues (c := { k.here with op := .idle }) h ht (congrArg Ctx.op ha) rfl rfl
    exact ⟨place1, quiet_queues h1 rfl rfl (fun _ => rfl) (fun _ _ => rfl) (fun _ _ => rfl) rfl⟩
  | _ => exact ⟨place, quiet_queues h rfl rfl (fun _ => rfl) (fun _ _ => rfl) (fun _ _ => rfl) rfl⟩

theorem step_threads {e : Event} (hq : Queues k) (ht : ThreadInv k) (hs : Trans k e k') :
    ThreadInv k' := by
  obtain ⟨place, h⟩ := hq
  have hc := cur_mem_threads h
  have hr := ready_mem_threads h
  have hintr : ∀ b, ThreadInv { k with intr := b } := fun b => ⟨ht.fresh, ht.threads_pcbs, ht.all_pcbs,
    ht.creating, ht.unique, ht.nodup, ht.returned, ht.main⟩
  have hhere : ∀ c : Ctx, c.op = k.here.op → ThreadInv (k.setHere c) := fun c he =>
    op_threads ht hc (SameThreads.setHere k c) rfl (by simp [setHere, he, here]) (Op.Goes.refl _)
  cases hs with
  | tick =>
    refine ht.step hc ⟨rfl, rfl, rfl, rfl, rfl, fun _ _ => rfl, ?_⟩ (Op.Goes.refl _)
    intro t _
    rw [useTick_status, countTick_status]
  | preempt _ _ hs =>
    have h1 : SameThreads k k.countTick.preempted :=
      ⟨rfl, rfl, rfl, rfl, rfl, fun _ ht => Function.update_of_ne ht _ _, fun t _ => countTick_status k t⟩
    have h2 := SameThreads.schedule k.countTick.preempted hc hr hs
    refine op_threads ht hc (h1.trans rfl h2) rfl ?_ (Op.Goes.refl _)
    rw [schedule_frame hs]
    simp [preempted, setHere, here, countTick]
  | keyLost => exact ht
  | key q byte k1 _ _ hp =>
    have h1 := putByte_same (intr_queues h false) hp
    have hx : k1.ctx = k.ctx := (wakeupIfAny_ctx hp).1
    have h2 : SameThreads k { k1 with intr := true } :=
      ⟨h1.threads, h1.returned, h1.pcbs, h1.allList, h1.mainThread, h1.ctx, h1.status⟩
    refine op_threads ht hc h2 rfl ?_ (Op.Goes.refl _)
    exact congrArg (fun x => (x k.cur).op) hx
  | callDown l _ _ hd => exact semaDownLoop_threads (intr_queues h false) (hintr false) hd
  | callUp l _ _ hu =>
    refine op_threads ht hc (semaUp_same h hu) rfl ?_ (Op.Goes.refl _)
    rw [(semaUp_ctx hu).1]
  | redown l old _ _ _ hd => exact semaDownLoop_threads h ht hd
  | lockDown l _ _ _ _ hd => exact semaDownLoop_threads (intr_queues h false) (hintr false) hd
  | lockUp l _ _ _ _ hu =>
    have h1 := setHere_queues h { k.here with lock := none }
    refine op_threads (hhere { k.here with lock := none } rfl) hc (semaUp_same h1 hu) rfl ?_ (Op.Goes.refl _)
    rw [(semaUp_ctx hu).1]
  | lockNext l pc plock next _ _ _ _ _ _ =>
    have hh : (countHeld k l pc next).returned = k.hist.returned := by
      unfold countHeld
      split <;> rfl
    exact own_threads ht hc rfl rfl (Op.Goes.refl _) rfl (countHeld_threads l pc next) hh rfl rfl rfl
  | get q _ ha _ _ hg =>
    have h1 := setHere_queues h { k.here with op := .idle }
    have hx := (wakeupIfAny_ctx hg).1
    refine op_threads ht hc ((SameThreads.setHere k _).trans rfl (getByte_same h1 hg)) rfl ?_
      (Op.goes_of_ne_create .idle (by simp))
    rw [hx]
    simp [takeByte, setHere, setIoq]
  | put q byte _ ha _ _ hp =>
    have h1 := setHere_queues h { k.here with op := .idle }
    have hx := (wakeupIfAny_ctx hp).1
    refine op_threads ht hc ((SameThreads.setHere k _).trans rfl (putByte_same h1 hp)) rfl ?_
      (Op.goes_of_ne_create .idle (by simp))
    rw [hx]
    simp [storeByte, setHere, setIoq]
  | getWait q _ _ hw =>
    have h1 := setHere_queues h { k.here with op := .ioqGetchar q .release }
    refine op_threads ht hc ((SameThreads.setHere k _).trans rfl (ioqWait_same h1 hw)) rfl ?_
      (Op.goes_of_ne_create (.ioqGetchar q .release) (by simp))
    rw [ioqWait_ctx hw]
    simp [setHere, here]
  | putWait q byte _ _ hw =>
    have h1 := setHere_queues h { k.here with op := .ioqPutchar q byte .release }
    refine op_threads ht hc ((SameThreads.setHere k _).trans rfl (ioqWait_same h1 hw)) rfl ?_
      (Op.goes_of_ne_create (.ioqPutchar q byte .release) (by simp))
    rw [ioqWait_ctx hw]
    simp [setHere, here]
  | intrEnable _ => exact hintr true
  | intrDisable _ => exact hintr false
  | resume r _ => exact own_threads ht hc rfl rfl (Op.Goes.refl _) rfl rfl rfl rfl rfl rfl
  | callCreate n _ hn => exact callCreate_threads ht hc hn
  | pidReturn n ha =>
    exact pidReturn_threads ht hc (congrArg Ctx.op ha)
  | readyAppend n ha =>
    refine readyAppend_threads ht hc (congrArg Ctx.op ha) (Op.goes_create n (fun _ => rfl) (fun _ _ => rfl)) ?_
    · intro n' pc' he
      cases he
      rfl
  | allAppend n ha => exact allAppend_threads ht hc (congrArg Ctx.op ha)
  | insert n ha _ _ => exact insert_threads ht hc (congrArg Ctx.op ha)
  | pidAcquire n ha | pidLoad n ha | pidStore n _ ha | readyAssert n ha _ | allAssert n ha _ =>
    refine own_threads ht hc rfl (congrArg Ctx.op ha) ?_ rfl rfl rfl rfl rfl rfl
    exact Op.goes_create n (by simp [CreatePc.beforeReady]) (by simp [CreatePc.initialised])
  | opRelease op op' l ha hrel =>
    refine own_threads ht hc rfl (congrArg Ctx.op ha) ?_ rfl rfl rfl rfl rfl rfl
    exact Op.goes_of_releases hrel
  | _ => exact own_threads ht hc rfl rfl (Op.goes_of_ne_create _ (by simp)) rfl rfl rfl rfl rfl rfl

/-! ## Every run -/

theorem boot_queues (mainThread : Tid) (value : LockId → Nat) : Queues (boot mainThread value) := by
  refine ⟨fun t => if t = mainThread then some .cpu else none, ?_, ?_, ?_⟩
  · intro p t
    cases p with
    | cpu =>
      show [mainThread].count t = _
      by_cases ht : t = mainThread
      · simp [ht]
      · simp [ht, Ne.symm ht]
    | ready =>
      show ([] : List Tid).count t = if (if t = mainThread then some Place.cpu else none) = _ then 1 else 0
      split <;> simp
    | waiters l =>
      show ([] : List Tid).count t = if (if t = mainThread then some Place.cpu else none) = _ then 1 else 0
      split <;> simp
    | sleeper q side =>
      have hl : (boot mainThread value).lists [mainThread] (.sleeper q side) = [] := by
        cases side <;> rfl
      show ((boot mainThread value).lists [mainThread] (.sleeper q side)).count t =
        if (if t = mainThread then some Place.cpu else none) = _ then 1 else 0
      rw [hl]
      split <;> simp
  · intro t p hp
    split at hp
    · rename_i ht
      cases hp
      simp [boot, ht, Place.status]
    · cases hp
  · intro t
    simp [boot]

theorem boot_threads (mainThread : Tid) (value : LockId → Nat) : ThreadInv (boot mainThread value) := by
  have hop : ∀ t n pc, ((boot mainThread value).ctx t).op ≠ .create n pc := by
    intro t n pc
    by_cases ht : t = mainThread
    · simp [boot, ht, Ctx.idle]
    · simp [boot, ht, Ctx.new, Ctx.idle]
  refine ⟨?_, fun _ h => h, fun _ h => h, ?_, ?_, ?_, ?_, List.mem_singleton.mpr rfl⟩
  · intro t ht
    have hne : t ≠ mainThread := fun he => ht (he ▸ List.mem_singleton.mpr rfl)
    simp [boot, hne]
  · intro c n pc h
    exact absurd h (hop c n pc)
  · intro c c' n n' pc pc' h
    exact absurd h (hop c n pc)
  · exact List.nodup_singleton mainThread
  · intro t ht
    cases ht

theorem run_queues {mainThread : Tid} {value : LockId → Nat} {G : Kernel → Event → Prop} {es : List Event}
    (hr : Runs step G (boot mainThread value) es k) : Queues k ∧ ThreadInv k := by
  refine Runs.invariant (fun k => Queues k ∧ ThreadInv k) ?_ es _ k
    ⟨boot_queues mainThread value, boot_threads mainThread value⟩ hr
  intro k1 e k2 h _ hs
  have htr := step_trans hs
  exact ⟨step_queues h.1 h.2 htr, step_threads h.1 h.2 htr⟩

end Kernel

/-- The main thread creates a thread and is preempted by it. -/
def preemptedRun : List Event :=
  List.flatten [threadStartRun 1 8, [.call .intrEnable], List.replicate 32 .timer]

end MyOs
