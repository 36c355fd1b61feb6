import MyOs.Thread.Queues

/-!
# Threads being created

`thread_start` and `process_execute` work on a PCB page that no list knows yet, with the timer running.
`ThreadInv` says which pages these are and that no two threads are creating the same one; a step that
creates nobody is a `SameThreads` step.
-/

namespace MyOs

/-- Who has been created, and who is being created by whom. -/
structure ThreadInv (k : Kernel) : Prop where
  fresh : ∀ t, t ∉ k.hist.threads → k.ctx t = Ctx.new
  threads_pcbs : ∀ t ∈ k.hist.threads, t ∈ k.pcbs
  all_pcbs : ∀ t ∈ k.allList, t ∈ k.pcbs
  creating : ∀ c n pc, (k.ctx c).op = .create n pc →
    n.pcb ∈ k.pcbs ∧ n.pcb ∉ k.allList ∧ (pc.beforeReady = true → n.pcb ∉ k.hist.threads) ∧
      (pc.beforeReady = true → pc.initialised = true → (k.task n.pcb).status = .ready)
  unique : ∀ c c' n n' pc pc', (k.ctx c).op = .create n pc → (k.ctx c').op = .create n' pc' →
    n.pcb = n'.pcb → c = c'
  nodup : k.allList.Nodup
  returned : ∀ t ∈ k.hist.returned, t ∈ k.allList
  main : k.mainThread ∈ k.allList

/-- A step of the running thread that creates nobody. -/
structure SameThreads (k k' : Kernel) : Prop where
  threads : k'.hist.threads = k.hist.threads
  returned : k'.hist.returned = k.hist.returned
  pcbs : k'.pcbs = k.pcbs
  allList : k'.allList = k.allList
  mainThread : k'.mainThread = k.mainThread
  ctx : ∀ t, t ≠ k.cur → k'.ctx t = k.ctx t
  status : ∀ t, t ∉ k.hist.threads → (k'.task t).status = (k.task t).status

/-- The running thread goes from `op` to `op'` without starting to create a thread. -/
def Op.Goes (op op' : Op) : Prop :=
  ∀ n pc', op' = .create n pc' → ∃ pc, op = .create n pc ∧
    (pc'.beforeReady = true → pc.beforeReady = true) ∧
    (pc'.beforeReady = true → pc'.initialised = true → pc.initialised = true)

theorem Op.Goes.refl (op : Op) : op.Goes op := fun _ pc' h => ⟨pc', h, id, fun _ => id⟩

/-- From one statement of a creation to a later one. -/
theorem Op.goes_create (n : NewTask) {pc pc' : CreatePc}
    (h1 : pc'.beforeReady = true → pc.beforeReady = true)
    (h2 : pc'.beforeReady = true → pc'.initialised = true → pc.initialised = true) :
    (Op.create n pc).Goes (.create n pc') := by
  intro n' pc'' he
  cases he
  exact ⟨pc, rfl, h1, h2⟩

theorem Op.goes_of_ne_create {op : Op} (op' : Op) (h : ∀ n pc, op' ≠ .create n pc) : op.Goes op' :=
  fun n pc' he => absurd he (h n pc')

theorem Op.goes_of_releases {op op' : Op} {l : LockId} (h : op.releases = some (l, op')) : op.Goes op' := by
  cases op with
  | idle => cases h
  | ioqGetchar q pc =>
    cases pc <;> cases h
    exact Op.goes_of_ne_create _ (by simp)
  | ioqPutchar q byte pc =>
    cases pc <;> cases h
    exact Op.goes_of_ne_create _ (by simp)
  | create n pc =>
    cases pc <;> cases h
    exact Op.goes_create n (fun _ => rfl) (by decide)
  | console rest pc =>
    cases pc <;> cases h
    exact Op.goes_of_ne_create _ (by simp)

theorem ThreadInv.step {k k' : Kernel} (h : ThreadInv k) (hc : k.cur ∈ k.hist.threads)
    (hs : SameThreads k k') (ho : (k.ctx k.cur).op.Goes (k'.ctx k.cur).op) : ThreadInv k' := by
  -- a creation in progress after the step was in progress before it, by the same thread
  have hop : ∀ c n pc', (k'.ctx c).op = .create n pc' → ∃ pc, (k.ctx c).op = .create n pc ∧
      (pc'.beforeReady = true → pc.beforeReady = true) ∧
      (pc'.beforeReady = true → pc'.initialised = true → pc.initialised = true) := by
    intro c n pc' hp
    by_cases hcc : c = k.cur
    · subst hcc
      exact ho n pc' hp
    · rw [hs.ctx c hcc] at hp
      exact ⟨pc', hp, id, fun _ => id⟩
  refine ⟨?_, ?_, ?_, ?_, ?_, ?_, ?_, ?_⟩
  · intro t ht
    rw [hs.threads] at ht
    rw [hs.ctx t (fun he => ht (he ▸ hc))]
    exact h.fresh t ht
  · rw [hs.threads, hs.pcbs]
    exact h.threads_pcbs
  · rw [hs.allList, hs.pcbs]
    exact h.all_pcbs
  · intro c n pc' hp
    obtain ⟨pc, hpc, h1, h2⟩ := hop c n pc' hp
    obtain ⟨ha, hb, hd, he⟩ := h.creating c n pc hpc
    rw [hs.pcbs, hs.allList, hs.threads]
    refine ⟨ha, hb, fun hr => hd (h1 hr), ?_⟩
    intro hr hi
    rw [hs.status n.pcb (hd (h1 hr))]
    exact he (h1 hr) (h2 hr hi)
  · intro c c' n n' pc pc' hp hp' hn
    obtain ⟨_, hpc, -, -⟩ := hop c n pc hp
    obtain ⟨_, hpc', -, -⟩ := hop c' n' pc' hp'
    exact h.unique c c' n n' _ _ hpc hpc' hn
  · rw [hs.allList]
    exact h.nodup
  · rw [hs.returned, hs.allList]
    exact h.returned
  · rw [hs.mainThread, hs.allList]
    exact h.main

namespace SameThreads

variable {k k1 k' : Kernel}

/-- Only the running thread's call stack and status change, before the next thread is chosen. -/
theorem trans (h1 : SameThreads k k1) (hc : k1.cur = k.cur) (h2 : SameThreads k1 k') :
    SameThreads k k' where
  threads := h2.threads.trans h1.threads
  returned := h2.returned.trans h1.returned
  pcbs := h2.pcbs.trans h1.pcbs
  allList := h2.allList.trans h1.allList
  mainThread := h2.mainThread.trans h1.mainThread
  ctx := by
    intro t ht
    rw [h2.ctx t (by rw [hc]; exact ht), h1.ctx t ht]
  status := by
    intro t ht
    rw [h2.status t (by rw [h1.threads]; exact ht), h1.status t ht]

theorem setHere (k : Kernel) (c : Ctx) : SameThreads k (k.setHere c) :=
  ⟨rfl, rfl, rfl, rfl, rfl, fun _ ht => Function.update_of_ne ht _ _, fun _ _ => rfl⟩

/-- A change of status of one of the threads. -/
theorem setStatus {t : Tid} (ht : t ∈ k.hist.threads) (stat : TaskStatus) :
    SameThreads k (k.setStatus t stat) := by
  refine ⟨rfl, rfl, rfl, rfl, rfl, fun _ _ => rfl, ?_⟩
  intro s hs
  have hne : s ≠ t := by
    rintro rfl
    exact hs ht
  rw [Kernel.status_setStatus, if_neg hne]

theorem blocking (k : Kernel) (hc : k.cur ∈ k.hist.threads) (stat : TaskStatus) :
    SameThreads k (k.blocking stat) := by
  refine ⟨rfl, rfl, rfl, rfl, rfl, fun _ ht => Function.update_of_ne ht _ _, ?_⟩
  intro s hs
  exact (setStatus hc stat).status s hs

theorem schedule (k : Kernel) (hc : k.cur ∈ k.hist.threads) (hr : ∀ t ∈ k.readyList, t ∈ k.hist.threads)
    (h : k.schedule = .ok k') : SameThreads k k' := by
  have hf := Kernel.schedule_frame h
  refine ⟨?_, ?_, ?_, ?_, ?_, ?_, ?_⟩
  · rw [hf]
  · rw [hf]
  · rw [hf]
  · rw [hf]
  · rw [hf]
  · intro t _
    rw [hf]
  · intro t ht
    have hne : t ≠ k.cur := by
      rintro rfl
      exact ht hc
    rw [Kernel.schedule_task h hne (fun hm => ht (hr t hm))]

/-- `thread_block`, called in `k1`. -/
theorem park (h : SameThreads k k1) (hcur : k1.cur = k.cur) (hready : k1.readyList = k.readyList)
    (hc : k.cur ∈ k.hist.threads) (hr : ∀ t ∈ k.readyList, t ∈ k.hist.threads)
    (hs : (k1.blocking .blocked).schedule = .ok k') : SameThreads k k' := by
  have hc1 : k1.cur ∈ k1.hist.threads := by
    rw [hcur, h.threads]
    exact hc
  have hr1 : ∀ t ∈ k1.readyList, t ∈ k1.hist.threads := by
    rw [hready, h.threads]
    exact hr
  exact (h.trans hcur (blocking k1 hc1 .blocked)).trans hcur (schedule (k1.blocking .blocked) hc1 hr1 hs)

end SameThreads

namespace Kernel

variable {k k' : Kernel} {place : Tid → Option Place}

theorem cur_mem_threads (h : QueueInv k [k.cur] place) : k.cur ∈ k.hist.threads :=
  h.mem_threads (p := .cpu) (by simp [lists])

theorem ready_mem_threads (h : QueueInv k [k.cur] place) : ∀ t ∈ k.readyList, t ∈ k.hist.threads :=
  fun _ ht => h.mem_threads (p := .ready) ht

theorem semaDownLoop_same {l : LockId} {old : Bool} (h : QueueInv k [k.cur] place)
    (hd : semaDownLoop k l old = .ok k') : SameThreads k k' := by
  have hc := cur_mem_threads h
  have hr := ready_mem_threads h
  rcases semaDownLoop_ok hd with ⟨-, -, hs⟩ | ⟨-, rfl⟩
  · have h1 : SameThreads k ((k.retested l).enqueue l old) :=
      ⟨rfl, rfl, rfl, rfl, rfl, fun _ ht => Function.update_of_ne ht _ _, fun _ _ => rfl⟩
    exact h1.park rfl rfl hc hr hs
  · exact ⟨rfl, rfl, rfl, rfl, rfl, fun _ ht => Function.update_of_ne ht _ _, fun _ _ => rfl⟩

theorem semaUp_same {l : LockId} (h : QueueInv k [k.cur] place) (hu : semaUp k l = .ok k') :
    SameThreads k k' := by
  obtain ⟨-, k1, h1, rfl⟩ := semaUp_ok hu
  have hwake : SameThreads k k1 := by
    rcases wakeFirst_ok h1 with ⟨-, rfl⟩ | ⟨t, rest, hl, -, rfl⟩
    · exact ⟨rfl, rfl, rfl, rfl, rfl, fun _ _ => rfl, fun _ _ => rfl⟩
    · have ht : t ∈ k.hist.threads := h.mem_threads (p := .waiters l) (by simp [lists, hl])
      exact ⟨rfl, rfl, rfl, rfl, rfl, fun _ _ => rfl, (SameThreads.setStatus ht .ready).status⟩
  exact ⟨hwake.threads, hwake.returned, hwake.pcbs, hwake.allList, hwake.mainThread, hwake.ctx,
    hwake.status⟩

theorem ioqWait_same {q : IoqId} {side : Side} (h : QueueInv k [k.cur] place)
    (hw : ioqWait k q side = .ok k') : SameThreads k k' := by
  have hc := cur_mem_threads h
  have hr := ready_mem_threads h
  obtain ⟨-, hs⟩ := ioqWait_ok hw
  have h1 : SameThreads k (k.setIoq q ((k.ioq q).setWaiter side (some k.cur))) :=
    ⟨rfl, rfl, rfl, rfl, rfl, fun _ _ => rfl, fun _ _ => rfl⟩
  exact h1.park rfl rfl hc hr hs

theorem wakeupIfAny_same {q : IoqId} {side : Side} (h : QueueInv k [k.cur] place)
    (hw : wakeupIfAny k q side = .ok k') : SameThreads k k' := by
  rcases wakeupIfAny_ok hw with rfl | ⟨t, ht, -, rfl⟩
  · exact ⟨rfl, rfl, rfl, rfl, rfl, fun _ _ => rfl, fun _ _ => rfl⟩
  · have hm : t ∈ k.hist.threads := h.mem_threads (p := .sleeper q side) (by simp [lists, ht])
    exact ⟨rfl, rfl, rfl, rfl, rfl, fun _ _ => rfl, (SameThreads.setStatus hm .ready).status⟩

theorem putByte_same {q : IoqId} {byte : UInt8} (h : QueueInv k [k.cur] place)
    (hp : putByte k q byte = .ok k') : SameThreads k k' := by
  have h1 : SameThreads k (k.storeByte q byte) :=
    ⟨rfl, rfl, rfl, rfl, rfl, fun _ _ => rfl, fun _ _ => rfl⟩
  exact h1.trans rfl (wakeupIfAny_same (storeByte_queues h) hp)

theorem getByte_same {q : IoqId} (h : QueueInv k [k.cur] place) (hp : getByte k q = .ok k') :
    SameThreads k k' := by
  have h1 : SameThreads k (k.takeByte q) :=
    ⟨rfl, rfl, rfl, rfl, rfl, fun _ _ => rfl, fun _ _ => rfl⟩
  exact h1.trans rfl (wakeupIfAny_same (takeByte_queues h) hp)

/-- The new thread is in the ready list from now on. -/
theorem appendReady_threads {t : Tid} (h : ThreadInv k) (hp : t ∈ k.pcbs)
    (hnone : ∀ c n pc, (k.ctx c).op = .create n pc → pc.beforeReady = true → n.pcb ≠ t) :
    ThreadInv (appendReady k t) where
  fresh := by
    intro s hs
    refine h.fresh s (fun hm => hs ?_)
    exact List.mem_cons_of_mem t hm
  threads_pcbs := by
    intro s hs
    rcases List.mem_cons.mp hs with rfl | hs
    · exact hp
    · exact h.threads_pcbs s hs
  all_pcbs := h.all_pcbs
  creating := by
    intro c n pc hc
    obtain ⟨ha, hb, hd, he⟩ := h.creating c n pc hc
    refine ⟨ha, hb, ?_, he⟩
    intro hr hm
    rcases List.mem_cons.mp hm with hm | hm
    · exact hnone c n pc hc hr hm
    · exact hd hr hm
  unique := h.unique
  nodup := h.nodup
  returned := h.returned
  main := h.main

/-- `thread_start` returns: the new thread is in both lists. -/
theorem appendAll_threads {t : Tid} (h : ThreadInv k) (hp : t ∈ k.pcbs) (ha : t ∉ k.allList)
    (hnone : ∀ c n pc, (k.ctx c).op = .create n pc → n.pcb ≠ t) : ThreadInv (appendAll k t) where
  fresh := h.fresh
  threads_pcbs := h.threads_pcbs
  all_pcbs := by
    intro s hs
    rcases List.mem_append.mp hs with hs | hs
    · exact h.all_pcbs s hs
    · rw [List.mem_singleton.mp hs]
      exact hp
  creating := by
    intro c n pc hc
    obtain ⟨hb, hd, he⟩ := h.creating c n pc hc
    refine ⟨hb, ?_, he⟩
    intro hm
    rcases List.mem_append.mp hm with hm | hm
    · exact hd hm
    · exact hnone c n pc hc (List.mem_singleton.mp hm)
  unique := h.unique
  nodup := by
    show (k.allList ++ [t]).Nodup
    rw [List.nodup_append]
    refine ⟨h.nodup, by simp, ?_⟩
    intro a hm b hb he
    rw [List.mem_singleton.mp hb] at he
    exact ha (he ▸ hm)
  returned := by
    intro s hs
    rcases List.mem_cons.mp hs with rfl | hs
    · exact List.mem_append.mpr (.inr (by simp))
    · exact List.mem_append.mpr (.inl (h.returned s hs))
  main := List.mem_append.mpr (.inl h.main)

/-- The running thread starts to create a thread in a page that was nobody's. -/
theorem callCreate_threads {n : NewTask} (h : ThreadInv k) (hc : k.cur ∈ k.hist.threads)
    (hn : n.pcb ∉ k.pcbs) : ThreadInv (allocPcb (k.setOp (.create n .pidAcquire)) n.pcb) := by
  have hctx : ∀ c, c ≠ k.cur → (k.setOp (.create n .pidAcquire)).ctx c = k.ctx c :=
    fun c hcc => Function.update_of_ne hcc _ _
  have hcur : ((k.setOp (.create n .pidAcquire)).ctx k.cur).op = .create n .pidAcquire := by
    simp [setOp, setHere]
  have hother : ∀ c n' pc, c ≠ k.cur → ((k.setOp (.create n .pidAcquire)).ctx c).op = .create n' pc →
      (k.ctx c).op = .create n' pc ∧ n'.pcb ≠ n.pcb := by
    intro c n' pc hcc hop
    rw [hctx c hcc] at hop
    refine ⟨hop, ?_⟩
    intro he
    exact hn (he ▸ (h.creating c n' pc hop).1)
  refine ⟨?_, ?_, ?_, ?_, ?_, h.nodup, h.returned, h.main⟩
  · intro t ht
    show (k.setOp (.create n .pidAcquire)).ctx t = Ctx.new
    rw [hctx t (fun he => ht (he ▸ hc))]
    exact h.fresh t ht
  · intro t ht
    exact List.mem_cons_of_mem _ (h.threads_pcbs t ht)
  · intro t ht
    exact List.mem_cons_of_mem _ (h.all_pcbs t ht)
  · intro c n' pc hop
    by_cases hcc : c = k.cur
    · subst hcc
      have he := hcur.symm.trans hop
      cases he
      refine ⟨List.mem_cons_self, ?_, ?_, ?_⟩
      · intro hm
        exact hn (h.all_pcbs _ hm)
      · intro _ hm
        exact hn (h.threads_pcbs _ hm)
      · intro _ hi
        cases hi
    · obtain ⟨hop', hne⟩ := hother c n' pc hcc hop
      obtain ⟨ha, hb, hd, he⟩ := h.creating c n' pc hop'
      refine ⟨List.mem_cons_of_mem _ ha, hb, hd, ?_⟩
      intro hr hi
      show (Function.update k.task n.pcb zeroTask n'.pcb).status = .ready
      rw [Function.update_of_ne hne]
      exact he hr hi
  · intro c c' n1 n2 pc1 pc2 h1 h2 he
    by_cases hcc : c = k.cur
    · by_cases hcc' : c' = k.cur
      · rw [hcc, hcc']
      · subst hcc
        have h3 := hcur.symm.trans h1
        cases h3
        exact absurd he.symm (hother c' n2 pc2 hcc' h2).2
    · by_cases hcc' : c' = k.cur
      · subst hcc'
        have h3 := hcur.symm.trans h2
        cases h3
        exact absurd he (hother c n1 pc1 hcc h1).2
      · exact h.unique c c' n1 n2 pc1 pc2 (hother c n1 pc1 hcc h1).1 (hother c' n2 pc2 hcc' h2).1 he

/-- The thread that is being created is not one yet. -/
theorem pidReturn_new {n : NewTask} (h : ThreadInv k) (ha : k.At (.create n .pidReturn)) : n.pcb ∉ k.hist.threads :=
  (h.creating k.cur n .pidReturn (congrArg Ctx.op ha)).2.2.1 rfl

/-- So `init_thread` does not write its caller's call stack. -/
theorem pidReturn_here {n : NewTask} {pc : CreatePc} (hq : Queues k) (h : ThreadInv k)
    (ha : k.At (.create n .pidReturn)) :
    (initPcb (k.setOp (.create n pc)) n).ctx k.cur = { k.here with op := .create n pc } := by
  obtain ⟨place, hplace⟩ := hq
  have hne : k.cur ≠ n.pcb := fun he => pidReturn_new h ha (he ▸ cur_mem_threads hplace)
  exact (Function.update_of_ne hne _ _).trans (Function.update_self _ _ _)

/-- The new PCB is initialised; its call stack was new already. -/
theorem pidReturn_threads {n : NewTask} {pc : CreatePc} (h : ThreadInv k) (hc : k.cur ∈ k.hist.threads)
    (hop : (k.ctx k.cur).op = .create n .pidReturn) :
    ThreadInv (initPcb (k.setOp (.create n pc)) n) := by
  obtain ⟨hp, ha, hd, -⟩ := h.creating k.cur n .pidReturn hop
  have hnew := hd rfl
  have hne : n.pcb ≠ k.cur := fun he => hnew (he ▸ hc)
  have hcur : ((initPcb (k.setOp (.create n pc)) n).ctx k.cur).op = .create n pc := by
    show (Function.update (Function.update k.ctx k.cur _) n.pcb Ctx.new k.cur).op = _
    rw [Function.update_of_ne (Ne.symm hne), Function.update_self]
  have hctx : ∀ c, c ≠ k.cur → (initPcb (k.setOp (.create n pc)) n).ctx c = k.ctx c := by
    intro c hcc
    show Function.update (Function.update k.ctx k.cur _) n.pcb Ctx.new c = _
    by_cases hcn : c = n.pcb
    · rw [hcn, Function.update_self, h.fresh n.pcb hnew]
    · rw [Function.update_of_ne hcn, Function.update_of_ne hcc]
  -- whoever creates `n'` now created it before, and only the running thread creates `n`
  have hback : ∀ c n' pc', ((initPcb (k.setOp (.create n pc)) n).ctx c).op = .create n' pc' →
      ∃ pc'', (k.ctx c).op = .create n' pc'' := by
    intro c n' pc' hop'
    by_cases hcc : c = k.cur
    · subst hcc
      have he := hcur.symm.trans hop'
      cases he
      exact ⟨_, hop⟩
    · rw [hctx c hcc] at hop'
      exact ⟨pc', hop'⟩
  refine ⟨?_, h.threads_pcbs, h.all_pcbs, ?_, ?_, h.nodup, h.returned, h.main⟩
  · intro t ht
    rw [hctx t (fun he => ht (he ▸ hc))]
    exact h.fresh t ht
  · intro c n' pc' hop'
    by_cases hcc : c = k.cur
    · subst hcc
      have he := hcur.symm.trans hop'
      cases he
      refine ⟨hp, ha, fun _ => hnew, ?_⟩
      intro _ _
      show (Function.update k.task n.pcb (initTask _ n _) n.pcb).status = .ready
      rw [Function.update_self]
      show (if n.pcb = k.mainThread then TaskStatus.running else TaskStatus.ready) = .ready
      have hmain : n.pcb ≠ k.mainThread := by
        intro he
        rw [he] at ha
        exact ha h.main
      rw [if_neg hmain]
    · rw [hctx c hcc] at hop'
      obtain ⟨hp', ha', hd', he'⟩ := h.creating c n' pc' hop'
      refine ⟨hp', ha', hd', ?_⟩
      intro hr hi
      have hnn : n'.pcb ≠ n.pcb := fun he => hcc (h.unique c k.cur n' n pc' .pidReturn hop' hop he)
      show (Function.update k.task n.pcb _ n'.pcb).status = .ready
      rw [Function.update_of_ne hnn]
      exact he' hr hi
  · intro c c' n1 n2 pc1 pc2 h1 h2 he
    obtain ⟨_, h3⟩ := hback c n1 pc1 h1
    obtain ⟨_, h4⟩ := hback c' n2 pc2 h2
    exact h.unique c c' n1 n2 _ _ h3 h4 he

/-- Nobody but the running thread is creating `n`. -/
theorem creator_unique {n n' : NewTask} {pc pc' : CreatePc} {c : Tid} (h : ThreadInv k)
    (hop : (k.ctx k.cur).op = .create n pc) (hop' : (k.ctx c).op = .create n' pc') (hc : c ≠ k.cur) :
    n'.pcb ≠ n.pcb :=
  fun he => hc (h.unique c k.cur n' n pc' pc hop' hop he)

/-- The running thread goes from one `op` to another and nothing else happens to threads. -/
theorem op_threads {op op' : Op} (h : ThreadInv k) (hc : k.cur ∈ k.hist.threads) (hs : SameThreads k k')
    (ha : (k.ctx k.cur).op = op) (ha' : (k'.ctx k.cur).op = op') (hg : op.Goes op') : ThreadInv k' := by
  refine h.step hc hs ?_
  rw [ha, ha']
  exact hg

/-- A step in which the running thread writes its own call stack, and nothing the invariant reads. -/
theorem own_threads {c : Ctx} {op : Op} (h : ThreadInv k) (hc : k.cur ∈ k.hist.threads)
    (hctx : k'.ctx = Function.update k.ctx k.cur c) (hop : k.here.op = op) (hg : op.Goes c.op)
    (htask : k'.task = k.task) (hth : k'.hist.threads = k.hist.threads)
    (hre : k'.hist.returned = k.hist.returned) (hp : k'.pcbs = k.pcbs) (ha : k'.allList = k.allList)
    (hm : k'.mainThread = k.mainThread) : ThreadInv k' := by
  refine op_threads h hc ⟨hth, hre, hp, ha, hm, ?_, ?_⟩ hop ?_ hg
  · intro t ht
    rw [hctx, Function.update_of_ne ht]
  · intro t _
    rw [htask]
  · rw [hctx, Function.update_self]

theorem readyAppend_threads {n : NewTask} {pc : CreatePc} {op : Op} (h : ThreadInv k)
    (hc : k.cur ∈ k.hist.threads) (hop : (k.ctx k.cur).op = .create n pc)
    (hg : (Op.create n pc).Goes op) (hnot : ∀ n' pc', op = .create n' pc' → pc'.beforeReady = false) :
    ThreadInv (appendReady (k.setOp op) n.pcb) := by
  have h1 : ThreadInv (k.setOp op) :=
    own_threads h hc rfl hop hg rfl rfl rfl rfl rfl rfl
  refine appendReady_threads h1 (h.creating k.cur n pc hop).1 ?_
  intro c n' pc' hop' hb'
  by_cases hcc : c = k.cur
  · subst hcc
    have he : ((k.setOp op).ctx k.cur).op = op := by simp [setOp, setHere]
    rw [hnot n' pc' (he.symm.trans hop')] at hb'
    cases hb'
  · have hop'' : (k.ctx c).op = .create n' pc' := by
      rw [← hop']
      simp [setOp, setHere, hcc]
    exact creator_unique h hop hop'' hcc

theorem allAppend_threads {n : NewTask} {pc : CreatePc} (h : ThreadInv k)
    (hc : k.cur ∈ k.hist.threads) (hop : (k.ctx k.cur).op = .create n pc) :
    ThreadInv (appendAll (k.setOp .idle) n.pcb) := by
  have h1 : ThreadInv (k.setOp .idle) :=
    own_threads h hc rfl hop (Op.goes_of_ne_create _ (by simp)) rfl rfl rfl rfl rfl rfl
  obtain ⟨hp, ha, -⟩ := h.creating k.cur n pc hop
  refine appendAll_threads h1 hp ha ?_
  intro c n' pc' hop'
  by_cases hcc : c = k.cur
  · subst hcc
    simp [setOp, setHere] at hop'
  · have hop'' : (k.ctx c).op = .create n' pc' := by
      rw [← hop']
      simp [setOp, setHere, hcc]
    exact creator_unique h hop hop'' hcc

theorem insert_threads {n : NewTask} (h : ThreadInv k)
    (hc : k.cur ∈ k.hist.threads) (hop : (k.ctx k.cur).op = .create n .insert) :
    ThreadInv (appendAll (appendReady (k.setOp .idle) n.pcb) n.pcb) := by
  have h1 := readyAppend_threads h hc hop (Op.goes_of_ne_create .idle (by simp)) (by simp)
  obtain ⟨hp, ha, -⟩ := h.creating k.cur n .insert hop
  refine appendAll_threads h1 hp ha ?_
  intro c n' pc' hop'
  by_cases hcc : c = k.cur
  · subst hcc
    have he : ((k.setOp .idle).ctx k.cur).op = .idle := by simp [setOp, setHere]
    cases he.symm.trans hop'
  · have he : (k.setOp .idle).ctx c = k.ctx c := by simp [setOp, setHere, hcc]
    have hop'' : (k.ctx c).op = .create n' pc' := by
      rw [← he]
      exact hop'
    exact creator_unique h hop hop'' hcc

theorem semaDownLoop_threads {l : LockId} {old : Bool} (h : QueueInv k [k.cur] place) (ht : ThreadInv k)
    (hd : semaDownLoop k l old = .ok k') : ThreadInv k' := by
  refine op_threads ht (cur_mem_threads h) (semaDownLoop_same h hd) rfl ?_ (Op.Goes.refl _)
  rcases semaDownLoop_ctx hd with ⟨-, hx⟩ | ⟨-, hx⟩
  · rw [hx, Function.update_self]
    rfl
  · rw [hx, Function.update_self]
    rfl

end Kernel

end MyOs
