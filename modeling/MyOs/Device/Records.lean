import MyOs.Device.Console
import MyOs.Thread.CallLocks

/-!
# Records printed with interrupts off

The threads of main.c print a record with several console calls between `intr_disable` and `intr_enable`.  Such
a call always finds `console_lock` free: nobody else is in the middle of one, and the timer cannot fire.

    inside_step         a statement of a console call neither blocks nor switches
    ConsoleOff.step     what every step keeps
    console_records     the screen is the names of threads and whole records, in order
-/

namespace MyOs

open Kernel

/-- Only the console functions use `console_lock`, and they are called with interrupts off. -/
def Masked (k : Kernel) (e : Event) : Prop :=
  KernelOnly .consoleLock e ∧ ∀ str, e = .call (.console str) → k.intr = false

/-- A call stack of a console call, not in the middle of `sema_down`. -/
structure Ctx.InConsole (c : Ctx) : Prop where
  resume : c.resume = none
  sema : c.sema = none
  lock : ∀ l pc, c.lock = some (l, pc) → l = .consoleLock
  op : c.op = .idle ∨ c.op.isConsole = true

/-- Nobody but the running thread is in a console call, and it runs with interrupts off. -/
structure ConsoleOff (k : Kernel) : Prop where
  lock : KernelLock k .consoleLock
  off : ∀ t, .consoleLock ∈ (k.ctx t).locks → t = k.cur ∧ k.intr = false ∧ (k.ctx t).InConsole

namespace Kernel

variable {k k' : Kernel} {e : Event} {l : LockId} {o : Tid}

theorem locks_of_holds {op : Op} (h : op.holds = some l) : l ∈ op.locks := by
  cases op with
  | idle => cases h
  | ioqGetchar q pc =>
    cases pc <;> cases h <;> simp [Op.locks]
  | ioqPutchar q byte pc =>
    cases pc <;> cases h <;> simp [Op.locks]
  | create n pc =>
    cases pc <;> cases h <;> simp [Op.locks]
  | console rest pc =>
    cases pc <;> cases h <;> simp [Op.locks]

/-- The owner of the lock is in a function that uses it. -/
theorem owner_inside (h : KernelLock k l) (ho : (k.view l).Owned o) : l ∈ (k.ctx o).locks := by
  have howner := ho.owner
  have hfits := (h.fits o).held
  have houtside : (k.view l).pc o = none → l ∈ (k.ctx o).locks := by
    intro hpc
    rw [hpc] at howner
    have hpos : 0 < k.hist.held o l := howner.2.2
    have huse : (k.ctx o).op.holds = some l := by
      by_contra hn
      have hu : (k.lockAt l o).uses = false := decide_eq_false hn
      rw [hu] at hfits
      have h0 : k.hist.held o l ≤ 0 := hfits
      omega
    exact List.mem_append_right _ (List.mem_append_right _ (locks_of_holds huse))
  cases hlock : (k.ctx o).lock with
  | none => exact houtside (Ctx.lockPc_of_none hlock l)
  | some p =>
    by_cases hl : p.1 = l
    · simp [Ctx.locks, hlock, hl]
    · exact houtside (Ctx.lockPc_of_ne hlock hl)

/-- A thread that is about to take `console_lock` finds it free. -/
theorem value_of_free (h : ConsoleOff k) (hpc : k.here.lock = some (.consoleLock, .acquireDown)) :
    k.value .consoleLock = 1 := by
  rcases h.lock.view with hfree | ⟨o, ho⟩
  · exact hfree.value
  · have hcur := (h.off o (owner_inside h.lock ho)).1
    have howner := ho.owner
    have hat : (k.view .consoleLock).pc o = some .acquireDown := by
      rw [hcur]
      exact Ctx.lockPc_of_some hpc
    rw [hat] at howner
    exact howner.elim

/-- What a statement of a console call does. -/
structure Inside (k : Kernel) (e : Event) (k' : Kernel) : Prop where
  event : e = .step
  cur : k'.cur = k.cur
  intr : k'.intr = false
  console : k'.here.InConsole
  here : .consoleLock ∈ k'.here.locks ∨ k'.here = Ctx.idle
  name : k.namePrinted e = []

theorem inside_at {op : Op} (ha : k.At op) (hin : .consoleLock ∈ k.here.locks) : op.isConsole = true := by
  rw [show k.here = _ from ha] at hin
  cases op with
  | console rest pc => rfl
  | _ => simp [Ctx.locks, Ctx.idle, Op.locks] at hin

/-- A statement that writes the call stack of the running thread. -/
theorem Inside.of_ctx {c : Ctx} (hcur : k'.cur = k.cur) (hintr : k'.intr = false) (hctx : k'.ctx k.cur = c)
    (hc : c.InConsole) (hb : k.blocks .step = false) : Inside k .step k' := by
  have hhere : k'.here = c := by
    unfold Kernel.here
    rw [hcur, hctx]
  refine ⟨rfl, hcur, hintr, ?_, ?_, namePrinted_of_blocks (fun h => by cases h) hb⟩
  · rw [hhere]
    exact hc
  · rw [hhere]
    obtain ⟨hr, hs, hl, hop⟩ := hc
    cases hlock : c.lock with
    | some p =>
      left
      have hp := hl p.1 p.2 hlock
      simp [Ctx.locks, hlock, hp]
    | none =>
      rcases hop with hop | hop
      · right
        obtain ⟨r, s, lk, op⟩ := c
        cases hr
        cases hs
        cases hlock
        cases hop
        rfl
      · left
        cases hco : c.op with
        | console rest pc => simp [Ctx.locks, hco, Op.locks]
        | _ =>
          rw [hco] at hop
          cases hop

/-- **A statement of a console call.**  The thread goes on running, with interrupts off, and no name is printed. -/
theorem inside_step (h : ConsoleOff k) (hin : .consoleLock ∈ k.here.locks) (hs : step k e = .ok k') :
    Inside k e k' := by
  obtain ⟨-, hi, hr, hsema, hlock, hop⟩ := h.off k.cur hin
  have hidle : ¬ k.At .idle := by
    intro ha
    cases inside_at ha hin
  have hopen : ∀ {op : Op}, k.At op → op.isConsole = false → False := by
    intro op ha hf
    rw [inside_at ha hin] at hf
    cases hf
  cases step_trans hs with
  | tick ht | preempt _ ht | keyLost _ _ ht | key _ _ _ ht =>
    rw [hi] at ht
    cases ht
  | intrEnable ha | intrDisable ha | callDown _ _ ha | callUp _ _ ha | callAcquire _ ha | callRelease _ ha
  | callGetchar _ ha | callPutchar _ _ ha | callCreate _ ha | callConsole _ ha => exact absurd ha hidle
  | resume r hres =>
    rw [show k.here.resume = none from hr] at hres
    cases hres
  | redown l old _ _ hdown =>
    rw [show k.here.sema = none from hsema] at hdown
    cases hdown
  | lockDown l _ _ _ hl hd =>
    have hcon : l = .consoleLock := hlock l _ hl
    subst hcon
    have hv := value_of_free h hl
    rcases semaDownLoop_ok hd with ⟨h0, -, -⟩ | ⟨-, rfl⟩
    · have hv0 : k.value .consoleLock = 0 := h0
      omega
    · refine .of_ctx (c := k.here.semaReturn) rfl hi (Function.update_self _ _ _) ?_ ?_
      · refine ⟨hr, rfl, ?_, hop⟩
        intro l pc hl'
        simp only [Ctx.semaReturn, hl, Option.map_some, Option.some.injEq, Prod.mk.injEq] at hl'
        exact hl'.1.symm
      · unfold blocks
        rw [show k.here.resume = none from hr, show k.here.sema = none from hsema, hl]
        simp [hv]
  | lockUp l _ _ _ hl hu =>
    refine .of_ctx (c := { k.here with lock := none }) (semaUp_ctx hu).2 ?_ ?_ ?_ ?_
    · rw [(semaUp_frame hu).1]
      exact hi
    · rw [(semaUp_ctx hu).1]
      exact Function.update_self _ _ _
    · exact ⟨hr, hsema, (fun _ _ h => by cases h), hop⟩
    · unfold blocks
      rw [show k.here.resume = none from hr, show k.here.sema = none from hsema, hl]
  | lockNext l pc plock next _ _ hl hdown hup hc =>
    refine .of_ctx (c := { k.here with lock := next.map fun pc => (l, pc) }) rfl hi (Function.update_self _ _ _) ?_ ?_
    · refine ⟨hr, hsema, ?_, hop⟩
      intro l' pc' hl'
      cases next with
      | none => cases hl'
      | some pc1 =>
        cases hl'
        exact hlock l pc hl
    · unfold blocks
      rw [show k.here.resume = none from hr, show k.here.sema = none from hsema, hl]
      cases pc with
      | acquireDown => exact absurd rfl hdown
      | _ => rfl
  | getAcquire q ha | get q _ ha | getWait q _ ha | putAcquire q b ha | put q b _ ha | putWait q b _ ha
  | pidAcquire n ha | pidLoad n ha | pidStore n _ ha | pidReturn n ha | readyAssert n ha | readyAppend n ha
  | allAssert n ha | allAppend n ha | insert n ha => exact (hopen ha rfl).elim
  | opRelease op op' l ha hrel =>
    have hcon := inside_at ha hin
    cases op with
    | console rest pc =>
      cases pc <;> cases hrel
      refine .of_ctx (c := { k.here with lock := some (.consoleLock, .releaseAssert), op := .idle }) rfl hi
        (Function.update_self _ _ _) ⟨hr, hsema, ?_, .inl rfl⟩ ?_
      · intro l pc hl
        cases hl
        rfl
      · unfold blocks
        rw [show k.here = _ from ha]
        rfl
    | _ => cases hcon
  | consoleAcquire rest ha =>
    refine .of_ctx (c := { k.here with lock := some (.consoleLock, .acquireTest), op := .console rest .put }) rfl hi
      (Function.update_self _ _ _) ⟨hr, hsema, ?_, .inr rfl⟩ ?_
    · intro l pc hl
      cases hl
      rfl
    · unfold blocks
      rw [show k.here = _ from ha]
      rfl
  | consolePut c rest ha =>
    refine .of_ctx (c := { k.here with op := .console rest .put }) rfl hi
      (Function.update_self _ _ _) ⟨hr, hsema, hlock, .inr rfl⟩ ?_
    unfold blocks
    rw [show k.here = _ from ha]
    rfl
  | consoleDone ha =>
    refine .of_ctx (c := { k.here with op := .console [] .release }) rfl hi
      (Function.update_self _ _ _) ⟨hr, hsema, hlock, .inr rfl⟩ ?_
    unfold blocks
    rw [show k.here = _ from ha]
    rfl

/-- A step outside a console call starts one with interrupts off, or stays outside. -/
theorem outside_step (hout : .consoleLock ∉ k.here.locks) (hg : Masked k e) (hs : step k e = .ok k') :
    (∃ str, e = .call (.console str) ∧ k' = k.setOp (.console str .acquire) ∧ k.At .idle ∧ k.intr = false) ∨
      (∀ str, e ≠ .call (.console str)) ∧ .consoleLock ∉ (k'.ctx k.cur).locks := by
  have htr := step_trans hs
  by_cases he : ∃ str, e = .call (.console str)
  · obtain ⟨str, rfl⟩ := he
    left
    refine ⟨str, rfl, ?_, ?_, hg.2 str rfl⟩
    · cases htr with
      | callConsole _ ha => rfl
    · cases htr with
      | callConsole _ ha => exact ha
  · right
    refine ⟨fun str h => he ⟨str, h⟩, ?_⟩
    intro hm
    rcases trans_locks htr _ hm with hm | hm
    · exact hout hm
    · obtain ⟨h1, h2, h3, h4⟩ := hg.1
      cases e with
      | call c =>
        cases c with
        | console str => exact he ⟨str, rfl⟩
        | semaDown l =>
          rw [List.mem_singleton.mp hm] at h1
          exact h1 rfl
        | semaUp l =>
          rw [List.mem_singleton.mp hm] at h2
          exact h2 rfl
        | lockAcquire l =>
          rw [List.mem_singleton.mp hm] at h3
          exact h3 rfl
        | lockRelease l =>
          rw [List.mem_singleton.mp hm] at h4
          exact h4 rfl
        | _ => simp [Event.locks, Call.locks] at hm
      | _ => cases hm

end Kernel

namespace ConsoleOff

variable {k k' : Kernel} {e : Event}

/-- Whoever is not running is in no console call. -/
theorem others (h : ConsoleOff k) (hs : step k e = .ok k') {t : Tid} (ht : t ≠ k.cur) :
    .consoleLock ∉ (k'.ctx t).locks := by
  rw [trans_ctx h.lock.threads (step_trans hs) ht]
  intro hm
  exact ht (h.off t hm).1

theorem step (h : ConsoleOff k) (hg : Masked k e) (hs : Kernel.step k e = .ok k') : ConsoleOff k' := by
  refine ⟨h.lock.step hg.1 (step_trans hs), ?_⟩
  intro t hm
  have ht : t = k.cur := by
    by_contra hne
    exact h.others hs hne hm
  subst ht
  by_cases hin : .consoleLock ∈ k.here.locks
  · have hi := inside_step h hin hs
    have hhere : k'.ctx k.cur = k'.here := by
      unfold here
      rw [hi.cur]
    rw [hhere]
    exact ⟨hi.cur.symm, hi.intr, hi.console⟩
  · rcases outside_step hin hg hs with ⟨str, -, rfl, ha, hi⟩ | ⟨-, hout⟩
    · refine ⟨rfl, hi, ?_⟩
      rw [show (k.setOp (.console str .acquire)).ctx k.cur = { k.here with op := .console str .acquire } from
        Function.update_self _ _ _, show k.here = _ from ha]
      exact ⟨rfl, rfl, (fun _ _ h => by cases h), .inr rfl⟩
    · exact absurd hm hout

theorem boot {mainThread : Tid} {value : LockId → Nat} (hv : value .consoleLock = 1) :
    ConsoleOff (Kernel.boot mainThread value) := by
  refine ⟨KernelLock.boot hv, ?_⟩
  intro t hm
  by_cases ht : t = mainThread
  · simp [Kernel.boot, ht, Ctx.idle, Ctx.locks, Op.locks] at hm
  · simp [Kernel.boot, ht, Ctx.new, Ctx.idle, Ctx.locks, Op.locks] at hm

end ConsoleOff

/-! ## The screen in blocks -/

/-- A block of the screen: the name `schedule` prints, or the strings of a thread. -/
inductive Block where
  | name (text : List Char)
  | record (t : Tid) (strs : List (List Char))

def Block.text : Block → List Char
  | .name text => text
  | .record _ strs => strs.flatten

/-- The kernel with the blocks of its screen, the last one first. -/
structure RecordTrace where
  kernel : Kernel
  blocks : List Block

/-- A string of `t` goes on with its record. -/
def addString (t : Tid) (str : List Char) : List Block → List Block
  | .record u strs :: blocks => if u = t then .record t (strs ++ [str]) :: blocks else .record t [str] :: .record u strs :: blocks
  | blocks => .record t [str] :: blocks

namespace RecordTrace

def record (s : RecordTrace) : Event → List Block
  | .call (.console str) => addString s.kernel.cur str s.blocks
  | .call .intrDisable => .record s.kernel.cur [] :: s.blocks
  | e => if s.kernel.namePrinted e = [] then s.blocks else .name (s.kernel.namePrinted e) :: s.blocks

def step (s : RecordTrace) (e : Event) : Except Halt RecordTrace := do
  let k ← s.kernel.step e
  pure { kernel := k, blocks := s.record e }

def boot (mainThread : Tid) (value : LockId → Nat) : RecordTrace where
  kernel := Kernel.boot mainThread value
  blocks := []

def text (s : RecordTrace) : List Char := s.blocks.reverse.flatMap Block.text

theorem step_ok {s s' : RecordTrace} {e : Event} (h : s.step e = .ok s') :
    ∃ k, s.kernel.step e = .ok k ∧ s' = { kernel := k, blocks := s.record e } := by
  unfold step at h
  rw [bind_eq_ok] at h
  obtain ⟨k, hk, h⟩ := h
  cases h
  exact ⟨k, hk, rfl⟩

end RecordTrace

/-- What a console call has still to print. -/
def Op.pending : Op → List Char
  | .console rest .acquire => rest
  | .console rest .put => rest
  | _ => []

theorem Op.pending_outside {op : Op} (h : op.isConsole = false) : op.pending = [] := by
  cases op with
  | console rest pc => cases h
  | _ => rfl

theorem Op.ConsoleGoes.pending {op op' : Op} (h : op.ConsoleGoes op') : op'.pending = op.pending := by
  cases h with
  | stay => rfl
  | outside _ _ h1 h2 => rw [Op.pending_outside h1, Op.pending_outside h2]
  | acquire rest => rfl
  | done => rfl
  | release rest => rfl

theorem Ctx.pending_outside {c : Ctx} (h : .consoleLock ∉ c.locks) : c.op.pending = [] := by
  cases hop : c.op with
  | console rest pc => simp [Ctx.locks, hop, Op.locks] at h
  | _ => rfl

theorem text_addString (t : Tid) (str : List Char) (blocks : List Block) :
    (addString t str blocks).reverse.flatMap Block.text = blocks.reverse.flatMap Block.text ++ str := by
  cases blocks with
  | nil => simp [addString, Block.text]
  | cons b blocks =>
    cases b with
    | name text => simp [addString, Block.text]
    | record u strs =>
      by_cases hu : u = t
      · simp [addString, hu, Block.text]
      · simp [addString, hu, Block.text]

namespace RecordTrace

variable {s s' : RecordTrace} {e : Event}

/-- A step that starts no console call adds the name it prints, if any. -/
theorem text_other {k : Kernel} (he : ∀ str, e ≠ .call (.console str)) :
    RecordTrace.text { kernel := k, blocks := s.record e } = s.text ++ s.kernel.namePrinted e := by
  have hadd : ∀ {bs : List Block}, bs =
      (if s.kernel.namePrinted e = [] then s.blocks else .name (s.kernel.namePrinted e) :: s.blocks) →
      bs.reverse.flatMap Block.text = s.text ++ s.kernel.namePrinted e := by
    intro bs hbs
    rw [hbs]
    split
    · rename_i hn
      rw [hn, List.append_nil]
      rfl
    · simp [RecordTrace.text, Block.text]
  cases e with
  | call c =>
    cases c with
    | console str => exact absurd rfl (he str)
    | intrDisable =>
      show (Block.record s.kernel.cur [] :: s.blocks).reverse.flatMap Block.text = s.text ++ []
      simp [RecordTrace.text, Block.text]
    | _ => exact hadd rfl
  | _ => exact hadd rfl

end RecordTrace

/-- What holds in every state: the screen is what the blocks say, but for what is still to be printed. -/
structure RecordInv (s : RecordTrace) : Prop where
  off : ConsoleOff s.kernel
  shown : s.kernel.screen ++ s.kernel.here.op.pending = s.text

namespace RecordInv

variable {s s' : RecordTrace} {e : Event}

theorem step (h : RecordInv s) (hg : Masked s.kernel e) (hs : s.step e = .ok s') : RecordInv s' := by
  obtain ⟨k, hk, rfl⟩ := RecordTrace.step_ok hs
  refine ⟨h.off.step hg hk, ?_⟩
  show k.screen ++ k.here.op.pending = _
  have hshown := h.shown
  by_cases hin : .consoleLock ∈ s.kernel.here.locks
  · -- a statement of a console call
    have hi := inside_step h.off hin hk
    have hhere : k.here = k.ctx s.kernel.cur := by
      unfold here
      rw [hi.cur]
    obtain rfl := hi.event
    cases step_moves h.off.lock.queues h.off.lock.threads hk with
    | put c rest ha hop hscreen =>
      rw [RecordTrace.text_other (fun _ h => by cases h), hi.name, List.append_nil, ← hshown, hhere, hop, hscreen,
        show s.kernel.here.op = _ from congrArg Ctx.op ha]
      simp [Op.pending]
    | other _ he hp hgo hscreen =>
      rw [RecordTrace.text_other he, hi.name, List.append_nil, ← hshown, hhere, hgo.pending, hscreen, hi.name,
        List.append_nil]
  · have hnone := Ctx.pending_outside hin
    rw [hnone, List.append_nil] at hshown
    rcases outside_step hin hg hk with ⟨str, rfl, rfl, ha, -⟩ | ⟨he, hout⟩
    · show s.kernel.screen ++ (Function.update s.kernel.ctx s.kernel.cur _ s.kernel.cur).op.pending =
        (addString s.kernel.cur str s.blocks).reverse.flatMap Block.text
      rw [Function.update_self, text_addString, hshown]
      rfl
    · have hhere : k.here.op.pending = [] := by
        refine Ctx.pending_outside ?_
        by_cases hcur : k.cur = s.kernel.cur
        · unfold here
          rw [hcur]
          exact hout
        · exact h.off.others hk hcur
      rw [hhere, List.append_nil, RecordTrace.text_other he, ← hshown]
      cases step_moves h.off.lock.queues h.off.lock.threads hk with
      | start str => exact absurd rfl (he str)
      | put c rest ha =>
        exfalso
        refine hin ?_
        rw [show s.kernel.here = _ from ha]
        simp [Ctx.locks, Ctx.idle, Op.locks]
      | other _ _ _ _ hscreen => exact hscreen

theorem boot {mainThread : Tid} {value : LockId → Nat} (hv : value .consoleLock = 1) :
    RecordInv (RecordTrace.boot mainThread value) := by
  refine ⟨ConsoleOff.boot hv, ?_⟩
  show [] ++ ((Kernel.boot mainThread value).ctx mainThread).op.pending = []
  simp [Kernel.boot, Ctx.idle, Op.pending]

end RecordInv

/-! ## One record -/

/-- The event is no call but one of the console. -/
def ConsoleOnly (e : Event) : Prop := ∀ c, e = .call c → ∃ str, c = .console str

/-- The strings the console calls of the run print. -/
def strings (es : List Event) : List (List Char) :=
  es.filterMap fun e => match e with
    | .call (.console str) => some str
    | _ => none

/-- A thread with interrupts off that has printed `strs` since it turned them off. -/
structure Printing (s : RecordTrace) (t : Tid) (strs : List (List Char)) (blocks : List Block) : Prop where
  inv : RecordInv s
  cur : s.kernel.cur = t
  intr : s.kernel.intr = false
  here : .consoleLock ∈ s.kernel.here.locks ∨ s.kernel.here = Ctx.idle
  blocks : s.blocks = .record t strs :: blocks

theorem Printing.step {s s' : RecordTrace} {t : Tid} {strs : List (List Char)} {blocks : List Block} {e : Event}
    (h : Printing s t strs blocks) (hg : Masked s.kernel e) (hc : ConsoleOnly e) (hs : s.step e = .ok s') :
    Printing s' t (strs ++ strings [e]) blocks := by
  have hinv := h.inv.step hg hs
  obtain ⟨k, hk, rfl⟩ := RecordTrace.step_ok hs
  by_cases hin : .consoleLock ∈ s.kernel.here.locks
  · have hi := inside_step h.inv.off hin hk
    obtain rfl := hi.event
    refine ⟨hinv, hi.cur.trans h.cur, hi.intr, hi.here, ?_⟩
    show (if s.kernel.namePrinted .step = [] then s.blocks else _) = _
    rw [if_pos hi.name, h.blocks, show strings [.step] = [] from rfl, List.append_nil]
  · have hidle : s.kernel.here = Ctx.idle := h.here.resolve_left hin
    rcases outside_step hin hg hk with ⟨str, rfl, rfl, ha, hi⟩ | ⟨he, -⟩
    · refine ⟨hinv, h.cur, hi, .inl ?_, ?_⟩
      · show .consoleLock ∈ (Function.update s.kernel.ctx s.kernel.cur _ s.kernel.cur).locks
        rw [Function.update_self]
        simp [Ctx.locks, Op.locks]
      · show addString s.kernel.cur str s.blocks = _
        rw [h.blocks, h.cur]
        simp [addString, strings]
    · -- in its own function, with interrupts off, the thread can only make a call
      exfalso
      cases e with
      | timer =>
        simp [Kernel.step, h.intr] at hk
      | keyboard q byte =>
        simp [Kernel.step, h.intr] at hk
      | call c =>
        obtain ⟨str, rfl⟩ := hc c rfl
        exact he str rfl
      | step =>
        simp only [Kernel.step, innermost] at hk
        rw [hidle] at hk
        cases hk

theorem Printing.run {t : Tid} {blocks : List Block} : ∀ (es : List Event) (s s' : RecordTrace)
    (strs : List (List Char)), Printing s t strs blocks →
    Runs RecordTrace.step (fun s e => Masked s.kernel e ∧ ConsoleOnly e) s es s' →
    Printing s' t (strs ++ strings es) blocks := by
  intro es
  induction es with
  | nil =>
    intro s s' strs h hr
    cases hr
    rw [show strings [] = [] from rfl, List.append_nil]
    exact h
  | cons e es ih =>
    rintro s s' strs h ⟨⟨hg, hc⟩, s1, hs, hr⟩
    have hrun := ih s1 s' _ (h.step hg hc hs) hr
    have hsplit : strings (e :: es) = strings [e] ++ strings es := by
      rw [strings, strings, strings, ← List.filterMap_append]
      rfl
    rw [hsplit, ← List.append_assoc]
    exact hrun

/-- The test of `Masked`. -/
def masked (k : Kernel) (e : Event) : Bool :=
  decide (KernelOnly .consoleLock e) && match e with
    | .call (.console _) => !k.intr
    | _ => true

end MyOs
