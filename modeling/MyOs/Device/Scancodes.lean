import MyOs.Device.Keyboard
import MyOs.Device.Fifo
import MyOs.Thread.Asserts

/-!
# The keyboard interrupt in the running kernel

`KbdSys` is the kernel with the statics of keyboard.c.  An event is a keyboard interrupt with the byte that
`inb` reads, or any other event of the kernel: the readers of `kbd_buf` run in any order, and nobody else writes
to it.

    handler_returns     the handler returns to the thread it interrupted
    keyboard_decodes    what is put in `kbd_buf`, in every run
-/

namespace MyOs

/-- The queue that a thread in `ioq_putchar` writes to. -/
def Op.putsTo : Op → Option IoqId
  | .ioqPutchar q _ _ => some q
  | _ => none

/-- An event of the kernel other than the keyboard interrupt and a call that writes to `q`. -/
def Event.reads (q : IoqId) : Event → Bool
  | .keyboard _ _ => false
  | .call (.ioqPutchar q' _) => q' ≠ q
  | _ => true

namespace Kernel

variable {k k' : Kernel} {q : IoqId}

/-- No thread is in `ioq_putchar(q, ..)`. -/
def NoWriter (q : IoqId) (k : Kernel) : Prop := ∀ t, (k.ctx t).op.putsTo ≠ some q

/-- Only the keyboard interrupt and `ioq_putchar` write to a queue. -/
theorem trans_put {e : Event} (hs : Trans k e k') (he : e.reads q = true) (ho : k.here.op.putsTo ≠ some q) :
    k'.hist.put q = k.hist.put q := by
  cases hs with
  | preempt _ _ hs => exact (schedule_ring (q := q) hs).put
  | key => cases he
  | callDown l _ _ hd => exact (semaDownLoop_ring (q := q) hd).put
  | callUp l _ _ hu => exact (semaUp_ring (q := q) hu).put
  | redown l old _ _ _ hd => exact (semaDownLoop_ring (q := q) hd).put
  | lockDown l _ _ _ _ hd => exact (semaDownLoop_ring (q := q) hd).put
  | lockUp l _ _ _ _ hu => exact (semaUp_ring (q := q) hu).put
  | lockNext l pc plock next =>
    show (countHeld k l pc next).put q = _
    unfold countHeld
    split <;> rfl
  | get q' _ _ _ _ hb => exact (wakeupIfAny_ring (q := q) hb).put
  | put q' byte _ ha _ _ hb =>
    have hne : q' ≠ q := by
      rintro rfl
      exact ho (by rw [show k.here.op = .ioqPutchar q' byte .loop from congrArg Ctx.op ha]; rfl)
    rw [(wakeupIfAny_ring (q := q) hb).put]
    exact Function.update_of_ne (Ne.symm hne) _ _
  | getWait q' _ _ hw => exact (ioqWait_ring (q := q) hw).put
  | putWait q' byte _ _ hw => exact (ioqWait_ring (q := q) hw).put
  | _ => rfl

/-- The call of `lock_release` at the end of `ioq_putchar` returns into the same call. -/
theorem putsTo_releases {op op' : Op} {l : LockId} (h : op.releases = some (l, op')) : op'.putsTo = op.putsTo := by
  cases op with
  | idle => cases h
  | ioqGetchar q pc => cases pc <;> cases h; rfl
  | ioqPutchar q byte pc => cases pc <;> cases h; rfl
  | create n pc => cases pc <;> cases h; rfl
  | console rest pc => cases pc <;> cases h; rfl

theorem trans_noWriter {e : Event} (ht : ThreadInv k) (hs : Trans k e k') (he : e.reads q = true)
    (h : NoWriter q k) : NoWriter q k' := by
  intro t
  by_cases hne : t = k.cur
  · subst hne
    have hhere : k.here.op.putsTo ≠ some q := h k.cur
    -- the running thread's call stack, where a step writes it
    have hset : ∀ c : Ctx, k'.ctx = Function.update k.ctx k.cur c → c.op.putsTo ≠ some q →
        (k'.ctx k.cur).op.putsTo ≠ some q := by
      intro c hc ho
      rw [hc, Function.update_self]
      exact ho
    have hop : ∀ {op : Op}, (k'.ctx k.cur).op = op → op.putsTo ≠ some q →
        (k'.ctx k.cur).op.putsTo ≠ some q := by
      rintro op rfl ho
      exact ho
    have hat : ∀ {op : Op}, k.At op → op.putsTo ≠ some q := by
      intro op ha
      rw [show k.here.op = op from congrArg Ctx.op ha] at hhere
      exact hhere
    cases hs with
    | tick | keyLost | intrEnable | intrDisable => exact hhere
    | key => cases he
    | preempt _ _ hs =>
      rw [schedule_frame hs] at hset ⊢
      exact hset { k.here with resume := some .intrExit } rfl hhere
    | callDown l _ _ hd => exact hop (semaDownLoop_op hd rfl rfl) hhere
    | callUp l _ _ hu =>
      rw [(semaUp_ctx hu).1]
      exact hhere
    | redown l old _ _ _ hd => exact hop (semaDownLoop_op hd rfl rfl) hhere
    | lockDown l _ _ _ _ hd => exact hop (semaDownLoop_op hd rfl rfl) hhere
    | lockUp l _ _ _ _ hu => exact hset _ (semaUp_ctx hu).1 hhere
    | lockNext | resume => exact hset _ rfl hhere
    | callPutchar q' byte ha =>
      have hne : q' ≠ q := of_decide_eq_true he
      exact hset _ rfl (by simpa [Op.putsTo] using hne)
    | putAcquire q' byte ha =>
      have hq := hat ha
      exact hset _ rfl hq
    | get q' _ _ _ _ hb => exact hset _ (wakeupIfAny_ctx hb).1 (by simp [Op.putsTo])
    | put q' byte _ _ _ _ hb => exact hset _ (wakeupIfAny_ctx hb).1 (by simp [Op.putsTo])
    | getWait q' _ _ hw => exact hop (ioqWait_op hw) (by simp [Op.putsTo])
    | putWait q' byte _ ha hw =>
      have hq := hat ha
      exact hop (ioqWait_op hw) hq
    | opRelease op op' l ha hrel =>
      refine hset _ rfl ?_
      show op'.putsTo ≠ some q
      rw [putsTo_releases hrel]
      exact hat ha
    | pidReturn n ha =>
      show (Function.update (Function.update k.ctx k.cur _) n.pcb Ctx.new k.cur).op.putsTo ≠ some q
      by_cases hp : k.cur = n.pcb
      · rw [hp, Function.update_self]
        simp [Ctx.new, Ctx.idle, Op.putsTo]
      · rw [Function.update_of_ne hp, Function.update_self]
        simp [Op.putsTo]
    | _ => exact hset _ rfl (by simp [Op.putsTo])
  · rw [trans_ctx ht hs hne]
    exact h t

/-! ## The handler -/

/-- `ioq_putchar` where no thread may be blocked: its loop is entered when the queue is full. -/
def ioqPutcharAtOnce (k : Kernel) (q : IoqId) (byte : UInt8) : Except Halt Kernel := do
  assert .debug "ioq_putchar" "intr_get_status() == INTR_OFF" (!k.intr)
  assert .debug "ioq_full" "intr_get_status() == INTR_OFF" (!k.intr)
  if (k.ioq q).full then .error .blocked else putByte k q byte

/-- What the handler does to the kernel; interrupts are off. -/
def kbdOut (k : Kernel) (q : IoqId) : KbdOut → Except Halt Kernel
  | .nothing => .ok k
  | .unknown => .ok { k with screen := k.screen ++ "unknow key\n".toList }
  | .char c => do
    assert .debug "ioq_full" "intr_get_status() == INTR_OFF" (!k.intr)
    if (k.ioq q).full then pure k else ioqPutcharAtOnce k q c

/-- The waiter that a queue names can be made ready. -/
theorem wakeupIfAny_returns {side : Side}
    (hs : ∀ t, (k.ioq q).waiter side = some t → (k.task t).status = .blocked ∧ t ∉ k.readyList) :
    ∃ k', wakeupIfAny k q side = .ok k' := by
  unfold wakeupIfAny wakeup
  cases hw : (k.ioq q).waiter side with
  | none => exact ⟨k, if_neg (not_not_intro rfl)⟩
  | some t =>
    obtain ⟨hstat, hready⟩ := hs t hw
    unfold threadUnblock
    simp [hstat, hready, assert, bind, Except.bind]

theorem putByte_returns (hq : Queues k) (byte : UInt8) : ∃ k', putByte k q byte = .ok k' := by
  obtain ⟨place, h⟩ := hq
  refine wakeupIfAny_returns ?_
  rw [slots_storeByte]
  exact sleeper_blocked h q .consumer

/-- A step of the handler: the thread that was running goes on, and a character is appended to the queue if
there is room. -/
structure KbdStep (q : IoqId) (k k' : Kernel) (out : KbdOut) : Prop where
  cur : k'.cur = k.cur
  ctx : k'.ctx = k.ctx
  queues : Queues k'
  threads : ThreadInv k'
  put : k'.hist.put q = k.hist.put q ++ if (k.ioq q).full then [] else out.toChar.toList

theorem kbdOut_char (c : UInt8) (hfull : (k.ioq q).full = false) :
    kbdOut { k with intr := false } q (.char c) = putByte { k with intr := false } q c := by
  unfold kbdOut ioqPutcharAtOnce
  simp only [hfull, Bool.false_eq_true, if_false]
  rfl

theorem intr_restored (hi : k.intr = true) : { { k with intr := false } with intr := true } = k := by
  cases k
  cases hi
  rfl

/-- Nothing happened. -/
theorem KbdStep.same {out : KbdOut} (hq : Queues k) (ht : ThreadInv k)
    (hout : (k.ioq q).full = true ∨ out.toChar = none) : KbdStep q k k out := by
  refine ⟨rfl, rfl, hq, ht, ?_⟩
  rcases hout with hf | ho
  · rw [if_pos hf, List.append_nil]
  · rw [ho, Option.toList_none, ite_self, List.append_nil]

/-- **The handler never waits**, whatever it does. -/
theorem kbdOut_step (hq : Queues k) (ht : ThreadInv k) (hi : k.intr = true) (out : KbdOut) :
    ∃ k1, kbdOut { k with intr := false } q out = .ok k1 ∧ KbdStep q k { k1 with intr := true } out := by
  cases out with
  | nothing =>
    refine ⟨_, rfl, ?_⟩
    rw [intr_restored hi]
    exact KbdStep.same hq ht (.inr rfl)
  | unknown =>
    obtain ⟨place, h⟩ := hq
    refine ⟨_, rfl, rfl, rfl,
      ⟨place, quiet_queues h rfl rfl (fun _ => rfl) (fun _ _ => rfl) (fun _ _ => rfl) rfl⟩,
      ⟨ht.fresh, ht.threads_pcbs, ht.all_pcbs, ht.creating, ht.unique, ht.nodup, ht.returned, ht.main⟩, ?_⟩
    show k.hist.put q = _
    rw [show KbdOut.unknown.toChar = none from rfl, Option.toList_none, ite_self, List.append_nil]
  | char c =>
    cases hfull : (k.ioq q).full with
    | true =>
      refine ⟨{ k with intr := false }, ?_, ?_⟩
      · unfold kbdOut
        simp only [hfull, if_true]
        rfl
      · rw [intr_restored hi]
        exact KbdStep.same hq ht (.inl hfull)
    | false =>
      obtain ⟨place, h⟩ := hq
      obtain ⟨k1, h1⟩ := putByte_returns (k := { k with intr := false }) (q := q) ⟨place, intr_queues h false⟩ c
      have htr : Trans k (.keyboard q c) { k1 with intr := true } := .key q c k1 hi hfull h1
      obtain ⟨hctx, hcur⟩ := wakeupIfAny_ctx h1
      refine ⟨k1, by rw [kbdOut_char c hfull, h1], hcur, hctx, step_queues ⟨place, h⟩ ht htr,
        step_threads ⟨place, h⟩ ht htr, ?_⟩
      show k1.hist.put q = _
      rw [(wakeupIfAny_ring (q := q) h1).put, hfull]
      exact Function.update_self _ _ _

end Kernel

/-! ## The system -/

structure KbdSys where
  kernel : Kernel
  kbd : Kbd
  /-- The bytes read so far, the latest first. -/
  codes : List UInt8
  /-- The characters so far, in order, each with whether `kbd_buf` was full. -/
  produced : List (UInt8 × Bool)

inductive KbdEvent where
  | scancode (byte : UInt8)
  | kernel (e : Event)
  deriving DecidableEq, Repr

namespace KbdSys

variable {q : IoqId} {s s' : KbdSys}

def boot (mainThread : Tid) (value : LockId → Nat) : KbdSys :=
  { kernel := Kernel.boot mainThread value, kbd := Kbd.init, codes := [], produced := [] }

/-- The whole of `intr_keyboard_handler`; `q` is `kbd_buf`.  A read outside `keymap` counts as a fault. -/
def intrKeyboardHandler (s : KbdSys) (q : IoqId) (byte : UInt8) : Except Halt KbdSys := do
  let p ← orFault byte.toNat (s.kbd.decode byte)
  let k ← Kernel.kbdOut { s.kernel with intr := false } q p.2
  pure
    { kernel := { k with intr := true }
      kbd := p.1
      codes := byte :: s.codes
      produced := s.produced ++ p.2.toChar.toList.map fun c => (c, (s.kernel.ioq q).full) }

def step (q : IoqId) (s : KbdSys) : KbdEvent → Except Halt KbdSys
  | .scancode byte => if s.kernel.intr then s.intrKeyboardHandler q byte else .error .disabled
  | .kernel e => do
    let k ← s.kernel.step e
    pure { s with kernel := k }

/-- The other threads only read `kbd_buf`, and the keyboard interrupt is that of the scancodes. -/
def Readers (q : IoqId) (_ : KbdSys) : KbdEvent → Prop
  | .scancode _ => True
  | .kernel e => e.reads q = true

/-- The bytes of a run, the latest first. -/
def scancodes : List KbdEvent → List UInt8
  | [] => []
  | .scancode byte :: es => scancodes es ++ [byte]
  | .kernel _ :: es => scancodes es

/-- The characters that found room. -/
def accepted (s : KbdSys) : List UInt8 := (s.produced.filter fun p => !p.2).map (·.1)

structure KbdInv (q : IoqId) (s : KbdSys) : Prop where
  queues : Queues s.kernel
  threads : ThreadInv s.kernel
  noWriter : Kernel.NoWriter q s.kernel
  kbd : s.kbd = kbdAfter s.codes
  produced : s.produced.map (·.1) = reference s.codes
  put : s.kernel.hist.put q = s.accepted

/-- What the handler leaves, where `k` is the kernel after its output. -/
def fed (s : KbdSys) (q : IoqId) (c : UInt8) (k : Kernel) : KbdSys :=
  { kernel := { k with intr := true }
    kbd := s.kbd.next c
    codes := c :: s.codes
    produced := s.produced ++ (s.kbd.out c).toChar.toList.map fun b => (b, (s.kernel.ioq q).full) }

theorem handler_eq (q : IoqId) (s : KbdSys) (c : UInt8) : s.intrKeyboardHandler q c =
    Kernel.kbdOut { s.kernel with intr := false } q (s.kbd.out c) >>= fun k => pure (s.fed q c k) := by
  unfold intrKeyboardHandler
  rw [decode_eq]
  rfl

theorem accepted_fed (s : KbdSys) (q : IoqId) (c : UInt8) (k : Kernel) : (s.fed q c k).accepted =
    s.accepted ++ if (s.kernel.ioq q).full then [] else (s.kbd.out c).toChar.toList := by
  unfold accepted
  rw [show (s.fed q c k).produced = s.produced ++ _ from rfl, List.filter_append, List.map_append]
  congr 1
  cases (s.kbd.out c).toChar with
  | none => cases (s.kernel.ioq q).full <;> rfl
  | some b => cases (s.kernel.ioq q).full <;> simp

/-- **The handler returns** to the thread it interrupted. -/
theorem handler_returns (h : KbdInv q s) (hi : s.kernel.intr = true) (c : UInt8) :
    ∃ s', s.intrKeyboardHandler q c = .ok s' ∧ s'.kernel.cur = s.kernel.cur ∧
      s'.kernel.ctx = s.kernel.ctx ∧ KbdInv q s' := by
  obtain ⟨k1, h1, hk⟩ := Kernel.kbdOut_step (q := q) h.queues h.threads hi (s.kbd.out c)
  have hchar : (s.kbd.out c).toChar = symbol s.codes c := by rw [h.kbd, out_kbdAfter]
  rw [handler_eq, h1]
  refine ⟨_, rfl, hk.cur, hk.ctx, hk.queues, hk.threads, ?_, ?_, ?_, ?_⟩
  · intro t
    have hctx := congrFun hk.ctx t
    have hno := h.noWriter t
    rw [← hctx] at hno
    exact hno
  · show s.kbd.next c = kbdAfter (c :: s.codes)
    rw [h.kbd, kbdAfter]
  · show (s.produced ++ _).map (·.1) = reference (c :: s.codes)
    rw [List.map_append, h.produced, List.map_map, reference, hchar]
    congr 1
    exact List.map_id _
  · show k1.hist.put q = _
    rw [hk.put, h.put, accepted_fed]

theorem boot_inv (mainThread : Tid) (value : LockId → Nat) (q : IoqId) : KbdInv q (boot mainThread value) := by
  refine ⟨Kernel.boot_queues mainThread value, Kernel.boot_threads mainThread value, ?_, rfl, rfl, rfl⟩
  intro t
  show ((Function.update (fun _ => Ctx.new) mainThread Ctx.idle) t).op.putsTo ≠ some q
  by_cases ht : t = mainThread
  · rw [ht, Function.update_self]
    simp [Ctx.idle, Op.putsTo]
  · rw [Function.update_of_ne ht]
    simp [Ctx.new, Ctx.idle, Op.putsTo]

/-- What a keyboard interrupt can do. -/
theorem scancode_ok {c : UInt8} (hs : s.step q (.scancode c) = .ok s') : s.kernel.intr = true ∧
    s.intrKeyboardHandler q c = .ok s' ∧ ∃ k, s' = s.fed q c k := by
  simp only [step] at hs
  split at hs
  · next hi =>
    have hfed := hs
    rw [handler_eq, bind_eq_ok] at hfed
    obtain ⟨k, -, hk⟩ := hfed
    exact ⟨hi, hs, k, (Except.ok.inj hk).symm⟩
  · cases hs

/-- What any other event can do. -/
theorem kernel_ok {e : Event} (hs : s.step q (.kernel e) = .ok s') :
    ∃ k, s.kernel.step e = .ok k ∧ s' = { s with kernel := k } := by
  simp only [step, bind_eq_ok] at hs
  obtain ⟨k, hk, hs⟩ := hs
  exact ⟨k, hk, (Except.ok.inj hs).symm⟩

/-- Any event keeps the invariant. -/
theorem step_inv {e : KbdEvent} (h : KbdInv q s) (hg : Readers q s e) (hs : s.step q e = .ok s') : KbdInv q s' := by
  cases e with
  | scancode c =>
    obtain ⟨hi, hs, -⟩ := scancode_ok hs
    obtain ⟨t, ht, -, -, hinv⟩ := handler_returns h hi c
    rw [ht] at hs
    cases hs
    exact hinv
  | kernel e =>
    obtain ⟨k, hk, rfl⟩ := kernel_ok hs
    have htr := Kernel.step_trans hk
    refine ⟨Kernel.step_queues h.queues h.threads htr, Kernel.step_threads h.queues h.threads htr,
      Kernel.trans_noWriter h.threads htr hg h.noWriter, h.kbd, h.produced, ?_⟩
    show k.hist.put q = s.accepted
    rw [Kernel.trans_put htr hg (h.noWriter _), h.put]

theorem step_codes {e : KbdEvent} (hs : s.step q e = .ok s') : s'.codes = scancodes [e] ++ s.codes := by
  cases e with
  | scancode c =>
    obtain ⟨-, -, k, rfl⟩ := scancode_ok hs
    rfl
  | kernel e =>
    obtain ⟨k, -, rfl⟩ := kernel_ok hs
    rfl

theorem scancodes_append (es es' : List KbdEvent) : scancodes (es ++ es') = scancodes es' ++ scancodes es := by
  induction es with
  | nil => rw [List.nil_append, scancodes, List.append_nil]
  | cons e es ih =>
    cases e with
    | scancode c => rw [List.cons_append, scancodes, scancodes, ih, List.append_assoc]
    | kernel e => rw [List.cons_append, scancodes, scancodes, ih]

theorem run_codes {G : KbdSys → KbdEvent → Prop} : ∀ (es : List KbdEvent) (s s' : KbdSys),
    Runs (step q) G s es s' → s'.codes = scancodes es ++ s.codes := by
  intro es
  induction es with
  | nil =>
    intro s s' hr
    cases hr
    rfl
  | cons e es ih =>
    rintro s s' ⟨-, s1, hs, hr⟩
    have happ := scancodes_append [e] es
    rw [List.singleton_append] at happ
    rw [ih s1 s' hr, step_codes hs, happ, List.append_assoc]

/-- Any stream of bytes can come while interrupts are on. -/
theorem stream_runs : ∀ (cs : List UInt8) (s : KbdSys), KbdInv q s → s.kernel.intr = true →
    ∃ s', Runs (step q) (Readers q) s (cs.map .scancode) s' := by
  intro cs
  induction cs with
  | nil =>
    intro s _ _
    exact ⟨s, rfl⟩
  | cons c cs ih =>
    intro s h hi
    obtain ⟨s1, h1, -, -, hinv⟩ := handler_returns h hi c
    have hs : s.step q (.scancode c) = .ok s1 := by
      simp only [step]
      rw [if_pos hi, h1]
    have hi1 : s1.kernel.intr = true := by
      obtain ⟨-, -, k, rfl⟩ := scancode_ok hs
      rfl
    obtain ⟨s', hr⟩ := ih s1 hinv hi1
    exact ⟨s', trivial, s1, hs, hr⟩

/-- `main` enables interrupts, and a stream of bytes comes. -/
theorem enabled_runs (cs : List UInt8) : ∃ s s', Runs (step 0) (Readers 0) (boot 0 fun _ => 1)
    [.kernel (.call .intrEnable)] s ∧ Runs (step 0) (Readers 0) s (cs.map .scancode) s' := by
  obtain ⟨s, hr, hs⟩ := Runs.exists_of_exec (step 0) (G := Readers 0)
    (fun _ e => match e with | .scancode _ => true | .kernel e => e.reads 0)
    (fun _ e h => by cases e with | scancode _ => trivial | kernel e => exact h)
    (boot 0 fun _ => 1) [.kernel (.call .intrEnable)] (fun s => s.kernel.intr) (b := true) (by decide +kernel)
  have h := Runs.invariant (KbdInv 0) (fun _ _ _ h hg hs => step_inv h hg hs) _ _ s (boot_inv 0 (fun _ => 1) 0) hr
  obtain ⟨s', hr'⟩ := stream_runs cs s h hs
  exact ⟨s, s', hr, hr'⟩

end KbdSys

/-- The decoder in a state that the events `es` lead to. -/
structure KeyboardDecodes (q : IoqId) (es : List KbdEvent) (s : KbdSys) : Prop where
  /-- The characters are those of the reference decoder, in order. -/
  produced : s.produced.map (·.1) = reference (KbdSys.scancodes es)
  /-- They are in `kbd_buf`, or have been, but for those that came while it was full. -/
  put : s.kernel.hist.put q = s.accepted
  inRange : ∀ c, s.kbd.decode c ≠ none
  /-- The handler is not blocked, whatever comes next. -/
  returns : s.kernel.intr = true → ∀ c, ∃ s', s.intrKeyboardHandler q c = .ok s' ∧
    s'.kernel.cur = s.kernel.cur ∧ s'.kernel.ctx = s.kernel.ctx

/-- **The keyboard.**  In every run, with any threads reading `kbd_buf`; 0xe0 itself stands for nothing. -/
theorem keyboard_decodes (mainThread : Tid) (value : LockId → Nat) (q : IoqId) (es : List KbdEvent) (s : KbdSys)
    (hr : Runs (KbdSys.step q) (KbdSys.Readers q) (KbdSys.boot mainThread value) es s) :
    KeyboardDecodes q es s := by
  have h := Runs.invariant (KbdSys.KbdInv q) (fun _ _ _ h hg hs => KbdSys.step_inv h hg hs) es _ s
    (KbdSys.boot_inv mainThread value q) hr
  have hcodes := KbdSys.run_codes es _ s hr
  rw [show (KbdSys.boot mainThread value).codes = [] from rfl, List.append_nil] at hcodes
  refine ⟨?_, h.put, ?_, ?_⟩
  · rw [h.produced, hcodes]
  · intro c
    rw [decode_eq]
    exact Option.some_ne_none _
  · intro hi c
    obtain ⟨s', hs, hcur, hctx, -⟩ := KbdSys.handler_returns h hi c
    exact ⟨s', hs, hcur, hctx⟩

/-- Shift and a; caps lock, s and 1. -/
def typingRun : List KbdEvent :=
  [.kernel (.call .intrEnable), .scancode 0x2a, .scancode 0x1e, .scancode 0x9e, .scancode 0xaa, .scancode 0x3a,
    .scancode 0xba, .scancode 0x1f, .scancode 0x02]

theorem keyboard_decodes_typing :
    ∃ s, Runs (KbdSys.step 0) (KbdSys.Readers 0) (KbdSys.boot 0 fun _ => 1) typingRun s ∧
      s.kernel.hist.put 0 = [ch 'A', ch 'S', ch '1'] ∧ KeyboardDecodes 0 typingRun s := by
  obtain ⟨s, hr, hs⟩ := Runs.exists_of_exec (KbdSys.step 0) (G := KbdSys.Readers 0)
    (fun _ e => match e with | .scancode _ => true | .kernel e => e.reads 0)
    (fun _ e h => by cases e with | scancode _ => trivial | kernel e => exact h)
    (KbdSys.boot 0 fun _ => 1) typingRun (fun s => s.kernel.hist.put 0) (b := [ch 'A', ch 'S', ch '1'])
    (by decide +kernel)
  exact ⟨s, hr, hs, keyboard_decodes 0 (fun _ => 1) 0 typingRun s hr⟩

end MyOs
