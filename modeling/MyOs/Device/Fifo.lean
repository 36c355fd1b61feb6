import MyOs.Thread.Machine
import MyOs.Theory.Ring

/-!
# An ioqueue is a bounded queue of bytes

`Kernel.fifo k q` reads the ring of queue `q` as a `BoundedQueue`.  Every step of the machine is a step of
that queue, whoever runs and whoever was blocked in between: the buffer and the positions are only written
by `getByte` and `putByte`, each right after the test of the loop.

    trans_fifo   every step of the machine is a step of the bounded queue
    ioq_fifo     first in first out, in every run
-/

namespace MyOs

/-- The bytes from `tail` to `head`. -/
def Ioqueue.contents (ioq : Ioqueue) : List UInt8 := Ring.contents bufsize ioq.buf ioq.head ioq.tail

/-- The positions are inside the buffer. -/
structure Ioqueue.InRange (ioq : Ioqueue) : Prop where
  head : 0 ≤ ioq.head ∧ ioq.head < bufsize
  tail : 0 ≤ ioq.tail ∧ ioq.tail < bufsize

theorem nextPos_eq {pos : Int} (h : 0 ≤ pos) : nextPos pos = (pos + 1) % bufsize := by
  unfold nextPos
  exact Int.tmod_eq_emod_of_nonneg (by omega)

namespace Kernel

variable {k k' : Kernel} {q : IoqId}

def fifo (k : Kernel) (q : IoqId) : BoundedQueue UInt8 :=
  { items := (k.ioq q).contents, put := k.hist.put q, got := k.hist.got q }

/-- Nothing is written to the buffer, the positions or the history of `q`. -/
structure SameRing (k k' : Kernel) (q : IoqId) : Prop where
  buf : (k'.ioq q).buf = (k.ioq q).buf
  head : (k'.ioq q).head = (k.ioq q).head
  tail : (k'.ioq q).tail = (k.ioq q).tail
  put : k'.hist.put q = k.hist.put q
  got : k'.hist.got q = k.hist.got q

theorem SameRing.fifo_eq (h : SameRing k k' q) : k'.fifo q = k.fifo q := by
  ext1
  · show Ring.contents _ _ _ _ = Ring.contents _ _ _ _
    rw [h.buf, h.head, h.tail]
  · exact h.put
  · exact h.got

theorem SameRing.inRange (h : SameRing k k' q) (hr : (k.ioq q).InRange) : (k'.ioq q).InRange := by
  refine ⟨?_, ?_⟩
  · rw [h.head]
    exact hr.head
  · rw [h.tail]
    exact hr.tail

theorem SameRing.trans {k1 : Kernel} (h1 : SameRing k k1 q) (h2 : SameRing k1 k' q) : SameRing k k' q :=
  ⟨h2.buf.trans h1.buf, h2.head.trans h1.head, h2.tail.trans h1.tail, h2.put.trans h1.put,
    h2.got.trans h1.got⟩

theorem SameRing.of_eq (hi : k'.ioq = k.ioq) (hp : k'.hist.put = k.hist.put) (hg : k'.hist.got = k.hist.got) :
    SameRing k k' q := by
  refine ⟨?_, ?_, ?_, ?_, ?_⟩
  · rw [hi]
  · rw [hi]
  · rw [hi]
  · rw [hp]
  · rw [hg]

theorem schedule_ring (h : schedule k = .ok k') : SameRing k k' q := by
  have hf := schedule_frame h
  refine SameRing.of_eq ?_ ?_ ?_
  · rw [hf]
  · rw [hf]
  · rw [hf]

/-- Which thread sleeps on a queue is no part of the ring. -/
theorem setWaiter_ring {q' : IoqId} {side : Side} {t : Option Tid} (hi : k'.ioq =
      Function.update k.ioq q' ((k.ioq q').setWaiter side t)) (hp : k'.hist.put = k.hist.put)
    (hg : k'.hist.got = k.hist.got) : SameRing k k' q := by
  have hioq : k'.ioq q = if q = q' then (k.ioq q').setWaiter side t else k.ioq q := by
    rw [hi]
    by_cases h : q = q'
    · rw [h, Function.update_self, if_pos rfl]
    · rw [Function.update_of_ne h, if_neg h]
  refine ⟨?_, ?_, ?_, congrFun hp q, congrFun hg q⟩ <;>
    (rw [hioq]; split; (rename_i h; subst h; cases side <;> rfl); rfl)

theorem wakeupIfAny_ring {q' : IoqId} {side : Side} (h : wakeupIfAny k q' side = .ok k') :
    SameRing k k' q := by
  rcases wakeupIfAny_ok h with rfl | ⟨t, -, -, rfl⟩
  · exact SameRing.of_eq rfl rfl rfl
  · exact setWaiter_ring rfl rfl rfl

theorem ioqWait_ring {q' : IoqId} {side : Side} (h : ioqWait k q' side = .ok k') : SameRing k k' q := by
  obtain ⟨-, hs⟩ := ioqWait_ok h
  have h1 : SameRing k ((k.setIoq q' ((k.ioq q').setWaiter side (some k.cur))).blocking .blocked) q :=
    setWaiter_ring rfl rfl rfl
  exact h1.trans (schedule_ring hs)

theorem semaDownLoop_ring {l : LockId} {old : Bool} (h : semaDownLoop k l old = .ok k') :
    SameRing k k' q := by
  rcases semaDownLoop_ok h with ⟨-, -, hs⟩ | ⟨-, rfl⟩
  · have h1 : SameRing k (((k.retested l).enqueue l old).blocking .blocked) q :=
      SameRing.of_eq rfl rfl rfl
    exact h1.trans (schedule_ring hs)
  · exact SameRing.of_eq rfl rfl rfl

theorem semaUp_ring {l : LockId} (h : semaUp k l = .ok k') : SameRing k k' q := by
  obtain ⟨-, k1, h1, rfl⟩ := semaUp_ok h
  rcases wakeFirst_ok h1 with ⟨-, rfl⟩ | ⟨t, rest, -, -, rfl⟩
  · exact SameRing.of_eq rfl rfl rfl
  · exact SameRing.of_eq rfl rfl rfl

/-! ## The two operations on the ring -/

/-- A step that keeps the ring in range and is one of the bounded queue. -/
def FifoStep (k k' : Kernel) (q : IoqId) : Prop :=
  (k'.ioq q).InRange ∧ BoundedQueue.Step 1023 (k.fifo q) (k'.fifo q)

theorem SameRing.step (h : SameRing k k' q) (hr : (k.ioq q).InRange) : FifoStep k k' q := by
  refine ⟨h.inRange hr, ?_⟩
  rw [h.fifo_eq]
  exact .idle

theorem storeByte_fifo {q' : IoqId} {byte : UInt8} (hr : (k.ioq q).InRange) (hfull : (k.ioq q').full = false) :
    FifoStep k (k.storeByte q' byte) q := by
  by_cases hq : q = q'
  · subst hq
    have hn := nextPos_eq hr.head.1
    have hne : (((k.ioq q).head + 1) % bufsize) ≠ (k.ioq q).tail := by
      rw [← hn]
      simpa [Ioqueue.full] using hfull
    have hi : (k.storeByte q byte).ioq q = { k.ioq q with
        buf := Function.update (k.ioq q).buf (k.ioq q).head byte
        head := ((k.ioq q).head + 1) % bufsize } := by
      show Function.update k.ioq q _ q = _
      rw [Function.update_self, hn]
    refine ⟨?_, ?_⟩
    · rw [hi]
      exact ⟨Ring.next_range hr.head, hr.tail⟩
    · have hlen : (k.fifo q).items.length < 1023 := by
        have h1 : (k.fifo q).items.length = Ring.size bufsize (k.ioq q).head (k.ioq q).tail :=
          Ring.length_contents _ _ _
        have h2 := Ring.size_store hr.head hr.tail hne
        have h3 := Ring.size_lt (Ring.next_range hr.head) hr.tail
        rw [h2] at h3
        rw [h1]
        have hb : bufsize = 1024 := rfl
        omega
      have heq : (k.storeByte q byte).fifo q =
          { items := (k.fifo q).items ++ [byte], put := (k.fifo q).put ++ [byte], got := (k.fifo q).got } := by
        ext1
        · show ((k.storeByte q byte).ioq q).contents = _
          rw [hi]
          exact Ring.contents_store _ byte hr.head hr.tail hne
        · show Function.update k.hist.put q _ q = _
          rw [Function.update_self]
          rfl
        · rfl
      rw [heq]
      exact .put byte hlen
  · refine SameRing.step ?_ hr
    have hi : (k.storeByte q' byte).ioq q = k.ioq q := Function.update_of_ne hq _ _
    refine ⟨congrArg _ hi, congrArg _ hi, congrArg _ hi, ?_, rfl⟩
    exact Function.update_of_ne hq _ _

theorem takeByte_fifo {q' : IoqId} (hr : (k.ioq q).InRange) (hempty : (k.ioq q').empty = false) :
    FifoStep k (k.takeByte q') q := by
  by_cases hq : q = q'
  · subst hq
    have hn := nextPos_eq hr.tail.1
    have hne : (k.ioq q).head ≠ (k.ioq q).tail := by
      simpa [Ioqueue.empty] using hempty
    have hi : (k.takeByte q).ioq q = { k.ioq q with tail := ((k.ioq q).tail + 1) % bufsize } := by
      show Function.update k.ioq q _ q = _
      rw [Function.update_self, hn]
    refine ⟨?_, ?_⟩
    · rw [hi]
      exact ⟨hr.head, Ring.next_range hr.tail⟩
    · have hitems : (k.fifo q).items = (k.ioq q).buf (k.ioq q).tail :: ((k.takeByte q).ioq q).contents := by
        rw [hi]
        exact Ring.contents_take _ hr.head hr.tail hne
      have heq : (k.takeByte q).fifo q =
          { items := ((k.takeByte q).ioq q).contents
            put := (k.fifo q).put
            got := (k.fifo q).got ++ [(k.ioq q).buf (k.ioq q).tail] } := by
        ext1
        · rfl
        · rfl
        · show Function.update k.hist.got q _ q = _
          rw [Function.update_self]
          rfl
      rw [heq]
      exact .get _ _ hitems
  · refine SameRing.step ?_ hr
    have hi : (k.takeByte q').ioq q = k.ioq q := Function.update_of_ne hq _ _
    refine ⟨congrArg _ hi, congrArg _ hi, congrArg _ hi, rfl, ?_⟩
    exact Function.update_of_ne hq _ _

/-- What follows or precedes a step without touching the ring. -/
theorem FifoStep.trans_same {k1 : Kernel} (h : FifoStep k k1 q) (hs : SameRing k1 k' q) : FifoStep k k' q := by
  refine ⟨hs.inRange h.1, ?_⟩
  rw [hs.fifo_eq]
  exact h.2

theorem FifoStep.of_same {k1 : Kernel} (hs : SameRing k k1 q) (h : FifoStep k1 k' q) : FifoStep k k' q := by
  refine ⟨h.1, ?_⟩
  rw [← hs.fifo_eq]
  exact h.2

/-- Every step of the machine is a step of the bounded queue. -/
theorem trans_fifo {e : Event} (hr : (k.ioq q).InRange) (hs : Trans k e k') : FifoStep k k' q := by
  cases hs with
  | preempt _ _ hs =>
    have h1 : SameRing k k.countTick.preempted q := SameRing.of_eq rfl rfl rfl
    exact (h1.trans (schedule_ring hs)).step hr
  | key q' byte k1 _ hfull hp =>
    have h1 : FifoStep k (Kernel.storeByte { k with intr := false } q' byte) q :=
      storeByte_fifo (k := { k with intr := false }) hr hfull
    have h2 : SameRing k1 { k1 with intr := true } q := SameRing.of_eq rfl rfl rfl
    exact h1.trans_same ((wakeupIfAny_ring hp).trans h2)
  | callDown l _ _ hd => exact (semaDownLoop_ring (k := { k with intr := false }) hd).step hr
  | callUp l _ _ hu => exact (semaUp_ring hu).step hr
  | redown l old _ _ _ hd => exact (semaDownLoop_ring hd).step hr
  | lockDown l _ _ _ _ hd => exact (semaDownLoop_ring (k := { k with intr := false }) hd).step hr
  | lockUp l _ _ _ _ hu =>
    exact (semaUp_ring (k := k.setHere { k.here with lock := none }) hu).step hr
  | lockNext l pc plock next _ _ _ _ _ _ =>
    refine SameRing.step (SameRing.of_eq rfl ?_ ?_) hr
    · show (countHeld k l pc next).put = _
      unfold countHeld
      split <;> rfl
    · show (countHeld k l pc next).got = _
      unfold countHeld
      split <;> rfl
  | get q' _ _ _ hempty hb =>
    have h1 : SameRing k (k.setHere { k.here with op := .idle }) q := SameRing.of_eq rfl rfl rfl
    have h2 : FifoStep (k.setHere { k.here with op := .idle })
        ((k.setHere { k.here with op := .idle }).takeByte q') q := takeByte_fifo hr hempty
    exact (FifoStep.of_same h1 h2).trans_same (wakeupIfAny_ring hb)
  | put q' byte _ _ _ hfull hb =>
    have h1 : SameRing k (k.setHere { k.here with op := .idle }) q := SameRing.of_eq rfl rfl rfl
    have h2 : FifoStep (k.setHere { k.here with op := .idle })
        ((k.setHere { k.here with op := .idle }).storeByte q' byte) q := storeByte_fifo hr hfull
    exact (FifoStep.of_same h1 h2).trans_same (wakeupIfAny_ring hb)
  | getWait q' _ _ hw =>
    have h1 : SameRing k (k.setHere { k.here with op := .ioqGetchar q' .release }) q :=
      SameRing.of_eq rfl rfl rfl
    exact (h1.trans (ioqWait_ring hw)).step hr
  | putWait q' byte _ _ hw =>
    have h1 : SameRing k (k.setHere { k.here with op := .ioqPutchar q' byte .release }) q :=
      SameRing.of_eq rfl rfl rfl
    exact (h1.trans (ioqWait_ring hw)).step hr
  | _ => exact SameRing.step (SameRing.of_eq rfl rfl rfl) hr

end Kernel

/-- The queue `q` as a bounded FIFO. -/
structure IoqFifo (k : Kernel) (q : IoqId) : Prop where
  /-- The bytes got are the first of the bytes put, and the others are in the buffer, in order. -/
  log : k.hist.put q = k.hist.got q ++ (k.ioq q).contents
  head : 0 ≤ (k.ioq q).head ∧ (k.ioq q).head < bufsize
  tail : 0 ≤ (k.ioq q).tail ∧ (k.ioq q).tail < bufsize
  /-- One cell of the buffer stays free. -/
  room : ((k.ioq q).contents.length : Int) ≤ bufsize - 1

/-- **An ioqueue refines a bounded queue** of `bufsize - 1` bytes: in every state of every run, with any
number of producers and consumers and the keyboard interrupt. -/
theorem ioq_fifo (mainThread : Tid) (value : LockId → Nat) (q : IoqId) (es : List Event) (k : Kernel)
    (hr : Runs Kernel.step Kernel.Free (Kernel.boot mainThread value) es k) : IoqFifo k q := by
  have hnil : ((Kernel.boot mainThread value).fifo q).items = [] := by
    simp [Kernel.fifo, Ioqueue.contents, Kernel.boot, Ring.contents, Ring.size]
  have hboot : BoundedQueue.Inv 1023 ((Kernel.boot mainThread value).fifo q) := by
    refine ⟨?_, ?_⟩
    · rw [hnil]
      rfl
    · rw [hnil]
      exact Nat.zero_le 1023
  have hpos : (0 : Int) < bufsize := by decide
  obtain ⟨hrange, hinv⟩ := Runs.invariant
    (fun k => (k.ioq q).InRange ∧ BoundedQueue.Inv 1023 (k.fifo q))
    (by
      rintro k1 e k2 ⟨hrange, hinv⟩ - hs
      obtain ⟨h1, h2⟩ := Kernel.trans_fifo hrange (Kernel.step_trans hs)
      exact ⟨h1, h2.inv hinv⟩)
    es _ k ⟨⟨⟨Int.le_refl 0, hpos⟩, ⟨Int.le_refl 0, hpos⟩⟩, hboot⟩ hr
  refine ⟨hinv.fifo, hrange.head, hrange.tail, ?_⟩
  have hb : (k.ioq q).contents.length ≤ 1023 := hinv.bound
  have hn : bufsize = 1024 := rfl
  omega

/-- Thread 1 sleeps on the empty queue 0 until two keys are pressed, and takes the first byte. -/
def readerRun : List Event :=
  List.flatten [threadStartRun 1 8, .call .intrEnable :: List.replicate 32 .timer,
    .step :: .call .intrDisable :: .call (.ioqGetchar 0) :: List.replicate 7 .step,
    [.step, .keyboard 0 97, .keyboard 0 98], List.replicate 32 .timer, List.replicate 9 .step]

theorem ioq_fifo_reader :
    ∃ k, Runs Kernel.step Kernel.Free (Kernel.boot 0 fun _ => 1) readerRun k ∧
      (k.hist.put 0 = [97, 98] ∧ k.hist.got 0 = [97] ∧ (k.ioq 0).contents = [98]) ∧ IoqFifo k 0 := by
  obtain ⟨k, hr, hk⟩ := Runs.exists_of_exec Kernel.step (G := Kernel.Free) (fun _ _ => true) (fun _ _ _ => trivial)
    (Kernel.boot 0 fun _ => 1) readerRun
    (fun k => (k.hist.put 0, k.hist.got 0, (k.ioq 0).contents)) (b := ([97, 98], [97], [98]))
    (by decide +kernel)
  refine ⟨k, hr, by simpa using hk, ?_⟩
  exact ioq_fifo 0 (fun _ => 1) 0 readerRun k hr

end MyOs
