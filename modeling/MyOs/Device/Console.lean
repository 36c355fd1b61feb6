import MyOs.Device.ConsoleMoves
import MyOs.Theory.Message

/-!
# Strings on the console

`console_put_str` prints under `console_lock`, and `schedule` prints the name of the thread it switches to
without it.  So a string comes out in one block exactly when no step switches to a thread with a name while
the string is partly printed.

    step_inv           the console calls of a run, and who holds the lock
    step_call          what a step does to one call: only one thread is in the middle of a string
    console_strings    a string is in one block iff no such switch happened in the run
-/

namespace MyOs

open Message

/-! ## The calls of a run -/

/-- A call of `console_put_str`, `console_put_char` or `console_put_int`: what it prints, and where on the
screen the characters it has printed are. -/
structure ConsoleCall where
  str : List Char
  places : List Nat

/-- The kernel with the console calls made so far: `calls t n` is the `n`-th of thread `t`, counted from 1. -/
structure ConsoleTrace where
  kernel : Kernel
  made : Tid → Nat
  calls : Tid → Nat → ConsoleCall

namespace ConsoleTrace

def setCall (s : ConsoleTrace) (t : Tid) (n : Nat) (c : ConsoleCall) : ConsoleTrace :=
  { s with calls := Function.update s.calls t (Function.update (s.calls t) n c) }

/-- The running thread calls one of the functions. -/
def begin (s : ConsoleTrace) (str : List Char) : ConsoleTrace :=
  let t := s.kernel.cur
  { s.setCall t (s.made t + 1) ⟨str, []⟩ with made := Function.update s.made t (s.made t + 1) }

/-- The next character goes to the end of the screen. -/
def putChar (s : ConsoleTrace) : ConsoleTrace :=
  let t := s.kernel.cur
  let c := s.calls t (s.made t)
  s.setCall t (s.made t) { c with places := c.places ++ [s.kernel.screen.length] }

def record (s : ConsoleTrace) (e : Event) : ConsoleTrace :=
  match e with
  | .call (.console str) => s.begin str
  | e => if s.kernel.puts e then s.putChar else s

/-- A step of the kernel, recorded. -/
def step (s : ConsoleTrace) (e : Event) : Except Halt ConsoleTrace := do
  let k ← s.kernel.step e
  pure { s.record e with kernel := k }

def boot (mainThread : Tid) (value : LockId → Nat) : ConsoleTrace where
  kernel := Kernel.boot mainThread value
  made _ := 0
  calls _ _ := ⟨[], []⟩

/-- Part of the `n`-th string of `t` is printed. -/
def Partly (s : ConsoleTrace) (t : Tid) (n : Nat) : Prop :=
  Message.Partly (s.calls t n).str.length (s.calls t n).places

/-- In the middle of the string, the step calls `schedule`, which prints the name of the next thread. -/
def Tears (s : ConsoleTrace) (t : Tid) (n : Nat) (e : Event) : Prop :=
  s.Partly t n ∧ s.kernel.namePrinted e ≠ []

instance (s : ConsoleTrace) (t : Tid) (n : Nat) (e : Event) : Decidable (s.Tears t n e) :=
  inferInstanceAs (Decidable ((_ ∧ _) ∧ _))

theorem step_ok {s s' : ConsoleTrace} {e : Event} (h : s.step e = .ok s') :
    ∃ k, s.kernel.step e = .ok k ∧ s' = { s.record e with kernel := k } := by
  unfold step at h
  rw [bind_eq_ok] at h
  obtain ⟨k, hk, h⟩ := h
  cases h
  exact ⟨k, hk, rfl⟩

theorem calls_setCall (s : ConsoleTrace) (t u : Tid) (n i : Nat) (c : ConsoleCall) :
    (s.setCall t n c).calls u i = if u = t ∧ i = n then c else s.calls u i := by
  unfold setCall
  by_cases hu : u = t
  · subst hu
    by_cases hi : i = n
    · simp [hi]
    · simp [hi]
  · simp [hu]

end ConsoleTrace

/-- How far a call is, for a thread whose last call it is. -/
def ConsoleCall.Fits (c : ConsoleCall) : Op → Prop
  | .console rest .acquire => c.places = [] ∧ rest = c.str
  | .console rest .put => c.places.length ≤ c.str.length ∧ rest = c.str.drop c.places.length
  | _ => c.places.length = c.str.length

structure ConsoleInv (s : ConsoleTrace) : Prop where
  lock : KernelLock s.kernel .consoleLock
  written : ∀ t n, Written s.kernel.screen (s.calls t n).str (s.calls t n).places
  fits : ∀ t, (s.calls t (s.made t)).Fits (s.kernel.ctx t).op
  returned : ∀ t n, n ≠ s.made t → (s.calls t n).places.length = (s.calls t n).str.length
  unmade : ∀ t n, s.made t < n → (s.calls t n).places = []
  /-- A thread in the middle of a string holds the lock. -/
  held : ∀ t, s.Partly t (s.made t) → 0 < s.kernel.hist.held t .consoleLock

theorem ConsoleCall.Fits.goes {c : ConsoleCall} {op op' : Op} (h : c.Fits op) (hgo : op.ConsoleGoes op') :
    c.Fits op' := by
  cases hgo with
  | stay => exact h
  | outside _ _ h1 h2 =>
    have hdone : c.places.length = c.str.length := by
      cases op with
      | console rest pc => cases h1
      | _ => exact h
    cases op' with
    | console rest pc => cases h2
    | _ => exact hdone
  | acquire rest =>
    obtain ⟨hp, hr⟩ := h
    refine ⟨?_, ?_⟩
    · rw [hp]
      exact Nat.zero_le _
    · rw [hp]
      exact hr
  | done =>
    obtain ⟨hle, hr⟩ := h
    have hge := List.drop_eq_nil_iff.mp hr.symm
    exact Nat.le_antisymm hle hge
  | release rest => exact h

/-- In the middle of a string, the thread is where `console_lock` is held. -/
theorem ConsoleCall.Fits.holds {c : ConsoleCall} {op : Op} (h : c.Fits op)
    (hp : Message.Partly c.str.length c.places) : op.holds = some .consoleLock := by
  obtain ⟨hpos, hlt⟩ := hp
  cases op with
  | console rest pc =>
    cases pc with
    | acquire =>
      rw [h.1] at hpos
      cases hpos
    | put => rfl
    | release => rfl
  | _ =>
    have hall : c.places.length = c.str.length := h
    omega

/-- A partly printed call is its thread's last. -/
theorem ConsoleInv.last {s : ConsoleTrace} (h : ConsoleInv s) {t : Tid} {n : Nat} (hp : s.Partly t n) :
    n = s.made t := by
  by_contra hne
  have hall := h.returned t n hne
  have hlt := hp.2
  omega

namespace ConsoleTrace

variable {s s' : ConsoleTrace} {e : Event} {k : Kernel} {t : Tid} {n : Nat}

theorem record_other (he : ∀ str, e ≠ .call (.console str)) (hp : s.kernel.puts e = false) : s.record e = s := by
  unfold record
  split
  · rename_i str
    exact absurd rfl (he str)
  · rw [hp]
    rfl

theorem record_put {c : Char} {rest : List Char} (ha : s.kernel.At (.console (c :: rest) .put)) :
    s.record .step = s.putChar := by
  have hp : s.kernel.puts .step = true := by
    unfold Kernel.puts
    have hop : s.kernel.here.op = .console (c :: rest) .put := congrArg Ctx.op ha
    rw [hop, decide_eq_true ⟨rfl, ha⟩]
    rfl
  show (if s.kernel.puts .step then s.putChar else s) = _
  rw [if_pos hp]

theorem begin_calls (s : ConsoleTrace) (str : List Char) (u : Tid) (i : Nat) : (s.begin str).calls u i =
    if u = s.kernel.cur ∧ i = s.made s.kernel.cur + 1 then ⟨str, []⟩ else s.calls u i :=
  calls_setCall s _ u _ i _

theorem begin_made (s : ConsoleTrace) (str : List Char) (u : Tid) : (s.begin str).made u =
    if u = s.kernel.cur then s.made u + 1 else s.made u := by
  unfold begin
  by_cases hu : u = s.kernel.cur
  · subst hu
    simp
  · simp [hu]

theorem putChar_calls (s : ConsoleTrace) (u : Tid) (i : Nat) : s.putChar.calls u i =
    if u = s.kernel.cur ∧ i = s.made s.kernel.cur then
      { s.calls u i with places := (s.calls u i).places ++ [s.kernel.screen.length] } else s.calls u i := by
  unfold putChar
  rw [calls_setCall]
  split
  · rename_i h
    rw [h.1, h.2]
  · rfl

/-- The running thread calls one of the functions. -/
theorem start_inv {str : List Char} (h : ConsoleInv s) (hlock : KernelLock k .consoleLock)
    (hctx : ∀ u, u ≠ s.kernel.cur → k.ctx u = s.kernel.ctx u)
    (hheld : ∀ u, u ≠ s.kernel.cur → k.hist.held u = s.kernel.hist.held u)
    (hidle : s.kernel.here.op = .idle) (hop : (k.ctx s.kernel.cur).op = .console str .acquire)
    (hscreen : k.screen = s.kernel.screen) : ConsoleInv { s.begin str with kernel := k } := by
  refine ⟨hlock, ?_, ?_, ?_, ?_, ?_⟩
  · intro u i
    show Written k.screen ((s.begin str).calls u i).str ((s.begin str).calls u i).places
    rw [begin_calls, hscreen]
    split
    · exact Written.nil
    · exact h.written u i
  · intro u
    show ((s.begin str).calls u ((s.begin str).made u)).Fits (k.ctx u).op
    rw [begin_calls, begin_made]
    by_cases hu : u = s.kernel.cur
    · subst hu
      rw [if_pos rfl, if_pos ⟨rfl, rfl⟩, hop]
      exact ⟨rfl, rfl⟩
    · rw [if_neg hu, if_neg (fun hc => hu hc.1), hctx u hu]
      exact h.fits u
  · intro u i hi
    show ((s.begin str).calls u i).places.length = ((s.begin str).calls u i).str.length
    replace hi : i ≠ (s.begin str).made u := hi
    rw [begin_made] at hi
    rw [begin_calls]
    by_cases hu : u = s.kernel.cur
    · subst hu
      rw [if_pos rfl] at hi
      rw [if_neg (fun hc => hi hc.2)]
      -- the call before this one had returned
      by_cases hlast : i = s.made s.kernel.cur
      · have hfits := h.fits s.kernel.cur
        rw [show (s.kernel.ctx s.kernel.cur).op = .idle from hidle] at hfits
        rw [hlast]
        exact hfits
      · exact h.returned s.kernel.cur i hlast
    · rw [if_neg hu] at hi
      rw [if_neg (fun hc => hu hc.1)]
      exact h.returned u i hi
  · intro u i hi
    show ((s.begin str).calls u i).places = []
    replace hi : (s.begin str).made u < i := hi
    rw [begin_made] at hi
    rw [begin_calls]
    split
    · rfl
    · refine h.unmade u i ?_
      split at hi <;> omega
  · intro u hp
    show 0 < k.hist.held u .consoleLock
    replace hp : Message.Partly ((s.begin str).calls u ((s.begin str).made u)).str.length
      ((s.begin str).calls u ((s.begin str).made u)).places := hp
    rw [begin_calls, begin_made] at hp
    by_cases hu : u = s.kernel.cur
    · rw [if_pos hu, if_pos ⟨hu, by rw [hu]⟩] at hp
      exact absurd hp.1 (Nat.lt_irrefl 0)
    · rw [if_neg hu, if_neg (fun hc => hu hc.1)] at hp
      rw [hheld u hu]
      exact h.held u hp

/-- It prints the next character. -/
theorem put_inv {c : Char} {rest : List Char} (h : ConsoleInv s) (hlock : KernelLock k .consoleLock)
    (hctx : ∀ u, u ≠ s.kernel.cur → k.ctx u = s.kernel.ctx u)
    (hheld : ∀ u, s.kernel.hist.held u .consoleLock ≤ k.hist.held u .consoleLock)
    (ha : s.kernel.At (.console (c :: rest) .put)) (hop : (k.ctx s.kernel.cur).op = .console rest .put)
    (hscreen : k.screen = s.kernel.screen ++ [c]) : ConsoleInv { s.putChar with kernel := k } := by
  have hfits := h.fits s.kernel.cur
  rw [show (s.kernel.ctx s.kernel.cur).op = _ from congrArg Ctx.op ha] at hfits
  obtain ⟨hle, hrest⟩ := hfits
  have hlt : (s.calls s.kernel.cur (s.made s.kernel.cur)).places.length <
      (s.calls s.kernel.cur (s.made s.kernel.cur)).str.length := by
    have hlen := congrArg List.length hrest
    rw [List.length_cons, List.length_drop] at hlen
    omega
  refine ⟨hlock, ?_, ?_, ?_, ?_, ?_⟩
  · intro u i
    show Written k.screen (s.putChar.calls u i).str (s.putChar.calls u i).places
    rw [putChar_calls, hscreen]
    split
    · rename_i hc
      obtain ⟨rfl, rfl⟩ := hc
      exact (h.written _ _).put hrest.symm
    · exact (h.written u i).others [c]
  · intro u
    show (s.putChar.calls u (s.made u)).Fits (k.ctx u).op
    rw [putChar_calls]
    by_cases hu : u = s.kernel.cur
    · subst hu
      rw [if_pos ⟨rfl, rfl⟩, hop]
      refine ⟨?_, ?_⟩
      · rw [List.length_append]
        exact hlt
      · rw [List.length_append, List.length_singleton, ← List.drop_drop, ← hrest]
        rfl
    · rw [if_neg (fun hc => hu hc.1), hctx u hu]
      exact h.fits u
  · intro u i hi
    show (s.putChar.calls u i).places.length = (s.putChar.calls u i).str.length
    rw [putChar_calls, if_neg]
    · exact h.returned u i hi
    · rintro ⟨rfl, rfl⟩
      exact hi rfl
  · intro u i hi
    show (s.putChar.calls u i).places = []
    rw [putChar_calls, if_neg]
    · exact h.unmade u i hi
    · rintro ⟨rfl, rfl⟩
      exact Nat.lt_irrefl _ hi
  · intro u hp
    show 0 < k.hist.held u .consoleLock
    by_cases hu : u = s.kernel.cur
    · subst hu
      have hcur : 0 < s.kernel.hist.held s.kernel.cur .consoleLock := h.lock.uses.holds_at ha rfl
      exact Nat.lt_of_lt_of_le hcur (hheld _)
    · replace hp : Message.Partly (s.putChar.calls u (s.made u)).str.length
        (s.putChar.calls u (s.made u)).places := hp
      rw [putChar_calls, if_neg (fun hc => hu hc.1)] at hp
      exact Nat.lt_of_lt_of_le (h.held u hp) (hheld u)

/-- Any other step. -/
theorem other_inv (h : ConsoleInv s) (hlock : KernelLock k .consoleLock)
    (hctx : ∀ u, u ≠ s.kernel.cur → k.ctx u = s.kernel.ctx u)
    (hheld : ∀ u, (k.ctx u).op.holds = some .consoleLock →
      s.kernel.hist.held u .consoleLock ≤ k.hist.held u .consoleLock)
    (hgo : s.kernel.here.op.ConsoleGoes (k.ctx s.kernel.cur).op) {w : List Char}
    (hscreen : k.screen = s.kernel.screen ++ w) : ConsoleInv { s with kernel := k } := by
  have hfits : ∀ u, (s.calls u (s.made u)).Fits (k.ctx u).op := by
    intro u
    by_cases hu : u = s.kernel.cur
    · subst hu
      exact (h.fits _).goes hgo
    · rw [hctx u hu]
      exact h.fits u
  refine ⟨hlock, ?_, hfits, h.returned, h.unmade, ?_⟩
  · intro u i
    show Written k.screen (s.calls u i).str (s.calls u i).places
    rw [hscreen]
    exact (h.written u i).others w
  · intro u hp
    exact Nat.lt_of_lt_of_le (h.held u hp) (hheld u ((hfits u).holds hp))

/-- **Every step keeps the invariant.** -/
theorem step_inv (h : ConsoleInv s) (hg : KernelOnly .consoleLock e) (hs : s.step e = .ok s') : ConsoleInv s' := by
  obtain ⟨k, hk, rfl⟩ := step_ok hs
  have htrans := Kernel.step_trans hk
  have hlock := h.lock.step hg htrans
  have hctx : ∀ u, u ≠ s.kernel.cur → k.ctx u = s.kernel.ctx u :=
    fun u hu => Kernel.trans_ctx h.lock.threads htrans hu
  have hother : ∀ u, u ≠ s.kernel.cur → k.hist.held u = s.kernel.hist.held u :=
    fun u hu => Kernel.trans_held htrans hu
  have hheld : ∀ u, (k.ctx u).op.holds = some .consoleLock →
      s.kernel.hist.held u .consoleLock ≤ k.hist.held u .consoleLock := by
    intro u hu
    by_cases hc : u = s.kernel.cur
    · subst hc
      exact (Kernel.trans_turn h.lock.queues h.lock.threads h.lock.uses hg htrans).held (decide_eq_true hu)
    · rw [hother u hc]
  cases Kernel.step_moves h.lock.queues h.lock.threads hk with
  | start str hidle hop hscreen => exact start_inv h hlock hctx hother hidle hop hscreen
  | put c rest ha hop hscreen =>
    rw [record_put ha]
    refine put_inv h hlock hctx ?_ ha hop hscreen
    intro u
    by_cases hc : u = s.kernel.cur
    · refine hheld u ?_
      rw [hc, hop]
      rfl
    · rw [hother u hc]
  | other _ he hp hgo hscreen =>
    rw [record_other he hp]
    exact other_inv h hlock hctx hheld hgo hscreen

theorem boot_inv {mainThread : Tid} {value : LockId → Nat} (hv : value .consoleLock = 1) :
    ConsoleInv (boot mainThread value) := by
  refine ⟨KernelLock.boot hv, fun _ _ => Written.nil, ?_, fun _ _ _ => rfl, fun _ _ _ => rfl, ?_⟩
  · intro t
    show (ConsoleCall.mk [] []).Fits ((Kernel.boot mainThread value).ctx t).op
    by_cases ht : t = mainThread
    · simp [Kernel.boot, ht, ConsoleCall.Fits, Ctx.idle]
    · simp [Kernel.boot, ht, ConsoleCall.Fits, Ctx.new, Ctx.idle]
  · intro t hp
    exact absurd hp.1 (Nat.lt_irrefl 0)

/-! ## One call -/

/-- What a step does to the `n`-th call of `t`: it starts it, prints its next character, or only adds
characters of others to the screen. -/
inductive CallMove (s s' : ConsoleTrace) (t : Tid) (n : Nat) (e : Event) : Prop
  | start : (s.calls t n).places = [] → (s'.calls t n).places = [] → CallMove s s' t n e
  | put : (s.calls t n).places.length < (s.calls t n).str.length → ¬ s.Tears t n e →
      s'.kernel.screen.length = s.kernel.screen.length + 1 → s'.calls t n =
        { s.calls t n with places := (s.calls t n).places ++ [s.kernel.screen.length] } → CallMove s s' t n e
  | others (m : Nat) : s'.calls t n = s.calls t n →
      s'.kernel.screen.length = s.kernel.screen.length + m → (s.Partly t n → (0 < m ↔ s.Tears t n e)) →
      CallMove s s' t n e

/-- Only one thread is in the middle of a string. -/
theorem step_call (h : ConsoleInv s) (hg : KernelOnly .consoleLock e) (hs : s.step e = .ok s') (t : Tid)
    (n : Nat) : CallMove s s' t n e := by
  obtain ⟨k, hk, rfl⟩ := step_ok hs
  cases Kernel.step_moves h.lock.queues h.lock.threads hk with
  | start str hidle hop hscreen =>
    have hcalls := begin_calls s str t n
    by_cases hc : t = s.kernel.cur ∧ n = s.made s.kernel.cur + 1
    · rw [if_pos hc] at hcalls
      refine .start ?_ (congrArg ConsoleCall.places hcalls)
      refine h.unmade t n ?_
      rw [hc.1, hc.2]
      exact Nat.lt_succ_self _
    · rw [if_neg hc] at hcalls
      refine .others 0 hcalls (congrArg List.length hscreen) ?_
      intro _
      refine ⟨fun h0 => absurd h0 (Nat.lt_irrefl 0), fun ht => absurd ?_ ht.2⟩
      exact Kernel.namePrinted_of_blocks (fun h => by cases h) rfl
  | put c rest ha hop hscreen =>
    have hname : s.kernel.namePrinted .step = [] := Kernel.namePrinted_of_at ha rfl
    have hlen : k.screen.length = s.kernel.screen.length + 1 := by
      rw [hscreen, List.length_append]
      rfl
    have hcalls := putChar_calls s t n
    rw [record_put ha]
    by_cases hc : t = s.kernel.cur ∧ n = s.made s.kernel.cur
    · rw [if_pos hc] at hcalls
      refine .put ?_ (fun ht => ht.2 hname) hlen hcalls
      obtain ⟨rfl, rfl⟩ := hc
      have hfits := h.fits s.kernel.cur
      rw [show (s.kernel.ctx s.kernel.cur).op = _ from congrArg Ctx.op ha] at hfits
      have hrest := congrArg List.length hfits.2
      rw [List.length_cons, List.length_drop] at hrest
      omega
    · rw [if_neg hc] at hcalls
      refine .others 1 hcalls hlen ?_
      intro hp
      -- both threads hold the lock
      have hn := h.last hp
      subst hn
      have hcur : 0 < s.kernel.hist.held s.kernel.cur .consoleLock := h.lock.uses.holds_at ha rfl
      have ht : t = s.kernel.cur := h.lock.view.holder_unique (h.held t hp) hcur
      subst ht
      exact absurd ⟨rfl, rfl⟩ hc
  | other _ he hp hgo hscreen =>
    rw [record_other he hp]
    refine .others (s.kernel.namePrinted e).length rfl ?_ ?_
    · show k.screen.length = _
      rw [hscreen, List.length_append]
    · intro hpart
      rw [List.length_pos_iff]
      exact ⟨fun hne => ⟨hpart, hne⟩, fun ht => ht.2⟩

/-- The call's string is in one block so far. -/
def Whole (s : ConsoleTrace) (t : Tid) (n : Nat) : Prop :=
  Message.Whole (s.calls t n).str.length s.kernel.screen.length (s.calls t n).places

def Torn (s : ConsoleTrace) (t : Tid) (n : Nat) : Prop :=
  Message.Torn (s.calls t n).str.length s.kernel.screen.length (s.calls t n).places

theorem step_whole (hm : CallMove s s' t n e) (hw : s.Whole t n) (ht : ¬ s.Tears t n e) : s'.Whole t n := by
  unfold Whole at hw ⊢
  cases hm with
  | start _ hnil =>
    rw [hnil]
    exact Message.Whole.nil
  | put hlt _ hlen hcalls =>
    rw [hcalls, hlen]
    exact Message.Whole.put hw hlt
  | others m hcalls hlen hiff =>
    rw [hcalls, hlen]
    refine Message.Whole.others hw ?_
    intro hp
    by_contra h0
    exact ht ((hiff hp).mp (Nat.pos_of_ne_zero h0))

theorem step_tears (hm : CallMove s s' t n e) (hw : s.Whole t n) (ht : s.Tears t n e) : s'.Torn t n := by
  unfold Whole at hw
  unfold Torn
  cases hm with
  | start hnil _ =>
    have hpos := ht.1.1
    rw [hnil] at hpos
    cases hpos
  | put _ hnt => exact absurd ht hnt
  | others m hcalls hlen hiff =>
    rw [hcalls, hlen]
    exact Message.Whole.torn hw ht.1 ((hiff ht.1).mpr ht)

theorem step_torn (hm : CallMove s s' t n e) (h : s.Torn t n) : s'.Torn t n := by
  unfold Torn at h ⊢
  cases hm with
  | start hnil _ =>
    -- nothing of it was printed, so it was not torn
    rw [hnil] at h
    rcases h with hb | ⟨hp, -⟩
    · exact absurd rfl hb
    · exact absurd hp.1 (Nat.lt_irrefl 0)
  | put _ _ hlen hcalls =>
    rw [hcalls, hlen]
    exact Message.Torn.put h
  | others m hcalls hlen _ =>
    rw [hcalls, hlen]
    exact Message.Torn.others h

theorem run_torn : ∀ (es : List Event) (s : ConsoleTrace), ConsoleInv s → s.Torn t n →
    Runs step (fun _ e => KernelOnly .consoleLock e) s es s' → s'.Torn t n := by
  intro es
  induction es with
  | nil =>
    intro s _ h hr
    exact hr ▸ h
  | cons e es ih =>
    rintro s hi h ⟨hg, s1, hs, hr⟩
    exact ih s1 (step_inv hi hg hs) (step_torn (step_call hi hg hs t n) h) hr

/-- Either no step of the run tears the string, or one does, and then it stays torn. -/
theorem run_whole_or_torn : ∀ (es : List Event) (s : ConsoleTrace), ConsoleInv s → s.Whole t n →
    Runs step (fun _ e => KernelOnly .consoleLock e) s es s' →
      Runs step (fun s e => ¬ s.Tears t n e) s es s' ∧ s'.Whole t n ∨
        ¬ Runs step (fun s e => ¬ s.Tears t n e) s es s' ∧ s'.Torn t n := by
  intro es
  induction es with
  | nil =>
    intro s _ h hr
    exact .inl ⟨hr, hr ▸ h⟩
  | cons e es ih =>
    rintro s hi h ⟨hg, s1, hs, hr⟩
    have hi1 := step_inv hi hg hs
    have hm := step_call hi hg hs t n
    by_cases ht : s.Tears t n e
    · exact .inr ⟨fun hnt => hnt.1 ht, run_torn es s1 hi1 (step_tears hm h ht) hr⟩
    · rcases ih s1 hi1 (step_whole hm h ht) hr with ⟨hnt, hw⟩ | ⟨hnt, hw⟩
      · exact .inl ⟨⟨ht, s1, hs, hnt⟩, hw⟩
      · refine .inr ⟨?_, hw⟩
        rintro ⟨-, s2, hs2, hr2⟩
        rw [hs] at hs2
        cases hs2
        exact hnt hr2

end ConsoleTrace

/-! ## Console strings -/

/-- The string of the call is on the screen in one block, in order, as far as it is printed; all of it when
the call has returned. -/
structure InOneBlock (s : ConsoleTrace) (t : Tid) (n : Nat) : Prop where
  written : Written s.kernel.screen (s.calls t n).str (s.calls t n).places
  block : Block (s.calls t n).places
  returned : (n = s.made t → (s.kernel.ctx t).op.isConsole = false) →
    (s.calls t n).places.length = (s.calls t n).str.length

/-- **Console strings**: in every run in which threads use `console_lock` by calling the console functions, a
string is in one block as long as no step of the run switches to a thread with a name while the string is
partly printed; once one does, the complete string is not. -/
theorem console_strings (mainThread : Tid) (value : LockId → Nat) (hv : value .consoleLock = 1) (es : List Event)
    (s : ConsoleTrace) (hr : Runs ConsoleTrace.step (fun _ e => KernelOnly .consoleLock e)
      (ConsoleTrace.boot mainThread value) es s) (t : Tid) (n : Nat) :
    (Runs ConsoleTrace.step (fun s e => ¬ s.Tears t n e) (ConsoleTrace.boot mainThread value) es s →
        InOneBlock s t n) ∧
      ((s.calls t n).places.length = (s.calls t n).str.length → InOneBlock s t n →
        Runs ConsoleTrace.step (fun s e => ¬ s.Tears t n e) (ConsoleTrace.boot mainThread value) es s) := by
  have hboot : ConsoleInv (ConsoleTrace.boot mainThread value) := ConsoleTrace.boot_inv hv
  have hi : ConsoleInv s := Runs.invariant ConsoleInv (fun _ _ _ => ConsoleTrace.step_inv) es _ s hboot hr
  have hreturned : (n = s.made t → (s.kernel.ctx t).op.isConsole = false) →
      (s.calls t n).places.length = (s.calls t n).str.length := by
    intro hout
    by_cases hn : n = s.made t
    · have hfits := hi.fits t
      have hop := hout hn
      subst hn
      cases hc : (s.kernel.ctx t).op with
      | console rest pc =>
        rw [hc] at hop
        cases hop
      | _ =>
        rw [hc] at hfits
        exact hfits
    · exact hi.returned t n hn
  rcases ConsoleTrace.run_whole_or_torn (t := t) (n := n) es _ hboot Message.Whole.nil hr with
    ⟨hnt, hw⟩ | ⟨hnt, hw⟩
  · exact ⟨fun _ => ⟨hi.written t n, hw.block, hreturned⟩, fun _ _ => hnt⟩
  · refine ⟨fun h => absurd h hnt, ?_⟩
    intro hall hblock
    exact absurd hblock.block (Message.Torn.not_block hw hall)

/-- A console call that nobody interrupts. -/
def consoleRun (str : List Char) : List Event := .call (.console str) :: List.replicate (str.length + 14) .step

/-- The main thread prints a string before its slice ends, thread 1 one after. -/
def betweenRun : List Event :=
  List.flatten [threadStartRun 1 8, [.call .intrEnable], consoleRun ['a', 'b'], List.replicate 32 .timer, [.step],
    consoleRun ['c']]

theorem console_strings_between :
    ∃ s, Runs ConsoleTrace.step (fun _ e => KernelOnly .consoleLock e) (ConsoleTrace.boot 0 fun _ => 1)
        betweenRun s ∧
      (s.kernel.screen = ['a', 'b', 'k', 'c'] ∧ (s.calls 0 1).str = ['a', 'b']) ∧ InOneBlock s 0 1 ∧
      (s.calls 0 1).places.length = 2 := by
  obtain ⟨s, hr, hs⟩ := Runs.exists_of_exec ConsoleTrace.step
    (G := fun s e => KernelOnly .consoleLock e ∧ ¬ s.Tears 0 1 e)
    (fun s e => decide (KernelOnly .consoleLock e ∧ ¬ s.Tears 0 1 e)) (fun _ _ h => of_decide_eq_true h)
    (ConsoleTrace.boot 0 fun _ => 1) betweenRun
    (fun s => (s.kernel.screen, (s.calls 0 1).str, (s.calls 0 1).places.length))
    (b := (['a', 'b', 'k', 'c'], ['a', 'b'], 2)) (by decide +kernel)
  simp only [Prod.mk.injEq] at hs
  obtain ⟨hscreen, hstr, hlen⟩ := hs
  have hg : Runs ConsoleTrace.step (fun _ e => KernelOnly .consoleLock e) (ConsoleTrace.boot 0 fun _ => 1)
      betweenRun s := hr.reguard betweenRun _ _ fun _ _ _ h => h.1
  have hnt : Runs ConsoleTrace.step (fun s e => ¬ s.Tears 0 1 e) (ConsoleTrace.boot 0 fun _ => 1)
      betweenRun s := hr.reguard betweenRun _ _ fun _ _ _ h => h.2
  exact ⟨s, hg, ⟨hscreen, hstr⟩, (console_strings 0 (fun _ => 1) rfl betweenRun s hg 0 1).1 hnt, hlen⟩

/-- The main thread's slice ends after the first character of its string; thread 1 uses up its own. -/
def insideRun : List Event :=
  List.flatten [threadStartRun 1 8, [.call .intrEnable, .call (.console ['a', 'b'])], List.replicate 7 .step,
    List.replicate 32 .timer, [.step], List.replicate 9 .timer, List.replicate 10 .step]

/-- The names that `schedule` prints come between the characters. -/
theorem console_strings_inside :
    ∃ s, Runs ConsoleTrace.step (fun _ e => KernelOnly .consoleLock e) (ConsoleTrace.boot 0 fun _ => 1)
        insideRun s ∧
      s.kernel.screen = ['a', 'k', 'm', 'a', 'i', 'n', 'b'] ∧ (s.calls 0 1).str = ['a', 'b'] ∧
      (s.calls 0 1).places = [0, 6] ∧ ¬ InOneBlock s 0 1 := by
  obtain ⟨s, hr, hs⟩ := Runs.exists_of_exec ConsoleTrace.step (G := fun _ e => KernelOnly .consoleLock e)
    (fun _ e => decide (KernelOnly .consoleLock e)) (fun _ _ h => of_decide_eq_true h)
    (ConsoleTrace.boot 0 fun _ => 1) insideRun (fun s => (s.kernel.screen, (s.calls 0 1).str, (s.calls 0 1).places))
    (b := (['a', 'k', 'm', 'a', 'i', 'n', 'b'], ['a', 'b'], [0, 6])) (by decide +kernel)
  simp only [Prod.mk.injEq] at hs
  obtain ⟨hscreen, hstr, hplaces⟩ := hs
  refine ⟨s, hr, hscreen, hstr, hplaces, ?_⟩
  intro hblock
  have hb := hblock.block
  rw [hplaces] at hb
  exact absurd hb (by decide)

end MyOs
