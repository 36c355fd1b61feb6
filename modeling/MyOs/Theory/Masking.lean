import MyOs.Theory.Run
import Mathlib.Logic.Function.Basic

/-!
# Code that masks interrupts

One CPU with an interrupt flag runs one of many threads.  Functions save the flag in a local variable, clear
it, call each other, and set it back; a function may give the CPU to another thread in the middle of such a
section.  Everything but the flag is left open: a test may go either way, and any thread may get the CPU.

* `Program`: the statements of every function, and what it has to do with the flag (`Kind`).
* `Typed`, `check`: what is known of the flag at each statement, and a checker for it.
* `step_inv`: in a program that passes the checker every call that has to restore the flag does, and code
  that needs it off runs with it off, in every run.
-/

namespace Masking

variable {ι τ : Type}

inductive Act (ι : Type) where
  /-- `old = flag`. -/
  | save
  | mask
  | unmask
  /-- `flag = old`. -/
  | restore
  /-- A statement that has nothing to do with the flag. -/
  | data
  /-- A test that the flag is off; the program stops when it is not. -/
  | assertOff
  /-- A call that never returns. -/
  | halt
  | call (f : ι)
  /-- Another thread gets the CPU. -/
  | switch
  | ret
  /-- The return from an interrupt: the flag becomes what it was. -/
  | iret

inductive Code (ι : Type) where
  | nil
  | act (a : Act ι) (k : Code ι)
  | ite (a b k : Code ι)
  | loop (body k : Code ι)

def Code.append : Code ι → Code ι → Code ι
  | .nil, k => k
  | .act a c, k => .act a (c.append k)
  | .ite a b c, k => .ite a b (c.append k)
  | .loop body c, k => .loop body (c.append k)

/-- The statements `as`, one after the other. -/
def Code.seq (as : List (Act ι)) (k : Code ι) : Code ι := as.foldr .act k

/-- What a function has to do with the flag. -/
inductive Kind where
  /-- It returns with the flag it was called with. -/
  | keeps
  /-- It is only called with the flag off, and leaves it off. -/
  | masked
  /-- An interrupt enters it: the flag is cleared, and `iret` restores it. -/
  | gate
  /-- Anything. -/
  | free
  deriving DecidableEq

def Kind.restores : Kind → Bool
  | .free => false
  | _ => true

structure Program (ι : Type) where
  code : ι → Code ι
  kind : ι → Kind

/-! ## The machine -/

structure Frame (ι : Type) where
  fn : ι
  /-- The flag when the function was called, which it does not read. -/
  entry : Bool
  /-- The local variable. -/
  old : Bool
  rest : Code ι

/-- A call that has returned. -/
structure Return (ι : Type) where
  fn : ι
  entry : Bool
  flag : Bool
  deriving DecidableEq

structure Cpu (ι τ : Type) where
  flag : Bool
  cur : τ
  stack : τ → List (Frame ι)
  returns : List (Return ι)

inductive Event (ι τ : Type) where
  /-- The next statement; `b` is how its test goes, when it has one. -/
  | next (b : Bool)
  | interrupt (f : ι)
  /-- The next statement is `switch`, and `t` gets the CPU. -/
  | switchTo (t : τ)

variable [DecidableEq τ]

def Cpu.setStack (s : Cpu ι τ) (st : List (Frame ι)) : Cpu ι τ :=
  { s with stack := Function.update s.stack s.cur st }

/-- The call of `g` that pushes its frame on `st`.  Only a gate finds the flag saved. -/
def enter (P : Program ι) (s : Cpu ι τ) (g : ι) (st : List (Frame ι)) : Cpu ι τ :=
  if P.kind g = .gate then { s.setStack (⟨g, s.flag, s.flag, P.code g⟩ :: st) with flag := false }
  else s.setStack (⟨g, s.flag, false, P.code g⟩ :: st)

def leave (s : Cpu ι τ) (f : Frame ι) (below : List (Frame ι)) (flag : Bool) : Cpu ι τ :=
  { s.setStack below with flag := flag, returns := ⟨f.fn, f.entry, flag⟩ :: s.returns }

def exec (P : Program ι) (s : Cpu ι τ) (f : Frame ι) (below : List (Frame ι)) (k : Code ι) :
    Act ι → Except Unit (Cpu ι τ)
  | .save => .ok (s.setStack ({ f with old := s.flag, rest := k } :: below))
  | .mask => .ok { s.setStack ({ f with rest := k } :: below) with flag := false }
  | .unmask => .ok { s.setStack ({ f with rest := k } :: below) with flag := true }
  | .restore => .ok { s.setStack ({ f with rest := k } :: below) with flag := f.old }
  | .data => .ok (s.setStack ({ f with rest := k } :: below))
  | .assertOff => if s.flag then .error () else .ok (s.setStack ({ f with rest := k } :: below))
  | .halt => .error ()
  | .call g => .ok (enter P s g ({ f with rest := k } :: below))
  | .switch => .error ()
  | .ret => .ok (leave s f below s.flag)
  | .iret => .ok (leave s f below f.old)

/-- A step of the running thread, whose stack is `f :: below`. -/
def stepFrame (P : Program ι) (s : Cpu ι τ) (f : Frame ι) (below : List (Frame ι)) :
    Event ι τ → Except Unit (Cpu ι τ)
  | .interrupt g => if s.flag ∧ P.kind g = .gate then .ok (enter P s g (f :: below)) else .error ()
  | .switchTo t =>
    match f.rest with
    | .act .switch k => .ok { s.setStack ({ f with rest := k } :: below) with cur := t }
    | _ => .error ()
  | .next b =>
    match f.rest with
    | .nil => .ok (leave s f below s.flag)
    | .act a k => exec P s f below k a
    | .ite x y k => .ok (s.setStack ({ f with rest := (if b then x else y).append k } :: below))
    | .loop body k => .ok (s.setStack ({ f with rest := if b then body.append (.loop body k) else k } :: below))

def step (P : Program ι) (s : Cpu ι τ) (e : Event ι τ) : Except Unit (Cpu ι τ) :=
  match s.stack s.cur with
  | [] => .error ()
  | f :: below => stepFrame P s f below e

/-! ## What is known at a statement -/

structure Lab where
  /-- The flag is off. -/
  off : Bool
  /-- The flag is what it was when the function was called. -/
  same : Bool
  /-- The local variable holds that flag. -/
  saved : Bool

namespace Lab

/-- Behind a statement that does not go on. -/
def dead : Lab := ⟨true, true, true⟩

def le (l m : Lab) : Prop :=
  (l.off = true → m.off = true) ∧ (l.same = true → m.same = true) ∧ (l.saved = true → m.saved = true)

instance (l m : Lab) : Decidable (l.le m) := inferInstanceAs (Decidable ((_ → _) ∧ (_ → _) ∧ (_ → _)))

def meet (l m : Lab) : Lab := ⟨l.off && m.off, l.same && m.same, l.saved && m.saved⟩

structure Holds (l : Lab) (f : Frame ι) (flag : Bool) : Prop where
  off : l.off = true → flag = false
  same : l.same = true → flag = f.entry
  saved : l.saved = true → f.old = f.entry

theorem le_refl (l : Lab) : l.le l := ⟨id, id, id⟩

theorem le_trans {l m n : Lab} (h1 : l.le m) (h2 : m.le n) : l.le n :=
  ⟨fun h => h2.1 (h1.1 h), fun h => h2.2.1 (h1.2.1 h), fun h => h2.2.2 (h1.2.2 h)⟩

theorem meet_le_left (l m : Lab) : (l.meet m).le l := by
  simp only [le, meet, Bool.and_eq_true]
  exact ⟨And.left, And.left, And.left⟩

theorem meet_le_right (l m : Lab) : (l.meet m).le m := by
  simp only [le, meet, Bool.and_eq_true]
  exact ⟨And.right, And.right, And.right⟩

theorem Holds.weaken {l m : Lab} {f : Frame ι} {flag : Bool} (h : m.Holds f flag) (hle : l.le m) :
    l.Holds f flag :=
  ⟨fun hl => h.off (hle.1 hl), fun hl => h.same (hle.2.1 hl), fun hl => h.saved (hle.2.2 hl)⟩

end Lab

/-- What is known when the function starts. -/
def Kind.start : Kind → Lab
  | .keeps => ⟨false, true, false⟩
  | .masked => ⟨true, true, false⟩
  | .gate => ⟨true, false, true⟩
  | .free => ⟨false, false, false⟩

/-- What is known after a statement of a function of kind `kd`, if the statement is allowed there. -/
def Act.check (kind : ι → Kind) (kd : Kind) (l : Lab) : Act ι → Option Lab
  | .save => some { l with saved := l.same }
  | .mask => some { l with off := true, same := kd = .masked }
  | .unmask => if kd = .free then some { l with off := false, same := false } else none
  | .restore => if l.saved then some ⟨kd = .masked, true, true⟩ else none
  | .data | .assertOff => some l
  | .halt => some Lab.dead
  | .call g =>
    match kind g with
    | .keeps => some l
    | .masked => if l.off then some l else none
    | .gate => if kd = .free then some l else none
    | .free => if kd = .free ∨ kd = .gate then some { l with off := false, same := false } else none
  | .switch => if l.off then some l else none
  | .ret => if kd.restores → l.same then some Lab.dead else none
  | .iret => if l.saved then some Lab.dead else none

inductive Typed (kind : ι → Kind) (kd : Kind) : Lab → Code ι → Lab → Prop
  | nil (l : Lab) : Typed kind kd l .nil l
  | act {l m r : Lab} {a : Act ι} {k : Code ι} : a.check kind kd l = some m → Typed kind kd m k r →
      Typed kind kd l (.act a k) r
  | ite {l m r : Lab} {x y k : Code ι} : Typed kind kd l x m → Typed kind kd l y m → Typed kind kd m k r →
      Typed kind kd l (.ite x y k) r
  | loop {l r : Lab} {body k : Code ι} : Typed kind kd l body l → Typed kind kd l k r →
      Typed kind kd l (.loop body k) r
  | weaken {l l' r r' : Lab} {c : Code ι} : l'.le l → Typed kind kd l' c r' → r.le r' → Typed kind kd l c r

def Code.check (kind : ι → Kind) (kd : Kind) : Code ι → Lab → Option Lab
  | .nil, l => some l
  | .act a k, l => (a.check kind kd l).bind (k.check kind kd)
  | .ite x y k, l => (x.check kind kd l).bind fun m => (y.check kind kd l).bind fun n => k.check kind kd (m.meet n)
  | .loop body k, l => (body.check kind kd l).bind fun m => if l.le m then k.check kind kd l else none

/-- The function does what its kind asks. -/
def Program.Checks (P : Program ι) (f : ι) : Prop :=
  ∃ r, (P.code f).check P.kind (P.kind f) (P.kind f).start = some r ∧ ((P.kind f).restores = true → r.same = true)

theorem check_sound {kind : ι → Kind} {kd : Kind} : ∀ (c : Code ι) (l r : Lab), c.check kind kd l = some r →
    Typed kind kd l c r := by
  intro c
  induction c with
  | nil =>
    intro l r h
    cases h
    exact .nil l
  | act a k ih =>
    intro l r h
    obtain ⟨m, ha, hk⟩ := Option.bind_eq_some_iff.mp h
    exact .act ha (ih m r hk)
  | ite x y k ihx ihy ihk =>
    intro l r h
    obtain ⟨m, hx, h⟩ := Option.bind_eq_some_iff.mp h
    obtain ⟨n, hy, h⟩ := Option.bind_eq_some_iff.mp h
    exact .ite (.weaken l.le_refl (ihx l m hx) (m.meet_le_left n))
      (.weaken l.le_refl (ihy l n hy) (m.meet_le_right n)) (ihk _ r h)
  | loop body k ihb ihk =>
    intro l r h
    obtain ⟨m, hb, h⟩ := Option.bind_eq_some_iff.mp h
    split at h
    · rename_i hle
      exact .loop (.weaken l.le_refl (ihb l m hb) hle) (ihk l r h)
    · cases h

namespace Typed

variable {kind : ι → Kind} {kd : Kind} {l m r : Lab} {a : Act ι} {c x y k body : Code ι}

theorem append (h : Typed kind kd l c m) : ∀ {k : Code ι} {r : Lab}, Typed kind kd m k r →
    Typed kind kd l (c.append k) r := by
  induction h with
  | nil l =>
    intro k r hk
    exact hk
  | act ha _ ih =>
    intro k r hk
    exact .act ha (ih hk)
  | ite hx hy _ _ _ ih =>
    intro k r hk
    exact .ite hx hy (ih hk)
  | loop hb _ _ ih =>
    intro k r hk
    exact .loop hb (ih hk)
  | weaken hl _ hr ih =>
    intro k r hk
    exact .weaken hl (ih (.weaken hr hk r.le_refl)) r.le_refl

theorem nil_inv (h : Typed kind kd l .nil r) : r.le l := by
  generalize hc : Code.nil = c at h
  induction h with
  | nil l => exact l.le_refl
  | weaken hl _ hr ih => exact Lab.le_trans hr (Lab.le_trans (ih hc) hl)
  | _ => cases hc

theorem act_inv (h : Typed kind kd l (.act a k) r) :
    ∃ l' m, l'.le l ∧ a.check kind kd l' = some m ∧ Typed kind kd m k r := by
  generalize hc : Code.act a k = c at h
  induction h with
  | act ha hk =>
    cases hc
    exact ⟨_, _, Lab.le_refl _, ha, hk⟩
  | weaken hl _ hr ih =>
    obtain ⟨l', m, hle, ha, hk⟩ := ih hc
    exact ⟨l', m, Lab.le_trans hle hl, ha, .weaken m.le_refl hk hr⟩
  | _ => cases hc

theorem ite_inv (h : Typed kind kd l (.ite x y k) r) :
    Typed kind kd l (x.append k) r ∧ Typed kind kd l (y.append k) r := by
  generalize hc : Code.ite x y k = c at h
  induction h with
  | ite hx hy hk =>
    cases hc
    exact ⟨hx.append hk, hy.append hk⟩
  | weaken hl _ hr ih =>
    obtain ⟨h1, h2⟩ := ih hc
    exact ⟨.weaken hl h1 hr, .weaken hl h2 hr⟩
  | _ => cases hc

theorem loop_inv (h : Typed kind kd l (.loop body k) r) :
    Typed kind kd l (body.append (.loop body k)) r ∧ Typed kind kd l k r := by
  generalize hc : Code.loop body k = c at h
  induction h with
  | loop hb hk =>
    cases hc
    exact ⟨hb.append (.loop hb hk), hk⟩
  | weaken hl _ hr ih =>
    obtain ⟨h1, h2⟩ := ih hc
    exact ⟨.weaken hl h1 hr, .weaken hl h2 hr⟩
  | _ => cases hc

end Typed

/-! ## Runs -/

/-- What is known at the next statement of `f`, when the flag is `flag`. -/
structure FrameOk (P : Program ι) (f : Frame ι) (flag : Bool) : Prop where
  typed : ∃ l r, l.Holds f flag ∧ Typed P.kind (P.kind f.fn) l f.rest r ∧
    ((P.kind f.fn).restores = true → r.same = true)
  keeps : P.kind f.fn = .keeps → flag = false ∨ flag = f.entry
  masked : P.kind f.fn = .masked → flag = false ∧ f.entry = false

/-- Who may be above `g` on a stack: a function it calls, or an interrupt when the flag was on. -/
def Above (P : Program ι) (f : Frame ι) (g : Frame ι) : Prop :=
  P.kind f.fn = .keeps ∨ P.kind f.fn = .masked ∨ (P.kind f.fn = .gate ∧ f.entry = true) ∨
    P.kind g.fn = .free ∨ P.kind g.fn = .gate

/-- The stack of a thread that goes on with the flag at `flag`: a function goes on with what the one above it
leaves. -/
def Sound (P : Program ι) : List (Frame ι) → Bool → Prop
  | [], _ => True
  | f :: below, flag => FrameOk P f flag ∧
    (∀ b, ((P.kind f.fn).restores = true → b = f.entry) → Sound P below b) ∧ ∀ g ∈ below.head?, Above P f g

structure Inv (P : Program ι) (s : Cpu ι τ) : Prop where
  cur : Sound P (s.stack s.cur) s.flag
  /-- Threads are switched out, and in, with the flag off. -/
  others : ∀ t, t ≠ s.cur → Sound P (s.stack t) false
  returns : ∀ r ∈ s.returns, (P.kind r.fn).restores = true → r.flag = r.entry

variable {P : Program ι} {f g : Frame ι} {below : List (Frame ι)} {flag : Bool}

/-- The top function goes on as `f'`. -/
theorem Sound.go {m r : Lab} {f' : Frame ι} {flag' : Bool} (h : Sound P (f :: below) flag) (hfn : f'.fn = f.fn)
    (hentry : f'.entry = f.entry) (hk : Typed P.kind (P.kind f.fn) m f'.rest r)
    (hsame : (P.kind f.fn).restores = true → r.same = true) (hh : m.Holds f' flag')
    (hkeeps : P.kind f.fn = .keeps → flag' = false ∨ flag' = f.entry)
    (hmasked : P.kind f.fn = .masked → flag' = false ∧ f.entry = false) : Sound P (f' :: below) flag' := by
  obtain ⟨-, hbelow, habove⟩ := h
  rw [← hfn] at hk hsame hkeeps hmasked hbelow
  rw [← hentry] at hkeeps hmasked hbelow
  refine ⟨⟨⟨m, r, hh, hk, hsame⟩, hkeeps, hmasked⟩, hbelow, ?_⟩
  intro g hg
  unfold Above
  rw [hfn, hentry]
  exact habove g hg

/-- A function whose code passes the checker starts soundly. -/
theorem frameOk_start {i : ι} (hP : P.Checks i) {old : Bool} (hmasked : P.kind i = .masked → flag = false)
    (hold : P.kind i = .gate → old = flag) :
    FrameOk P ⟨i, flag, old, P.code i⟩ (if P.kind i = .gate then false else flag) := by
  obtain ⟨r, hr, hsame⟩ := hP
  refine ⟨⟨(P.kind i).start, r, ?_, check_sound _ _ _ hr, hsame⟩, ?_, ?_⟩
  · cases hk : P.kind i with
    | keeps => exact ⟨fun h => (by cases h), fun _ => rfl, fun h => (by cases h)⟩
    | masked => exact ⟨fun _ => hmasked hk, fun _ => rfl, fun h => (by cases h)⟩
    | gate => exact ⟨fun _ => rfl, fun h => (by cases h), fun _ => hold hk⟩
    | free => exact ⟨fun h => (by cases h), fun h => (by cases h), fun h => (by cases h)⟩
  · intro hk
    replace hk : P.kind i = .keeps := hk
    rw [hk]
    exact .inr rfl
  · intro hk
    replace hk : P.kind i = .masked := hk
    rw [hk]
    exact ⟨hmasked hk, hmasked hk⟩

/-- A call: the caller goes on with what the callee leaves. -/
theorem Sound.enter {i : ι} (hP : P.Checks i)
    (h : ∀ b, ((P.kind i).restores = true → b = flag) → Sound P (g :: below) b) {old : Bool}
    (hmasked : P.kind i = .masked → flag = false) (hold : P.kind i = .gate → old = flag)
    (habove : Above P ⟨i, flag, old, P.code i⟩ g) :
    Sound P (⟨i, flag, old, P.code i⟩ :: g :: below) (if P.kind i = .gate then false else flag) := by
  refine ⟨frameOk_start hP hmasked hold, h, ?_⟩
  intro g' hg'
  cases hg'
  exact habove

theorem Sound.masked_off : ∀ (st : List (Frame ι)) (flag : Bool), Sound P st flag →
    (∃ f ∈ st, P.kind f.fn = .masked) →
    flag = false ∧ ∀ f ∈ st.head?, P.kind f.fn = .keeps ∨ P.kind f.fn = .masked := by
  intro st
  induction st with
  | nil =>
    rintro flag - ⟨f, hf, -⟩
    cases hf
  | cons f below ih =>
    rintro flag ⟨hok, hbelow, habove⟩ ⟨m, hm, hkm⟩
    by_cases hkf : P.kind f.fn = .masked
    · refine ⟨(hok.masked hkf).1, ?_⟩
      intro f' hf'
      cases hf'
      exact .inr hkf
    · have hmem : m ∈ below := by
        rcases List.mem_cons.mp hm with rfl | hmem
        · exact absurd hkm hkf
        · exact hmem
      obtain ⟨hentry, hhead⟩ := ih f.entry (hbelow f.entry fun _ => rfl) ⟨m, hmem, hkm⟩
      -- what is above such a function is no interrupt, for the flag was off
      have hkeeps : P.kind f.fn = .keeps := by
        cases below with
        | nil => cases hmem
        | cons g below =>
          have hg := hhead g rfl
          rcases habove g rfl with hk | hk | ⟨-, he⟩ | hk | hk
          · exact hk
          · exact absurd hk hkf
          · rw [hentry] at he
            cases he
          · rw [hk] at hg
            rcases hg with hg | hg <;> cases hg
          · rw [hk] at hg
            rcases hg with hg | hg <;> cases hg
      refine ⟨?_, ?_⟩
      · rcases hok.keeps hkeeps with he | he
        · exact he
        · rw [he, hentry]
      · intro f' hf'
        cases hf'
        exact .inl hkeeps

section
variable {s s' : Cpu ι τ} {st : List (Frame ι)}

/-- The running thread's stack becomes `st`. -/
theorem Inv.update (h : Inv P s) (hst : Sound P st flag) : Inv P { s.setStack st with flag := flag } := by
  refine ⟨?_, ?_, h.returns⟩
  · show Sound P (Function.update s.stack s.cur st s.cur) flag
    rw [Function.update_self]
    exact hst
  · intro t ht
    have hne : t ≠ s.cur := ht
    show Sound P (Function.update s.stack s.cur st t) false
    rw [Function.update_of_ne hne]
    exact h.others t hne

theorem Inv.setStack (h : Inv P s) (hst : Sound P st s.flag) : Inv P (s.setStack st) := h.update hst

theorem Inv.leave (h : Inv P s) (hst : Sound P below flag)
    (hret : (P.kind f.fn).restores = true → flag = f.entry) : Inv P (leave s f below flag) := by
  have h1 := h.update hst
  refine ⟨h1.cur, h1.others, ?_⟩
  intro r hr
  rcases List.mem_cons.mp hr with rfl | hr
  · exact hret
  · exact h.returns r hr

theorem Inv.enter {i : ι} (h : Inv P s) (hP : P.Checks i)
    (hg : ∀ b, ((P.kind i).restores = true → b = s.flag) → Sound P (g :: below) b)
    (hmasked : P.kind i = .masked → s.flag = false)
    (habove : ∀ old, Above P ⟨i, s.flag, old, P.code i⟩ g) : Inv P (Masking.enter P s i (g :: below)) := by
  unfold Masking.enter
  cases hk : P.kind i with
  | gate =>
    have hs := Sound.enter hP hg hmasked (fun _ => rfl) (habove s.flag)
    rw [if_pos hk] at hs
    exact h.update hs
  | _ =>
    have hne : P.kind i ≠ .gate := by
      rw [hk]
      decide
    have hs := Sound.enter hP hg hmasked (fun hgate => absurd hgate hne) (habove false)
    rw [if_neg hne] at hs
    exact h.update hs

/-- A call in the code of `f`, which goes on at `k`. -/
theorem Inv.call {i : ι} {k : Code ι} {l m r : Lab} (h : Inv P s) (hP : P.Checks i)
    (hf : Sound P (f :: below) s.flag) (hh : l.Holds f s.flag)
    (ha : (Act.call i).check P.kind (P.kind f.fn) l = some m) (hk : Typed P.kind (P.kind f.fn) m k r)
    (hsame : (P.kind f.fn).restores = true → r.same = true) :
    Inv P (Masking.enter P s i ({ f with rest := k } :: below)) := by
  -- the caller goes on with what it knew, if the callee restores the flag
  have hgo : l = m → Sound P ({ f with rest := k } :: below) s.flag := by
    rintro rfl
    exact hf.go rfl rfl hk hsame ⟨hh.off, hh.same, hh.saved⟩ hf.1.keeps hf.1.masked
  cases hi : P.kind i with
  | keeps =>
    simp only [Act.check, hi, Option.some.injEq] at ha
    refine h.enter hP ?_ (fun h => by rw [hi] at h; cases h) (fun _ => .inl hi)
    intro b hb
    rw [hb (by rw [hi]; rfl)]
    exact hgo ha
  | masked =>
    simp only [Act.check, hi, Option.ite_none_right_eq_some, Option.some.injEq] at ha
    refine h.enter hP ?_ (fun _ => hh.off ha.1) (fun _ => .inr (.inl hi))
    intro b hb
    rw [hb (by rw [hi]; rfl)]
    exact hgo ha.2
  | gate =>
    simp only [Act.check, hi, Option.ite_none_right_eq_some, Option.some.injEq] at ha
    refine h.enter hP ?_ (fun h => by rw [hi] at h; cases h) (fun _ => .inr (.inr (.inr (.inl ha.1))))
    intro b hb
    rw [hb (by rw [hi]; rfl)]
    exact hgo ha.2
  | free =>
    simp only [Act.check, hi, Option.ite_none_right_eq_some, Option.some.injEq] at ha
    obtain ⟨hfree, rfl⟩ := ha
    refine h.enter hP ?_ (fun h => by rw [hi] at h; cases h) (fun _ => .inr (.inr (.inr hfree)))
    -- nothing is known of the flag after the call
    intro b _
    refine hf.go rfl rfl hk hsame ⟨fun h => (by cases h), fun h => (by cases h), hh.saved⟩ ?_ ?_
    · intro hkeeps
      rw [hkeeps] at hfree
      rcases hfree with h | h <;> cases h
    · intro hmasked
      rw [hmasked] at hfree
      rcases hfree with h | h <;> cases h

end

/-- **A statement keeps the invariant.** -/
theorem exec_inv {a : Act ι} {k : Code ι} {s s' : Cpu ι τ} (hP : ∀ i, P.Checks i) (h : Inv P s)
    (hf : Sound P (f :: below) s.flag) (hrest : f.rest = .act a k) (hx : exec P s f below k a = .ok s') :
    Inv P s' := by
  obtain ⟨l0, r, hh0, htyped, hsame⟩ := hf.1.typed
  rw [hrest] at htyped
  obtain ⟨l, m, hle, ha, hk⟩ := htyped.act_inv
  have hh := hh0.weaken hle
  have hkeeps := hf.1.keeps
  have hmasked := hf.1.masked
  cases a with
  | save =>
    cases ha
    cases hx
    exact h.setStack (hf.go rfl rfl hk hsame ⟨hh.off, hh.same, hh.same⟩ hkeeps hmasked)
  | mask =>
    cases ha
    cases hx
    refine h.update (hf.go rfl rfl hk hsame ⟨fun _ => rfl, ?_, hh.saved⟩ (fun _ => .inl rfl) ?_)
    · intro hm
      exact (hmasked (of_decide_eq_true hm)).2.symm
    · intro hm
      exact ⟨rfl, (hmasked hm).2⟩
  | unmask =>
    simp only [Act.check, Option.ite_none_right_eq_some, Option.some.injEq] at ha
    obtain ⟨hfree, rfl⟩ := ha
    cases hx
    refine h.update (hf.go rfl rfl hk hsame ⟨fun h => (by cases h), fun h => (by cases h), hh.saved⟩ ?_ ?_)
    · intro hm
      rw [hfree] at hm
      cases hm
    · intro hm
      rw [hfree] at hm
      cases hm
  | restore =>
    simp only [Act.check, Option.ite_none_right_eq_some, Option.some.injEq] at ha
    obtain ⟨hsaved, rfl⟩ := ha
    cases hx
    have hold := hh.saved hsaved
    refine h.update (hf.go rfl rfl hk hsame ⟨?_, fun _ => hold, fun _ => hold⟩ (fun _ => .inr hold) ?_)
    · intro hm
      rw [hold]
      exact (hmasked (of_decide_eq_true hm)).2
    · intro hm
      exact ⟨hold.trans (hmasked hm).2, (hmasked hm).2⟩
  | data =>
    cases ha
    cases hx
    exact h.setStack (hf.go rfl rfl hk hsame ⟨hh.off, hh.same, hh.saved⟩ hkeeps hmasked)
  | assertOff =>
    cases ha
    simp only [exec] at hx
    split at hx
    · cases hx
    · cases hx
      exact h.setStack (hf.go rfl rfl hk hsame ⟨hh.off, hh.same, hh.saved⟩ hkeeps hmasked)
  | halt | switch => cases hx
  | call i =>
    cases hx
    exact h.call (hP i) hf hh ha hk hsame
  | ret =>
    simp only [Act.check, Option.ite_none_right_eq_some] at ha
    cases hx
    have hflag : (P.kind f.fn).restores = true → s.flag = f.entry := fun hres => hh.same (ha.1 hres)
    exact h.leave (hf.2.1 s.flag hflag) hflag
  | iret =>
    simp only [Act.check, Option.ite_none_right_eq_some] at ha
    cases hx
    have hold := hh.saved ha.1
    exact h.leave (hf.2.1 f.old fun _ => hold) fun _ => hold

/-- The running function goes on at `k`, one of the places its test leads to. -/
theorem Sound.jump {k : Code ι} {l r : Lab} (hf : Sound P (f :: below) flag) (hh : l.Holds f flag)
    (hk : Typed P.kind (P.kind f.fn) l k r) (hsame : (P.kind f.fn).restores = true → r.same = true) :
    Sound P ({ f with rest := k } :: below) flag :=
  hf.go rfl rfl hk hsame ⟨hh.off, hh.same, hh.saved⟩ hf.1.keeps hf.1.masked

/-- Another thread gets the CPU. -/
theorem Inv.switchTo {k : Code ι} {l r : Lab} {s : Cpu ι τ} {t : τ} (h : Inv P s)
    (hf : Sound P (f :: below) s.flag) (hh : l.Holds f s.flag)
    (htyped : Typed P.kind (P.kind f.fn) l (.act .switch k) r)
    (hsame : (P.kind f.fn).restores = true → r.same = true) :
    Inv P { s.setStack ({ f with rest := k } :: below) with cur := t } := by
  obtain ⟨l', m, hle, ha, hk⟩ := htyped.act_inv
  have hh' := hh.weaken hle
  simp only [Act.check, Option.ite_none_right_eq_some, Option.some.injEq] at ha
  obtain ⟨hoff, rfl⟩ := ha
  have hflag := hh'.off hoff
  have h1 : Inv P (s.setStack ({ f with rest := k } :: below)) :=
    h.setStack (hf.jump hh' hk hsame)
  -- whoever gets the CPU was switched out with the flag off as well
  have hall : ∀ u, Sound P ((s.setStack ({ f with rest := k } :: below)).stack u) false := by
    intro u
    by_cases hu : u = s.cur
    · subst hu
      have h2 := h1.cur
      rw [show (s.setStack ({ f with rest := k } :: below)).flag = false from hflag] at h2
      exact h2
    · exact h1.others u hu
  refine ⟨?_, fun u _ => hall u, h1.returns⟩
  show Sound P ((s.setStack ({ f with rest := k } :: below)).stack t) s.flag
  rw [hflag]
  exact hall t

/-- **Every step keeps the invariant.** -/
theorem step_inv {s s' : Cpu ι τ} {e : Event ι τ} (hP : ∀ i, P.Checks i) (h : Inv P s)
    (hs : step P s e = .ok s') : Inv P s' := by
  have hcur := h.cur
  unfold step at hs
  cases hst : s.stack s.cur with
  | nil =>
    rw [hst] at hs
    cases hs
  | cons f below =>
    rw [hst] at hs hcur
    replace hs : stepFrame P s f below e = .ok s' := hs
    unfold stepFrame at hs
    obtain ⟨l, r, hh, htyped, hsame⟩ := hcur.1.typed
    cases e with
    | interrupt i =>
      simp only at hs
      split at hs
      · rename_i hi
        obtain ⟨hon, hgate⟩ := hi
        cases hs
        refine h.enter (hP i) ?_ (fun hm => by rw [hgate] at hm; cases hm) ?_
        · intro b hb
          rw [hb (by rw [hgate]; rfl)]
          exact hcur
        · intro old
          exact .inr (.inr (.inl ⟨hgate, hon⟩))
      · cases hs
    | switchTo t =>
      simp only at hs
      cases hrest : f.rest with
      | act a k =>
        rw [hrest] at hs htyped
        cases a with
        | switch =>
          cases hs
          exact h.switchTo hcur hh htyped hsame
        | _ => cases hs
      | _ =>
        rw [hrest] at hs
        cases hs
    | next b =>
      simp only at hs
      cases hrest : f.rest with
      | nil =>
        rw [hrest] at hs htyped
        cases hs
        have hflag : (P.kind f.fn).restores = true → s.flag = f.entry :=
          fun hres => hh.same (htyped.nil_inv.2.1 (hsame hres))
        exact h.leave (hcur.2.1 s.flag hflag) hflag
      | act a k =>
        rw [hrest] at hs
        exact exec_inv hP h hcur hrest hs
      | ite x y k =>
        rw [hrest] at hs htyped
        cases hs
        obtain ⟨hx, hy⟩ := htyped.ite_inv
        refine h.setStack (hcur.jump hh ?_ hsame)
        cases b
        · exact hy
        · exact hx
      | loop body k =>
        rw [hrest] at hs htyped
        cases hs
        obtain ⟨hbody, hk⟩ := htyped.loop_inv
        refine h.setStack (hcur.jump hh ?_ hsame)
        cases b
        · exact hk
        · exact hbody

theorem run_inv {G : Cpu ι τ → Event ι τ → Prop} {s s' : Cpu ι τ} {es : List (Event ι τ)}
    (hP : ∀ i, P.Checks i) (h : Inv P s) (hr : Runs (step P) G s es s') : Inv P s' :=
  Runs.invariant (Inv P) (fun _ _ _ h _ hs => step_inv hP h hs) es s s' h hr

omit [DecidableEq τ] in
/-- The CPU changes hands with the flag off. -/
theorem Inv.switch_off {s : Cpu ι τ} {k : Code ι} (h : Inv P s) (hst : s.stack s.cur = f :: below)
    (hrest : f.rest = .act .switch k) : s.flag = false := by
  have hcur := h.cur
  rw [hst] at hcur
  obtain ⟨l, r, hh, htyped, -⟩ := hcur.1.typed
  rw [hrest] at htyped
  obtain ⟨l', m, hle, ha, -⟩ := htyped.act_inv
  simp only [Act.check, Option.ite_none_right_eq_some] at ha
  exact (hh.weaken hle).off ha.1

omit [DecidableEq τ] in
/-- From the call of a masked function to its return the flag is off, whoever runs on top of it. -/
theorem Inv.masked_off {s : Cpu ι τ} (h : Inv P s) (hf : f ∈ s.stack s.cur) (hk : P.kind f.fn = .masked) :
    s.flag = false :=
  (Sound.masked_off _ _ h.cur ⟨f, hf, hk⟩).1

/-- Threads that have not run yet start soundly. -/
theorem Sound.new {i : ι} {b : Bool} (hP : P.Checks i) (hk : P.kind i = .free) :
    Sound P [⟨i, b, false, P.code i⟩] b := by
  refine ⟨?_, fun _ _ => trivial, fun _ h => by cases h⟩
  have h : FrameOk P ⟨i, b, false, P.code i⟩ (if P.kind i = .gate then false else b) :=
    frameOk_start hP (fun h => by rw [hk] at h; cases h) (fun h => by rw [hk] at h; cases h)
  rw [if_neg (by rw [hk]; decide)] at h
  exact h

end Masking
