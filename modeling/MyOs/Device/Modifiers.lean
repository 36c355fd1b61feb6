import MyOs.Device.Scancodes
import MyOs.Theory.Held

/-!
# device/keyboard.c: the right-hand modifiers and the flags

What the handler makes of the codes after 0xe0, and of every sequence of keys pressed and released.

    extended_ignored_iff    when a code after 0xe0 has no effect
    modifiers_track_iff     when the flags say which keys are held
-/

namespace MyOs

namespace KbdSys

variable {q : IoqId} {s s' s1 s2 : KbdSys} {G : KbdSys → KbdEvent → Prop}

/-- What one call of the handler does to the statics and the output. -/
theorem scancode_fed {c : UInt8} (hs : s.step q (.scancode c) = .ok s') : s'.kbd = s.kbd.next c ∧
    s'.accepted = s.accepted ++ if (s.kernel.ioq q).full then [] else (s.kbd.out c).toChar.toList := by
  obtain ⟨-, -, k, rfl⟩ := scancode_ok hs
  exact ⟨rfl, accepted_fed s q c k⟩

/-- The rest of the kernel does not touch them. -/
theorem kernel_events : ∀ (ks : List Event) (s s' : KbdSys), Runs (step q) G s (ks.map .kernel) s' →
    s'.kbd = s.kbd ∧ s'.accepted = s.accepted := by
  intro ks
  induction ks with
  | nil =>
    intro s s' hr
    cases hr
    exact ⟨rfl, rfl⟩
  | cons e ks ih =>
    rintro s s' ⟨-, s1, hs, hr⟩
    obtain ⟨k, -, rfl⟩ := kernel_ok hs
    have h := ih _ s' hr
    exact h

end KbdSys

/-! ## Codes after 0xe0 -/

/-- `0xe000 | x` is a code of right ctrl or right alt. -/
def IsRightModifier (x : UInt8) : Prop :=
  0xe000 ||| x.toNat = CTRL_R_MAKE ∨ 0xe000 ||| x.toNat = CTRL_R_BREAK ∨ 0xe000 ||| x.toNat = ALT_R_MAKE ∨
    0xe000 ||| x.toNat = ALT_R_BREAK

instance (x : UInt8) : Decidable (IsRightModifier x) := inferInstanceAs (Decidable (_ ∨ _))

/-- From `s` to `s'` no character was put in `kbd_buf` and no flag has changed. -/
structure Ignored (s s' : KbdSys) : Prop where
  emits : s'.accepted = s.accepted
  ctrl : s'.kbd.ctrlStatus = s.kbd.ctrlStatus
  shift : s'.kbd.shiftStatus = s.kbd.shiftStatus
  alt : s'.kbd.altStatus = s.kbd.altStatus
  capsLock : s'.kbd.capsLockStatus = s.kbd.capsLockStatus

/-- The plain code `x` has no effect: it is no character key, or there is no room; it is not caps lock; and
shift is already what it says. -/
structure Harmless (shift full : Bool) (x : UInt8) : Prop where
  char : isCharKey x = true → full = true
  capsLock : x ≠ 0x3a
  press : x = 0x2a ∨ x = 0x36 → shift = true
  release : x = 0xaa ∨ x = 0xb6 → shift = false

/-- The codes of right ctrl and right alt are the ones whose plain codes are those of ctrl and alt. -/
theorem not_rightModifier : ∀ x : UInt8, ¬ IsRightModifier x → ctrlCode x = none ∧ altCode x = none :=
  byte_forall (by decide +kernel)

section
variable {q : IoqId} {s s1 s2 : KbdSys} {G : KbdSys → KbdEvent → Prop} {ks : List Event} {x : UInt8}

/-- 0xe0 itself does nothing that can be seen. -/
theorem e0_ignored (h : Runs (KbdSys.step q) G s (.scancode 0xe0 :: ks.map .kernel) s1) :
    s1.kbd = { s.kbd with extScancode := true } ∧ s1.accepted = s.accepted := by
  obtain ⟨-, t, hs, hr⟩ := h
  obtain ⟨hkbd, hacc⟩ := KbdSys.scancode_fed hs
  obtain ⟨hk, ha⟩ := KbdSys.kernel_events ks t s1 hr
  refine ⟨hk.trans hkbd, ha.trans (hacc.trans ?_)⟩
  rw [show (s.kbd.out 0xe0).toChar = none from rfl, Option.toList_none, ite_self, List.append_nil]

theorem out_toList_eq_nil_iff (k : Kbd) (full : Bool) (x : UInt8) :
    (if full then [] else (k.out x).toChar.toList) = [] ↔ (isCharKey x = true → full = true) := by
  unfold Kbd.out
  cases full with
  | true => simp
  | false =>
    cases isCharKey x with
    | true => simp [KbdOut.toChar]
    | false =>
      simp only [Bool.false_eq_true, if_false, false_imp_iff, iff_true]
      split <;> rfl

theorem shiftCode_getD_iff (x : UInt8) (b : Bool) : (shiftCode x).getD b = b ↔
    (x = 0x2a ∨ x = 0x36 → b = true) ∧ (x = 0xaa ∨ x = 0xb6 → b = false) := by
  unfold shiftCode
  by_cases hp : x = 0x2a ∨ x = 0x36
  · have hr : ¬ (x = 0xaa ∨ x = 0xb6) := by rcases hp with rfl | rfl <;> decide
    simp [hp, hr, eq_comm]
  · by_cases hr : x = 0xaa ∨ x = 0xb6
    · simp [hp, hr, eq_comm]
    · simp [hp, hr]

/-- **Extended codes.**  A code after 0xe0 is ignored exactly when the plain code would have no effect. -/
theorem extended_ignored_iff (h1 : Runs (KbdSys.step q) G s (.scancode 0xe0 :: ks.map .kernel) s1)
    (h2 : Runs (KbdSys.step q) G s1 [.scancode x] s2) (hr : ¬ IsRightModifier x) :
    Ignored s s2 ↔ Harmless s.kbd.shiftStatus (s1.kernel.ioq q).full x := by
  obtain ⟨-, t, hs, ht⟩ := h2
  cases ht
  obtain ⟨hkbd, hacc⟩ := KbdSys.scancode_fed hs
  obtain ⟨hk1, ha1⟩ := e0_ignored h1
  obtain ⟨hctrl, halt⟩ := not_rightModifier x hr
  rw [ha1] at hacc
  have hchar := out_toList_eq_nil_iff s1.kbd (s1.kernel.ioq q).full x
  have hshift := shiftCode_getD_iff x s.kbd.shiftStatus
  rw [hk1] at hkbd
  constructor
  · intro h
    have hemits := h.emits
    rw [hacc, List.append_right_eq_self] at hemits
    have hsh := h.shift
    rw [hkbd] at hsh
    obtain ⟨hpress, hrelease⟩ := hshift.mp hsh
    refine ⟨hchar.mp hemits, ?_, hpress, hrelease⟩
    intro hcaps
    have hc := h.capsLock
    rw [hkbd] at hc
    simp [Kbd.next, hcaps] at hc
  · intro h
    refine ⟨?_, ?_, ?_, ?_, ?_⟩
    · rw [hacc, hchar.mpr h.char, List.append_nil]
    · rw [hkbd, Kbd.next, hctrl]
      rfl
    · rw [hkbd]
      exact hshift.mpr ⟨h.press, h.release⟩
    · rw [hkbd, Kbd.next, halt]
      rfl
    · rw [hkbd, Kbd.next, if_neg h.capsLock]

end

/-- The end of the fake shift e0 aa, with shift up. -/
theorem extended_ignored_fakeShift : ∃ s s1 s2, Runs (KbdSys.step 0) (KbdSys.Readers 0) s [.scancode 0xe0] s1 ∧
    Runs (KbdSys.step 0) (KbdSys.Readers 0) s1 [.scancode 0xaa] s2 ∧ Ignored s s2 := by
  obtain ⟨s, s2, hs, hr⟩ := KbdSys.enabled_runs [0xe0, 0xaa]
  obtain ⟨s1, h1, h2⟩ := (Runs.append [KbdEvent.scancode 0xe0] [.scancode 0xaa] s s2).mp hr
  have hshift : s.kbd.shiftStatus = false :=
    congrArg Kbd.shiftStatus (KbdSys.kernel_events [.call .intrEnable] _ s hs).1
  have h1' : Runs (KbdSys.step 0) (KbdSys.Readers 0) s (.scancode 0xe0 :: ([] : List Event).map .kernel) s1 := h1
  refine ⟨s, s1, s2, h1, h2, (extended_ignored_iff h1' h2 (by decide)).mpr ?_⟩
  refine ⟨?_, by decide, ?_, ?_⟩
  · intro hc
    cases hc
  · intro hc
    exact absurd hc (by decide)
  · intro _
    exact hshift

/-- Its beginning e0 2a sets `shift_status`. -/
theorem extended_setsShift : ¬ ∀ (es : List KbdEvent) (s s1 s2 : KbdSys) (x : UInt8),
    Runs (KbdSys.step 0) (KbdSys.Readers 0) (KbdSys.boot 0 fun _ => 1) es s →
    Runs (KbdSys.step 0) (KbdSys.Readers 0) s [.scancode 0xe0] s1 →
    Runs (KbdSys.step 0) (KbdSys.Readers 0) s1 [.scancode x] s2 → x ≠ 0xe0 → ¬ IsRightModifier x →
    Ignored s s2 := by
  intro hall
  obtain ⟨s, s2, hs, hr⟩ := KbdSys.enabled_runs [0xe0, 0x2a]
  obtain ⟨s1, h1, h2⟩ := (Runs.append [KbdEvent.scancode 0xe0] [.scancode 0x2a] s s2).mp hr
  have h := hall _ s s1 s2 0x2a hs h1 h2 (by decide) (by decide)
  obtain ⟨-, t, ht, hend⟩ := h2
  cases hend
  have hshift : s.kbd.shiftStatus = false :=
    congrArg Kbd.shiftStatus (KbdSys.kernel_events [.call .intrEnable] _ s hs).1
  have hset : s2.kbd.shiftStatus = true := congrArg Kbd.shiftStatus (KbdSys.scancode_fed ht).1
  rw [h.shift, hshift] at hset
  cases hset

/-! ## Keys held down -/

/-- A key and its make code, with the prefix or without.  0xe0 is no break code, and e0 2a and e0 36 are fake
shifts and not keys. -/
structure Key where
  ext : Bool
  code : UInt8
  make : 0 < code ∧ code < 0x80 ∧ code ≠ 0x60
  notFake : ext = true → code ≠ 0x2a ∧ code ≠ 0x36
  deriving DecidableEq

namespace Key

def ctrlL : Key := ⟨false, 0x1d, by decide, by decide⟩
def ctrlR : Key := ⟨true, 0x1d, by decide, by decide⟩
def shiftL : Key := ⟨false, 0x2a, by decide, by decide⟩
def shiftR : Key := ⟨false, 0x36, by decide, by decide⟩
def altL : Key := ⟨false, 0x38, by decide, by decide⟩
def altR : Key := ⟨true, 0x38, by decide, by decide⟩

def isCtrl (k : Key) : Bool := k = ctrlL || k = ctrlR

def isShift (k : Key) : Bool := k = shiftL || k = shiftR

theorem isCtrl_eq (k : Key) : k.isCtrl = decide (k.code = 0x1d) := by
  obtain ⟨ext, code, hm, hf⟩ := k
  unfold isCtrl ctrlL ctrlR
  cases ext <;> simp [Key.mk.injEq]

theorem isShift_eq (k : Key) : k.isShift = decide (k.code = 0x2a ∨ k.code = 0x36) := by
  obtain ⟨ext, code, hm, hf⟩ := k
  unfold isShift shiftL shiftR
  cases ext with
  | false => simp [Key.mk.injEq]
  | true =>
    obtain ⟨h1, h2⟩ := hf rfl
    simp [h1, h2]

end Key

/-- The make code of a press, the break code of a release. -/
def codeOf (e : KeyEvent Key) : UInt8 := if e.down then e.key.code else e.key.code ||| 0x80

/-- The full scancode, the latest byte first. -/
def scancodeOf (e : KeyEvent Key) : List UInt8 := codeOf e :: if e.key.ext then [0xe0] else []

def bytesOf (evs : List (KeyEvent Key)) : List UInt8 := evs.flatMap scancodeOf

/-- The codes of a key say what the key does. -/
theorem key_codes : ∀ c : UInt8, 0 < c ∧ c < 0x80 ∧ c ≠ 0x60 → ∀ down : Bool,
    ctrlCode (if down then c else c ||| 0x80) = (if c = 0x1d then some down else none) ∧
    shiftCode (if down then c else c ||| 0x80) = if c = 0x2a ∨ c = 0x36 then some down else none :=
  byte_forall (by decide +kernel)

/-- The latest code that says something, over the scancodes of events. -/
theorem latest_bytesOf {code : UInt8 → Option Bool} {p : Key → Bool} (h0 : code 0xe0 = none)
    (h : ∀ e, code (codeOf e) = KeyEvent.about p e) (evs : List (KeyEvent Key)) :
    ((bytesOf evs).findSome? code).getD false = KeyEvent.latest p evs := by
  have hone : ∀ e, (scancodeOf e).findSome? code = KeyEvent.about p e := by
    intro e
    unfold scancodeOf
    rw [List.findSome?_cons, h e]
    cases KeyEvent.about p e with
    | some b => rfl
    | none => cases e.key.ext <;> simp [h0]
  induction evs with
  | nil => rfl
  | cons e evs ih =>
    rw [KeyEvent.latest_cons, ← ih]
    unfold bytesOf
    rw [List.flatMap_cons, List.findSome?_append, hone e]
    cases KeyEvent.about p e <;> rfl

theorem ctrlOn_bytesOf (evs : List (KeyEvent Key)) : ctrlOn (bytesOf evs) = KeyEvent.latest Key.isCtrl evs := by
  refine latest_bytesOf rfl (fun e => ?_) evs
  unfold codeOf KeyEvent.about
  rw [(key_codes e.key.code e.key.make e.down).1, Key.isCtrl_eq]
  simp

theorem shiftOn_bytesOf (evs : List (KeyEvent Key)) :
    shiftOn (bytesOf evs) = KeyEvent.latest Key.isShift evs := by
  refine latest_bytesOf rfl (fun e => ?_) evs
  unfold codeOf KeyEvent.about
  rw [(key_codes e.key.code e.key.make e.down).2, Key.isShift_eq]
  simp

/-- The flags say which keys are held. -/
structure ModifiersTrack (evs : List (KeyEvent Key)) (s : Kbd) : Prop where
  ctrl : s.ctrlStatus = (KeyEvent.held evs .ctrlL || KeyEvent.held evs .ctrlR)
  shift : s.shiftStatus = (KeyEvent.held evs .shiftL || KeyEvent.held evs .shiftR)
  alt : s.altStatus = (KeyEvent.held evs .altL || KeyEvent.held evs .altR)

/-- No alt key is held, and a ctrl or shift key that is held was not followed by a release of the other. -/
structure Unambiguous (evs : List (KeyEvent Key)) : Prop where
  ctrl : KeyEvent.held evs .ctrlL = true ∨ KeyEvent.held evs .ctrlR = true →
    KeyEvent.latest Key.isCtrl evs = true
  shift : KeyEvent.held evs .shiftL = true ∨ KeyEvent.held evs .shiftR = true →
    KeyEvent.latest Key.isShift evs = true
  alt : KeyEvent.held evs .altL = false ∧ KeyEvent.held evs .altR = false

/-- One flag for two keys is wrong only when one of them is released while the other is held. -/
theorem flag_iff (a b : Key) (evs : List (KeyEvent Key)) :
    KeyEvent.latest (fun k => k = a || k = b) evs = (KeyEvent.held evs a || KeyEvent.held evs b) ↔
      (KeyEvent.held evs a = true ∨ KeyEvent.held evs b = true →
        KeyEvent.latest (fun k => k = a || k = b) evs = true) := by
  constructor
  · intro h hheld
    rw [h, Bool.or_eq_true]
    exact hheld
  · intro h
    rw [Bool.eq_iff_iff, Bool.or_eq_true]
    refine ⟨fun hl => ?_, h⟩
    obtain ⟨k, hk, hheld⟩ := KeyEvent.held_of_latest hl
    rw [Bool.or_eq_true, decide_eq_true_eq, decide_eq_true_eq] at hk
    rcases hk with rfl | rfl
    · exact .inl hheld
    · exact .inr hheld

/-- The statics are those of the bytes read, whatever the other threads do. -/
theorem KbdSys.run_kbd {q : IoqId} {G : KbdSys → KbdEvent → Prop} (mainThread : Tid) (value : LockId → Nat)
    (es : List KbdEvent) (s : KbdSys) (hr : Runs (KbdSys.step q) G (KbdSys.boot mainThread value) es s) :
    s.kbd = kbdAfter (KbdSys.scancodes es) := by
  have h := Runs.invariant (fun s => s.kbd = kbdAfter s.codes) (fun s e s' h _ hs => ?_) es _ s rfl hr
  · have hcodes := KbdSys.run_codes es _ s hr
    rw [show (KbdSys.boot mainThread value).codes = [] from rfl, List.append_nil] at hcodes
    rw [h, hcodes]
  · rw [KbdSys.step_codes hs]
    cases e with
    | scancode c =>
      rw [(KbdSys.scancode_fed hs).1, h]
      rfl
    | kernel e =>
      rw [(KbdSys.kernel_events (G := fun _ _ => True) [e] s s' ⟨trivial, s', hs, rfl⟩).1, h]
      rfl

/-- **Modifiers.**  After the scancodes of any events the flags are right exactly in the unambiguous cases. -/
theorem modifiers_track_iff {q : IoqId} {G : KbdSys → KbdEvent → Prop} (mainThread : Tid) (value : LockId → Nat)
    (es : List KbdEvent) (s : KbdSys) (evs : List (KeyEvent Key))
    (hr : Runs (KbdSys.step q) G (KbdSys.boot mainThread value) es s) (hb : KbdSys.scancodes es = bytesOf evs) :
    ModifiersTrack evs s.kbd ↔ Unambiguous evs := by
  have hkbd := KbdSys.run_kbd mainThread value es s hr
  rw [hb] at hkbd
  have hctrl : s.kbd.ctrlStatus = KeyEvent.latest Key.isCtrl evs := by
    rw [hkbd, kbdAfter_ctrl, ctrlOn_bytesOf]
  have hshift : s.kbd.shiftStatus = KeyEvent.latest Key.isShift evs := by
    rw [hkbd, kbdAfter_shift, shiftOn_bytesOf]
  have halt : s.kbd.altStatus = false := by rw [hkbd, kbdAfter_alt]
  constructor
  · intro h
    refine ⟨?_, ?_, ?_⟩
    · exact (flag_iff _ _ evs).mp (hctrl.symm.trans h.ctrl)
    · exact (flag_iff _ _ evs).mp (hshift.symm.trans h.shift)
    · exact Bool.or_eq_false_iff.mp (h.alt.symm.trans halt)
  · intro h
    refine ⟨?_, ?_, ?_⟩
    · exact hctrl.trans ((flag_iff _ _ evs).mpr h.ctrl)
    · exact hshift.trans ((flag_iff _ _ evs).mpr h.shift)
    · rw [halt, h.alt.1, h.alt.2]
      rfl

/-- Right ctrl is pressed. -/
def ctrlEvents : List (KeyEvent Key) := [⟨.ctrlR, true⟩]

theorem modifiers_track_ctrl : ∃ es s, Runs (KbdSys.step 0) (KbdSys.Readers 0) (KbdSys.boot 0 fun _ => 1) es s ∧
    KbdSys.scancodes es = bytesOf ctrlEvents ∧ KeyEvent.held ctrlEvents .ctrlR = true ∧
    ModifiersTrack ctrlEvents s.kbd := by
  obtain ⟨s, s', h1, h2⟩ := KbdSys.enabled_runs [0xe0, 0x1d]
  have hr := (Runs.append _ _ _ s').mpr ⟨s, h1, h2⟩
  have hb : KbdSys.scancodes ([.kernel (.call .intrEnable)] ++ [0xe0, 0x1d].map .scancode) =
      bytesOf ctrlEvents := rfl
  refine ⟨_, s', hr, hb, by decide, (modifiers_track_iff 0 (fun _ => 1) _ s' ctrlEvents hr hb).mpr ?_⟩
  exact ⟨by decide, by decide, by decide⟩

/-- Left alt is pressed, and `alt_status` stays false. -/
theorem modifiers_lose_alt : ¬ ∀ (es : List KbdEvent) (s : KbdSys) (evs : List (KeyEvent Key)),
    Runs (KbdSys.step 0) (KbdSys.Readers 0) (KbdSys.boot 0 fun _ => 1) es s → KeyEvent.WellFormed evs →
    KbdSys.scancodes es = bytesOf evs → ModifiersTrack evs s.kbd := by
  intro hall
  obtain ⟨s, s', h1, h2⟩ := KbdSys.enabled_runs [0x38]
  have hr := (Runs.append _ _ _ s').mpr ⟨s, h1, h2⟩
  have h := (hall _ s' [⟨.altL, true⟩] hr ⟨by simp, trivial⟩ rfl).alt
  rw [KbdSys.run_kbd 0 (fun _ => 1) _ s' hr, kbdAfter_alt] at h
  revert h
  decide

end MyOs
