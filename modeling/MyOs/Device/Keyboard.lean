import MyOs.Theory.Word
import Mathlib.Tactic.Common

/-!
# device/keyboard.c: one scancode

`Kbd.decode` is `intr_keyboard_handler` from the byte it reads to the character it puts in `kbd_buf`.
`scancode` is a `uint8_t`, so `0xe000 | scancode` is the byte again, and no comparison with a 16-bit code is
ever true: a code after 0xe0 is decoded like the plain one.

    decode_eq    the modifiers are those of the latest codes, the character that of the table
    reference    the characters of a stream of codes, by its history
-/

namespace MyOs

def SHIFT_L_MAKE : Nat := 0x2a
def SHIFT_R_MAKE : Nat := 0x36
def ALT_L_MAKE : Nat := 0x38
def ALT_R_MAKE : Nat := 0xe038
def ALT_R_BREAK : Nat := 0xe0b8
def CTRL_L_MAKE : Nat := 0x1d
def CTRL_R_MAKE : Nat := 0xe01d
def CTRL_R_BREAK : Nat := 0xe09d
def CAPS_LOCK_MAKE : Nat := 0x3a

def ch (c : Char) : UInt8 := c.toUInt8

/-- A row per make code: the character alone and with shift.  Invisible characters are 0. -/
def keymap : List (UInt8 × UInt8) :=
  [(0, 0), (27, 27), (ch '1', ch '!'), (ch '2', ch '@'), (ch '3', ch '#'), (ch '4', ch '$'), (ch '5', ch '%'),
    (ch '6', ch '^'), (ch '7', ch '&'), (ch '8', ch '*'), (ch '9', ch '('), (ch '0', ch ')'), (ch '-', ch '_'),
    (ch '=', ch '+'), (8, 8), (9, 9),
    -- 0x10
    (ch 'q', ch 'Q'), (ch 'w', ch 'W'), (ch 'e', ch 'E'), (ch 'r', ch 'R'), (ch 't', ch 'T'), (ch 'y', ch 'Y'),
    (ch 'u', ch 'U'), (ch 'i', ch 'I'), (ch 'o', ch 'O'), (ch 'p', ch 'P'), (ch '[', 0x7b), (ch ']', 0x7d),
    (13, 13), (0, 0), (ch 'a', ch 'A'), (ch 's', ch 'S'),
    -- 0x20
    (ch 'd', ch 'D'), (ch 'f', ch 'F'), (ch 'g', ch 'G'), (ch 'h', ch 'H'), (ch 'j', ch 'J'), (ch 'k', ch 'K'),
    (ch 'l', ch 'L'), (ch ';', ch ':'), (0x27, 0x22), (0x60, ch '~'), (0, 0), (0x5c, ch '|'), (ch 'z', ch 'Z'),
    (ch 'x', ch 'X'), (ch 'c', ch 'C'), (ch 'v', ch 'V'),
    -- 0x30
    (ch 'b', ch 'B'), (ch 'n', ch 'N'), (ch 'm', ch 'M'), (ch ',', ch '<'), (ch '.', ch '>'), (ch '/', ch '?'),
    (0, 0), (ch '*', ch '*'), (0, 0), (ch ' ', ch ' '), (0, 0)]

/-- The static variables of keyboard.c. -/
structure Kbd where
  ctrlStatus : Bool
  shiftStatus : Bool
  altStatus : Bool
  capsLockStatus : Bool
  extScancode : Bool
  deriving DecidableEq, Repr

def Kbd.init : Kbd :=
  { ctrlStatus := false, shiftStatus := false, altStatus := false, capsLockStatus := false, extScancode := false }

/-- What the handler does besides: nothing, a character for `kbd_buf`, or `put_str("unknow key\n")`. -/
inductive KbdOut where
  | nothing
  | char (c : UInt8)
  | unknown
  deriving DecidableEq, Repr

/-! ## Algorithm -/

/-- The keys whose two symbols are told apart by shift alone. -/
def twoSymbols (scancode : Nat) : Bool :=
  scancode < 0x0e || scancode = 0x29 || scancode = 0x1a || scancode = 0x1b || scancode = 0x2b ||
    scancode = 0x27 || scancode = 0x28 || scancode = 0x33 || scancode = 0x34 || scancode = 0x35

def keyShift (scancode : Nat) (shiftDownLast capsLockLast : Bool) : Bool :=
  if twoSymbols scancode then
    if shiftDownLast then true else false
  else if shiftDownLast && capsLockLast then false
  else if shiftDownLast || capsLockLast then true
  else false

/-- The branch of break codes. -/
def Kbd.release (s : Kbd) (scancode : Nat) : Kbd :=
  let makeCode := scancode &&& 0xff7f
  if makeCode = CTRL_L_MAKE ∨ makeCode = CTRL_R_MAKE then { s with ctrlStatus := false }
  else if makeCode = SHIFT_L_MAKE ∨ makeCode = SHIFT_R_MAKE then { s with shiftStatus := false }
  else if makeCode = ALT_L_MAKE ∨ makeCode = ALT_R_MAKE then { s with altStatus := false }
  else s

/-- The end of the branch of make codes, for a key without a character. -/
def Kbd.press (s : Kbd) (scancode : Nat) : Kbd :=
  if scancode = CTRL_L_MAKE ∨ scancode = CTRL_R_MAKE then { s with ctrlStatus := true }
  else if scancode = SHIFT_L_MAKE ∨ scancode = SHIFT_R_MAKE then { s with shiftStatus := true }
  else if scancode = CAPS_LOCK_MAKE then { s with capsLockStatus := !s.capsLockStatus }
  else s

/-- `none` is a read outside `keymap`. -/
def Kbd.make (s : Kbd) (scancode : Nat) (shift : Bool) : Option (Kbd × KbdOut) :=
  let index := scancode &&& 0x00ff
  match keymap[index]? with
  | none => none
  | some row =>
    let curChar := if shift then row.2 else row.1
    if curChar ≠ 0 then some (s, .char curChar) else some (s.press index, .nothing)

def Kbd.decode (s : Kbd) (byte : UInt8) : Option (Kbd × KbdOut) :=
  let shiftDownLast := s.shiftStatus
  let capsLockLast := s.capsLockStatus
  if byte = 0xe0 then some ({ s with extScancode := true }, .nothing)
  else
    let scancode : UInt8 := if s.extScancode then UInt8.ofNat (0xe000 ||| byte.toNat) else byte
    let s := if s.extScancode then { s with extScancode := false } else s
    let scancode := scancode.toNat
    if scancode &&& 0x0080 ≠ 0 then some (s.release scancode, .nothing)
    else if (0x00 < scancode ∧ scancode < 0x3b) ∨ scancode = ALT_R_MAKE ∨ scancode = CTRL_R_MAKE then
      s.make scancode (keyShift scancode shiftDownLast capsLockLast)
    else some (s, .unknown)

/-! ## What a code does -/

/-- What a code says about the shift keys: pressed, released, or nothing. -/
def shiftCode (c : UInt8) : Option Bool :=
  if c = 0x2a ∨ c = 0x36 then some true else if c = 0xaa ∨ c = 0xb6 then some false else none

def ctrlCode (c : UInt8) : Option Bool :=
  if c = 0x1d then some true else if c = 0x9d then some false else none

/-- No make code sets `alt_status`. -/
def altCode (c : UInt8) : Option Bool := if c = 0xb8 then some false else none

def isModifier (c : UInt8) : Bool := c = 0x1d || c = 0x2a || c = 0x36 || c = 0x38

/-- The key has a character. -/
def isCharKey (c : UInt8) : Bool := 0 < c && c < 0x3a && !isModifier c

def row (c : UInt8) : UInt8 × UInt8 := keymap.getD c.toNat (0, 0)

/-- The statics after a byte. -/
def Kbd.next (s : Kbd) (c : UInt8) : Kbd where
  ctrlStatus := (ctrlCode c).getD s.ctrlStatus
  shiftStatus := (shiftCode c).getD s.shiftStatus
  altStatus := (altCode c).getD s.altStatus
  capsLockStatus := if c = 0x3a then !s.capsLockStatus else s.capsLockStatus
  extScancode := c = 0xe0

def Kbd.out (s : Kbd) (c : UInt8) : KbdOut :=
  if isCharKey c then .char (if keyShift c.toNat s.shiftStatus s.capsLockStatus then (row c).2 else (row c).1)
  else if c = 0 ∨ 0x3a < c ∧ c < 0x80 then .unknown
  else .nothing

/-! ## The table of codes -/

/-- A statement about bytes, checked for each of them. -/
theorem byte_forall {P : UInt8 → Prop} (h : ∀ n : Fin 256, P (UInt8.ofNat n)) (c : UInt8) : P c := by
  have hc := h ⟨c.toNat, c.toNat_lt⟩
  rwa [UInt8.ofNat_toNat] at hc

/-- The prefix is lost. -/
theorem ofNat_prefixed (c : UInt8) : UInt8.ofNat (0xe000 ||| c.toNat) = c := by
  have hc := c.toNat_lt
  apply UInt8.toNat_inj.mp
  rw [UInt8.toNat_ofNat', Word.or_low_eq_add 0xe000 c.toNat 13 (by decide) (by omega)]
  omega

/-- The tests of the break branch. -/
theorem break_codes : ∀ c : UInt8, c.toNat &&& 0x0080 ≠ 0 →
    ((c.toNat &&& 0xff7f = CTRL_L_MAKE ∨ c.toNat &&& 0xff7f = CTRL_R_MAKE) ↔ c = 0x9d) ∧
    ((c.toNat &&& 0xff7f = SHIFT_L_MAKE ∨ c.toNat &&& 0xff7f = SHIFT_R_MAKE) ↔ c = 0xaa ∨ c = 0xb6) ∧
    ((c.toNat &&& 0xff7f = ALT_L_MAKE ∨ c.toNat &&& 0xff7f = ALT_R_MAKE) ↔ c = 0xb8) ∧
    (c ≠ 0x1d ∧ c ≠ 0x2a ∧ c ≠ 0x36 ∧ c ≠ 0x3a) ∧ isCharKey c = false ∧
    ¬ (c = 0 ∨ 0x3a < c ∧ c < 0x80) :=
  byte_forall (by decide +kernel)

/-- The tests of the make branch, and the row they lead to. -/
theorem make_codes : ∀ c : UInt8, c.toNat &&& 0x0080 = 0 →
    ((0x00 < c.toNat ∧ c.toNat < 0x3b ∨ c.toNat = ALT_R_MAKE ∨ c.toNat = CTRL_R_MAKE) ↔
      isCharKey c = true ∨ isModifier c = true ∨ c = 0x3a) ∧
    (isCharKey c = true ∨ isModifier c = true ∨ c = 0x3a ↔ ¬ (c = 0 ∨ 0x3a < c ∧ c < 0x80)) ∧
    c.toNat &&& 0x00ff = c.toNat ∧ (c ≠ 0xe0 ∧ c ≠ 0x9d ∧ c ≠ 0xaa ∧ c ≠ 0xb6 ∧ c ≠ 0xb8) :=
  byte_forall (by decide +kernel)

/-- The rows of characters have two, the other rows none. -/
theorem keymap_rows : ∀ c : UInt8, isCharKey c = true ∨ isModifier c = true ∨ c = 0x3a →
    keymap[c.toNat]? = some (row c) ∧ (isCharKey c = true → (row c).1 ≠ 0 ∧ (row c).2 ≠ 0) ∧
    (isCharKey c = false → row c = (0, 0)) :=
  byte_forall (by decide +kernel)

/-- The codes without a character set one flag each, alt none. -/
theorem press_codes : ∀ c : UInt8,
    ((c.toNat = CTRL_L_MAKE ∨ c.toNat = CTRL_R_MAKE) ↔ c = 0x1d) ∧
    ((c.toNat = SHIFT_L_MAKE ∨ c.toNat = SHIFT_R_MAKE) ↔ c = 0x2a ∨ c = 0x36) ∧
    (c.toNat = CAPS_LOCK_MAKE ↔ c = 0x3a) ∧
    (isCharKey c = true → isModifier c = false ∧ c ≠ 0x3a) :=
  byte_forall (by decide +kernel)

/-! ## One byte -/

section
variable (s : Kbd) (c : UInt8)

theorem release_eq (h : c.toNat &&& 0x0080 ≠ 0) (hc : c ≠ 0xe0) :
    Kbd.release { s with extScancode := false } c.toNat = s.next c := by
  obtain ⟨hctrl, hshift, halt, ⟨h1, h2, h3, h4⟩, -, -⟩ := break_codes c h
  unfold Kbd.release Kbd.next ctrlCode shiftCode altCode
  simp only [hctrl, hshift, halt, h1, h2, h3, h4, hc, or_false, if_false, decide_false]
  by_cases hl : c = 0x9d
  · simp [hl]
  · by_cases hs : c = 0xaa ∨ c = 0xb6
    · rcases hs with rfl | rfl <;> simp
    · by_cases ha : c = 0xb8
      · simp [ha]
      · simp [hl, hs, ha]

theorem press_eq (h : c.toNat &&& 0x0080 = 0) :
    Kbd.press { s with extScancode := false } c.toNat = s.next c := by
  obtain ⟨-, -, -, h0, h1, h2, h3, h4⟩ := make_codes c h
  obtain ⟨hctrl, hshift, hcaps, -⟩ := press_codes c
  unfold Kbd.press Kbd.next ctrlCode shiftCode altCode
  simp only [hctrl, hshift, hcaps, h0, h1, h2, h3, h4, or_false, if_false, decide_false]
  by_cases hc : c = 0x1d
  · simp [hc]
  · by_cases hs : c = 0x2a ∨ c = 0x36
    · rcases hs with rfl | rfl <;> simp
    · by_cases hl : c = 0x3a
      · simp [hl]
      · simp [hc, hs, hl]

/-- A make code of no modifier leaves the flags as they are. -/
theorem next_plain (hm : isModifier c = false) (hl : c ≠ 0x3a) (hc : c.toNat &&& 0x0080 = 0) :
    s.next c = { s with extScancode := false } := by
  obtain ⟨-, -, -, h0, h1, h2, h3, h4⟩ := make_codes c hc
  unfold isModifier at hm
  simp only [Bool.or_eq_false_iff, decide_eq_false_iff_not] at hm
  obtain ⟨⟨⟨h5, h6⟩, h7⟩, -⟩ := hm
  unfold Kbd.next ctrlCode shiftCode altCode
  simp [h0, h1, h2, h3, h4, h5, h6, h7, hl]

/-- **One byte.**  Whether 0xe0 came before it makes no difference, and the table is never read outside. -/
theorem decode_eq : s.decode c = some (s.next c, s.out c) := by
  have hs : (if s.extScancode then { s with extScancode := false } else s) = { s with extScancode := false } := by
    obtain ⟨_, _, _, _, ext⟩ := s
    cases ext <;> rfl
  unfold Kbd.decode
  by_cases hc : c = 0xe0
  · rw [if_pos hc, hc]
    rfl
  simp only [if_neg hc, ofNat_prefixed, ite_self, hs]
  by_cases hbreak : c.toNat &&& 0x0080 = 0
  · obtain ⟨hmake, hnot, hindex, -⟩ := make_codes c hbreak
    rw [if_neg (not_not_intro hbreak)]
    simp only [hmake]
    by_cases hk : isCharKey c = true ∨ isModifier c = true ∨ c = 0x3a
    · obtain ⟨hrow, hchar, hnone⟩ := keymap_rows c hk
      rw [if_pos hk]
      unfold Kbd.make Kbd.out
      simp only [hindex, hrow]
      cases hck : isCharKey c with
      | true =>
        obtain ⟨h1, h2⟩ := hchar hck
        obtain ⟨hm, hl⟩ := (press_codes c).2.2.2 hck
        have hne : (if keyShift c.toNat s.shiftStatus s.capsLockStatus then (row c).2 else (row c).1) ≠ 0 := by
          split
          · exact h2
          · exact h1
        rw [if_pos hne, next_plain s c hm hl hbreak, if_pos rfl]
      | false =>
        rw [hnone hck, ite_self, if_neg (not_not_intro rfl), press_eq s c hbreak, if_neg (by decide),
          if_neg (hnot.mp hk)]
    · have hun := not_not.mp fun h => hk (hnot.mpr h)
      have hm : isModifier c = false := by
        by_contra h
        exact hk (.inr (.inl (by simpa using h)))
      rw [if_neg hk, next_plain s c hm (fun h => hk (.inr (.inr h))) hbreak]
      unfold Kbd.out
      rw [if_neg fun h => hk (.inl h), if_pos hun]
  · rw [if_pos hbreak, release_eq s c hbreak hc]
    obtain ⟨-, -, -, -, hck, hun⟩ := break_codes c hbreak
    unfold Kbd.out
    rw [hck, if_neg (by decide), if_neg hun]

end

/-! ## A stream of bytes, the latest first -/

/-- The statics after the bytes `cs`. -/
def kbdAfter : List UInt8 → Kbd
  | [] => Kbd.init
  | c :: cs => (kbdAfter cs).next c

/-- The latest shift code was a make code. -/
def shiftOn (cs : List UInt8) : Bool := (cs.findSome? shiftCode).getD false

def ctrlOn (cs : List UInt8) : Bool := (cs.findSome? ctrlCode).getD false

/-- Caps lock was pressed an odd number of times. -/
def capsOn (cs : List UInt8) : Bool := cs.count 0x3a % 2 = 1

/-- The key of a letter. -/
def isLetter (c : UInt8) : Bool := ch 'a' ≤ (row c).1 && (row c).1 ≤ ch 'z'

/-- What a byte after `cs` stands for: letters look at shift and caps lock, the other keys at shift alone. -/
def symbol (cs : List UInt8) (c : UInt8) : Option UInt8 :=
  if isCharKey c then
    let shift := if isLetter c then xor (shiftOn cs) (capsOn cs) else shiftOn cs
    some (if shift then (row c).2 else (row c).1)
  else none

/-- The characters of a stream of bytes, in the order they are typed. -/
def reference : List UInt8 → List UInt8
  | [] => []
  | c :: cs => reference cs ++ (symbol cs c).toList

def KbdOut.toChar : KbdOut → Option UInt8
  | .char c => some c
  | _ => none

/-- The list of two-symbol keys is right: the keys that are neither in it nor letters have one symbol. -/
theorem keyShift_row : ∀ c : UInt8, isCharKey c = true → ∀ shift caps : Bool,
    (if keyShift c.toNat shift caps then (row c).2 else (row c).1) =
      if (if isLetter c then xor shift caps else shift) then (row c).2 else (row c).1 :=
  byte_forall (by decide +kernel)

theorem kbdAfter_shift (cs : List UInt8) : (kbdAfter cs).shiftStatus = shiftOn cs := by
  induction cs with
  | nil => rfl
  | cons c cs ih =>
    unfold shiftOn
    rw [kbdAfter, Kbd.next, List.findSome?_cons, ih]
    cases shiftCode c <;> rfl

theorem kbdAfter_ctrl (cs : List UInt8) : (kbdAfter cs).ctrlStatus = ctrlOn cs := by
  induction cs with
  | nil => rfl
  | cons c cs ih =>
    unfold ctrlOn
    rw [kbdAfter, Kbd.next, List.findSome?_cons, ih]
    cases ctrlCode c <;> rfl

theorem kbdAfter_caps (cs : List UInt8) : (kbdAfter cs).capsLockStatus = capsOn cs := by
  induction cs with
  | nil => rfl
  | cons c cs ih =>
    unfold capsOn at ih ⊢
    rw [kbdAfter, Kbd.next, ih]
    by_cases hc : c = 0x3a
    · rw [if_pos hc, hc, List.count_cons_self]
      by_cases hp : cs.count 0x3a % 2 = 1
      · rw [decide_eq_true hp]
        simp
        omega
      · rw [decide_eq_false hp]
        simp
        omega
    · rw [if_neg hc, List.count_cons_of_ne hc]

/-- `alt_status` is never set. -/
theorem kbdAfter_alt (cs : List UInt8) : (kbdAfter cs).altStatus = false := by
  induction cs with
  | nil => rfl
  | cons c cs ih =>
    rw [kbdAfter, Kbd.next, ih]
    unfold altCode
    split <;> rfl

/-- The handler produces the character the history asks for. -/
theorem out_kbdAfter (cs : List UInt8) (c : UInt8) : ((kbdAfter cs).out c).toChar = symbol cs c := by
  unfold Kbd.out symbol
  cases hc : isCharKey c with
  | true =>
    rw [if_pos rfl, if_pos rfl, kbdAfter_shift, kbdAfter_caps]
    exact congrArg some (keyShift_row c hc _ _)
  | false =>
    simp only [Bool.false_eq_true, if_false]
    split <;> rfl

end MyOs
