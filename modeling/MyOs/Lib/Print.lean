import MyOs.Theory.Bytes
import MyOs.Theory.Terminal

/-!
# lib/kernel/print.S: put_char and put_str

The screen is the memory of the video segment and the cursor register of the CRT controller, two bytes behind an
index port.  `put_char` computes the new cursor in `bx`, 16 bits; its labels are definitions, and one that the
code falls into is the last call of the one before.

    putChar_shows        one character, on the screen and on the terminal
    putStr_terminal      a string does on the screen what it does on the terminal
    cursor_stays_iff     the cursor stays on the screen unless a backspace comes in the first cell
-/

namespace MyOs

/-- The video segment and the CRT controller. -/
structure Vga where
  mem : Bytes
  index : UInt8
  crtc : UInt8 → UInt8
  /-- The offsets written so far. -/
  written : List Nat

namespace Vga

/-- `out dx, al` -/
def outb (v : Vga) (port : Nat) (b : UInt8) : Vga :=
  if port = 0x03d4 then { v with index := b }
  else if port = 0x03d5 then { v with crtc := Function.update v.crtc v.index b }
  else v

/-- `in al, dx` -/
def inb (v : Vga) (port : Nat) : UInt8 := if port = 0x03d5 then v.crtc v.index else v.index

def store (v : Vga) (n off x : Nat) : Vga :=
  { v with mem := v.mem.write n off x, written := List.range' off n ++ v.written }

/-- A `mov` of `n` bytes to `gs`, whose limit is 0x7fff; beyond it is a general protection fault. -/
def movGs (v : Vga) (n off x : Nat) : Option Vga := if off + n ≤ 0x8000 then some (v.store n off x) else none

/-- The cursor on the screen. -/
def cursor (v : Vga) : Nat := 256 * (v.crtc 0x0e).toNat + (v.crtc 0x0f).toNat

end Vga

/-! ## Algorithm -/

def getCursor (v : Vga) : BitVec 16 × Vga :=
  let v := v.outb 0x03d4 0x0e
  let ah := v.inb 0x03d5
  let v := v.outb 0x03d4 0x0f
  let al := v.inb 0x03d5
  (BitVec.ofNat 16 (256 * ah.toNat + al.toNat), v)

def setCursor (v : Vga) (bx : BitVec 16) : Vga :=
  let v := v.outb 0x03d4 0x0e
  let v := v.outb 0x03d5 (UInt8.ofNat (bx.toNat / 256))
  let v := v.outb 0x03d4 0x0f
  v.outb 0x03d5 (UInt8.ofNat bx.toNat)

/-- `rep movsd` through the flat segments, by offsets from 0xc00b8000. -/
def repMovsd : Nat → Nat → Nat → Vga → Vga
  | 0, _, _, v => v
  | ecx + 1, esi, edi, v => repMovsd ecx (esi + 4) (edi + 4) (v.store 4 edi (v.mem.read 4 esi))

/-- `.cls` -/
def cls : Nat → Nat → Vga → Option Vga
  | 0, _, v => some v
  | ecx + 1, ebx, v => do
    let v ← v.movGs 2 ebx 0x0720
    cls ecx (ebx + 2) v

def rollScreen (v : Vga) : Option Vga := do
  let v := repMovsd 960 (0xc00b80a0 - 0xc00b8000) (0xc00b8000 - 0xc00b8000) v
  let v ← cls 80 3840 v
  pure (setCursor v 1920)

/-- `.is_line_feed` and `.is_carriage_return`. -/
def isLineFeed (v : Vga) (bx : BitVec 16) : Option Vga :=
  let dx := bx % 80
  let bx := bx - dx
  let bx := bx + 80
  if bx.slt 2000 then some (setCursor v bx) else rollScreen v

def isBackspace (v : Vga) (bx : BitVec 16) : Option Vga := do
  let bx := bx - 1
  let bx := bx <<< 1
  let v ← v.movGs 1 bx.toNat 0x20
  let bx := bx + 1
  let v ← v.movGs 1 bx.toNat 0x07
  let bx := bx >>> 1
  pure (setCursor v bx)

def putOther (v : Vga) (bx : BitVec 16) (cl : UInt8) : Option Vga := do
  let bx := bx <<< 1
  let v ← v.movGs 1 bx.toNat cl.toNat
  let bx := bx + 1
  let v ← v.movGs 1 bx.toNat 0x07
  let bx := bx >>> 1
  let bx := bx + 1
  if bx.slt 2000 then pure (setCursor v bx) else isLineFeed v bx

def putChar (v : Vga) (cl : UInt8) : Option Vga :=
  let (bx, v) := getCursor v
  if cl = 0xd then isLineFeed v bx
  else if cl = 0xa then isLineFeed v bx
  else if cl = 0x8 then isBackspace v bx
  else putOther v bx cl

/-- `put_str` on the bytes from `ebx` on; the end of the list stands for a 0. -/
def putStr (v : Vga) : List UInt8 → Option Vga
  | [] => some v
  | cl :: str =>
    if cl = 0 then some v
    else do
      let v ← putChar v cl
      putStr v str

/-! ## The terminal -/

/-- A space in light grey on black, 0x0720. -/
def blank : UInt8 × UInt8 := (0x20, 0x07)

/-- 80x25 cells, each with its character and its attribute. -/
abbrev Screen := Terminal 80 25 (UInt8 × UInt8)

def Screen.step (t : Screen) (c : UInt8) : Screen :=
  if c = 0x0d ∨ c = 0x0a then t.newline blank
  else if c = 0x08 then t.erase blank
  else t.put blank (c, 0x07)

/-- No backspace comes while the cursor is in the first cell. -/
def Screen.NoUnderflow (t : Screen) : List UInt8 → Prop
  | [] => True
  | c :: s => ¬ (c = 0x08 ∧ t.pos = 0) ∧ (t.step c).NoUnderflow s

namespace Vga

/-- The terminal that the screen shows. -/
def terminal (v : Vga) (h : v.cursor < 2000) : Screen where
  cell r c := (v.mem (2 * Terminal.place 80 r c), v.mem (2 * Terminal.place 80 r c + 1))
  row := ⟨v.cursor / 80, by omega⟩
  col := ⟨v.cursor % 80, by omega⟩

structure ShowsCells (v : Vga) (t : Screen) : Prop where
  char : ∀ (r : Fin 25) (c : Fin 80), v.mem (2 * Terminal.place 80 r c) = (t.cell r c).1
  attr : ∀ (r : Fin 25) (c : Fin 80), v.mem (2 * Terminal.place 80 r c + 1) = (t.cell r c).2

structure Shows (v : Vga) (t : Screen) : Prop extends ShowsCells v t where
  cursor : v.cursor = t.pos

/-- What was written to get from `v` to `v'` lies on the screen. -/
def Within (v v' : Vga) : Prop := ∀ a ∈ v'.written, a ∈ v.written ∨ a < 4000

theorem Within.refl (v : Vga) : v.Within v := fun _ ha => .inl ha

theorem Within.trans {v1 v2 v3 : Vga} (h1 : v1.Within v2) (h2 : v2.Within v3) : v1.Within v3 := by
  intro a ha
  rcases h2 a ha with ha | ha
  · exact h1 a ha
  · exact .inr ha

theorem Within.store (v : Vga) {n off : Nat} (x : Nat) (h : off + n ≤ 4000) : v.Within (v.store n off x) := by
  intro a ha
  have ha' : a ∈ List.range' off n ++ v.written := ha
  rw [List.mem_append, List.mem_range'_1] at ha'
  rcases ha' with ha' | ha'
  · exact .inr (by omega)
  · exact .inl ha'

theorem shows_terminal (v : Vga) (h : v.cursor < 2000) : v.Shows (v.terminal h) := by
  refine ⟨⟨fun r c => rfl, fun r c => rfl⟩, ?_⟩
  show v.cursor = 80 * (v.cursor / 80) + v.cursor % 80
  omega

theorem Shows.cursor_lt {v : Vga} {t : Screen} (h : v.Shows t) : v.cursor < 2000 := by
  have := t.pos_lt
  rw [h.cursor]
  omega

theorem Shows.terminal_eq {v : Vga} {t : Screen} (h : v.Shows t) (hc : v.cursor < 2000) : v.terminal hc = t := by
  obtain ⟨cell, row, col⟩ := t
  have hcur : v.cursor = 80 * row.val + col.val := h.cursor
  have h1 := row.isLt
  have h2 := col.isLt
  unfold terminal
  congr 1
  · funext r c
    exact Prod.ext (h.char r c) (h.attr r c)
  · apply Fin.ext
    show v.cursor / 80 = row.val
    omega
  · apply Fin.ext
    show v.cursor % 80 = col.val
    omega

end Vga

/-! ## The cursor register -/

section
variable (v : Vga) (bx : BitVec 16)

theorem getCursor_eq : getCursor v = (BitVec.ofNat 16 v.cursor, { v with index := 0x0f }) := rfl

theorem setCursor_cursor : (setCursor v bx).cursor = bx.toNat := by
  have hlt := bx.isLt
  have hne : (0x0e : UInt8) ≠ 0x0f := by decide
  have hcrtc : (setCursor v bx).crtc = Function.update (Function.update v.crtc 0x0e (UInt8.ofNat (bx.toNat / 256)))
    0x0f (UInt8.ofNat bx.toNat) := rfl
  unfold Vga.cursor
  rw [hcrtc, Function.update_self, Function.update_of_ne hne, Function.update_self, UInt8.toNat_ofNat',
    UInt8.toNat_ofNat']
  omega

theorem setCursor_mem : (setCursor v bx).mem = v.mem := rfl

theorem setCursor_within : v.Within (setCursor v bx) := fun _ ha => .inl ha

end

/-! ## Scrolling -/

/-- What the copy leaves: forwards, from a place further on. -/
theorem repMovsd_mem (d : Nat) (hd : 4 ≤ d) : ∀ (n e : Nat) (v : Vga) (a : Nat),
    (repMovsd n (e + d) e v).mem a = if e ≤ a ∧ a < e + 4 * n then v.mem (a + d) else v.mem a := by
  intro n
  induction n with
  | zero =>
    intro e v a
    rw [repMovsd, if_neg (by omega)]
  | succ n ih =>
    intro e v a
    rw [repMovsd, show e + d + 4 = e + 4 + d by omega, ih (e + 4)]
    show (if _ then (v.mem.write 4 e _) (a + d) else (v.mem.write 4 e _) a) = _
    by_cases h1 : e + 4 ≤ a ∧ a < e + 4 + 4 * n
    · rw [if_pos h1, if_pos (by omega), Bytes.write_out _ _ _ _ _ (by omega)]
    · rw [if_neg h1]
      by_cases h2 : e ≤ a ∧ a < e + 4
      · obtain ⟨i, rfl⟩ := Nat.exists_eq_add_of_le h2.1
        rw [if_pos (by omega), Bytes.write_read _ _ _ _ _ _ (by omega)]
        congr 1
        omega
      · rw [if_neg (by omega), Bytes.write_out _ _ _ _ _ (by omega)]

theorem repMovsd_keeps : ∀ (n s e : Nat) (v : Vga), e + 4 * n ≤ 4000 →
    v.Within (repMovsd n s e v) ∧ (repMovsd n s e v).crtc = v.crtc := by
  intro n
  induction n with
  | zero => exact fun s e v _ => ⟨Vga.Within.refl v, rfl⟩
  | succ n ih =>
    intro s e v h
    obtain ⟨h1, h2⟩ := ih (s + 4) (e + 4) (v.store 4 e (v.mem.read 4 s)) (by omega)
    exact ⟨(Vga.Within.store v _ (by omega)).trans h1, h2⟩

/-- The bytes of a blank cell. -/
theorem write_blank (m : Bytes) (e a : Nat) : m.write 2 e 0x0720 a =
    if a = e then 0x20 else if a = e + 1 then 0x07 else m a := by
  simp only [Bytes.write]
  by_cases h1 : a = e + 1
  · subst h1
    simp
  · by_cases h0 : a = e
    · subst h0
      simp
    · simp [h0, h1]

theorem cls_ok : ∀ (n e : Nat) (v : Vga), e % 2 = 0 → e + 2 * n ≤ 4000 → ∃ v', cls n e v = some v' ∧
    v.Within v' ∧ v'.crtc = v.crtc ∧
    ∀ a, v'.mem a = if e ≤ a ∧ a < e + 2 * n then (if a % 2 = 0 then 0x20 else 0x07) else v.mem a := by
  intro n
  induction n with
  | zero =>
    intro e v _ _
    refine ⟨v, rfl, Vga.Within.refl v, rfl, fun a => ?_⟩
    rw [if_neg (by omega)]
  | succ n ih =>
    intro e v h2 h
    obtain ⟨v', hcls, hw, hcrtc, hmem⟩ := ih (e + 2) (v.store 2 e 0x0720) (by omega) (by omega)
    refine ⟨v', ?_, (Vga.Within.store v _ (by omega)).trans hw, hcrtc, fun a => ?_⟩
    · rw [cls, Vga.movGs, if_pos (by omega)]
      exact hcls
    · rw [hmem]
      by_cases h1 : e + 2 ≤ a ∧ a < e + 2 + 2 * n
      · rw [if_pos h1, if_pos (show e ≤ a ∧ a < e + 2 * (n + 1) by omega)]
      · rw [if_neg h1]
        show v.mem.write 2 e 0x0720 a = _
        rw [write_blank]
        by_cases h3 : a = e
        · rw [if_pos h3, if_pos (by omega), if_pos (by omega)]
        · by_cases h4 : a = e + 1
          · rw [if_neg h3, if_pos h4, if_pos (by omega), if_neg (by omega)]
          · rw [if_neg h3, if_neg h4, if_neg (by omega)]

/-- **Scrolling**, cell by cell. -/
theorem rollScreen_ok (v : Vga) : ∃ v', rollScreen v = some v' ∧ v.Within v' ∧ v'.cursor = 1920 ∧
    (∀ a, a < 3840 → v'.mem a = v.mem (a + 160)) ∧
    ∀ a, 3840 ≤ a → a < 4000 → v'.mem a = if a % 2 = 0 then 0x20 else 0x07 := by
  obtain ⟨hw1, -⟩ := repMovsd_keeps 960 (0 + 160) 0 v (by omega)
  obtain ⟨v', hcls, hw2, -, hmem⟩ := cls_ok 80 3840 (repMovsd 960 (0 + 160) 0 v) (by omega) (by omega)
  refine ⟨setCursor v' 1920, ?_, hw1.trans hw2, setCursor_cursor v' 1920, ?_, ?_⟩
  · unfold rollScreen
    show (cls 80 3840 (repMovsd 960 (0 + 160) 0 v)).bind _ = _
    rw [hcls]
    rfl
  · intro a ha
    rw [setCursor_mem, hmem, if_neg (by omega), repMovsd_mem 160 (by omega), if_pos (by omega)]
  · intro a h1 h2
    rw [setCursor_mem, hmem, if_pos (by omega)]

/-! ## One character -/

/-- `jl` compares signed, which is no difference below 2^15. -/
theorem slt_2000 (bx : BitVec 16) (h : bx.toNat < 2 ^ 15) : bx.slt 2000 = decide (bx.toNat < 2000) := by
  have hint := BitVec.toInt_eq_toNat_of_lt (x := bx) (by omega)
  rw [BitVec.slt, hint]
  have h2000 : (2000 : BitVec 16).toInt = 2000 := rfl
  rw [h2000, decide_eq_decide]
  omega

section
variable {v : Vga} {t : Screen} {bx : BitVec 16}

/-- The two stores at the cursor. -/
def Vga.putCell (v : Vga) (p : Nat) (c : UInt8) : Vga := (v.store 1 (2 * p) c.toNat).store 1 (2 * p + 1) 0x07

theorem putCell_mem (v : Vga) (p : Nat) (c : UInt8) (a : Nat) : (v.putCell p c).mem a =
    if a = 2 * p + 1 then 0x07 else if a = 2 * p then c else v.mem a := by
  have hmem : (v.putCell p c).mem = Function.update (Function.update v.mem (2 * p) (UInt8.ofNat c.toNat))
    (2 * p + 1) 0x07 := rfl
  rw [hmem, UInt8.ofNat_toNat]
  by_cases h1 : a = 2 * p + 1
  · rw [h1, Function.update_self, if_pos rfl]
  · rw [Function.update_of_ne h1, if_neg h1]
    by_cases h0 : a = 2 * p
    · rw [h0, Function.update_self, if_pos rfl]
    · rw [Function.update_of_ne h0, if_neg h0]

theorem putCell_within (v : Vga) {p : Nat} (c : UInt8) (hp : p < 2000) : v.Within (v.putCell p c) :=
  (Vga.Within.store v _ (by omega)).trans (Vga.Within.store _ _ (by omega))

/-- The terminal writes the same cell. -/
theorem putCell_shows (h : v.ShowsCells t) (c : UInt8) : (v.putCell t.pos c).ShowsCells (t.write (c, 0x07)) := by
  refine ⟨fun r k => ?_, fun r k => ?_⟩
  · rw [putCell_mem, t.write_cell, if_neg (by omega)]
    by_cases hp : Terminal.place 80 r k = t.pos
    · rw [if_pos (by omega), if_pos hp]
    · rw [if_neg (by omega), if_neg hp]
      exact h.char r k
  · rw [putCell_mem, t.write_cell]
    by_cases hp : Terminal.place 80 r k = t.pos
    · rw [if_pos (by omega), if_pos hp]
    · rw [if_neg (by omega), if_neg (by omega), if_neg hp]
      exact h.attr r k

/-- The cursor doubled, and back. -/
theorem doubled (hb : bx.toNat < 2000) : (bx <<< 1).toNat = 2 * bx.toNat ∧
    (bx <<< 1 + 1).toNat = 2 * bx.toNat + 1 ∧ (bx <<< 1 + 1) >>> 1 = bx := by
  have hshl : (bx <<< 1).toNat = 2 * bx.toNat := by
    rw [BitVec.toNat_shiftLeft, Nat.shiftLeft_eq]
    omega
  have hinc : (bx <<< 1 + 1).toNat = 2 * bx.toNat + 1 := by
    rw [BitVec.toNat_add, hshl, show (1 : BitVec 16).toNat = 1 from rfl]
    omega
  refine ⟨hshl, hinc, ?_⟩
  apply BitVec.eq_of_toNat_eq
  rw [BitVec.toNat_ushiftRight, hinc, Nat.shiftRight_eq_div_pow]
  omega

theorem isBackspace_eq (v : Vga) (bx : BitVec 16) (hb : (bx - 1).toNat < 2000) :
    isBackspace v bx = some (setCursor (v.putCell (bx - 1).toNat 0x20) (bx - 1)) := by
  obtain ⟨h1, h2, h3⟩ := doubled hb
  unfold isBackspace Vga.movGs
  dsimp only
  rw [h1, h2, h3, if_pos (by omega)]
  show (if _ then _ else _ : Option Vga).bind _ = _
  rw [if_pos (by omega)]
  rfl

theorem putOther_eq (v : Vga) (bx : BitVec 16) (c : UInt8) (hb : bx.toNat < 2000) : putOther v bx c =
    if (bx + 1).slt 2000 then some (setCursor (v.putCell bx.toNat c) (bx + 1))
    else isLineFeed (v.putCell bx.toNat c) (bx + 1) := by
  obtain ⟨h1, h2, h3⟩ := doubled hb
  unfold putOther Vga.movGs
  dsimp only
  rw [h1, h2, h3, if_pos (by omega)]
  show (if _ then _ else _ : Option Vga).bind _ = _
  rw [if_pos (by omega)]
  rfl

/-- From any cell of its line, and from just past the last cell, the cursor goes to the next line. -/
theorem isLineFeed_shows (h : v.ShowsCells t) (hle : bx.toNat ≤ 2000) (hrow : min (bx.toNat / 80) 24 = t.row.val) :
    ∃ v', isLineFeed v bx = some v' ∧ v'.Shows (t.newline blank) ∧ v.Within v' := by
  have hnext : (bx - bx % 80 + 80).toNat = bx.toNat / 80 * 80 + 80 := by
    rw [BitVec.toNat_add, BitVec.toNat_sub, BitVec.toNat_umod, show (80 : BitVec 16).toNat = 80 from rfl]
    omega
  have hlast := t.row.isLt
  have hcode : isLineFeed v bx =
      if (bx - bx % 80 + 80).slt 2000 then some (setCursor v (bx - bx % 80 + 80)) else rollScreen v := rfl
  rw [hcode, slt_2000 _ (by omega), hnext]
  by_cases hr : t.row.val + 1 < 25
  · rw [decide_eq_true (by omega), if_pos rfl]
    refine ⟨_, rfl, ⟨⟨?_, ?_⟩, ?_⟩, setCursor_within v _⟩
    · intro r c
      rw [t.newline_cell_above blank hr, setCursor_mem]
      exact h.char r c
    · intro r c
      rw [t.newline_cell_above blank hr, setCursor_mem]
      exact h.attr r c
    · rw [t.newline_pos_above blank hr, setCursor_cursor, hnext]
      omega
  · rw [decide_eq_false (by omega), if_neg (by decide)]
    obtain ⟨v', hroll, hw, hcur, hup, hclear⟩ := rollScreen_ok v
    have hplace : ∀ (r : Fin 25) (c : Fin 80), Terminal.place 80 r c = 80 * r.val + c.val := fun _ _ => rfl
    refine ⟨v', hroll, ⟨⟨?_, ?_⟩, ?_⟩, hw⟩
    · intro r c
      have hc := c.isLt
      have hr' := r.isLt
      rw [t.newline_cell_last blank hr, hplace]
      by_cases hr1 : r.val + 1 < 25
      · rw [t.scroll_cell_up blank hr1, hup _ (by omega), ← h.char ⟨r.val + 1, hr1⟩ c, hplace]
        congr 1
        show _ = 2 * (80 * (r.val + 1) + c.val)
        omega
      · rw [t.scroll_cell_last blank hr1, hclear _ (by omega) (by omega), if_pos (by omega)]
        rfl
    · intro r c
      have hc := c.isLt
      have hr' := r.isLt
      rw [t.newline_cell_last blank hr, hplace]
      by_cases hr1 : r.val + 1 < 25
      · rw [t.scroll_cell_up blank hr1, hup _ (by omega), ← h.attr ⟨r.val + 1, hr1⟩ c, hplace]
        congr 1
        show _ = 2 * (80 * (r.val + 1) + c.val) + 1
        omega
      · rw [t.scroll_cell_last blank hr1, hclear _ (by omega) (by omega), if_neg (by omega)]
        rfl
    · rw [t.newline_pos_last blank hr, hcur]
      omega

/-- A backspace blanks the cell before. -/
theorem isBackspace_shows (h : v.Shows t) (hbx : bx.toNat = t.pos) (hpos : t.pos ≠ 0) :
    ∃ v', isBackspace v bx = some v' ∧ v'.Shows (t.erase blank) ∧ v.Within v' := by
  have hlt := t.pos_lt
  have hback : (bx - 1).toNat = t.back.pos := by
    rw [t.back_pos, BitVec.toNat_sub, hbx, show (1 : BitVec 16).toNat = 1 from rfl]
    omega
  have hlt' := t.back.pos_lt
  rw [isBackspace_eq v bx (by omega), hback]
  have hcells : v.ShowsCells t.back := by
    refine ⟨fun r c => ?_, fun r c => ?_⟩
    · rw [t.back_cell]
      exact h.char r c
    · rw [t.back_cell]
      exact h.attr r c
  have hput := putCell_shows hcells 0x20
  refine ⟨_, rfl, ⟨⟨hput.char, hput.attr⟩, ?_⟩, putCell_within v 0x20 (by omega)⟩
  rw [setCursor_cursor, hback]
  rfl

/-- Any other character is written, and the cursor moves on. -/
theorem putOther_shows (h : v.Shows t) (hbx : bx.toNat = t.pos) (c : UInt8) :
    ∃ v', putOther v bx c = some v' ∧ v'.Shows (t.put blank (c, 0x07)) ∧ v.Within v' := by
  have hlt := t.pos_lt
  have hput := putCell_shows h.toShowsCells c
  have hw := putCell_within v (p := t.pos) c (by omega)
  have hpos : t.pos = 80 * t.row.val + t.col.val := rfl
  have hrow := t.row.isLt
  have hcol := t.col.isLt
  have hnext : (bx + 1).toNat = t.pos + 1 := by
    rw [BitVec.toNat_add, hbx, show (1 : BitVec 16).toNat = 1 from rfl]
    omega
  rw [putOther_eq v bx c (by omega), hbx, slt_2000 _ (by omega), hnext]
  unfold Terminal.put
  by_cases hc : t.col.val + 1 < 80
  · obtain ⟨hcell, hadv⟩ := (t.write (c, 0x07)).advance_col blank hc
    rw [decide_eq_true (by omega), if_pos rfl]
    refine ⟨_, rfl, ⟨⟨?_, ?_⟩, ?_⟩, hw⟩
    · rw [hcell]
      exact hput.char
    · rw [hcell]
      exact hput.attr
    · rw [setCursor_cursor, hnext, hadv]
      rfl
  · rw [(t.write (c, 0x07)).advance_newline blank hc]
    by_cases hr : t.row.val + 1 < 25
    · rw [decide_eq_true (by omega), if_pos rfl]
      refine ⟨_, rfl, ⟨⟨?_, ?_⟩, ?_⟩, hw⟩
      · rw [(t.write (c, 0x07)).newline_cell_above blank hr]
        exact hput.char
      · rw [(t.write (c, 0x07)).newline_cell_above blank hr]
        exact hput.attr
      · rw [setCursor_cursor, hnext, (t.write (c, 0x07)).newline_pos_above blank hr]
        show _ = 80 * (t.row.val + 1)
        omega
    · rw [decide_eq_false (by omega), if_neg (by decide)]
      have hr24 : min ((bx + 1).toNat / 80) 24 = (t.write (c, 0x07)).row.val := by
        show _ = t.row.val
        omega
      obtain ⟨v', he, hs, hw'⟩ := isLineFeed_shows hput (by omega) hr24
      exact ⟨v', he, hs, hw.trans hw'⟩

/-- **One character** does on the screen what it does on the terminal. -/
theorem putChar_shows (h : v.Shows t) (c : UInt8) (hn : ¬ (c = 0x08 ∧ t.pos = 0)) :
    ∃ v', putChar v c = some v' ∧ v'.Shows (t.step c) ∧ v.Within v' := by
  have hlt := t.pos_lt
  have hbx : (BitVec.ofNat 16 v.cursor).toNat = t.pos := by
    rw [BitVec.toNat_ofNat, h.cursor]
    omega
  have hi : ({ v with index := 0x0f } : Vga).Shows t := ⟨⟨h.char, h.attr⟩, h.cursor⟩
  have hline : ∃ v', isLineFeed { v with index := 0x0f } (BitVec.ofNat 16 v.cursor) = some v' ∧
      v'.Shows (t.newline blank) ∧ v.Within v' := by
    have hpos : t.pos = 80 * t.row.val + t.col.val := rfl
    have hrow := t.row.isLt
    have hcol := t.col.isLt
    exact isLineFeed_shows hi.toShowsCells (by omega) (by omega)
  unfold putChar Screen.step
  rw [getCursor_eq]
  dsimp only
  by_cases hcr : c = 0x0d
  · rw [if_pos hcr, if_pos (.inl hcr)]
    exact hline
  · rw [if_neg hcr]
    by_cases hlf : c = 0x0a
    · rw [if_pos hlf, if_pos (.inr hlf)]
      exact hline
    · have hno : ¬ (c = 0x0d ∨ c = 0x0a) := by
        rintro (he | he)
        · exact hcr he
        · exact hlf he
      rw [if_neg hlf, if_neg hno]
      by_cases hbs : c = 0x08
      · rw [if_pos hbs, if_pos hbs]
        exact isBackspace_shows hi hbx fun h0 => hn ⟨hbs, h0⟩
      · rw [if_neg hbs, if_neg hbs]
        exact putOther_shows hi hbx c

/-- A backspace in the first cell is a store at 0xfffe, beyond the limit of `gs`. -/
theorem putChar_underflow (h : v.cursor = 0) : putChar v 0x08 = none := by
  unfold putChar
  rw [getCursor_eq, h]
  rfl

end

/-! ## Strings -/

/-- Every character of `s` leaves the cursor on the screen and writes to the screen only. -/
def CursorStays (v : Vga) : List UInt8 → Prop
  | [] => True
  | c :: s => ∃ v', putChar v c = some v' ∧ v'.cursor < 2000 ∧ v.Within v' ∧ CursorStays v' s

/-- Along a string, the screen shows what the terminal does. -/
theorem cursorStays_shows : ∀ (s : List UInt8) (v : Vga) (t : Screen), v.Shows t →
    (CursorStays v s ↔ t.NoUnderflow s) := by
  intro s
  induction s with
  | nil => exact fun v t _ => Iff.rfl
  | cons c s ih =>
    intro v t h
    rw [CursorStays, Screen.NoUnderflow]
    constructor
    · rintro ⟨v', hput, -, -, hs⟩
      have hn : ¬ (c = 0x08 ∧ t.pos = 0) := by
        rintro ⟨rfl, h0⟩
        rw [putChar_underflow (h.cursor.trans h0)] at hput
        cases hput
      obtain ⟨w, hw, hshow, -⟩ := putChar_shows h c hn
      rw [hput] at hw
      cases hw
      exact ⟨hn, (ih v' _ hshow).mp hs⟩
    · rintro ⟨hn, hs⟩
      obtain ⟨v', hput, hshow, hw⟩ := putChar_shows h c hn
      exact ⟨v', hput, hshow.cursor_lt, hw, (ih v' _ hshow).mpr hs⟩

/-- **The cursor** stays on the screen unless a backspace comes in the first cell. -/
theorem cursor_stays_iff (v : Vga) (h : v.cursor < 2000) (s : List UInt8) :
    CursorStays v s ↔ (v.terminal h).NoUnderflow s :=
  cursorStays_shows s v _ (v.shows_terminal h)

/-- A dark screen with the cursor in its first cell. -/
def darkScreen : Vga := { mem := fun _ => 0, index := 0, crtc := fun _ => 0, written := [] }

theorem cursor_stays_letter : CursorStays darkScreen [0x41, 0x08] := by
  refine (cursor_stays_iff darkScreen (by decide) [0x41, 0x08]).mpr ⟨fun h => absurd h.1 (by decide), ?_, trivial⟩
  rintro ⟨-, h0⟩
  exact absurd h0 (by decide)

/-- A backspace in the first cell. -/
theorem cursor_leaves : ¬ ∀ (v : Vga) (c : UInt8), v.cursor < 2000 → CursorStays v [c] := by
  intro hall
  obtain ⟨v', hput, -⟩ := hall darkScreen 0x08 (by decide)
  rw [putChar_underflow rfl] at hput
  cases hput

theorem putStr_shows : ∀ (s : List UInt8) (v : Vga) (t : Screen), v.Shows t → (∀ c ∈ s, c ≠ 0) → t.NoUnderflow s →
    ∃ v', putStr v s = some v' ∧ v'.Shows (s.foldl Screen.step t) := by
  intro s
  induction s with
  | nil => exact fun v t h _ _ => ⟨v, rfl, h⟩
  | cons c s ih =>
    intro v t h hs hn
    obtain ⟨v1, hput, hshow, -⟩ := putChar_shows h c hn.1
    obtain ⟨v', hstr, hshow'⟩ := ih v1 _ hshow (fun k hk => hs k (by simp [hk])) hn.2
    refine ⟨v', ?_, hshow'⟩
    rw [putStr, if_neg (hs c (by simp)), hput]
    exact hstr

/-- **put_str** is the terminal. -/
theorem putStr_terminal (v : Vga) (h : v.cursor < 2000) (s : List UInt8) (hs : ∀ c ∈ s, c ≠ 0)
    (hn : (v.terminal h).NoUnderflow s) : ∃ (v' : Vga) (h' : v'.cursor < 2000), putStr v s = some v' ∧
      v'.terminal h' = s.foldl Screen.step (v.terminal h) := by
  obtain ⟨v', hstr, hshow⟩ := putStr_shows s v _ (v.shows_terminal h) hs hn
  exact ⟨v', hshow.cursor_lt, hstr, hshow.terminal_eq hshow.cursor_lt⟩

theorem putStr_terminal_line : ∃ (v' : Vga) (h' : v'.cursor < 2000), putStr darkScreen [0x41, 0x0a] = some v' ∧
    v'.terminal h' = [0x41, 0x0a].foldl Screen.step (darkScreen.terminal (by decide)) :=
  putStr_terminal darkScreen (by decide) [0x41, 0x0a] (by simp)
    ⟨fun h => absurd h.1 (by decide), fun h => absurd h.1 (by decide), trivial⟩

end MyOs
