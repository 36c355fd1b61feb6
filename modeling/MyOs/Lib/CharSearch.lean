import MyOs.Lib.CString
import MyOs.Theory.Positions

/-!
# lib/string.c: strchr, strrchr and strchrs

The three loops compare a `char` of the string, which is signed, with a `uint8_t`.  Both sides are promoted
to `int`: a byte from 0x80 on is negative on the left and positive on the right, and is never found.

    strchr_eq, strrchr_eq, strchrs_eq    what the loops find, on every string and for every byte
    searchAgrees_iff                     when this is what the bytes of the string say

`none` is a failed assertion, or a loop that has not met the terminator within its fuel; the null pointer is 0.
-/

namespace MyOs

open Positions

/-! ## Algorithm -/

def strchrLoop : Nat → Bytes → Nat → UInt8 → Option Nat
  | 0, _, _, _ => none
  | fuel + 1, m, str, ch =>
    if m str ≠ 0 then
      if promote (m str) = ch.toNat then some str else strchrLoop fuel m (str + 1) ch
    else some 0

def strchr (fuel : Nat) (m : Bytes) (str : Nat) (ch : UInt8) : Option Nat :=
  if str ≠ 0 then strchrLoop fuel m str ch else none

def strrchrLoop : Nat → Bytes → Nat → UInt8 → Nat → Option Nat
  | 0, _, _, _, _ => none
  | fuel + 1, m, str, ch, lastChar =>
    if m str ≠ 0 then
      let lastChar := if promote (m str) = ch.toNat then str else lastChar
      strrchrLoop fuel m (str + 1) ch lastChar
    else some lastChar

def strrchr (fuel : Nat) (m : Bytes) (str : Nat) (ch : UInt8) : Option Nat :=
  if str ≠ 0 then strrchrLoop fuel m str ch 0 else none

def strchrsLoop : Nat → Bytes → Nat → UInt8 → Nat → Option Nat
  | 0, _, _, _, _ => none
  | fuel + 1, m, p, ch, chCnt =>
    if m p ≠ 0 then
      let chCnt := if promote (m p) = ch.toNat then (chCnt + 1) % 2 ^ 32 else chCnt
      strchrsLoop fuel m (p + 1) ch chCnt
    else some chCnt

def strchrs (fuel : Nat) (m : Bytes) (str : Nat) (ch : UInt8) : Option Nat :=
  if str ≠ 0 then strchrsLoop fuel m str ch 0 else none

/-! ## What is found -/

/-- The comparison in the loops. -/
def found (ch c : UInt8) : Bool := promote c = ch.toNat

/-- The results for the string `s` at `str`, as the bytes of `s` have them. -/
structure SearchAgrees (fuel : Nat) (m : Bytes) (str : Nat) (s : List UInt8) (ch : UInt8) : Prop where
  first : ∀ i, First (· == ch) s i → strchr fuel m str ch = some (str + i)
  last : ∀ i, Last (· == ch) s i → strrchr fuel m str ch = some (str + i)
  strchrNull : strchr fuel m str ch = some 0 ↔ strchrs fuel m str ch = some 0
  strrchrNull : strrchr fuel m str ch = some 0 ↔ strchrs fuel m str ch = some 0
  count : strchrs fuel m str ch = some (s.count ch)

/-! ## Lemmas -/

theorem found_iff (ch c : UInt8) : found ch c = true ↔ promote c = ch.toNat := decide_eq_true_iff

theorem found_low (ch : UInt8) (hch : ch.toNat < 128) : found ch = (· == ch) := by
  funext c
  have h := promote_eq_toNat_iff c ch
  unfold found
  by_cases hc : c = ch
  · rw [decide_eq_true (h.mpr ⟨hc, hch⟩), hc, beq_self_eq_true]
  · rw [decide_eq_false (fun hp => hc (h.mp hp).1), beq_eq_false_iff_ne.mpr hc]

theorem found_high (ch : UInt8) (hch : ¬ ch.toNat < 128) (c : UInt8) : found ch c = false :=
  decide_eq_false fun hp => hch ((promote_eq_toNat_iff c ch).mp hp).2

theorem countP_found_high (ch : UInt8) (hch : ¬ ch.toNat < 128) (s : List UInt8) : s.countP (found ch) = 0 := by
  rw [List.countP_eq_zero]
  intro c _
  rw [found_high ch hch c]
  exact Bool.false_ne_true

/-- The pointer to a position of the string at `str`. -/
def pointer (str : Nat) : Option Nat → Nat
  | none => 0
  | some i => str + i

theorem strchrLoop_eq (m : Bytes) (ch : UInt8) : ∀ (s : List UInt8) (fuel str : Nat), StrAt m str s →
    s.length < fuel → strchrLoop fuel m str ch = some (pointer str (s.findIdx? (found ch))) := by
  intro s
  induction s with
  | nil =>
    intro fuel str hs hf
    obtain ⟨n, rfl, -⟩ := exists_round hf
    rw [strchrLoop, hs.nil, if_neg (not_not_intro rfl)]
    rfl
  | cons c s ih =>
    intro fuel str hs hf
    obtain ⟨n, rfl, hn⟩ := exists_round hf
    rw [strchrLoop, hs.head, if_pos hs.head_ne_zero, List.findIdx?_cons]
    by_cases hc : promote c = ch.toNat
    · rw [if_pos hc, if_pos ((found_iff ch c).mpr hc)]
      rfl
    · rw [if_neg hc, if_neg (fun h => hc ((found_iff ch c).mp h)), ih n (str + 1) hs.tail hn]
      cases s.findIdx? (found ch) with
      | none => rfl
      | some i =>
        show some (str + 1 + i) = some (str + (i + 1))
        rw [Nat.add_assoc, Nat.add_comm 1 i]

theorem strrchrLoop_eq (m : Bytes) (ch : UInt8) : ∀ (s : List UInt8) (fuel str lastChar : Nat), StrAt m str s →
    s.length < fuel → strrchrLoop fuel m str ch lastChar =
      some (if (findLast (found ch) s).isSome then pointer str (findLast (found ch) s) else lastChar) := by
  intro s
  induction s with
  | nil =>
    intro fuel str lastChar hs hf
    obtain ⟨n, rfl, -⟩ := exists_round hf
    rw [strrchrLoop, hs.nil, if_neg (not_not_intro rfl)]
    rfl
  | cons c s ih =>
    intro fuel str lastChar hs hf
    obtain ⟨n, rfl, hn⟩ := exists_round hf
    rw [strrchrLoop, hs.head, if_pos hs.head_ne_zero, ih n (str + 1) _ hs.tail hn, findLast]
    cases findLast (found ch) s with
    | some i =>
      -- a later occurrence replaces this one
      show some (str + 1 + i) = some (str + (i + 1))
      rw [Nat.add_assoc, Nat.add_comm 1 i]
    | none =>
      by_cases hc : promote c = ch.toNat
      · simp [found, hc, pointer]
      · simp [found, hc]

theorem strchrsLoop_eq (m : Bytes) (ch : UInt8) : ∀ (s : List UInt8) (fuel p chCnt : Nat), StrAt m p s →
    s.length < fuel → chCnt + s.length < 2 ^ 32 →
    strchrsLoop fuel m p ch chCnt = some (chCnt + s.countP (found ch)) := by
  intro s
  induction s with
  | nil =>
    intro fuel p chCnt hs hf _
    obtain ⟨n, rfl, -⟩ := exists_round hf
    rw [strchrsLoop, hs.nil, if_neg (not_not_intro rfl)]
    rfl
  | cons c s ih =>
    intro fuel p chCnt hs hf hlt
    obtain ⟨n, rfl, hn⟩ := exists_round hf
    rw [List.length_cons] at hlt
    rw [strchrsLoop, hs.head, if_pos hs.head_ne_zero, List.countP_cons]
    by_cases hc : promote c = ch.toNat
    · rw [if_pos hc, if_pos ((found_iff ch c).mpr hc), Nat.mod_eq_of_lt (by omega), ih n (p + 1) _ hs.tail hn (by omega)]
      congr 1
      omega
    · rw [if_neg hc, if_neg (fun h => hc ((found_iff ch c).mp h)), ih n (p + 1) _ hs.tail hn (by omega)]
      rfl

section
variable {fuel : Nat} {m : Bytes} {str : Nat} {s : List UInt8} (ch : UInt8) (hs : StrAt m str s)
  (hf : s.length < fuel) (hstr : str ≠ 0)

include hs hf hstr

theorem strchr_eq : strchr fuel m str ch = some (pointer str (s.findIdx? (found ch))) := by
  unfold strchr
  rw [if_pos hstr, strchrLoop_eq m ch s fuel str hs hf]

theorem strrchr_eq : strrchr fuel m str ch = some (pointer str (findLast (found ch) s)) := by
  unfold strrchr
  rw [if_pos hstr, strrchrLoop_eq m ch s fuel str 0 hs hf]
  cases findLast (found ch) s with
  | none => rfl
  | some i => rfl

theorem strchrs_eq (hspace : str + s.length ≤ 2 ^ 32) :
    strchrs fuel m str ch = some (s.countP (found ch)) := by
  unfold strchrs
  rw [if_pos hstr, strchrsLoop_eq m ch s fuel str 0 hs hf (by omega), Nat.zero_add]

end

theorem pointer_eq_zero_iff (str : Nat) (hstr : str ≠ 0) (r : Option Nat) : pointer str r = 0 ↔ r = none := by
  cases r with
  | none => exact ⟨fun _ => rfl, fun _ => rfl⟩
  | some i =>
    constructor
    · intro h
      have hsum : str + i = 0 := h
      omega
    · intro h
      cases h

theorem not_first_of_notMem {s : List UInt8} {ch : UInt8} (h : ch ∉ s) (i : Nat) : ¬ First (· == ch) s i := by
  rintro ⟨⟨c, hc, hpass⟩, -⟩
  exact h (eq_of_beq hpass ▸ List.mem_of_getElem? hc)

theorem not_last_of_notMem {s : List UInt8} {ch : UInt8} (h : ch ∉ s) (i : Nat) : ¬ Last (· == ch) s i := by
  rintro ⟨⟨c, hc, hpass⟩, -⟩
  exact h (eq_of_beq hpass ▸ List.mem_of_getElem? hc)

/-- **When a search agrees with the bytes.**  Exactly for a byte below 0x80, and for one that does not occur. -/
theorem searchAgrees_iff (fuel : Nat) (m : Bytes) (str : Nat) (s : List UInt8) (ch : UInt8) (hs : StrAt m str s)
    (hf : s.length < fuel) (hstr : str ≠ 0) (hspace : str + s.length < 2 ^ 32) :
    SearchAgrees fuel m str s ch ↔ ch.toNat < 128 ∨ ch ∉ s := by
  have h1 := strchr_eq ch hs hf hstr
  have h2 := strrchr_eq ch hs hf hstr
  have h3 := strchrs_eq ch hs hf hstr (by omega)
  have hnull1 : strchr fuel m str ch = some 0 ↔ strchrs fuel m str ch = some 0 := by
    rw [h1, h3, Option.some_inj, Option.some_inj, pointer_eq_zero_iff str hstr, findIdx_eq_none_iff]
  have hnull2 : strrchr fuel m str ch = some 0 ↔ strchrs fuel m str ch = some 0 := by
    rw [h2, h3, Option.some_inj, Option.some_inj, pointer_eq_zero_iff str hstr, findLast_eq_none_iff]
  by_cases hlow : ch.toNat < 128
  · rw [found_low ch hlow] at h1 h2 h3
    refine ⟨fun _ => .inl hlow, fun _ => ⟨fun i hi => ?_, fun i hi => ?_, hnull1, hnull2, h3⟩⟩
    · rw [h1, (findIdx_eq_some_iff _ s i).mpr hi]
      rfl
    · rw [h2, (findLast_eq_some_iff _ s i).mpr hi]
      rfl
  · rw [countP_found_high ch hlow] at h3
    constructor
    · intro h
      have hcount := h.count
      rw [h3, Option.some_inj] at hcount
      exact .inr (List.count_eq_zero.mp hcount.symm)
    · intro h
      have hno := h.resolve_left hlow
      refine ⟨fun i hi => ?_, fun i hi => ?_, hnull1, hnull2, ?_⟩
      · exact absurd hi (not_first_of_notMem hno i)
      · exact absurd hi (not_last_of_notMem hno i)
      · rw [h3, List.count_eq_zero.mpr hno]

/-- `"abcab"`, searched for `'b'`. -/
theorem searchAgrees_letter : SearchAgrees 6 (strMem [0x61, 0x62, 0x63, 0x61, 0x62]) 0x1000
    [0x61, 0x62, 0x63, 0x61, 0x62] 0x62 :=
  (searchAgrees_iff 6 _ 0x1000 _ 0x62 (strMem_strAt _ (by simp)) (by decide) (by decide) (by decide)).mpr
    (.inl (by decide))

/-- The string of the one byte 0x80: it is not found. -/
theorem searchAgrees_fails : ¬ ∀ (fuel : Nat) (m : Bytes) (str : Nat) (s : List UInt8) (ch : UInt8), StrAt m str s →
    s.length < fuel → str ≠ 0 → str + s.length < 2 ^ 32 → 1 ≤ ch.toNat → SearchAgrees fuel m str s ch := by
  intro hall
  have hcount := (hall 2 (strMem [0x80]) 0x1000 [0x80] 0x80 (strMem_strAt _ (by simp)) (by decide) (by decide)
    (by decide) (by decide)).count
  rw [strchrs_eq 0x80 (strMem_strAt [0x80] (by simp)) (by decide) (by decide) (by decide),
    countP_found_high 0x80 (by decide)] at hcount
  exact absurd hcount (by decide)

end MyOs
