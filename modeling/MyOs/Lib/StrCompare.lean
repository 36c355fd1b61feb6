import MyOs.Lib.CString
import MyOs.Theory.Comparison

/-!
# lib/string.c: strlen, strcmp and memcmp

`strcmp` stops at the terminator of its first argument or at the first difference, `memcmp` at its count or
at the first difference; both then compare two promoted `char`s.  The order is that of the strings with their
terminators, as lists of signed numbers: a byte from 0x80 on comes before the terminator.

    strcmp_eq           strcmp is that order
    memcmp_eq           and so is memcmp, up to the terminator of the shorter string
    strcmp_totalOrder   the laws

`none` is a failed assertion, or a loop that has not met its end within its fuel.
-/

namespace MyOs

open Comparison

/-! ## Algorithm -/

def strlenLoop : Nat → Bytes → Nat → Option Nat
  | 0, _, _ => none
  | fuel + 1, m, p => if m p ≠ 0 then strlenLoop fuel m (p + 1) else some (p + 1)

def strlen (fuel : Nat) (m : Bytes) (str : Nat) : Option Nat :=
  if str ≠ 0 then (strlenLoop fuel m str).map fun p => (p - str - 1) % 2 ^ 32 else none

def strcmpLoop : Nat → Bytes → Nat → Nat → Option Int
  | 0, _, _, _ => none
  | fuel + 1, m, a, b =>
    if promote (m a) ≠ 0 ∧ promote (m a) = promote (m b) then strcmpLoop fuel m (a + 1) (b + 1)
    else some (if promote (m a) < promote (m b) then -1 else if promote (m a) > promote (m b) then 1 else 0)

def strcmp (fuel : Nat) (m : Bytes) (a b : Nat) : Option Int :=
  if a ≠ 0 ∧ b ≠ 0 then strcmpLoop fuel m a b else none

def memcmpLoop : Nat → Bytes → Nat → Nat → Int
  | 0, _, _, _ => 0
  | size + 1, m, a, b =>
    if promote (m a) ≠ promote (m b) then if promote (m a) > promote (m b) then 1 else -1
    else memcmpLoop size m (a + 1) (b + 1)

def memcmp (m : Bytes) (a b size : Nat) : Option Int :=
  if a ≠ 0 ∧ b ≠ 0 then some (memcmpLoop size m a b) else none

/-! ## The order -/

/-- What is compared: the characters and the terminator, promoted. -/
def charValues (s : List UInt8) : List Int := (s ++ [0]).map promote

/-- The order of the numbers, and of lists of them. -/
def cmpInt : Int → Int → Ordering := instOrdInt.compare

instance : Std.TransCmp cmpInt := inferInstanceAs (Std.TransCmp instOrdInt.compare)

instance : Std.LawfulEqCmp cmpInt := inferInstanceAs (Std.LawfulEqCmp instOrdInt.compare)

def cmpStr (s t : List UInt8) : Ordering := List.compareLex cmpInt (charValues s) (charValues t)

/-- The laws, for the strings `s`, `t`, `u` at `a`, `b`, `c`. -/
structure TotalOrder (fuel : Nat) (m : Bytes) (a b c : Nat) (s t u : List UInt8) : Prop where
  eq : strcmp fuel m a b = some 0 ↔ s = t
  swap : ∃ r, strcmp fuel m a b = some r ∧ strcmp fuel m b a = some (-r)
  trans : ∀ r1 r2, strcmp fuel m a b = some r1 → strcmp fuel m b c = some r2 → r1 ≤ 0 → r2 ≤ 0 →
    ∃ r3, strcmp fuel m a c = some r3 ∧ r3 ≤ 0
  memcmp : ∃ la lb, strlen fuel m a = some la ∧ strlen fuel m b = some lb ∧
    strcmp fuel m a b = MyOs.memcmp m a b (min la lb + 1)

/-! ## Lemmas -/

theorem promote_zero : promote 0 = 0 := rfl

theorem promote_ne_zero {c : UInt8} (h : c ≠ 0) : promote c ≠ 0 :=
  fun hp => h ((promote_inj c 0).mp (hp.trans promote_zero.symm))

theorem charValues_inj (s t : List UInt8) : charValues s = charValues t ↔ s = t := by
  constructor
  · intro h
    exact List.append_cancel_right ((List.map_inj_right fun c d hcd => (promote_inj c d).mp hcd).mp h)
  · exact fun h => by rw [h]

/-- The last comparison of `strcmp`. -/
theorem sign_cmpInt (x y : Int) : sign (cmpInt x y) = if x < y then -1 else if x > y then 1 else 0 := by
  rcases Int.lt_trichotomy x y with h | h | h
  · rw [if_pos h, show cmpInt x y = .lt from Int.compare_eq_lt.mpr h]
    rfl
  · subst h
    rw [if_neg (Int.lt_irrefl x), if_neg (Int.lt_irrefl x), show cmpInt x x = .eq from Int.compare_eq_eq.mpr rfl]
    rfl
  · rw [if_neg (by omega), if_pos h, show cmpInt x y = .gt from Int.compare_eq_gt.mpr h]
    rfl

theorem sign_cmpInt_of_ne {x y : Int} (h : x ≠ y) : sign (cmpInt x y) = if x > y then 1 else -1 := by
  rw [sign_cmpInt]
  rcases Int.lt_or_gt_of_ne h with hlt | hgt
  · rw [if_pos hlt, if_neg (by omega)]
  · rw [if_neg (by omega), if_pos hgt, if_pos hgt]

/-- Equal first characters are passed over. -/
theorem cmpStr_cons_eq {c d : UInt8} (h : promote c = promote d) (s t : List UInt8) :
    cmpStr (c :: s) (d :: t) = cmpStr s t := by
  show List.compareLex cmpInt (promote c :: _) (promote d :: _) = _
  rw [h]
  exact compareLex_cons_self cmpInt _ _ _

theorem strcmpLoop_eq (m : Bytes) : ∀ (s t : List UInt8) (fuel a b : Nat), StrAt m a s → StrAt m b t →
    s.length < fuel → strcmpLoop fuel m a b = some (sign (cmpStr s t)) := by
  intro s
  induction s with
  | nil =>
    intro t fuel a b hs ht hf
    obtain ⟨n, rfl, -⟩ := exists_round hf
    rw [strcmpLoop, hs.nil, if_neg (fun h => h.1 promote_zero), ← sign_cmpInt]
    cases t with
    | nil =>
      rw [ht.nil]
      rfl
    | cons d t =>
      rw [ht.head]
      exact congrArg (some ∘ sign) (compareLex_cons_of_ne cmpInt (promote_ne_zero ht.head_ne_zero).symm _ _).symm
  | cons c s ih =>
    intro t fuel a b hs ht hf
    obtain ⟨n, rfl, hn⟩ := exists_round hf
    rw [strcmpLoop, hs.head]
    cases t with
    | nil =>
      have hne : promote c ≠ promote 0 := promote_ne_zero hs.head_ne_zero
      rw [ht.nil, if_neg (fun h => hne h.2), ← sign_cmpInt]
      exact congrArg (some ∘ sign) (compareLex_cons_of_ne cmpInt hne _ _).symm
    | cons d t =>
      rw [ht.head]
      by_cases heq : promote c = promote d
      · rw [if_pos ⟨promote_ne_zero hs.head_ne_zero, heq⟩, cmpStr_cons_eq heq,
          ih t n (a + 1) (b + 1) hs.tail ht.tail hn]
      · rw [if_neg (fun h => heq h.2), ← sign_cmpInt]
        exact congrArg (some ∘ sign) (compareLex_cons_of_ne cmpInt heq _ _).symm

theorem memcmpLoop_eq (m : Bytes) : ∀ (s t : List UInt8) (a b : Nat), StrAt m a s → StrAt m b t →
    memcmpLoop (min s.length t.length + 1) m a b = sign (cmpStr s t) := by
  intro s
  induction s with
  | nil =>
    intro t a b hs ht
    rw [List.length_nil, Nat.zero_min, memcmpLoop, memcmpLoop, hs.nil]
    cases t with
    | nil =>
      rw [ht.nil, if_neg (not_not_intro rfl)]
      rfl
    | cons d t =>
      have hne : promote 0 ≠ promote d := (promote_ne_zero ht.head_ne_zero).symm
      rw [ht.head, if_pos hne, ← sign_cmpInt_of_ne hne]
      exact congrArg sign (compareLex_cons_of_ne cmpInt hne _ _).symm
  | cons c s ih =>
    intro t a b hs ht
    rw [memcmpLoop, hs.head]
    cases t with
    | nil =>
      have hne : promote c ≠ promote 0 := promote_ne_zero hs.head_ne_zero
      rw [ht.nil, if_pos hne, ← sign_cmpInt_of_ne hne]
      exact congrArg sign (compareLex_cons_of_ne cmpInt hne _ _).symm
    | cons d t =>
      rw [ht.head]
      by_cases heq : promote c = promote d
      · rw [if_neg (not_not_intro heq), cmpStr_cons_eq heq, List.length_cons, List.length_cons,
          Nat.succ_min_succ, ih t (a + 1) (b + 1) hs.tail ht.tail]
      · rw [if_pos heq, ← sign_cmpInt_of_ne heq]
        exact congrArg sign (compareLex_cons_of_ne cmpInt heq _ _).symm

theorem strlenLoop_eq (m : Bytes) : ∀ (s : List UInt8) (fuel p : Nat), StrAt m p s → s.length < fuel →
    strlenLoop fuel m p = some (p + s.length + 1) := by
  intro s
  induction s with
  | nil =>
    intro fuel p hs hf
    obtain ⟨n, rfl, -⟩ := exists_round hf
    rw [strlenLoop, hs.nil, if_neg (not_not_intro rfl)]
    rfl
  | cons c s ih =>
    intro fuel p hs hf
    obtain ⟨n, rfl, hn⟩ := exists_round hf
    rw [strlenLoop, hs.head, if_pos hs.head_ne_zero, ih n (p + 1) hs.tail hn, List.length_cons,
      show p + 1 + s.length = p + (s.length + 1) by omega]

section
variable {fuel : Nat} {m : Bytes} {a b : Nat} {s t : List UInt8} (hs : StrAt m a s) (ht : StrAt m b t)
  (ha : a ≠ 0) (hb : b ≠ 0)

include hs ha

theorem strlen_eq (hf : s.length < fuel) (hspace : a + s.length < 2 ^ 32) : strlen fuel m a = some s.length := by
  unfold strlen
  rw [if_pos ha, strlenLoop_eq m s fuel a hs hf, Option.map_some]
  congr 1
  omega

include ht hb

theorem strcmp_eq (hf : s.length < fuel) :
    strcmp fuel m a b = some (sign (cmpStr s t)) := by
  unfold strcmp
  rw [if_pos ⟨ha, hb⟩, strcmpLoop_eq m s t fuel a b hs ht hf]

theorem memcmp_eq : memcmp m a b (min s.length t.length + 1) =
    some (sign (cmpStr s t)) := by
  unfold memcmp
  rw [if_pos ⟨ha, hb⟩, memcmpLoop_eq m s t a b hs ht]

end

/-- **String comparison is a total order.**  For all strings in memory, wherever they lie. -/
theorem strcmp_totalOrder (fuel : Nat) (m : Bytes) (a b c : Nat) (s t u : List UInt8) (hs : StrAt m a s)
    (ht : StrAt m b t) (hu : StrAt m c u) (ha : a ≠ 0) (hb : b ≠ 0) (hc : c ≠ 0) (hfs : s.length < fuel)
    (hft : t.length < fuel) (hspaces : a + s.length < 2 ^ 32) (hspacet : b + t.length < 2 ^ 32) :
    TotalOrder fuel m a b c s t u := by
  have hab := strcmp_eq hs ht ha hb hfs
  have hba := strcmp_eq ht hs hb ha hft
  have hbc := strcmp_eq ht hu hb hc hft
  have hac := strcmp_eq hs hu ha hc hfs
  refine ⟨?_, ⟨_, hab, ?_⟩, ?_, ?_⟩
  · rw [hab, Option.some_inj, cmpStr, sign_eq_zero_iff, charValues_inj]
  · rw [hba, cmpStr, cmpStr, sign_swap]
  · intro r1 r2 h1 h2 hr1 hr2
    rw [hab, Option.some_inj] at h1
    rw [hbc, Option.some_inj] at h2
    subst h1 h2
    exact ⟨_, hac, sign_trans (List.compareLex cmpInt) _ _ _ hr1 hr2⟩
  · refine ⟨s.length, t.length, strlen_eq hs ha hfs hspaces, strlen_eq ht hb hft hspacet, ?_⟩
    rw [hab, memcmp_eq hs ht ha hb]

/-- Three strings that end in one terminator, with a byte above 0x80 in two of them. -/
theorem strcmp_totalOrder_suffixes : TotalOrder 4 (strMem [0x61, 0xe4, 0x62]) 0x1000 0x1001 0x1002
    [0x61, 0xe4, 0x62] [0xe4, 0x62] [0x62] :=
  have hs := strMem_strAt [0x61, 0xe4, 0x62] (by simp)
  strcmp_totalOrder 4 _ 0x1000 0x1001 0x1002 _ _ _ hs hs.tail hs.tail.tail (by decide) (by decide) (by decide)
    (by decide) (by decide) (by decide) (by decide)

end MyOs
