import Mathlib.Data.List.Basic

/-!
# One stream, many writers

A message goes out one character at a time on a stream that others write to as well.  `places` are the
positions its characters have got so far, in the order they were sent.

* `Written out msg places`: the characters sent so far stand at their places.
* `Block places`: the places follow each other.
* `Partly total places`: some of the message has been sent, and some has not.

The message comes out in one block exactly when nobody else writes while it is partly sent: until then it
is `Whole`, from then on `Torn` (`Whole.put`, `Whole.others`, `Whole.torn`, `Torn.put`, `Torn.others`).
-/

namespace Message

variable {α : Type} {out msg : List α} {places : List Nat} {total len n : Nat}

def Written (out msg : List α) (places : List Nat) : Prop :=
  ∀ i p : Nat, places[i]? = some p → ∃ c, msg[i]? = some c ∧ out[p]? = some c

def Block (places : List Nat) : Prop := places = List.range' (places.headD 0) places.length

instance (places : List Nat) : Decidable (Block places) := inferInstanceAs (Decidable (_ = _))

def Partly (total : Nat) (places : List Nat) : Prop := 0 < places.length ∧ places.length < total

instance (total : Nat) (places : List Nat) : Decidable (Partly total places) :=
  inferInstanceAs (Decidable (_ ∧ _))

/-! ## What was sent -/

theorem Written.nil : Written out msg [] := by
  intro i p h
  simp at h

/-- What follows on the stream changes nothing. -/
theorem Written.others (h : Written out msg places) (w : List α) : Written (out ++ w) msg places := by
  intro i p hp
  obtain ⟨c, hm, ho⟩ := h i p hp
  have hlt : p < out.length := (List.getElem?_eq_some_iff.mp ho).1
  exact ⟨c, hm, by rw [List.getElem?_append_left hlt]; exact ho⟩

theorem Written.put {c : α} {rest : List α} (h : Written out msg places)
    (hc : msg.drop places.length = c :: rest) : Written (out ++ [c]) msg (places ++ [out.length]) := by
  intro i p hp
  rcases Nat.lt_trichotomy i places.length with hi | hi | hi
  · rw [List.getElem?_append_left hi] at hp
    exact h.others [c] i p hp
  · subst hi
    rw [List.getElem?_append_right (Nat.le_refl _)] at hp
    have hp' : out.length = p := by simpa using hp
    subst hp'
    refine ⟨c, ?_, by simp⟩
    have h0 : (msg.drop places.length)[0]? = some c := by rw [hc]; rfl
    simpa using h0
  · rw [List.getElem?_eq_none (by simp; omega)] at hp
    cases hp

/-! ## Blocks -/

theorem Block.concat (h : Block places) (hn : places ≠ [] → places.headD 0 + places.length = n) :
    Block (places ++ [n]) := by
  cases places with
  | nil => rfl
  | cons p ps =>
    have hend : p + (ps.length + 1) = n := hn (by simp)
    have hps : p :: ps = List.range' p (ps.length + 1) := h
    show (p :: ps) ++ [n] = List.range' p ((p :: ps) ++ [n]).length
    rw [List.length_append, List.length_cons, List.length_singleton, List.range'_concat, ← hps, Nat.one_mul,
      hend]

theorem Block.of_concat (h : Block (places ++ [n])) :
    Block places ∧ (places ≠ [] → places.headD 0 + places.length = n) := by
  cases places with
  | nil => exact ⟨rfl, fun h => absurd rfl h⟩
  | cons p ps =>
    have hps : (p :: ps) ++ [n] = List.range' p ((p :: ps) ++ [n]).length := h
    rw [List.length_append, List.length_singleton, List.range'_concat, Nat.one_mul] at hps
    obtain ⟨hblock, hend⟩ := List.append_inj' hps rfl
    refine ⟨hblock, fun _ => ?_⟩
    exact (List.singleton_inj.mp hend).symm

/-! ## Sending a message -/

/-- So far the message is in one block; while it is partly sent, the block is the end of the stream, which
has length `len`. -/
structure Whole (total len : Nat) (places : List Nat) : Prop where
  block : Block places
  last : Partly total places → places.headD 0 + places.length = len

/-- The message cannot come out in one block any more. -/
def Torn (total len : Nat) (places : List Nat) : Prop :=
  ¬ Block places ∨ Partly total places ∧ places.headD 0 + places.length < len

theorem Whole.nil : Whole total len [] := ⟨rfl, fun h => absurd h.1 (by simp)⟩

theorem Whole.put (h : Whole total len places) (hl : places.length < total) :
    Whole total (len + 1) (places ++ [len]) := by
  have hend : places ≠ [] → places.headD 0 + places.length = len :=
    fun hne => h.last ⟨List.length_pos_iff.mpr hne, hl⟩
  refine ⟨h.block.concat hend, ?_⟩
  intro _
  cases places with
  | nil => simp
  | cons p ps =>
    have hp : p + (ps.length + 1) = len := hend (by simp)
    show p + (ps ++ [len]).length.succ = len + 1
    rw [List.length_append, List.length_singleton]
    omega

theorem Whole.others (h : Whole total len places) (hn : Partly total places → n = 0) :
    Whole total (len + n) places := by
  refine ⟨h.block, ?_⟩
  intro hp
  rw [hn hp, h.last hp]
  rfl

/-- Somebody else writes while the message is partly sent. -/
theorem Whole.torn (h : Whole total len places) (hp : Partly total places) (hn : 0 < n) :
    Torn total (len + n) places := by
  have hend := h.last hp
  exact .inr ⟨hp, by omega⟩

theorem Torn.put (h : Torn total len places) : Torn total (len + 1) (places ++ [len]) := by
  left
  intro hb
  obtain ⟨hblock, hend⟩ := hb.of_concat
  rcases h with hn | ⟨hp, hlt⟩
  · exact hn hblock
  · have := hend (List.length_pos_iff.mp hp.1)
    omega

theorem Torn.others (h : Torn total len places) : Torn total (len + n) places := by
  rcases h with hn | ⟨hp, hlt⟩
  · exact .inl hn
  · exact .inr ⟨hp, by omega⟩

theorem Torn.not_block (h : Torn total len places) (hall : places.length = total) : ¬ Block places := by
  rcases h with hn | ⟨hp, -⟩
  · exact hn
  · have := hp.2
    omega

end Message
