import Mathlib.Data.List.Chain
import Mathlib.Data.List.Nodup
import Mathlib.Logic.Function.Basic

/-!
# Doubly linked nodes

Nodes live at addresses of an arbitrary type `α`; a heap gives every address the links of its node.  A list of
addresses is a chain when each is linked to the next, forwards and back:

    l.IsChain (Linked h)

* `chain_insert`, `chain_remove`: one node between two neighbours, one node out.
* `visit_next`, `visit_prev`: following the links from one end gives the nodes in order.
* `Represents h L`: the lists `L i` are chains of `h`, over different nodes; `Represents.update` replaces one
  of them while the others keep their nodes.
-/

structure Link (α : Type) where
  prev : α
  next : α
  deriving DecidableEq, Repr

variable {α : Type}

section Write

variable [DecidableEq α]

def setPrev (h : α → Link α) (a v : α) : α → Link α := Function.update h a { h a with prev := v }

def setNext (h : α → Link α) (a v : α) : α → Link α := Function.update h a { h a with next := v }

@[simp] theorem setPrev_self (h : α → Link α) (a v : α) : setPrev h a v a = ⟨v, (h a).next⟩ := by
  simp [setPrev]

@[simp] theorem setNext_self (h : α → Link α) (a v : α) : setNext h a v a = ⟨(h a).prev, v⟩ := by
  simp [setNext]

end Write

/-- `b` comes after `a`. -/
def Linked (h : α → Link α) (a b : α) : Prop := (h a).next = b ∧ (h b).prev = a

/-! ## Chains -/

section Chain

variable {h h' : α → Link α}

/-- A chain reads the `next` of all nodes but the last and the `prev` of all but the first. -/
theorem chain_congr : ∀ {l : List α}, (∀ a ∈ l.dropLast, (h' a).next = (h a).next) →
    (∀ a ∈ l.tail, (h' a).prev = (h a).prev) → l.IsChain (Linked h) → l.IsChain (Linked h') := by
  intro l
  induction l with
  | nil => simp
  | cons a l ih =>
    cases l with
    | nil => simp
    | cons b l =>
      intro hnext hprev hc
      rw [List.isChain_cons_cons] at hc ⊢
      refine ⟨⟨?_, ?_⟩, ih ?_ ?_ hc.2⟩
      · rw [hnext a (by simp)]
        exact hc.1.1
      · rw [hprev b (by simp)]
        exact hc.1.2
      · intro x hx
        exact hnext x (by simp only [List.dropLast_cons_cons, List.mem_cons]; exact .inr hx)
      · intro x hx
        exact hprev x (List.mem_cons_of_mem _ hx)

theorem chain_frame {l : List α} (hf : ∀ a ∈ l, h' a = h a) (hc : l.IsChain (Linked h)) :
    l.IsChain (Linked h') := by
  refine chain_congr ?_ ?_ hc
  · intro a ha
    rw [hf a (List.dropLast_subset l ha)]
  · intro a ha
    rw [hf a (List.mem_of_mem_tail ha)]

variable {l₁ l₂ : List α} {a b x : α}

/-- Only the `next` of the last node is written. -/
theorem chain_left (hc : (l₁ ++ [a]).IsChain (Linked h)) (hl : ∀ y ∈ l₁, h' y = h y)
    (ha : (h' a).prev = (h a).prev) : (l₁ ++ [a]).IsChain (Linked h') := by
  refine chain_congr ?_ ?_ hc
  · intro y hy
    rw [List.dropLast_concat] at hy
    rw [hl y hy]
  · intro y hy
    rcases List.mem_append.mp (List.mem_of_mem_tail hy) with hy | hy
    · rw [hl y hy]
    · rw [List.mem_singleton.mp hy, ha]

/-- Only the `prev` of the first node is written. -/
theorem chain_right (hc : (b :: l₂).IsChain (Linked h)) (hl : ∀ y ∈ l₂, h' y = h y)
    (hb : (h' b).next = (h b).next) : (b :: l₂).IsChain (Linked h') := by
  refine chain_congr ?_ ?_ hc
  · intro y hy
    rcases List.mem_cons.mp (List.dropLast_subset _ hy) with rfl | hy
    · exact hb
    · rw [hl y hy]
  · intro y hy
    rw [hl y hy]

/-- `x` comes between the neighbours `a` and `b`: four links are written. -/
theorem chain_insert (hc : (l₁ ++ a :: b :: l₂).IsChain (Linked h)) (hnd : (l₁ ++ a :: b :: l₂).Nodup)
    (hx : x ∉ l₁ ++ a :: b :: l₂) (hax : h' a = ⟨(h a).prev, x⟩) (hbx : h' b = ⟨x, (h b).next⟩)
    (hxx : h' x = ⟨a, b⟩) (hf : ∀ y, y ≠ a → y ≠ b → y ≠ x → h' y = h y) :
    (l₁ ++ a :: x :: b :: l₂).IsChain (Linked h') := by
  rw [List.isChain_append_cons_cons] at hc
  obtain ⟨h1, -, h2⟩ := hc
  rw [List.isChain_append_cons_cons, List.isChain_cons_cons]
  simp only [List.mem_append, List.mem_cons, not_or] at hx
  rw [List.nodup_append, List.nodup_cons, List.nodup_cons] at hnd
  obtain ⟨-, ⟨ha, hb, -⟩, hdis⟩ := hnd
  have hl1 : ∀ y ∈ l₁, h' y = h y := by
    intro y hy
    refine hf y ?_ ?_ ?_
    · exact hdis y hy a (by simp)
    · exact hdis y hy b (by simp)
    · rintro rfl
      exact hx.1 hy
  have hl2 : ∀ y ∈ l₂, h' y = h y := by
    intro y hy
    refine hf y ?_ ?_ ?_
    · rintro rfl
      exact ha (List.mem_cons_of_mem _ hy)
    · rintro rfl
      exact hb hy
    · rintro rfl
      exact hx.2.2.2 hy
  exact ⟨chain_left h1 hl1 (by rw [hax]), ⟨by rw [hax], by rw [hxx]⟩, ⟨by rw [hxx], by rw [hbx]⟩,
    chain_right h2 hl2 (by rw [hbx])⟩

/-- `x` leaves, and its neighbours are linked to each other: two links are written. -/
theorem chain_remove (hc : (l₁ ++ a :: x :: b :: l₂).IsChain (Linked h)) (hnd : (l₁ ++ a :: x :: b :: l₂).Nodup)
    (ha : h' a = ⟨(h a).prev, b⟩) (hb : h' b = ⟨a, (h b).next⟩)
    (hf : ∀ y, y ≠ a → y ≠ b → h' y = h y) : (l₁ ++ a :: b :: l₂).IsChain (Linked h') := by
  rw [List.isChain_append_cons_cons, List.isChain_cons_cons] at hc
  obtain ⟨h1, -, -, h2⟩ := hc
  rw [List.isChain_append_cons_cons]
  simp only [List.nodup_append, List.nodup_cons, List.mem_cons, not_or] at hnd
  obtain ⟨-, ⟨⟨-, hab, hal⟩, -, hbl, -⟩, hdis⟩ := hnd
  have hl1 : ∀ y ∈ l₁, h' y = h y := fun y hy => hf y (hdis y hy a (by simp)) (hdis y hy b (by simp))
  have hl2 : ∀ y ∈ l₂, h' y = h y := by
    intro y hy
    refine hf y ?_ ?_
    · rintro rfl
      exact hal hy
    · rintro rfl
      exact hbl hy
  exact ⟨chain_left h1 hl1 (by rw [ha]), ⟨by rw [ha], by rw [hb]⟩, chain_right h2 hl2 (by rw [hb])⟩

end Chain

/-! ## Following the links -/

/-- The nodes from `a` on, along `f`, before `stop`; `none` when there are more than the first argument
allows. -/
def visit [DecidableEq α] (f : α → α) (stop : α) : Nat → α → Option (List α)
  | 0, _ => none
  | n + 1, a => if a = stop then some [] else (visit f stop n (f a)).map (a :: ·)

theorem visit_chain [DecidableEq α] {f : α → α} {stop : α} : ∀ {l : List α} {a : α} {n : Nat},
    (a :: (l ++ [stop])).IsChain (fun x y => f x = y) → stop ∉ l → l.length < n →
    visit f stop n (f a) = some l := by
  intro l
  induction l with
  | nil =>
    intro a n hc _ hn
    have hfa : f a = stop := (List.isChain_cons_cons.mp hc).1
    obtain ⟨n, rfl⟩ := Nat.exists_eq_succ_of_ne_zero (Nat.ne_of_gt hn)
    simp [visit, hfa]
  | cons b l ih =>
    intro a n hc hs hn
    obtain ⟨hfa, hc⟩ := List.isChain_cons_cons.mp hc
    simp only [List.mem_cons, not_or] at hs
    simp only [List.length_cons] at hn
    obtain ⟨n, rfl⟩ := Nat.exists_eq_succ_of_ne_zero (show n ≠ 0 by omega)
    simp only [visit]
    rw [hfa, if_neg (Ne.symm hs.1), ih hc hs.2 (by omega)]
    rfl

section Ends

variable [DecidableEq α] {h : α → Link α} {l : List α} {first last : α} {n : Nat}

theorem visit_next (hc : (first :: (l ++ [last])).IsChain (Linked h)) (hl : last ∉ l) (hn : l.length < n) :
    visit (fun a => (h a).next) last n (h first).next = some l :=
  visit_chain (hc.imp fun _ _ hab => hab.1) hl hn

/-- The way back is the same nodes in reverse. -/
theorem visit_prev (hc : (first :: (l ++ [last])).IsChain (Linked h)) (hf : first ∉ l) (hn : l.length < n) :
    visit (fun a => (h a).prev) first n (h last).prev = some l.reverse := by
  refine visit_chain ?_ (by simpa using hf) (by simpa using hn)
  have hrev : last :: (l.reverse ++ [first]) = (first :: (l ++ [last])).reverse := by simp
  rw [hrev, List.isChain_reverse]
  exact hc.imp fun _ _ hab => hab.2

end Ends

/-! ## Several lists in one heap -/

section Heap

variable {ι : Type}

/-- The lists `L i` are chains of the heap `h`, and no node is in two of them, or twice in one. -/
structure Represents (h : α → Link α) (L : ι → Option (List α)) : Prop where
  chain : ∀ i l, L i = some l → l.IsChain (Linked h)
  nodup : ∀ i l, L i = some l → l.Nodup
  disjoint : ∀ i j l m, i ≠ j → L i = some l → L j = some m → l.Disjoint m

theorem Represents.update [DecidableEq ι] {h h' : α → Link α} {L : ι → Option (List α)} (hr : Represents h L)
    (i : ι) {l : List α} (hc : l.IsChain (Linked h')) (hnd : l.Nodup)
    (hdis : ∀ j m, j ≠ i → L j = some m → l.Disjoint m)
    (hf : ∀ j m, j ≠ i → L j = some m → ∀ a ∈ m, h' a = h a) :
    Represents h' (Function.update L i (some l)) := by
  have hself : ∀ m, Function.update L i (some l) i = some m → m = l := by
    intro m hm
    rw [Function.update_self] at hm
    exact (Option.some.inj hm).symm
  refine ⟨?_, ?_, ?_⟩
  · intro j m hm
    by_cases hj : j = i
    · subst hj
      rw [hself m hm]
      exact hc
    · rw [Function.update_of_ne hj] at hm
      exact chain_frame (hf j m hj hm) (hr.chain j m hm)
  · intro j m hm
    by_cases hj : j = i
    · subst hj
      rw [hself m hm]
      exact hnd
    · rw [Function.update_of_ne hj] at hm
      exact hr.nodup j m hm
  · intro j k m n hjk hm hn
    by_cases hj : j = i
    · subst hj
      rw [hself m hm]
      rw [Function.update_of_ne (Ne.symm hjk)] at hn
      exact hdis k n (Ne.symm hjk) hn
    · rw [Function.update_of_ne hj] at hm
      by_cases hk : k = i
      · subst hk
        rw [hself n hn]
        exact fun a hm' hl' => hdis j m hj hm hl' hm'
      · rw [Function.update_of_ne hk] at hn
        exact hr.disjoint j k m n hjk hm hn

end Heap
