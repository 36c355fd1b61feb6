import MyOs.Theory.Links
import Mathlib.Data.Fintype.Card
import Mathlib.Data.Fintype.BigOperators

/-!
# lib/kernel/list.c: the intrusive list

A `struct list` at address `p` holds its two sentinels: `head` at `p` and `tail` at `p + 8`.  The elements are
nodes inside other structures.  The functions are translated as they write links, one assignment after
another; the loops carry a bound on their rounds, and `none` is a loop that has not ended within it.

The abstract side is a map from the lists of a heap to sequences of elements (`Lists`), and `SeqStep` says
what every function does to it, and when it may be called.

    exec_seqStep    one call: same result, same sequences, and the other lists' nodes are not written
    list_refines    any sequence of calls, after which both directions agree
-/

namespace MyOs

/-- A 32-bit address. -/
abbrev Addr := Fin (2 ^ 32)

/-- `struct list_elem` at every address that holds one. -/
abbrev ListHeap := Addr → Link Addr

/-- `&plist->tail`, for `plist` at `p`; `&plist->head` is `p`. -/
def tailOf (p : Addr) : Addr := p + 8

/-- The address of a number. -/
def addrOf (n : Nat) : Addr := Fin.ofNat (2 ^ 32) n

/-- `NULL`, as an address. -/
def nullElem : Addr := 0

/-! ## The code -/

def listInit (h : ListHeap) (list : Addr) : ListHeap :=
  let h := setPrev h list nullElem
  let h := setNext h list (tailOf list)
  let h := setPrev h (tailOf list) list
  setNext h (tailOf list) nullElem

def listInsertBefore (h : ListHeap) (before elem : Addr) : ListHeap :=
  let h := setPrev h elem (h before).prev
  let h := setNext h elem before
  let h := setNext h (h before).prev elem
  setPrev h before elem

def listPush (h : ListHeap) (plist elem : Addr) : ListHeap := listInsertBefore h (h plist).next elem

def listAppend (h : ListHeap) (plist elem : Addr) : ListHeap := listInsertBefore h (tailOf plist) elem

def listRemove (h : ListHeap) (pelem : Addr) : ListHeap :=
  let h := setPrev h (h pelem).next (h pelem).prev
  setNext h (h pelem).prev (h pelem).next

def listPop (h : ListHeap) (plist : Addr) : Addr × ListHeap :=
  let elem := (h plist).next
  (elem, listRemove h elem)

def listEmpty (h : ListHeap) (plist : Addr) : Bool := (h plist).next = tailOf plist

/-- The loop of `elem_find`. -/
def findLoop (h : ListHeap) (tail objElem : Addr) : Nat → Addr → Option Bool
  | 0, _ => none
  | n + 1, elem =>
    if elem ≠ tail then
      if elem = objElem then some true else findLoop h tail objElem n (h elem).next
    else some false

def elemFind (n : Nat) (h : ListHeap) (plist objElem : Addr) : Option Bool :=
  findLoop h (tailOf plist) objElem n (h plist).next

/-- The loop of `list_traversal`. -/
def traversalLoop (h : ListHeap) (tail : Addr) (func : Addr → Int → Bool) (arg : Int) : Nat → Addr → Option Addr
  | 0, _ => none
  | n + 1, elem =>
    if elem ≠ tail then
      if func elem arg then some elem else traversalLoop h tail func arg n (h elem).next
    else some nullElem

def listTraversal (n : Nat) (h : ListHeap) (plist : Addr) (func : Addr → Int → Bool) (arg : Int) : Option Addr :=
  if listEmpty h plist then some nullElem
  else traversalLoop h (tailOf plist) func arg n (h plist).next

/-- The loop of `list_len`. -/
def lenLoop (h : ListHeap) (tail : Addr) : Nat → Addr → Nat → Option Nat
  | 0, _, _ => none
  | n + 1, elem, length =>
    if elem ≠ tail then lenLoop h tail n (h elem).next ((length + 1) % 2 ^ 32) else some length

def listLen (n : Nat) (h : ListHeap) (plist : Addr) : Option Nat := lenLoop h (tailOf plist) n (h plist).next 0

/-! ## Calls and runs -/

inductive ListOp where
  | init (list : Addr)
  | insertBefore (before elem : Addr)
  | push (plist elem : Addr)
  | append (plist elem : Addr)
  | remove (pelem : Addr)
  | pop (plist : Addr)
  | find (plist objElem : Addr)
  | traversal (plist : Addr) (func : Addr → Int → Bool) (arg : Int)
  | len (plist : Addr)
  | empty (plist : Addr)

inductive ListResult where
  | void
  | elem (a : Addr)
  | bool (b : Bool)
  | uint (n : Nat)
  deriving DecidableEq, Repr

def ListOp.exec (n : Nat) (h : ListHeap) : ListOp → Option (ListResult × ListHeap)
  | .init list => some (.void, listInit h list)
  | .insertBefore before elem => some (.void, listInsertBefore h before elem)
  | .push plist elem => some (.void, listPush h plist elem)
  | .append plist elem => some (.void, listAppend h plist elem)
  | .remove pelem => some (.void, listRemove h pelem)
  | .pop plist => some (.elem (listPop h plist).1, (listPop h plist).2)
  | .find plist objElem => (elemFind n h plist objElem).map fun b => (.bool b, h)
  | .traversal plist func arg => (listTraversal n h plist func arg).map fun a => (.elem a, h)
  | .len plist => (listLen n h plist).map fun len => (.uint len, h)
  | .empty plist => some (.bool (listEmpty h plist), h)

def execAll (n : Nat) : ListHeap → List ListOp → Option (List ListResult × ListHeap)
  | h, [] => some ([], h)
  | h, op :: ops => do
    let (r, h) ← op.exec n h
    let (rs, h) ← execAll n h ops
    pure (r :: rs, h)

/-! ## Sequences -/

/-- The lists of a heap, by address, as sequences of elements. -/
abbrev Lists := Addr → Option (List Addr)

/-- The nodes of the list at `p`: its sentinels and its elements. -/
def nodes (p : Addr) (s : List Addr) : List Addr := p :: (s ++ [tailOf p])

/-- `x` is in no list, neither an element nor a sentinel. -/
def Fresh (σ : Lists) (x : Addr) : Prop := ∀ q s, σ q = some s → x ∉ nodes q s

/-- What a call does to the sequences: the list it works on, its result and the sequences after it. -/
inductive SeqStep (σ : Lists) : ListOp → Addr → ListResult → Lists → Prop
  | init (p : Addr) : (∀ q s, q ≠ p → σ q = some s → p ∉ nodes q s ∧ tailOf p ∉ nodes q s) →
      SeqStep σ (.init p) p .void (Function.update σ p (some []))
  /-- `b` is the first element of `s₂`, or the tail sentinel when `s₂` is empty. -/
  | insertBefore (p b x : Addr) (s₁ s₂ : List Addr) : σ p = some (s₁ ++ s₂) →
      (s₂ ++ [tailOf p]).head? = some b → Fresh σ x →
      SeqStep σ (.insertBefore b x) p .void (Function.update σ p (some (s₁ ++ x :: s₂)))
  | push (p x : Addr) (s : List Addr) : σ p = some s → Fresh σ x →
      SeqStep σ (.push p x) p .void (Function.update σ p (some (x :: s)))
  | append (p x : Addr) (s : List Addr) : σ p = some s → Fresh σ x →
      SeqStep σ (.append p x) p .void (Function.update σ p (some (s ++ [x])))
  | remove (p x : Addr) (s : List Addr) : σ p = some s → x ∈ s →
      SeqStep σ (.remove x) p .void (Function.update σ p (some (s.erase x)))
  | pop (p x : Addr) (s : List Addr) : σ p = some (x :: s) →
      SeqStep σ (.pop p) p (.elem x) (Function.update σ p (some s))
  | find (p x : Addr) (s : List Addr) : σ p = some s → SeqStep σ (.find p x) p (.bool (decide (x ∈ s))) σ
  | traversal (p : Addr) (func : Addr → Int → Bool) (arg : Int) (s : List Addr) : σ p = some s →
      SeqStep σ (.traversal p func arg) p (.elem ((s.find? fun a => func a arg).getD nullElem)) σ
  | len (p : Addr) (s : List Addr) : σ p = some s → SeqStep σ (.len p) p (.uint s.length) σ
  | empty (p : Addr) (s : List Addr) : σ p = some s → SeqStep σ (.empty p) p (.bool (decide (s = []))) σ

inductive SeqRun : Lists → List ListOp → List ListResult → Lists → Prop
  | nil (σ : Lists) : SeqRun σ [] [] σ
  | cons {σ σ1 σ' : Lists} {op : ListOp} {p : Addr} {r : ListResult} {ops : List ListOp} {rs : List ListResult} :
      SeqStep σ op p r σ1 → SeqRun σ1 ops rs σ' → SeqRun σ (op :: ops) (r :: rs) σ'

/-- The heap holds the lists of `σ`, disjoint and well formed. -/
def WellFormed (h : ListHeap) (σ : Lists) : Prop := Represents h fun p => (σ p).map (nodes p)

/-- No node of another list than `p` is written. -/
def Untouched (h h' : ListHeap) (σ : Lists) (p : Addr) : Prop :=
  ∀ q s, q ≠ p → σ q = some s → ∀ a ∈ nodes q s, h' a = h a

namespace WellFormed

variable {h h' : ListHeap} {σ : Lists} {p q : Addr} {s : List Addr}

theorem chain (hw : WellFormed h σ) (hp : σ p = some s) : (nodes p s).IsChain (Linked h) :=
  Represents.chain hw p (nodes p s) (by simp [hp])

theorem nodup (hw : WellFormed h σ) (hp : σ p = some s) : (nodes p s).Nodup :=
  Represents.nodup hw p (nodes p s) (by simp [hp])

theorem disjoint (hw : WellFormed h σ) (hp : σ p = some s) {t : List Addr} (hne : q ≠ p) (hq : σ q = some t) :
    (nodes p s).Disjoint (nodes q t) :=
  Represents.disjoint hw p q _ _ (Ne.symm hne) (by simp [hp]) (by simp [hq])

theorem update (hw : WellFormed h σ) (p : Addr) {s : List Addr} (hc : (nodes p s).IsChain (Linked h'))
    (hnd : (nodes p s).Nodup) (hdis : ∀ q t, q ≠ p → σ q = some t → (nodes p s).Disjoint (nodes q t))
    (hf : Untouched h h' σ p) : WellFormed h' (Function.update σ p (some s)) := by
  have hmap : (fun q => (Function.update σ p (some s) q).map (nodes q)) =
      Function.update (fun q => (σ q).map (nodes q)) p (some (nodes p s)) := by
    funext q
    by_cases hq : q = p
    · subst hq
      simp
    · simp [hq]
  unfold WellFormed
  rw [hmap]
  refine Represents.update hw p hc hnd ?_ ?_
  · intro q m hq hm
    obtain ⟨t, ht, rfl⟩ := Option.map_eq_some_iff.mp hm
    exact hdis q t hq ht
  · intro q m hq hm
    obtain ⟨t, ht, rfl⟩ := Option.map_eq_some_iff.mp hm
    exact hf q t hq ht

end WellFormed

/-! ## Writing links -/

section Write

variable {h : ListHeap} {σ : Lists} {p a b x : Addr} {s s₁ s₂ : List Addr}

theorem listInsertBefore_links (ha : (h b).prev = a) (hab : a ≠ b) (hxa : x ≠ a) (hxb : x ≠ b) :
    listInsertBefore h b x a = ⟨(h a).prev, x⟩ ∧ listInsertBefore h b x b = ⟨x, (h b).next⟩ ∧
      listInsertBefore h b x x = ⟨a, b⟩ ∧
      ∀ y, y ≠ a → y ≠ b → y ≠ x → listInsertBefore h b x y = h y := by
  simp only [listInsertBefore, setPrev, setNext, ha, Function.update_self,
    Function.update_of_ne (Ne.symm hxb)]
  refine ⟨?_, ?_, ?_, ?_⟩
  · simp [hab, Ne.symm hxa]
  · simp [Ne.symm hab, Ne.symm hxb]
  · simp [hxa, hxb]
  · intro y h1 h2 h3
    simp [h1, h2, h3]

theorem listRemove_links (ha : (h x).prev = a) (hb : (h x).next = b) (hab : a ≠ b) (hbx : b ≠ x) :
    listRemove h x a = ⟨(h a).prev, b⟩ ∧ listRemove h x b = ⟨a, (h b).next⟩ ∧
      ∀ y, y ≠ a → y ≠ b → listRemove h x y = h y := by
  simp only [listRemove, setPrev, setNext, ha, hb, Function.update_of_ne (Ne.symm hbx)]
  refine ⟨?_, ?_, ?_⟩
  · simp [hab]
  · simp [Ne.symm hab]
  · intro y h1 h2
    simp [h1, h2]

/-- The nodes before a place of the sequence end with some node `a`. -/
theorem nodes_before (p : Addr) (s : List Addr) : ∃ l a, p :: s = l ++ [a] :=
  ⟨(p :: s).dropLast, (p :: s).getLast (by simp), (List.dropLast_append_getLast _).symm⟩

/-- The nodes around a place of the sequence. -/
theorem nodes_append {l₁ l₂ : List Addr} (h1 : p :: s₁ = l₁ ++ [a]) (h2 : s₂ ++ [tailOf p] = l₂) :
    nodes p (s₁ ++ s₂) = l₁ ++ a :: l₂ := by
  calc nodes p (s₁ ++ s₂) = (p :: s₁) ++ (s₂ ++ [tailOf p]) := by simp [nodes]
    _ = l₁ ++ a :: l₂ := by rw [h1, h2]; simp

/-- `list_insert_before`, at any place of any list. -/
theorem wellFormed_insert (s₁ s₂ : List Addr) (hw : WellFormed h σ) (hp : σ p = some (s₁ ++ s₂))
    (hb : (s₂ ++ [tailOf p]).head? = some b) (hx : Fresh σ x) :
    WellFormed (listInsertBefore h b x) (Function.update σ p (some (s₁ ++ x :: s₂))) ∧
      Untouched h (listInsertBefore h b x) σ p := by
  obtain ⟨l₁, a, hl₁⟩ := nodes_before p s₁
  obtain ⟨l₂, hl₂⟩ : ∃ l₂, s₂ ++ [tailOf p] = b :: l₂ := List.head?_eq_some_iff.mp hb
  have hold : nodes p (s₁ ++ s₂) = l₁ ++ a :: b :: l₂ := nodes_append hl₁ hl₂
  have hnew : nodes p (s₁ ++ x :: s₂) = l₁ ++ a :: x :: b :: l₂ :=
    nodes_append hl₁ (by rw [List.cons_append, hl₂])
  have hc := hw.chain hp
  have hnd := hw.nodup hp
  have hxn : x ∉ nodes p (s₁ ++ s₂) := hx p _ hp
  have hmem : ∀ y, y ∈ nodes p (s₁ ++ x :: s₂) ↔ y = x ∨ y ∈ nodes p (s₁ ++ s₂) := by
    intro y
    simp only [nodes, List.mem_cons, List.mem_append]
    tauto
  rw [hold] at hc hnd
  have hlink : (h b).prev = a := (List.isChain_append_cons_cons.mp hc).2.1.2
  have hab : a ≠ b := by
    rintro rfl
    simp [List.nodup_append] at hnd
  have hxa : x ≠ a := by
    rintro rfl
    exact hxn (by rw [hold]; simp)
  have hxb : x ≠ b := by
    rintro rfl
    exact hxn (by rw [hold]; simp)
  obtain ⟨h1, h2, h3, h4⟩ := listInsertBefore_links hlink hab hxa hxb
  have hframe : Untouched h (listInsertBefore h b x) σ p := by
    intro q t hq ht y hy
    have hdis := hw.disjoint hp hq ht
    rw [hold] at hdis
    refine h4 y ?_ ?_ ?_
    · rintro rfl
      exact hdis (by simp) hy
    · rintro rfl
      exact hdis (by simp) hy
    · rintro rfl
      exact hx q t ht hy
  refine ⟨hw.update p ?_ ?_ ?_ hframe, hframe⟩
  · rw [hnew]
    exact chain_insert hc hnd (by rw [← hold]; exact hxn) h1 h2 h3 h4
  · rw [hnew]
    have hperm : (l₁ ++ a :: x :: b :: l₂).Perm (x :: (l₁ ++ a :: b :: l₂)) := by
      have hmid : ((l₁ ++ [a]) ++ x :: b :: l₂).Perm (x :: ((l₁ ++ [a]) ++ b :: l₂)) := List.perm_middle
      simpa using hmid
    rw [hperm.nodup_iff, List.nodup_cons]
    exact ⟨by rw [← hold]; exact hxn, hnd⟩
  · intro q t hq ht y hy hy'
    rcases (hmem y).mp hy with rfl | hy
    · exact hx q t ht hy'
    · exact hw.disjoint hp hq ht hy hy'

/-- `list_remove`, of any element of any list. -/
theorem wellFormed_remove (s₁ s₂ : List Addr) (hw : WellFormed h σ) (hp : σ p = some (s₁ ++ x :: s₂)) :
    WellFormed (listRemove h x) (Function.update σ p (some (s₁ ++ s₂))) ∧ Untouched h (listRemove h x) σ p := by
  obtain ⟨l₁, a, hl₁⟩ := nodes_before p s₁
  obtain ⟨b, l₂, hl₂⟩ : ∃ b l₂, s₂ ++ [tailOf p] = b :: l₂ := List.exists_cons_of_ne_nil (by simp)
  have hold : nodes p (s₁ ++ x :: s₂) = l₁ ++ a :: x :: b :: l₂ :=
    nodes_append hl₁ (by rw [List.cons_append, hl₂])
  have hnew : nodes p (s₁ ++ s₂) = l₁ ++ a :: b :: l₂ := nodes_append hl₁ hl₂
  have hsub : (nodes p (s₁ ++ s₂)).Sublist (nodes p (s₁ ++ x :: s₂)) := by
    rw [hold, hnew]
    exact (((List.sublist_cons_self x (b :: l₂)).cons_cons a).append_left l₁)
  have hc := hw.chain hp
  have hnd := hw.nodup hp
  rw [hold] at hc hnd
  have hlink := (List.isChain_append_cons_cons.mp hc).2
  have hab : a ≠ b := by
    rintro rfl
    simp [List.nodup_append] at hnd
  have hbx : b ≠ x := by
    rintro rfl
    simp [List.nodup_append] at hnd
  obtain ⟨h1, h2, h3⟩ := listRemove_links hlink.1.2 (List.isChain_cons_cons.mp hlink.2).1.1 hab hbx
  have hframe : Untouched h (listRemove h x) σ p := by
    intro q t hq ht y hy
    have hdis := hw.disjoint hp hq ht
    rw [hold] at hdis
    refine h3 y ?_ ?_
    · rintro rfl
      exact hdis (by simp) hy
    · rintro rfl
      exact hdis (by simp) hy
  refine ⟨hw.update p ?_ (hsub.nodup (hw.nodup hp)) ?_ hframe, hframe⟩
  · rw [hnew]
    exact chain_remove hc hnd h1 h2 h3
  · intro q t hq ht y hy hy'
    exact hw.disjoint hp hq ht (hsub.subset hy) hy'

theorem tailOf_ne (p : Addr) : tailOf p ≠ p := by
  intro he
  have hval := congrArg Fin.val he
  have h8 : ((8 : Addr) : Nat) = 8 := rfl
  simp only [tailOf, Fin.val_add, h8] at hval
  have := p.isLt
  omega

theorem wellFormed_init (hw : WellFormed h σ)
    (hp : ∀ q s, q ≠ p → σ q = some s → p ∉ nodes q s ∧ tailOf p ∉ nodes q s) :
    WellFormed (listInit h p) (Function.update σ p (some [])) ∧ Untouched h (listInit h p) σ p := by
  have ht := tailOf_ne p
  have h1 : listInit h p p = ⟨nullElem, tailOf p⟩ := by
    simp [listInit, setPrev, setNext, Ne.symm ht]
  have h2 : listInit h p (tailOf p) = ⟨p, nullElem⟩ := by
    simp [listInit, setPrev, setNext]
  have h3 : ∀ y, y ≠ p → y ≠ tailOf p → listInit h p y = h y := by
    intro y hy1 hy2
    simp [listInit, setPrev, setNext, hy1, hy2]
  have hframe : Untouched h (listInit h p) σ p := by
    intro q s hq hs y hy
    refine h3 y ?_ ?_
    · rintro rfl
      exact (hp q s hq hs).1 hy
    · rintro rfl
      exact (hp q s hq hs).2 hy
  refine ⟨hw.update p ?_ ?_ ?_ hframe, hframe⟩
  · simp [nodes, Linked, h1, h2]
  · simp [nodes, Ne.symm ht]
  · intro q s hq hs y hy hy'
    rcases List.mem_cons.mp hy with rfl | hy
    · exact (hp q s hq hs).1 hy'
    · obtain rfl : y = tailOf p := by simpa using hy
      exact (hp q s hq hs).2 hy'

end Write

/-! ## Reading links -/

section Read

variable {h : ListHeap} {σ : Lists} {p a tail : Addr} {s l : List Addr} {n : Nat}

theorem findLoop_visit (obj : Addr) : ∀ {n : Nat} {a : Addr} {l : List Addr},
    visit (fun a => (h a).next) tail n a = some l → findLoop h tail obj n a = some (decide (obj ∈ l)) := by
  intro n
  induction n with
  | zero =>
    intro a l hv
    cases hv
  | succ n ih =>
    intro a l hv
    unfold visit at hv
    unfold findLoop
    split at hv
    · rename_i ha
      cases hv
      simp [ha]
    · rename_i ha
      obtain ⟨l', hl', rfl⟩ := Option.map_eq_some_iff.mp hv
      rw [if_pos ha]
      by_cases ho : a = obj
      · simp [ho]
      · rw [if_neg ho, ih hl']
        simp [Ne.symm ho]

theorem traversalLoop_visit (func : Addr → Int → Bool) (arg : Int) : ∀ {n : Nat} {a : Addr} {l : List Addr},
    visit (fun a => (h a).next) tail n a = some l →
    traversalLoop h tail func arg n a = some ((l.find? fun a => func a arg).getD nullElem) := by
  intro n
  induction n with
  | zero =>
    intro a l hv
    cases hv
  | succ n ih =>
    intro a l hv
    unfold visit at hv
    unfold traversalLoop
    split at hv
    · rename_i ha
      cases hv
      simp [ha]
    · rename_i ha
      obtain ⟨l', hl', rfl⟩ := Option.map_eq_some_iff.mp hv
      rw [if_pos ha]
      cases hf : func a arg with
      | true => simp [hf]
      | false => simp [hf, ih hl']

theorem lenLoop_visit : ∀ {n : Nat} {a : Addr} {l : List Addr} {length : Nat},
    visit (fun a => (h a).next) tail n a = some l → length + l.length < 2 ^ 32 →
    lenLoop h tail n a length = some (length + l.length) := by
  intro n
  induction n with
  | zero =>
    intro a l length hv
    cases hv
  | succ n ih =>
    intro a l length hv hlen
    unfold visit at hv
    unfold lenLoop
    split at hv
    · rename_i ha
      cases hv
      simp [ha]
    · rename_i ha
      obtain ⟨l', hl', rfl⟩ := Option.map_eq_some_iff.mp hv
      simp only [List.length_cons] at hlen ⊢
      rw [if_pos ha, Nat.mod_eq_of_lt (by omega), ih hl' (by omega)]
      congr 1
      omega

/-- There are at most as many nodes as addresses. -/
theorem length_lt (hw : WellFormed h σ) (hp : σ p = some s) : s.length + 2 ≤ 2 ^ 32 := by
  have hcard := (hw.nodup hp).length_le_card
  rw [Fintype.card_fin] at hcard
  simp only [nodes, List.length_cons, List.length_append, List.length_nil] at hcard
  omega

/-- Following `next` from the head gives the sequence. -/
theorem visit_forward (hw : WellFormed h σ) (hp : σ p = some s) (hn : 2 ^ 32 ≤ n) :
    visit (fun a => (h a).next) (tailOf p) n (h p).next = some s := by
  have hlen := length_lt hw hp
  have hnd := hw.nodup hp
  refine visit_next (hw.chain hp) ?_ (by omega)
  simp only [nodes, List.nodup_cons, List.nodup_append] at hnd
  intro hm
  exact hnd.2.2.2 _ hm _ (by simp) rfl

/-- Following `prev` from the tail gives it in reverse. -/
theorem visit_backward (hw : WellFormed h σ) (hp : σ p = some s) (hn : 2 ^ 32 ≤ n) :
    visit (fun a => (h a).prev) p n (h (tailOf p)).prev = some s.reverse := by
  have hlen := length_lt hw hp
  have hnd := hw.nodup hp
  refine visit_prev (hw.chain hp) ?_ (by omega)
  simp only [nodes, List.nodup_cons, List.mem_append, not_or] at hnd
  exact hnd.1.1

/-- The node after the head. -/
theorem head_next (hw : WellFormed h σ) (hp : σ p = some s) : (s ++ [tailOf p]).head? = some (h p).next := by
  obtain ⟨b, l, hl⟩ : ∃ b l, s ++ [tailOf p] = b :: l := List.exists_cons_of_ne_nil (by simp)
  have hc := hw.chain hp
  rw [nodes, hl] at hc
  rw [hl, (List.isChain_cons_cons.mp hc).1.1]
  rfl

theorem listEmpty_iff (hw : WellFormed h σ) (hp : σ p = some s) : listEmpty h p = decide (s = []) := by
  have hhead := head_next hw hp
  unfold listEmpty
  cases s with
  | nil =>
    have he : tailOf p = (h p).next := by simpa using hhead
    simp [← he]
  | cons x s =>
    have hx : x = (h p).next := by simpa using hhead
    have hne : x ≠ tailOf p := by
      rintro rfl
      have hnd := hw.nodup hp
      simp [nodes] at hnd
    simp [← hx, hne]

end Read

/-! ## Refinement -/

/-- `s` without `x` is what stood before `x` and after it. -/
theorem erase_split {s : List Addr} {x : Addr} (hx : x ∈ s) (hnd : s.Nodup) :
    ∃ s₁ s₂, s = s₁ ++ x :: s₂ ∧ s.erase x = s₁ ++ s₂ := by
  obtain ⟨s₁, s₂, rfl⟩ := List.append_of_mem hx
  refine ⟨s₁, s₂, rfl, ?_⟩
  have hx1 : x ∉ s₁ := by
    intro hm
    rw [List.nodup_append] at hnd
    exact hnd.2.2 x hm x (by simp) rfl
  rw [List.erase_append_right _ hx1, List.erase_cons_head]

/-- One call: what the code returns and leaves is what the sequences say. -/
theorem exec_seqStep {h : ListHeap} {σ σ' : Lists} {op : ListOp} {p : Addr} {r : ListResult} {n : Nat}
    (hn : 2 ^ 32 ≤ n) (hw : WellFormed h σ) (hs : SeqStep σ op p r σ') :
    ∃ h', op.exec n h = some (r, h') ∧ WellFormed h' σ' ∧ Untouched h h' σ p := by
  have hquery : Untouched h h σ p := fun _ _ _ _ _ _ => rfl
  cases hs with
  | init p hp => exact ⟨_, rfl, wellFormed_init hw hp⟩
  | insertBefore p b x s₁ s₂ hp hb hx => exact ⟨_, rfl, wellFormed_insert s₁ s₂ hw hp hb hx⟩
  | push p x s hp hx => exact ⟨_, rfl, wellFormed_insert [] s hw hp (head_next hw hp) hx⟩
  | append p x s hp hx =>
    have hp' : σ p = some (s ++ []) := by rw [List.append_nil, hp]
    exact ⟨_, rfl, wellFormed_insert s [] hw hp' rfl hx⟩
  | remove p x s hp hx =>
    have hnd : s.Nodup := (List.nodup_append.mp (List.nodup_cons.mp (hw.nodup hp)).2).1
    obtain ⟨s₁, s₂, rfl, he⟩ := erase_split hx hnd
    rw [he]
    exact ⟨_, rfl, wellFormed_remove s₁ s₂ hw hp⟩
  | pop p x s hp =>
    have hx : x = (h p).next := by simpa using head_next hw hp
    refine ⟨listRemove h x, ?_, wellFormed_remove [] s hw hp⟩
    simp [ListOp.exec, listPop, ← hx]
  | find p x s hp =>
    refine ⟨h, ?_, hw, hquery⟩
    simp [ListOp.exec, elemFind, findLoop_visit x (visit_forward hw hp hn)]
  | traversal p func arg s hp =>
    refine ⟨h, ?_, hw, hquery⟩
    simp only [ListOp.exec, listTraversal, listEmpty_iff hw hp,
      traversalLoop_visit func arg (visit_forward hw hp hn)]
    cases s <;> simp
  | len p s hp =>
    refine ⟨h, ?_, hw, hquery⟩
    have hlen := length_lt hw hp
    have hloop : lenLoop h (tailOf p) n (h p).next 0 = some (0 + s.length) :=
      lenLoop_visit (visit_forward hw hp hn) (by omega)
    simp [ListOp.exec, listLen, hloop]
  | empty p s hp => exact ⟨h, by simp [ListOp.exec, listEmpty_iff hw hp], hw, hquery⟩

/-- Forward and backward, the heap holds the sequences of `σ`. -/
def Agrees (n : Nat) (h : ListHeap) (σ : Lists) : Prop :=
  ∀ p s, σ p = some s → visit (fun a => (h a).next) (tailOf p) n (h p).next = some s ∧
    visit (fun a => (h a).prev) p n (h (tailOf p)).prev = some s.reverse

/-- Any sequence of calls. -/
theorem execAll_seqRun {n : Nat} (hn : 2 ^ 32 ≤ n) {σ σ' : Lists} {ops : List ListOp} {rs : List ListResult}
    (hs : SeqRun σ ops rs σ') : ∀ {h : ListHeap}, WellFormed h σ →
    ∃ h', execAll n h ops = some (rs, h') ∧ WellFormed h' σ' := by
  induction hs with
  | nil σ =>
    intro h hw
    exact ⟨h, rfl, hw⟩
  | cons hstep _ ih =>
    intro h hw
    obtain ⟨h1, he1, hw1, -⟩ := exec_seqStep hn hw hstep
    obtain ⟨h', he', hw'⟩ := ih hw1
    exact ⟨h', by simp [execAll, he1, he'], hw'⟩

/-- **The list refines a sequence.**  Every call returns what the sequences say, leaves a heap that holds the
new sequences, and writes no node of another list; so does every run of calls, and after it following `next`
and following `prev` give the same sequence.  `n` bounds the rounds of a loop; there are `2 ^ 32` addresses. -/
theorem list_refines (n : Nat) (hn : 2 ^ 32 ≤ n) (h : ListHeap) (σ : Lists) (hw : WellFormed h σ) :
    (∀ op p r σ', SeqStep σ op p r σ' →
      ∃ h', op.exec n h = some (r, h') ∧ WellFormed h' σ' ∧ Untouched h h' σ p) ∧
    (∀ ops rs σ', SeqRun σ ops rs σ' →
      ∃ h', execAll n h ops = some (rs, h') ∧ WellFormed h' σ' ∧ Agrees n h' σ') := by
  refine ⟨fun op p r σ' hs => exec_seqStep hn hw hs, ?_⟩
  intro ops rs σ' hs
  obtain ⟨h', he, hw'⟩ := execAll_seqRun hn hs hw
  exact ⟨h', he, hw', fun p s hp => ⟨visit_forward hw' hp hn, visit_backward hw' hp hn⟩⟩

/-- A heap with no lists in it. -/
theorem wellFormed_empty (h : ListHeap) : WellFormed h fun _ => none :=
  { chain := fun _ _ hl => by cases hl
    nodup := fun _ _ hl => by cases hl
    disjoint := fun _ _ _ _ _ hl => by cases hl }

/-- With one list in the heap, any other node is in no list. -/
theorem fresh_single {p x : Addr} {s : List Addr} (hx : x ∉ nodes p s) :
    Fresh (Function.update (fun _ => none) p (some s)) x := by
  intro q t hq
  by_cases hqp : q = p
  · subst hqp
    rw [Function.update_self] at hq
    cases hq
    exact hx
  · rw [Function.update_of_ne hqp] at hq
    cases hq

/-- A list is made, two elements are put in and one is taken out. -/
theorem list_refines_three :
    ∃ h', execAll (2 ^ 32) (fun _ => ⟨0, 0⟩)
        [.init 100, .append 100 300, .push 100 200, .pop 100, .len 100] =
      some ([.void, .void, .void, .elem 200, .uint 1], h') ∧
      Agrees (2 ^ 32) h' (Function.update (fun _ => none) 100 (some [300])) := by
  have hrun : SeqRun (fun _ => none) [.init 100, .append 100 300, .push 100 200, .pop 100, .len 100]
      [.void, .void, .void, .elem 200, .uint 1] (Function.update (fun _ => none) 100 (some [300])) := by
    refine .cons (.init 100 (by simp)) (.cons (.append 100 300 [] (by simp) (fresh_single (by decide))) ?_)
    rw [Function.update_idem, List.nil_append]
    refine .cons (.push 100 200 [300] (by simp) (fresh_single (by decide))) ?_
    rw [Function.update_idem]
    refine .cons (.pop 100 200 [300] (by simp)) ?_
    rw [Function.update_idem]
    exact .cons (.len 100 [300] (by simp)) (.nil _)
  obtain ⟨h', he, -, ha⟩ := (list_refines (2 ^ 32) le_rfl _ _ (wellFormed_empty fun _ => ⟨0, 0⟩)).2 _ _ _ hrun
  exact ⟨h', he, ha⟩

end MyOs
