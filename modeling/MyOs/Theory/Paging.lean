import MyOs.Theory.Word

/-!
# Two-level page tables over a memory of frames

Physical memory is a map from a frame number and a word slot of that frame to a 32-bit word.
`walkPage m d p` is what the processor computes for virtual page `p` when the page directory is
frame `d`: entry `p / 1024` of the directory names a table, entry `p % 1024` of the table names
the page's frame, and bit 0 of both must be set.  `load`, `store`, `fill` and `copy` are memory
accesses through that walk.

* `walkPage_congr`, `walkPage_set_of_not_reads`: a walk only depends on the two words it reads.
* `walkPage_tableWindow`: under a directory whose last entry names the directory itself, the
  last 4 MB of addresses show the page tables, and the last page shows the directory.
* `walk_dirWindow`, `walk_tableWindow`: there every address has its own two entries.
* `fill_pages`, `copy_page`: accesses through the walk hit exactly the frames it names, as long
  as those frames are not tables of the same walk.
-/

namespace Paging

/-- Physical memory: the word in slot `i` of frame `f` is `m f i`. -/
abbrev Mem := Nat → Nat → Nat

def Mem.set (m : Mem) (f i w : Nat) : Mem := fun g j => if g = f ∧ j = i then w else m g j

@[simp] theorem Mem.set_same (m : Mem) (f i w : Nat) : m.set f i w f i = w := by
  simp [Mem.set]

theorem Mem.set_frame_ne (m : Mem) (f i w g : Nat) (h : g ≠ f) : m.set f i w g = m g := by
  funext j
  simp [Mem.set, h]

theorem Mem.set_slot_ne (m : Mem) (f i w g j : Nat) (h : j ≠ i) : m.set f i w g j = m g j := by
  simp [Mem.set, h]

/-- Slots `i, …, i + n - 1` of frame `f` take the values of `w`. -/
def Mem.setRange (m : Mem) (f i n : Nat) (w : Nat → Nat) : Mem :=
  fun g j => if g = f ∧ i ≤ j ∧ j < i + n then w j else m g j

theorem Mem.setRange_frame_ne (m : Mem) (f i n : Nat) (w : Nat → Nat) (g : Nat) (h : g ≠ f) :
    m.setRange f i n w g = m g := by
  funext j
  simp [Mem.setRange, h]

theorem Mem.setRange_same (m : Mem) (f i n : Nat) (w : Nat → Nat) (j : Nat) (h1 : i ≤ j)
    (h2 : j < i + n) : m.setRange f i n w f j = w j := by
  simp [Mem.setRange, h1, h2]

theorem Mem.setRange_slot_out (m : Mem) (f i n : Nat) (w : Nat → Nat) (g j : Nat)
    (h : j < i ∨ i + n ≤ j) : m.setRange f i n w g j = m g j := by
  unfold Mem.setRange
  rw [if_neg]
  rintro ⟨-, h1, h2⟩
  omega

theorem Mem.setRange_zero (m : Mem) (f i : Nat) (w : Nat → Nat) : m.setRange f i 0 w = m := by
  funext g j
  exact m.setRange_slot_out f i 0 w g j (by omega)

/-- Writing the first slot and then the others is writing the whole range. -/
theorem Mem.setRange_set (m : Mem) (f i n : Nat) (w : Nat → Nat) :
    (m.set f i (w i)).setRange f (i + 1) n w = m.setRange f i (n + 1) w := by
  funext g j
  unfold Mem.setRange Mem.set
  by_cases hg : g = f
  · by_cases hj : j = i
    · subst hj; simp [hg]
    · by_cases hr : i + 1 ≤ j ∧ j < i + 1 + n
      · rw [if_pos ⟨hg, hr⟩, if_pos ⟨hg, by omega, by omega⟩]
      · rw [if_neg (fun h => hr h.2), if_neg (fun h => hj h.2), if_neg (fun h => hr (by omega))]
  · simp [hg]

/-! ## The walk -/

/-- The frame of the page table that the directory `d` names for page `p`. -/
def table (m : Mem) (d p : Nat) : Nat := m d (p / 1024) / 4096

/-- The frame of virtual page `p` under the directory in frame `d`. -/
def walkPage (m : Mem) (d p : Nat) : Option Nat :=
  if m d (p / 1024) % 2 = 1 then
    if m (table m d p) (p % 1024) % 2 = 1 then some (m (table m d p) (p % 1024) / 4096) else none
  else none

/-- The physical address of virtual address `v`. -/
def walk (m : Mem) (d v : Nat) : Option Nat :=
  (walkPage m d (v / 4096)).map fun f => f * 4096 + v % 4096

theorem walk_congr {m m' : Mem} {d d' v : Nat} (h : walkPage m' d' (v / 4096) = walkPage m d (v / 4096)) :
    walk m' d' v = walk m d v := by
  unfold walk
  rw [h]

theorem walk_of_walkPage {m : Mem} {d v f : Nat} (h : walkPage m d (v / 4096) = some f) :
    walk m d v = some (f * 4096 + v % 4096) := by
  unfold walk
  rw [h]
  rfl

theorem walk_eq_none_iff (m : Mem) (d v : Nat) : walk m d v = none ↔ walkPage m d (v / 4096) = none :=
  Option.map_eq_none_iff

theorem walkPage_eq_none_iff (m : Mem) (d p : Nat) :
    walkPage m d p = none ↔ (m d (p / 1024) % 2 = 1 → m (table m d p) (p % 1024) % 2 = 0) := by
  unfold walkPage
  split
  · split
    · simp_all
    · simp_all
  · simp_all

theorem walkPage_eq_some_iff (m : Mem) (d p f : Nat) :
    walkPage m d p = some f ↔ m d (p / 1024) % 2 = 1 ∧ m (table m d p) (p % 1024) % 2 = 1 ∧
      m (table m d p) (p % 1024) / 4096 = f := by
  unfold walkPage
  constructor
  · intro h
    split at h
    · next h1 =>
      split at h
      · next h2 => exact ⟨h1, h2, Option.some.inj h⟩
      · cases h
    · cases h
  · rintro ⟨h1, h2, h3⟩
    rw [if_pos h1, if_pos h2, h3]

/-- A walk reads one word of the directory and one word of the table. -/
theorem walkPage_congr (m m' : Mem) (d d' p : Nat) (h1 : m' d' (p / 1024) = m d (p / 1024))
    (h2 : m d (p / 1024) % 2 = 1 → m' (table m d p) (p % 1024) = m (table m d p) (p % 1024)) :
    walkPage m' d' p = walkPage m d p := by
  have ht : table m' d' p = table m d p := by unfold table; rw [h1]
  unfold walkPage
  rw [ht, h1]
  by_cases hp : m d (p / 1024) % 2 = 1
  · rw [h2 hp]
  · rw [if_neg hp, if_neg hp]

/-- A walk does not see a write to a frame that is neither its directory nor its table. -/
theorem walkPage_of_frames (m m' : Mem) (d p : Nat) (h1 : m' d = m d)
    (h2 : m' (table m d p) = m (table m d p)) : walkPage m' d p = walkPage m d p :=
  walkPage_congr m m' d d p (by rw [h1]) (fun _ => by rw [h2])

theorem table_of_frame (m m' : Mem) (d p : Nat) (h : m' d = m d) : table m' d p = table m d p := by
  unfold table
  rw [h]

/-- The walk of page `p` reads slot `i` of frame `f`: as its directory entry, or as its table entry. -/
def WalkReads (m : Mem) (d p f i : Nat) : Prop :=
  (f = d ∧ i = p / 1024) ∨ (m d (p / 1024) % 2 = 1 ∧ f = table m d p ∧ i = p % 1024)

/-- A walk does not see a write to a word it does not read. -/
theorem walkPage_set_of_not_reads (m : Mem) (d p f i w : Nat) (h : ¬ WalkReads m d p f i) :
    walkPage (m.set f i w) d p = walkPage m d p := by
  refine walkPage_congr m _ d d p ?_ ?_
  · unfold Mem.set
    rw [if_neg]
    rintro ⟨hd, hi⟩
    exact h (.inl ⟨hd.symm, hi.symm⟩)
  · intro hp
    unfold Mem.set
    rw [if_neg]
    rintro ⟨ht, hi⟩
    exact h (.inr ⟨hp, ht.symm, hi.symm⟩)

/-! ## The recursive window -/

/-- The last entry of the directory in frame `d` names `d` itself. -/
def SelfMapped (m : Mem) (d : Nat) : Prop := m d 1023 % 2 = 1 ∧ m d 1023 / 4096 = d

theorem walkPage_tableWindow (m : Mem) (d i : Nat) (hs : SelfMapped m d) (hi : i < 1024) :
    walkPage m d (0xffc00 + i) = if m d i % 2 = 1 then some (m d i / 4096) else none := by
  have h1 : (0xffc00 + i) / 1024 = 1023 := by omega
  have h2 : (0xffc00 + i) % 1024 = i := by omega
  unfold walkPage table
  rw [h1, h2, if_pos hs.1, hs.2]

theorem SelfMapped.set {m : Mem} {d : Nat} (hs : SelfMapped m d) {i : Nat} (hi : i ≠ 1023) (w : Nat) :
    SelfMapped (m.set d i w) d := by
  unfold SelfMapped
  rw [Mem.set_slot_ne _ _ _ _ _ _ hi.symm]
  exact hs

theorem walkPage_dirWindow (m : Mem) (d : Nat) (hs : SelfMapped m d) :
    walkPage m d 0xfffff = some d := by
  have h := walkPage_tableWindow m d 1023 hs (by decide)
  rw [if_pos hs.1, hs.2] at h
  exact h

/-- The physical address of the directory entry of virtual address `v`. -/
def dirEntryAddr (d v : Nat) : Nat := d * 4096 + v / 4096 / 1024 * 4

/-- The physical address of its page-table entry. -/
def tableEntryAddr (m : Mem) (d v : Nat) : Nat := table m d (v / 4096) * 4096 + v / 4096 % 1024 * 4

/-- The word of `v`'s directory entry in the last page. -/
theorem walk_dirWindow (m : Mem) (d v : Nat) (hs : SelfMapped m d) (hv : v < 2 ^ 32) :
    walk m d (0xfffff000 + v / 4096 / 1024 * 4) = some (dirEntryAddr d v) := by
  have hpage : (0xfffff000 + v / 4096 / 1024 * 4) / 4096 = 0xfffff := by omega
  have hoff : (0xfffff000 + v / 4096 / 1024 * 4) % 4096 = v / 4096 / 1024 * 4 := by omega
  rw [walk_of_walkPage (by rw [hpage]; exact walkPage_dirWindow m d hs), hoff]
  rfl

/-- The word of `v`'s table entry in the last 4 MB. -/
theorem walk_tableWindow (m : Mem) (d v : Nat) (hs : SelfMapped m d) (hv : v < 2 ^ 32)
    (hp : m d (v / 4096 / 1024) % 2 = 1) :
    walk m d ((0xffc00 + v / 4096 / 1024) * 4096 + v / 4096 % 1024 * 4) = some (tableEntryAddr m d v) := by
  have hpage : ((0xffc00 + v / 4096 / 1024) * 4096 + v / 4096 % 1024 * 4) / 4096 =
    0xffc00 + v / 4096 / 1024 := by omega
  have hoff : ((0xffc00 + v / 4096 / 1024) * 4096 + v / 4096 % 1024 * 4) % 4096 = v / 4096 % 1024 * 4 := by
    omega
  have hwalk := walkPage_tableWindow m d (v / 4096 / 1024) hs (by omega)
  rw [if_pos hp] at hwalk
  rw [walk_of_walkPage (by rw [hpage]; exact hwalk), hoff]
  rfl

/-- The entries a walk goes through: the address it yields is put together from the table's entry. -/
theorem walk_eq_some_iff (m : Mem) (d v a : Nat) :
    walk m d v = some a ↔ m d (v / 4096 / 1024) % 2 = 1 ∧
      m (table m d (v / 4096)) (v / 4096 % 1024) % 2 = 1 ∧
      a = m (table m d (v / 4096)) (v / 4096 % 1024) / 4096 * 4096 + v % 4096 := by
  unfold walk
  rw [Option.map_eq_some_iff]
  constructor
  · rintro ⟨f, hf, rfl⟩
    obtain ⟨h1, h2, h3⟩ := (walkPage_eq_some_iff m d _ f).mp hf
    exact ⟨h1, h2, by rw [h3]⟩
  · rintro ⟨h1, h2, rfl⟩
    exact ⟨_, (walkPage_eq_some_iff m d _ _).mpr ⟨h1, h2, rfl⟩, rfl⟩

/-! ## Accesses through the walk -/

/-- The word at virtual address `v`; `none` is a page fault. -/
def load (m : Mem) (d v : Nat) : Option Nat :=
  (walkPage m d (v / 4096)).map fun f => m f (v % 4096 / 4)

def store (m : Mem) (d v w : Nat) : Option Mem :=
  (walkPage m d (v / 4096)).map fun f => m.set f (v % 4096 / 4) w

/-- Store `w` in `n` consecutive words from virtual address `v` on. -/
def fill (d w : Nat) : Nat → Nat → Mem → Option Mem
  | 0, _, m => some m
  | n + 1, v, m => (store m d v w).bind (fill d w n (v + 4))

/-- Copy `n` consecutive words from virtual address `src` to `dst`. -/
def copy (d : Nat) : Nat → Nat → Nat → Mem → Option Mem
  | 0, _, _, m => some m
  | n + 1, dst, src, m =>
    (load m d src).bind fun w => (store m d dst w).bind (copy d n (dst + 4) (src + 4))

theorem store_eq (m : Mem) (d v w f : Nat) (h : walkPage m d (v / 4096) = some f) :
    store m d v w = some (m.set f (v % 4096 / 4) w) := by
  unfold store
  rw [h]
  rfl

theorem load_eq (m : Mem) (d v f : Nat) (h : walkPage m d (v / 4096) = some f) :
    load m d v = some (m f (v % 4096 / 4)) := by
  unfold load
  rw [h]
  rfl

/-- Writing inside one page whose frame is not a table of the walk. -/
theorem fill_page (d w f : Nat) : ∀ (n v : Nat) (m : Mem), walkPage m d (v / 4096) = some f →
    f ≠ d → f ≠ table m d (v / 4096) → v % 4 = 0 → v % 4096 / 4 + n ≤ 1024 →
    fill d w n v m = some (m.setRange f (v % 4096 / 4) n fun _ => w) := by
  intro n
  induction n with
  | zero =>
    intro v m _ _ _ _ _
    rw [fill, Mem.setRange_zero]
  | succ n ih =>
    intro v m hw hd ht hv hn
    rw [fill, store_eq m d v w f hw, Option.bind_some]
    have hd' : m.set f (v % 4096 / 4) w d = m d := Mem.set_frame_ne _ _ _ _ _ hd.symm
    have ht' : m.set f (v % 4096 / 4) w (table m d (v / 4096)) = m (table m d (v / 4096)) :=
      Mem.set_frame_ne _ _ _ _ _ ht.symm
    rcases Nat.eq_zero_or_pos n with h0 | hpos
    · subst h0
      rw [fill, ← Mem.setRange_set, Mem.setRange_zero]
    · have hp : (v + 4) / 4096 = v / 4096 := by omega
      have hs : (v + 4) % 4096 / 4 = v % 4096 / 4 + 1 := by omega
      have := ih (v + 4) (m.set f (v % 4096 / 4) w)
        (by rw [hp, walkPage_of_frames m _ d _ hd' ht', hw]) hd
        (by rw [hp, table_of_frame m _ d _ hd']; exact ht) (by omega) (by omega)
      rw [this, hs, ← Mem.setRange_set m f (v % 4096 / 4) n fun _ => w]

theorem fill_append (d w : Nat) : ∀ (a b v : Nat) (m : Mem),
    fill d w (a + b) v m = (fill d w a v m).bind (fill d w b (v + 4 * a)) := by
  intro a
  induction a with
  | zero => intro b v m; simp [fill]
  | succ a ih =>
    intro b v m
    rw [show a + 1 + b = (a + b) + 1 by omega, fill, fill]
    cases hst : store m d v w with
    | none => rfl
    | some m' =>
      simp only [Option.bind_some]
      rw [ih, show v + 4 + 4 * a = v + 4 * (a + 1) by omega]

/-- Filling `n` whole pages from page `p` on, when no frame they map to is the directory or one of
the tables of the walk: those frames are filled and every other frame is as before. -/
theorem fill_pages (d w : Nat) (F : Nat → Nat) : ∀ (n p : Nat) (m : Mem),
    (∀ i, i < n → walkPage m d (p + i) = some (F (p + i))) →
    (∀ i, i < n → F (p + i) ≠ d) →
    (∀ i j, i < n → j < n → F (p + i) ≠ table m d (p + j)) →
    ∃ m', fill d w (n * 1024) (p * 4096) m = some m' ∧
      (∀ i j, i < n → j < 1024 → m' (F (p + i)) j = w) ∧
      (∀ g, (∀ i, i < n → g ≠ F (p + i)) → m' g = m g) := by
  intro n
  induction n with
  | zero =>
    intro p m _ _ _
    exact ⟨m, by simp [fill], fun i j hi => absurd hi (by omega), fun g _ => rfl⟩
  | succ n ih =>
    intro p m hw hd ht
    have h0 := fill_page d w (F p) 1024 (p * 4096) m
      (by rw [Nat.mul_div_cancel _ (by decide)]; exact hw 0 (by omega)) (hd 0 (by omega))
      (by rw [Nat.mul_div_cancel _ (by decide)]; exact ht 0 0 (by omega) (by omega))
      (by omega) (by omega)
    rw [Nat.mul_mod_left, Nat.zero_div] at h0
    -- the frame of page `p` is not a table, so the walks of the later pages stand
    generalize hm1 : m.setRange (F p) 0 1024 (fun _ => w) = m1 at h0
    have hfr : ∀ g, g ≠ F p → m1 g = m g := by
      intro g hg
      rw [← hm1]
      exact Mem.setRange_frame_ne _ _ _ _ _ g hg
    have hd1 : m1 d = m d := hfr d (hd 0 (by omega)).symm
    have hw1 : ∀ i, i < n → walkPage m1 d (p + 1 + i) = some (F (p + 1 + i)) := by
      intro i hi
      have e : p + 1 + i = p + (i + 1) := by omega
      rw [e, walkPage_of_frames m m1 d _ hd1 (hfr _ (ht 0 (i + 1) (by omega) (by omega)).symm)]
      exact hw (i + 1) (by omega)
    obtain ⟨m', hm', hin, hout⟩ := ih (p + 1) m1 hw1
      (fun i hi => by
        rw [show p + 1 + i = p + (i + 1) by omega]
        exact hd (i + 1) (by omega))
      (fun i j hi hj => by
        rw [table_of_frame m m1 d _ hd1, show p + 1 + i = p + (i + 1) by omega,
          show p + 1 + j = p + (j + 1) by omega]
        exact ht (i + 1) (j + 1) (by omega) (by omega))
    refine ⟨m', ?_, ?_, ?_⟩
    · rw [show (n + 1) * 1024 = 1024 + n * 1024 by omega, fill_append, h0, Option.bind_some,
        show p * 4096 + 4 * 1024 = (p + 1) * 4096 by omega]
      exact hm'
    · intro i j hi hj
      by_cases hlate : ∃ k, k < n ∧ F (p + i) = F (p + 1 + k)
      · obtain ⟨k, hk, e⟩ := hlate
        rw [e]
        exact hin k j hk hj
      · have hi0 : i = 0 := by
          apply Classical.byContradiction
          intro hne
          exact hlate ⟨i - 1, by omega, by rw [show p + 1 + (i - 1) = p + i by omega]⟩
        subst hi0
        rw [hout (F (p + 0)) (fun k hk e => hlate ⟨k, hk, e⟩), ← hm1]
        exact Mem.setRange_same _ _ _ _ _ j (by omega) (by omega)
    · intro g hg
      rw [hout g (fun i hi => by
        rw [show p + 1 + i = p + (i + 1) by omega]
        exact hg (i + 1) (by omega))]
      exact hfr g (hg 0 (by omega))

/-- Copying inside one page from another page, when the target's frame is not a table of the two
walks and not the source's frame. -/
theorem copy_page (d f g : Nat) : ∀ (n dst src : Nat) (m : Mem),
    walkPage m d (dst / 4096) = some f → walkPage m d (src / 4096) = some g → f ≠ d → f ≠ g →
    f ≠ table m d (dst / 4096) → f ≠ table m d (src / 4096) → dst % 4 = 0 → src % 4 = 0 →
    dst % 4096 = src % 4096 → dst % 4096 / 4 + n ≤ 1024 →
    copy d n dst src m = some (m.setRange f (dst % 4096 / 4) n (m g)) := by
  intro n
  induction n with
  | zero =>
    intro dst src m _ _ _ _ _ _ _ _ _ _
    rw [copy, Mem.setRange_zero]
  | succ n ih =>
    intro dst src m hf hg hd hfg htd hts h4d h4s hoff hn
    rw [copy, load_eq m d src g hg, Option.bind_some, store_eq m d dst _ f hf, Option.bind_some,
      ← hoff]
    generalize hm1 : m.set f (dst % 4096 / 4) (m g (dst % 4096 / 4)) = m1
    have hfr : ∀ h, h ≠ f → m1 h = m h := by
      intro h hh
      rw [← hm1]
      exact Mem.set_frame_ne _ _ _ _ _ hh
    have hd1 := hfr d hd.symm
    rcases Nat.eq_zero_or_pos n with h0 | hpos
    · subst h0
      rw [copy, ← hm1, ← Mem.setRange_set m f (dst % 4096 / 4) 0 (m g), Mem.setRange_zero]
    · have hpd : (dst + 4) / 4096 = dst / 4096 := by omega
      have hps : (src + 4) / 4096 = src / 4096 := by omega
      have hs : (dst + 4) % 4096 / 4 = dst % 4096 / 4 + 1 := by omega
      have := ih (dst + 4) (src + 4) m1
        (by rw [hpd, walkPage_of_frames m m1 d _ hd1 (hfr _ htd.symm), hf])
        (by rw [hps, walkPage_of_frames m m1 d _ hd1 (hfr _ hts.symm), hg]) hd hfg
        (by rw [hpd, table_of_frame m m1 d _ hd1]; exact htd)
        (by rw [hps, table_of_frame m m1 d _ hd1]; exact hts)
        (by omega) (by omega) (by omega) (by omega)
      rw [this, hs, hfr g hfg.symm, ← hm1, Mem.setRange_set m f (dst % 4096 / 4) n (m g)]

end Paging
