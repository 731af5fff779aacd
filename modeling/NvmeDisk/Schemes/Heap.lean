import Mathlib.Data.List.Perm.Basic
import Mathlib.Data.List.Nodup
import Mathlib.Tactic.Common

/-! A heap as its live blocks. Every allocation gets a serial number, so a block keeps its identity
    when its address is handed out again; which allocations fail, and where the others land, is an
    oracle. `free` of an address that is no live block is recorded as `bad` (a double free). `Since`
    splits what was allocated from some point on into the blocks still owned and the dead ones. -/

namespace Mheap

/-- A block: the serial of its allocation, where it lies and which site asked for it. -/
structure Block (T : Type) where
  serial : Nat
  addr : Nat
  size : Nat
  site : T

/-- Live blocks lie at different addresses, none at the null pointer, and have different serials. -/
structure Heap (T : Type) where
  /-- where the `n`-th allocation lands; `none`: it fails -/
  oracle : Nat → Option Nat
  next : Nat
  live : List (Block T)
  /-- every block ever allocated, newest first -/
  born : List (Block T)
  /-- serials in the order they were freed, newest first -/
  freed : List Nat
  bad : List Nat
  addrs : (live.map (·.addr)).Nodup
  fresh : ∀ b ∈ live, b.serial < next ∧ 0 < b.size ∧ b.addr ≠ 0

variable {T : Type}

/-- Where the next allocation would land: the oracle's answer, if it is a fresh aligned range. -/
def Heap.place (h : Heap T) (align size : Nat) : Option Nat :=
  match h.oracle h.next with
  | some a =>
    if a ≠ 0 ∧ a % align = 0 ∧ 0 < size ∧
        (∀ b ∈ h.live, a + size ≤ b.addr ∨ b.addr + b.size ≤ a) then some a
    else none
  | none => none

theorem Heap.place_some {h : Heap T} {align size a : Nat} (hp : h.place align size = some a) :
    a ≠ 0 ∧ 0 < size ∧ ∀ b ∈ h.live, b.addr ≠ a := by
  unfold Heap.place at hp
  split at hp
  · split at hp
    · rename_i hc
      cases hp
      refine ⟨hc.1, hc.2.2.1, fun b hb heq => ?_⟩
      have hsize := (h.fresh b hb).2.1
      have := hc.2.2.1
      rcases hc.2.2.2 b hb with hd | hd <;> omega
    · cases hp
  · cases hp

/-- Allocate: the address (0 when out of memory) and the new heap. -/
def Heap.alloc (h : Heap T) (align size : Nat) (site : T) : Nat × Heap T :=
  match hp : h.place align size with
  | some a => (a, { h with
      next := h.next + 1
      live := ⟨h.next, a, size, site⟩ :: h.live
      born := ⟨h.next, a, size, site⟩ :: h.born
      addrs := by
        rw [List.map_cons, List.nodup_cons]
        refine ⟨fun hm => ?_, h.addrs⟩
        obtain ⟨b, hb, heq⟩ := List.mem_map.mp hm
        exact (Heap.place_some hp).2.2 b hb heq
      fresh := by
        intro b hb
        rcases List.mem_cons.mp hb with rfl | hb
        · exact ⟨Nat.lt_succ_self _, (Heap.place_some hp).2.1, (Heap.place_some hp).1⟩
        · exact ⟨Nat.lt_succ_of_lt (h.fresh b hb).1, (h.fresh b hb).2⟩ })
  | none => (0, { h with
      next := h.next + 1
      fresh := fun b hb => ⟨Nat.lt_succ_of_lt (h.fresh b hb).1, (h.fresh b hb).2⟩ })

/-- `free(a)`; freeing the null pointer does nothing. -/
def Heap.free (h : Heap T) (a : Nat) : Heap T :=
  if a = 0 then h
  else match h.live.find? (·.addr == a) with
    | some b => { h with
        live := h.live.filter (·.addr != a)
        freed := b.serial :: h.freed
        addrs := h.addrs.sublist (List.filter_sublist.map _)
        fresh := fun b hb => h.fresh b (List.mem_of_mem_filter hb) }
    | none => { h with bad := a :: h.bad }

/-- An allocation fails, or adds a block that overlaps no live one. -/
theorem Heap.alloc_cases (h : Heap T) (align size : Nat) (site : T) :
    ((h.alloc align size site).1 = 0 ∧ (h.alloc align size site).2.live = h.live) ∨
      ∃ b, (h.alloc align size site).1 = b.addr ∧ b.addr ≠ 0 ∧ b.size = size ∧ b.site = site ∧
        (h.alloc align size site).2.live = b :: h.live ∧
        ∀ c ∈ h.live, b.addr + size ≤ c.addr ∨ c.addr + c.size ≤ b.addr := by
  unfold Heap.alloc
  split
  · rename_i a hp
    refine .inr ⟨⟨h.next, a, size, site⟩, rfl, (Heap.place_some hp).1, rfl, rfl, rfl, ?_⟩
    unfold Heap.place at hp
    split at hp
    · split at hp
      · rename_i hc
        cases hp
        exact hc.2.2.2
      · cases hp
    · cases hp
  · exact .inl ⟨rfl, rfl⟩

/-- Some block was allocated at `a`, of this size and by this site; it may have been freed since. -/
def Heap.Held (h : Heap T) (a : Nat) (site : T) (size : Nat) : Prop :=
  ∃ b ∈ h.born, b.addr = a ∧ b.site = site ∧ b.size = size

/-- Whatever was allocated in `h` was allocated in `h'`. -/
def Heap.Grows (h h' : Heap T) : Prop := ∀ b ∈ h.born, b ∈ h'.born

theorem Heap.Held.grows {h h' : Heap T} {a size : Nat} {site : T} (hh : h.Held a site size)
    (hg : h.Grows h') : h'.Held a site size := by
  obtain ⟨b, hb, hrest⟩ := hh
  exact ⟨b, hg b hb, hrest⟩

theorem Heap.Grows.refl (h : Heap T) : h.Grows h := fun _ hb => hb

theorem Heap.grows_alloc (h : Heap T) (align size : Nat) (site : T) :
    h.Grows (h.alloc align size site).2 := by
  intro b hb
  unfold Heap.alloc
  split
  · exact List.mem_cons_of_mem _ hb
  · exact hb

theorem Heap.grows_free (h : Heap T) (a : Nat) : h.Grows (h.free a) := by
  intro b hb
  unfold Heap.free
  split
  · exact hb
  · split <;> exact hb

theorem Heap.held_alloc (h : Heap T) (align size : Nat) (site : T)
    (h0 : (h.alloc align size site).1 ≠ 0) :
    (h.alloc align size site).2.Held (h.alloc align size site).1 site size := by
  unfold Heap.alloc at h0 ⊢
  split
  · exact ⟨_, List.mem_cons_self .., rfl, rfl, rfl⟩
  · rename_i hp
    split at h0
    · rename_i hp'
      rw [hp] at hp'
      cases hp'
    · exact absurd rfl h0

/-- What is live after a `free` was live before, at another address. -/
theorem Heap.free_live (h : Heap T) (a : Nat) :
    (h.free a).live = h.live.filter (·.addr != a) := by
  unfold Heap.free
  split
  · rename_i ha
    refine (List.filter_eq_self.mpr fun b hb => ?_).symm
    simpa [ha] using (h.fresh b hb).2.2
  · split
    · rfl
    · rename_i hnone
      refine (List.filter_eq_self.mpr fun b hb => ?_).symm
      simpa using List.find?_eq_none.mp hnone b hb

/-- The oracle stays. -/
theorem Heap.free_oracle (h : Heap T) (a n : Nat) : (h.free a).oracle n = h.oracle n := by
  unfold Heap.free
  split
  · rfl
  · split <;> rfl

theorem Heap.alloc_oracle (h : Heap T) (align size : Nat) (site : T) (n : Nat) :
    (h.alloc align size site).2.oracle n = h.oracle n := by
  unfold Heap.alloc
  split <;> rfl

/-- An allocation that does not fail is where the oracle says. -/
theorem Heap.alloc_addr (h : Heap T) (align size : Nat) (site : T) :
    (h.alloc align size site).1 = 0 ∨ h.oracle h.next = some (h.alloc align size site).1 := by
  unfold Heap.alloc
  split
  · rename_i a hp
    unfold Heap.place at hp
    split at hp
    · rename_i b hb
      split at hp
      · cases hp
        exact .inr hb
      · cases hp
    · cases hp
  · exact .inl rfl

/-- What is allocated is aligned. -/
theorem Heap.alloc_aligned (h : Heap T) (align size : Nat) (site : T) :
    (h.alloc align size site).1 % align = 0 := by
  unfold Heap.alloc
  split
  · rename_i a hp
    unfold Heap.place at hp
    split at hp
    · split at hp
      · rename_i hc
        cases hp
        exact hc.2.1
      · cases hp
    · cases hp
  · exact Nat.zero_mod _

/-- Freeing the block allocated last restores the live ones. -/
theorem Heap.free_top {h : Heap T} {b : Block T} {live : List (Block T)} (hl : h.live = b :: live) :
    (h.free b.addr).live = live := by
  have hnodup := h.addrs
  rw [hl, List.map_cons, List.nodup_cons] at hnodup
  rw [Heap.free_live, hl, List.filter_cons_of_neg (by simp)]
  refine List.filter_eq_self.mpr fun c hc => ?_
  have hne : c.addr ≠ b.addr := fun heq => hnodup.1 (heq ▸ List.mem_map_of_mem hc)
  simpa using hne

/-! ### Bookkeeping from some point on -/

/-- Since `h₀` the blocks `own` were allocated and are live, and the blocks `dead` were allocated and
    freed. -/
structure Since (h₀ : Heap T) (own dead : List (Block T)) (h : Heap T) : Prop where
  live : h.live = own ++ h₀.live
  born : ∃ new, h.born = new ++ h₀.born ∧ new.Perm (own ++ dead)
  freed : h.freed = dead.map (·.serial) ++ h₀.freed
  bad : h.bad = h₀.bad
  serials : ((own ++ dead).map (·.serial)).Nodup
  below : ∀ b ∈ own ++ dead, b.serial < h.next

variable {h₀ h : Heap T} {own own' dead : List (Block T)} {b : Block T}

theorem Since.refl (h : Heap T) : Since h [] [] h where
  live := rfl
  born := ⟨[], rfl, .nil⟩
  freed := rfl
  bad := rfl
  serials := List.nodup_nil
  below := fun b hb => by cases hb

/-- An allocation fails, or adds a block to the owned ones. -/
theorem Since.alloc (hs : Since h₀ own dead h) (align size : Nat) (site : T) :
    ((h.alloc align size site).1 = 0 ∧ Since h₀ own dead (h.alloc align size site).2) ∨
      ∃ b, b.addr ≠ 0 ∧ b.site = site ∧ (h.alloc align size site).1 = b.addr ∧
        Since h₀ (b :: own) dead (h.alloc align size site).2 := by
  obtain ⟨new, hborn, hperm⟩ := hs.born
  unfold Heap.alloc
  split
  · rename_i a hp
    refine .inr ⟨⟨h.next, a, size, site⟩, (Heap.place_some hp).1, rfl, rfl, ?_⟩
    exact {
      live := by simp [hs.live]
      born := ⟨⟨h.next, a, size, site⟩ :: new, by simp [hborn], hperm.cons _⟩
      freed := hs.freed
      bad := hs.bad
      serials := by
        rw [List.cons_append, List.map_cons, List.nodup_cons]
        refine ⟨fun hm => ?_, hs.serials⟩
        obtain ⟨c, hc, heq⟩ := List.mem_map.mp hm
        exact Nat.lt_irrefl _ (heq ▸ hs.below c hc)
      below := by
        intro c hc
        rcases List.mem_cons.mp hc with rfl | hc
        · exact Nat.lt_succ_self _
        · exact Nat.lt_succ_of_lt (hs.below c hc) }
  · exact .inl ⟨rfl, { hs with below := fun c hc => Nat.lt_succ_of_lt (hs.below c hc) }⟩

/-- Freeing an owned block moves it to the dead ones. -/
theorem Since.free (hs : Since h₀ (own ++ b :: own') dead h) :
    Since h₀ (own ++ own') (b :: dead) (h.free b.addr) := by
  have hlive : h.live = own ++ b :: (own' ++ h₀.live) := by simp [hs.live]
  have hmem : b ∈ h.live := by simp [hlive]
  -- no other live block has its address
  have hne : ∀ c ∈ own ++ (own' ++ h₀.live), c.addr ≠ b.addr := by
    have hnodup := h.addrs
    rw [hlive, List.map_append, List.map_cons, List.nodup_middle, List.nodup_cons,
      ← List.map_append] at hnodup
    exact fun c hc heq => hnodup.1 (heq ▸ List.mem_map_of_mem hc)
  have hfind : h.live.find? (·.addr == b.addr) = some b := by
    rw [hlive, List.find?_append, List.find?_eq_none.mpr, Option.none_or, List.find?_cons_of_pos]
    · simp
    · intro c hc
      simpa using hne c (List.mem_append_left _ hc)
  have hfilter : h.live.filter (·.addr != b.addr) = own ++ own' ++ h₀.live := by
    rw [hlive, List.filter_append, List.filter_cons_of_neg (by simp), ← List.filter_append,
      List.filter_eq_self.mpr fun c hc => by simpa using hne c hc, List.append_assoc]
  have hperm : (own ++ b :: own' ++ dead).Perm (own ++ own' ++ b :: dead) := by
    simp only [List.append_assoc, List.cons_append]
    exact List.Perm.append_left own List.perm_middle.symm
  rw [Heap.free, if_neg (h.fresh b hmem).2.2]
  split
  · rename_i c hc
    obtain rfl : b = c := Option.some.inj (hfind.symm.trans hc)
    obtain ⟨new, hborn, hp⟩ := hs.born
    exact {
      live := hfilter
      born := ⟨new, hborn, hp.trans hperm⟩
      freed := by simp [hs.freed]
      bad := hs.bad
      serials := (hperm.map _).nodup_iff.mp hs.serials
      below := fun c hc => hs.below c (hperm.mem_iff.mpr hc) }
  · rename_i hc
    exact absurd (hfind.symm.trans hc) (by simp)

/-! ### What the bookkeeping says -/

/-- The blocks allocated since `h₀`. -/
def newBlocks (h₀ h : Heap T) : List (Block T) := h.born.take (h.born.length - h₀.born.length)

/-- The serials freed since `h₀`. -/
def newFrees (h₀ h : Heap T) : List Nat := h.freed.take (h.freed.length - h₀.freed.length)

theorem Since.newBlocks_perm (hs : Since h₀ own dead h) : (newBlocks h₀ h).Perm (own ++ dead) := by
  obtain ⟨new, hborn, hperm⟩ := hs.born
  have : newBlocks h₀ h = new := by simp [newBlocks, hborn]
  rw [this]
  exact hperm

theorem Since.newFrees_eq (hs : Since h₀ own dead h) : newFrees h₀ h = dead.map (·.serial) := by
  simp [newFrees, hs.freed]

/-- Nothing is freed twice. -/
theorem Since.newFrees_nodup (hs : Since h₀ own dead h) : (newFrees h₀ h).Nodup := by
  rw [hs.newFrees_eq]
  have := hs.serials
  rw [List.map_append] at this
  exact (List.nodup_append.mp this).2.1

/-- A new block that is not owned any more was freed, exactly once. -/
theorem Since.freed_once (hs : Since h₀ own dead h) (hb : b ∈ newBlocks h₀ h)
    (hown : b ∉ own) : (newFrees h₀ h).count b.serial = 1 := by
  have hmem := hs.newBlocks_perm.mem_iff.mp hb
  rcases List.mem_append.mp hmem with hm | hm
  · exact absurd hm hown
  · refine List.count_eq_one_of_mem hs.newFrees_nodup ?_
    rw [hs.newFrees_eq]
    exact List.mem_map_of_mem hm

end Mheap
