import NvmeDisk.Setup.CreateQueues
import NvmeDisk.Setup.Routine

/-! The driver's own indices while a controller is set up. The device is not trusted with anything: it
    writes memory, registers, completion entries and even submission entries as it likes. The indices
    stay in their rings all the same, because each is masked by a length the driver itself chose. -/

namespace Nvme
open Bytes BlockDev Resume Mheap

/-! ### Rings -/

/-- The address of the ring, null if it is not initialised. -/
def World.ring (w : World) : RingId → Nat
  | .sq i => (w.q i).sq.sqe
  | .cq i => (w.q i).cq.cqe

def World.mask (w : World) : RingId → Nat
  | .sq i => (w.q i).sq.common.mask
  | .cq i => (w.q i).cq.common.mask

/-- The slot the driver turns to next: the tail of a submission queue, the head of a completion queue. -/
def World.index (w : World) : RingId → Nat
  | .sq i => (w.q i).sq.tail
  | .cq i => (w.q i).cq.head

/-- An initialised ring has more entries than the driver's index says. -/
def Ranged (r : RingId) (w : World) : Prop :=
  w.ring r ≠ 0 → ∃ n, w.sys.heap.Held (w.ring r) r.site (r.entry * n) ∧ w.mask r < n ∧ w.index r < n

/-- The LBA format table has 16 entries, and no divisor is zero. -/
def Used.InRange : Used → Prop
  | .lbads fmt _ => fmt < 16
  | .ms fmt _ => fmt < 16
  | .divisor d => 0 < d
  | _ => True

/-- Every format that was read and every divisor so far. -/
def InRange (us : List Used) : Prop := ∀ x ∈ us, x.InRange

/-- The driver's accesses find what they need, wherever the driver has come to. -/
structure Ranges (w : World) : Prop where
  rings : ∀ r, Ranged r w
  used : InRange w.used
  page : w.sys.nvmeDmaBuffer ≠ 0 → w.sys.heap.Held w.sys.nvmeDmaBuffer .dma nvmePageSize
  sized : ∀ rec ∈ accepted w.log, 0 < (w.sys.nsRec rec).blockSize
  paged : accepted w.log ≠ [] → w.sys.nvmeDmaBuffer ≠ 0

/-- A ring nothing has been done with. -/
def Blank (r : RingId) (w : World) : Prop := w.ring r = 0 ∧ w.index r = 0

/-- On the way through the set-up, with the rings `l` still to be initialised. -/
structure BringUp (l : List RingId) (w : World) : Prop extends Ranges w where
  blank : ∀ r ∈ l, Blank r w

variable {w v : World} {l : List RingId} {r : RingId} {i j : QId} {a n : Nat} {α β : Type}

theorem InRange.cons {us : List Used} {x : Used} (h : InRange us) (hx : x.InRange) : InRange (x :: us) :=
  List.forall_mem_cons.mpr ⟨hx, h⟩

/-! ### Actions that leave the rings alone -/

structure Tame (w v : World) : Prop where
  sq : ∀ i, (v.q i).sq = (w.q i).sq
  cq : ∀ i, (v.q i).cq = (w.q i).cq
  heap : w.sys.heap.Grows v.sys.heap
  dma : v.sys.nvmeDmaBuffer = w.sys.nvmeDmaBuffer
  nsRec : v.sys.nsRec = w.sys.nsRec
  accepted : accepted v.log = accepted w.log
  used : InRange w.used → InRange v.used

theorem Tame.refl (w : World) : Tame w w :=
  ⟨fun _ => rfl, fun _ => rfl, .refl _, rfl, rfl, rfl, fun h => h⟩

theorem Untrusted.tame (h : Untrusted w v) : Tame w v :=
  ⟨h.sq, h.cq, by rw [h.sys]; exact .refl _, by rw [h.sys], by rw [h.sys], h.accepted,
    fun hu => by rw [h.used]; exact hu⟩

theorem Tame.use (w : World) {x : Used} (hx : x.InRange) : Tame w (w.use x) :=
  { Tame.refl w with used := fun h => h.cons hx }

theorem Tame.ring (h : Tame w v) (r : RingId) :
    v.ring r = w.ring r ∧ v.mask r = w.mask r ∧ v.index r = w.index r := by
  cases r with
  | sq i => simp [World.ring, World.mask, World.index, h.sq i]
  | cq i => simp [World.ring, World.mask, World.index, h.cq i]

theorem Tame.bringUp (h : Tame w v) (hs : BringUp l w) : BringUp l v where
  rings r h0 := by
    obtain ⟨hring, hmask, hindex⟩ := h.ring r
    rw [hring] at h0 ⊢
    obtain ⟨n, hheld, hrest⟩ := hs.rings r h0
    rw [hmask, hindex]
    exact ⟨n, hheld.grows h.heap, hrest⟩
  used := h.used hs.used
  page h0 := by
    rw [h.dma] at h0 ⊢
    exact (hs.page h0).grows h.heap
  sized := by
    rw [h.accepted, h.nsRec]
    exact hs.sized
  paged := by
    rw [h.accepted, h.dma]
    exact hs.paged
  blank r hr := by
    obtain ⟨hring, _, hindex⟩ := h.ring r
    rw [Blank, hring, hindex]
    exact hs.blank r hr

theorem bringUp_stable (l : List RingId) : Stable Untrusted (BringUp l) :=
  fun _ _ h hr => hr.tame.bringUp h

/-- An event other than an acceptance. -/
theorem Tame.note (w : World) {ev : Event} (h : Nvme.accepted [ev] = []) : Tame w (w.note ev) :=
  { Tame.refl w with
    accepted := by
      rw [World.note_log, ← List.singleton_append, Nvme.accepted, List.filterMap_append]
      exact (congrArg (· ++ _) h).trans (List.nil_append _) }

theorem tame_free (a : Nat) : (free a).Does Tame := by
  refine .modify fun w => ?_
  rw [World.free]
  split
  · exact .refl w
  · exact { (Tame.note (w.setHeap (w.sys.heap.free a)) rfl : Tame _ (World.note _ (.freed a))) with
      heap := w.sys.heap.grows_free a }

theorem tame_warn (x : Warn) : (warn x).Does Tame := .modify fun w => .note w rfl

theorem tame_zalloc (site : Site) (size : Nat) : (zallocPageAligned site size).Does Tame := by
  refine .act fun w => ?_
  have hheap : Tame w (w.setHeap (w.sys.heap.alloc nvmePageSize size site).2) :=
    { Tame.refl w with heap := w.sys.heap.grows_alloc nvmePageSize size site }
  dsimp only
  split
  all_goals exact { hheap with used := fun h => h.cons trivial }

theorem tame_malloc (site : Site) (size : Nat) : (malloc site size).Does Tame :=
  .act fun w => { Tame.refl w with
    heap := w.sys.heap.grows_alloc 4 size site
    used := fun h => h.cons trivial }

/-! ### Actions that turn an index on -/

/-- The indices of queue `j` may move on, masked. -/
structure Turns (j : QId) (w v : World) : Prop where
  other : ∀ i, i ≠ j → v.q i = w.q i
  ring : ∀ r, v.ring r = w.ring r
  mask : ∀ r, v.mask r = w.mask r
  index : ∀ r, v.index r = w.index r ∨ v.index r = (w.index r + 1) &&& w.mask r
  store : v.store = w.store
  sys : v.sys = w.sys
  accepted : accepted v.log = accepted w.log
  used : InRange w.used → InRange v.used

theorem Turns.refl (j : QId) (w : World) : Turns j w w :=
  ⟨fun _ _ => rfl, fun _ => rfl, fun _ => rfl, fun _ => .inl rfl, rfl, rfl, rfl, fun h => h⟩

/-- One pair is changed, its addresses and lengths are not. -/
theorem Turns.setQ (w : World) {q : QPair} (hsqe : q.sq.sqe = (w.q j).sq.sqe)
    (hsq : q.sq.common = (w.q j).sq.common) (hcqe : q.cq.cqe = (w.q j).cq.cqe)
    (hcq : q.cq.common = (w.q j).cq.common)
    (htail : q.sq.tail = (w.q j).sq.tail ∨
      q.sq.tail = ((w.q j).sq.tail + 1) &&& (w.q j).sq.common.mask)
    (hhead : q.cq.head = (w.q j).cq.head ∨
      q.cq.head = ((w.q j).cq.head + 1) &&& (w.q j).cq.common.mask) :
    Turns j w (w.setQ j q) := by
  refine ⟨fun i hi => World.setQ_q_ne _ _ hi, fun r => ?_, fun r => ?_, fun r => ?_, rfl, rfl, rfl,
    fun h => h⟩
  all_goals
    have hcases : ∀ i, (w.setQ j q).q i = w.q i ∨ (i = j ∧ (w.setQ j q).q i = q) := fun i => by
      rcases eq_or_ne i j with rfl | hi
      · exact .inr ⟨rfl, World.setQ_q_same ..⟩
      · exact .inl (World.setQ_q_ne _ _ hi)
    cases r with
    | sq i =>
      rcases hcases i with h | ⟨rfl, h⟩ <;>
        simp_all [World.ring, World.mask, World.index]
    | cq i =>
      rcases hcases i with h | ⟨rfl, h⟩ <;>
        simp_all [World.ring, World.mask, World.index]

theorem Turns.note (h : Turns j w v) {ev : Event} (hev : Nvme.accepted [ev] = []) :
    Turns j w (v.note ev) :=
  { h with accepted := (Tame.note v hev).accepted.trans h.accepted }

/-- A masked index stays in the ring. -/
theorem Turns.bringUp (h : Turns j w v) (hl : ∀ r ∈ l, r.queue ≠ j) (hs : BringUp l w) : BringUp l v where
  rings r h0 := by
    rw [h.ring] at h0 ⊢
    obtain ⟨n, hheld, hmask, hindex⟩ := hs.rings r h0
    rw [h.sys, h.mask]
    refine ⟨n, hheld, hmask, ?_⟩
    rcases h.index r with heq | heq
    · rw [heq]
      exact hindex
    · rw [heq]
      exact Nat.and_le_right.trans_lt hmask
  used := h.used hs.used
  page := by
    rw [h.sys]
    exact hs.page
  sized := by
    rw [h.accepted, h.sys]
    exact hs.sized
  paged := by
    rw [h.accepted, h.sys]
    exact hs.paged
  blank r hr := by
    have hq := h.other r.queue (hl r hr)
    have hsame : v.ring r = w.ring r ∧ v.index r = w.index r := by
      cases r <;> exact ⟨h.ring _, by simp only [World.index]; simp only [RingId.queue] at hq; rw [hq]⟩
    rw [Blank, hsame.1, hsame.2]
    exact hs.blank r hr

theorem turns_getNextSqe (j : QId) (opc metadata data data2 : Nat) :
    (getNextSqe j opc metadata data data2).Does (Turns j) := by
  refine .act fun w => ?_
  dsimp only
  rw [nvmeGetNextSqe]
  split <;> exact .setQ w rfl rfl rfl rfl (.inl rfl) (.inl rfl)

theorem turns_fillIn (j : QId) (slot nsid dword10 dword11 dword12 : Nat) :
    (fillIn j (some slot) nsid dword10 dword11 dword12).Does (Turns j) :=
  .modify fun w => .setQ w rfl rfl rfl rfl (.inl rfl) (.inl rfl)

theorem turns_commitSqe (j : QId) : (commitSqe j).Does (Turns j) :=
  .modify fun w => (Turns.setQ w (q := nvmeCommitSqe (w.q j)) rfl rfl rfl rfl (.inr rfl) (.inl rfl)).note rfl

theorem turns_wait (j : QId) : (nvmeWait j).Does (Turns j) := by
  have hconsume : (nvmeConsumeCqe j).Does (Turns j) := by
    refine .bind (.act fun w => ?_) fun slot => ?_
    · split
      · exact (Turns.setQ w (q := nvmeAdvanceCq (w.q j)) rfl rfl rfl rfl (.inl rfl) (.inr rfl)).note rfl
      · exact .refl j w
    · cases slot with
      | none => exact .ret
      | some s =>
        refine .act fun w => ?_
        have hnote : Turns j w (w.note (.copied j ((w.q j).cqes s))) := (Turns.refl j w).note rfl
        exact { hnote with used := fun h => h.cons trivial }
  have hloop : ∀ k, (nvmeWaitLoop j k).Does (Turns j) := by
    intro k
    induction k with
    | zero => exact .bind (.modify fun w => (Turns.refl j w).note rfl) fun _ => .ret
    | succ k ih =>
      refine .bind (.get (Turns.refl j) _) fun ready => ?_
      split
      · exact hconsume
      · exact ih
  exact hloop 500

/-! ### Actions that set up a ring -/

/-- Ring `r` has the address `a`, the mask `m` and the index `k` now; nothing else is changed. -/
structure Sets (r : RingId) (a m k : Nat) (w v : World) : Prop where
  ring : v.ring r = a
  mask : v.mask r = m
  index : v.index r = k
  other : ∀ r', r' ≠ r → v.ring r' = w.ring r' ∧ v.mask r' = w.mask r' ∧ v.index r' = w.index r'
  sys : v.sys = w.sys
  log : v.log = w.log
  used : v.used = w.used

/-- A pair is changed in its submission half only. -/
theorem sets_sq (w : World) (i : QId) {q : QPair} (hcq : q.cq = (w.q i).cq) :
    Sets (.sq i) q.sq.sqe q.sq.common.mask q.sq.tail w (w.setQ i q) := by
  refine ⟨by simp [World.ring], by simp [World.mask], by simp [World.index], fun r hr => ?_, rfl, rfl, rfl⟩
  cases r with
  | sq j =>
    have hj : j ≠ i := fun h => hr (h ▸ rfl)
    simp [World.ring, World.mask, World.index, World.setQ_q_ne _ _ hj]
  | cq j =>
    rcases eq_or_ne j i with rfl | hj
    · simp [World.ring, World.mask, World.index, hcq]
    · simp [World.ring, World.mask, World.index, World.setQ_q_ne _ _ hj]

theorem sets_cq (w : World) (i : QId) {q : QPair} (hsq : q.sq = (w.q i).sq) :
    Sets (.cq i) q.cq.cqe q.cq.common.mask q.cq.head w (w.setQ i q) := by
  refine ⟨by simp [World.ring], by simp [World.mask], by simp [World.index], fun r hr => ?_, rfl, rfl, rfl⟩
  cases r with
  | cq j =>
    have hj : j ≠ i := fun h => hr (h ▸ rfl)
    simp [World.ring, World.mask, World.index, World.setQ_q_ne _ _ hj]
  | sq j =>
    rcases eq_or_ne j i with rfl | hj
    · simp [World.ring, World.mask, World.index, hsq]
    · simp [World.ring, World.mask, World.index, World.setQ_q_ne _ _ hj]

theorem sets_common (w : World) (r : RingId) (qIdx length : Nat) :
    Sets r (w.ring r) (u16 (length + 65535)) (w.index r) w (w.setCommon r qIdx length) := by
  cases r with
  | sq i =>
    exact sets_sq w i (q := { w.q i with sq := { (w.q i).sq with
      common := nvmeInitQueueCommon w.sys.doorbellStride qIdx length } }) rfl
  | cq i =>
    exact sets_cq w i (q := { w.q i with cq := { (w.q i).cq with
      common := nvmeInitQueueCommon w.sys.doorbellStride qIdx length } }) rfl

theorem sets_ring (w : World) (r : RingId) (a : Nat) :
    Sets r a (w.mask r) (w.index r) w (w.setRing r a) := by
  cases r with
  | sq i => exact sets_sq w i (q := { w.q i with sq := { (w.q i).sq with sqe := a } }) rfl
  | cq i => exact sets_cq w i (q := { w.q i with cq := { (w.q i).cq with cqe := a } }) rfl

theorem sets_init (w : World) (r : RingId) (qIdx length a : Nat) :
    Sets r a (u16 (length + 65535)) 0 w (w.initRing qIdx length a r) := by
  cases r with
  | sq i => exact sets_sq w i (q := initSq (w.q i) w.sys.doorbellStride qIdx length a) rfl
  | cq i => exact sets_cq w i (q := initCq (w.q i) w.sys.doorbellStride qIdx length a) rfl

/-- The ring is as long as its mask and index need. -/
theorem Sets.bringUp {m k : Nat} (h : Sets r a m k w v) (hr : r ∉ l) (hs : BringUp l w)
    (hlong : a ≠ 0 → ∃ n, w.sys.heap.Held a r.site (r.entry * n) ∧ m < n ∧ k < n) : BringUp l v where
  rings r' h0 := by
    rw [h.sys]
    by_cases heq : r' = r
    · subst heq
      rw [h.ring] at h0 ⊢
      rw [h.mask, h.index]
      exact hlong h0
    · obtain ⟨hring, hmask, hindex⟩ := h.other r' heq
      rw [hring] at h0 ⊢
      rw [hmask, hindex]
      exact hs.rings r' h0
  used := by
    rw [h.used]
    exact hs.used
  page := by
    rw [h.sys]
    exact hs.page
  sized := by
    rw [h.sys, h.log]
    exact hs.sized
  paged := by
    rw [h.sys, h.log]
    exact hs.paged
  blank r' hr' := by
    obtain ⟨hring, _, hindex⟩ := h.other r' fun heq => hr (heq ▸ hr')
    rw [Blank, hring, hindex]
    exact hs.blank r' hr'

/-- With the address and index still zero the ring stays blank. -/
theorem Sets.blank {m : Nat} (h : Sets r 0 m 0 w v) (hs : BringUp l w) : BringUp l v where
  toRanges := (h.bringUp (l := []) (by simp) ⟨hs.toRanges, by simp⟩ fun h0 => absurd rfl h0).toRanges
  blank r' hr' := by
    by_cases heq : r' = r
    · rw [heq]
      exact ⟨h.ring, h.index⟩
    · obtain ⟨hring, _, hindex⟩ := h.other r' heq
      rw [Blank, hring, hindex]
      exact hs.blank r' hr'

/-! ### Code that keeps every access in range -/

/-- Whatever the device does, everything is in range throughout. -/
abbrev Ranging (p : Drv α) (Q : α → World → Prop) (w : World) : Prop :=
  Wp Untrusted Ranges p Q (fun _ _ => False) w

theorem BringUp.ret (h : BringUp l w) (a : α) : Ranging (.ret a) (fun _ => BringUp l) w :=
  wp_ret fun _ he => have hv := (bringUp_stable l).env h he; ⟨hv.toRanges, hv⟩

theorem BringUp.keeps {p : Drv α} (h : BringUp l w) (hp : p.Keeps (BringUp l)) :
    Ranging p (fun _ => BringUp l) w :=
  wp_mono (wp_keeps (bringUp_stable l) hp h) (fun _ h => h.toRanges) (fun _ _ _ h => h) fun _ _ _ h => h

/-- Code that keeps the stage, and what follows. -/
theorem BringUp.pass {p : Drv β} {k : β → Drv α} {Q : α → World → Prop} (h : BringUp l w)
    (hp : p.Keeps (BringUp l)) (hk : ∀ b v, BringUp l v → Ranging (k b) Q v) : Ranging (p >>= k) Q w :=
  wp_seq (h.keeps hp) (fun _ _ h => h) hk

theorem BringUp.none (h : BringUp l w) : BringUp [] w := ⟨h.toRanges, by simp⟩

theorem bringUp_tame {p : Drv α} (hp : p.Does Tame) : p.Keeps (BringUp l) :=
  hp.keeps fun _ _ ht hs => ht.bringUp hs

theorem bringUp_turns {p : Drv α} (hp : p.Does (Turns j)) (hl : ∀ r ∈ l, r.queue ≠ j) :
    p.Keeps (BringUp l) :=
  hp.keeps fun _ _ ht hs => ht.bringUp hl hs

/-- A block is allocated, or there is no room, and an assertion is kept that does not speak of it. -/
theorem safe_zalloc {P : World → Prop} (hP : ∀ w v, Tame w v → P w → P v) (hr : ∀ v, P v → Ranges v)
    (h : P w) (site : Site) (size : Nat) :
    Ranging (zallocPageAligned site size)
      (fun a v => P v ∧ (a ≠ 0 → v.sys.heap.Held a site size)) w := by
  have hstable : Stable Untrusted P := fun _ _ h hu => hP _ _ hu.tame h
  refine wp_atom_stable hstable h hr fun v hv => ?_
  have hnow : P (if (v.sys.heap.alloc nvmePageSize size site).1 = 0 then
      (v.setHeap (v.sys.heap.alloc nvmePageSize size site).2).use (.alloc site
        (v.sys.heap.alloc nvmePageSize size site).1)
    else ((v.setHeap (v.sys.heap.alloc nvmePageSize size site).2).use (.alloc site
        (v.sys.heap.alloc nvmePageSize size site).1)).setMem (fill v.store.mem
      (v.sys.heap.alloc nvmePageSize size site).1 size fun _ => 0)) := by
    have hdoes := tame_zalloc site size
    cases hdoes with
    | atom hf _ => exact hP _ _ (hf v) hv
  refine wp_ret fun u hu => ?_
  have hu' := hstable.env hnow hu
  have hsys : u.sys.heap = (v.sys.heap.alloc nvmePageSize size site).2 := by
    have hkeep : Stable Untrusted fun u : World =>
      u.sys.heap = (v.sys.heap.alloc nvmePageSize size site).2 := fun _ _ h hr =>
        (congrArg Sys.heap hr.sys).trans h
    refine hkeep.env ?_ hu
    dsimp only
    split <;> rfl
  refine ⟨hr u hu', hu', fun h0 => ?_⟩
  rw [hsys]
  exact v.sys.heap.held_alloc _ _ _ h0

/-- RING RULE: a blank ring is initialised with as many entries as are allocated for it. -/
theorem BringUp.initRing (h : BringUp (r :: l) w) (hr : r ∉ l) {length : Nat} (h1 : 1 ≤ length)
    (hmost : length ≤ 65536) (qIdx : Nat) :
    Ranging (initRing r qIdx length) (fun _ => BringUp l) w := by
  have hmask : u16 (length + 65535) < length := by
    rw [u16]
    omega
  refine wp_modify_bind fun v he => ?_
  have hv := (bringUp_stable (r :: l)).env h he
  refine ⟨hv.toRanges, ?_⟩
  have hblank := hv.blank r (List.mem_cons_self ..)
  have hset := sets_common v r qIdx length
  rw [hblank.1, hblank.2] at hset
  -- up to its address the ring is blank, with the new mask
  refine wp_seq (safe_zalloc
    (P := fun v => BringUp (r :: l) v ∧ v.mask r = u16 (length + 65535))
    (fun w v ht hw => ⟨ht.bringUp hw.1, (ht.ring r).2.1.trans hw.2⟩) (fun _ hv => hv.1.toRanges)
    ⟨hset.blank hv, hset.mask⟩ r.site (r.entry * length)) (fun _ _ h => h) ?_
  rintro a u ⟨⟨hu, humask⟩, hheld⟩
  have hstable : Stable Untrusted fun u : World => (BringUp (r :: l) u ∧
      u.mask r = u16 (length + 65535)) ∧ (a ≠ 0 → u.sys.heap.Held a r.site (r.entry * length)) :=
    fun _ _ h hr => ⟨⟨hr.tame.bringUp h.1.1, (hr.tame.ring r).2.1.trans h.1.2⟩,
      fun h0 => (h.2 h0).grows hr.tame.heap⟩
  refine wp_modify_bind fun x hx => ?_
  obtain ⟨⟨hx', hxmask⟩, hheld'⟩ := hstable.env ⟨⟨hu, humask⟩, hheld⟩ hx
  refine ⟨hx'.toRanges, ?_⟩
  have hxl : BringUp l x := ⟨hx'.toRanges, fun r' hr' => hx'.blank r' (List.mem_cons_of_mem _ hr')⟩
  have hlong : ∀ k, k < length → a ≠ 0 → ∃ n, x.sys.heap.Held a r.site (r.entry * n) ∧
      u16 (length + 65535) < n ∧ k < n := fun k hk h0 => ⟨length, hheld' h0, hmask, hk⟩
  have hring := sets_ring x r a
  rw [hxmask, (hx'.blank r (List.mem_cons_self ..)).2] at hring
  have hnow : BringUp l (x.setRing r a) := hring.bringUp hr hxl (hlong 0 (by omega))
  split
  · refine wp_modify_bind fun y hy => ?_
    have hy' := (bringUp_stable l).env hnow hy
    exact ⟨hy'.toRanges, ((Tame.note y rfl).bringUp hy').ret _⟩
  · have hstable' : Stable Untrusted fun u : World => BringUp l u ∧
        (a ≠ 0 → u.sys.heap.Held a r.site (r.entry * length)) :=
      fun _ _ h hr => ⟨hr.tame.bringUp h.1, fun h0 => (h.2 h0).grows hr.tame.heap⟩
    refine wp_modify_bind fun y hy => ?_
    obtain ⟨hy', hyheld⟩ := hstable'.env ⟨hnow, by rw [hring.sys]; exact hheld'⟩ hy
    refine ⟨hy'.toRanges, BringUp.ret ?_ _⟩
    exact (sets_init y r qIdx length a).bringUp hr hy' fun h0 => ⟨length, hyheld h0, hmask, by omega⟩

/-- A destroyed ring is no longer initialised. -/
theorem bringUp_destroySq (hr : .sq i ∉ l) : (nvmeDestroySq i).Keeps (BringUp l) :=
  .bind (.get _) fun _ => .bind (bringUp_tame (tame_free _)) fun _ => .modify fun w hw =>
    (sets_ring w (.sq i) 0).bringUp hr hw fun h0 => absurd rfl h0

theorem bringUp_destroyCq (hr : .cq i ∉ l) : (nvmeDestroyCq i).Keeps (BringUp l) :=
  .bind (.get _) fun _ => .bind (bringUp_tame (tame_free _)) fun _ => .modify fun w hw =>
    (sets_ring w (.cq i) 0).bringUp hr hw fun h0 => absurd rfl h0

/-! ### Admin commands -/

/-- An admin command and what follows it, on either way. -/
theorem bringUp_submit (hl : ∀ r ∈ l, r.queue ≠ .admin)
    {opc metadata data data2 nsid dword10 dword11 dword12 : Nat} {full : Drv α} {k : NvmeCqe → Drv α}
    (hfull : full.Keeps (BringUp l)) (hk : ∀ c, (k c).Keeps (BringUp l)) :
    Prog.Keeps (BringUp l) (do
      match ← getNextSqe .admin opc metadata data data2 with
      | none => full
      | some slot =>
        fillIn .admin (some slot) nsid dword10 dword11 dword12
        commitSqe .admin
        let cqe ← nvmeWait .admin
        k cqe) := by
  refine .bind (bringUp_turns (turns_getNextSqe ..) hl) fun slot => ?_
  cases slot with
  | none => exact hfull
  | some s =>
    refine .bind (bringUp_turns (turns_fillIn ..) hl) fun _ => ?_
    refine .bind (bringUp_turns (turns_commitSqe _) hl) fun _ => ?_
    exact .bind (bringUp_turns (turns_wait _) hl) hk

theorem bringUp_identify (hl : ∀ r ∈ l, r.queue ≠ .admin) (cns nsid : Nat) :
    (nvmeAdminIdentify cns nsid).Keeps (BringUp l) := by
  refine .bind (bringUp_tame (tame_zalloc ..)) fun a => ?_
  split
  · exact .bind (bringUp_tame (tame_warn _)) fun _ => .ret
  · refine bringUp_submit hl (.bind (bringUp_tame (tame_warn _)) fun _ =>
      .bind (bringUp_tame (tame_free _)) fun _ => .ret) fun c => ?_
    split
    · exact .ret
    · exact .bind (bringUp_tame (tame_free _)) fun _ => .ret

/-! ### I/O queues -/

/-- A create command; where it does not succeed, `destroy` gives back the ring. -/
theorem bringUp_create (hl : ∀ r ∈ l, r.queue ≠ .admin) {opc a nsid dword10 dword11 dword12 : Nat}
    {destroy : Drv Unit} (hdestroy : destroy.Keeps (BringUp l)) :
    Prog.Keeps (BringUp l) (do
      match ← getNextSqe .admin opc 0 a 0 with
      | none =>
        destroy
        return (-1 : Int)
      | some slot =>
        fillIn .admin (some slot) nsid dword10 dword11 dword12
        commitSqe .admin
        let cqe ← nvmeWait .admin
        if nvmeIsCqeSuccess cqe then return 0
        else
          destroy
          return -1) := by
  refine bringUp_submit hl (.bind hdestroy fun _ => .ret) fun c => ?_
  split
  · exact .ret
  · exact .bind hdestroy fun _ => .ret

theorem safe_createIoCq (h : BringUp (.cq .io :: l) w) (hr : .cq .io ∉ l)
    (hl : ∀ r ∈ l, r.queue ≠ .admin) (qIdx : Nat) :
    Ranging (nvmeCreateIoCq qIdx) (fun _ => BringUp l) w := by
  refine h.pass (.get _) fun cap v hv => ?_
  rw [nvmeInitCq_eq]
  obtain ⟨h1, hmost⟩ := ioQueueLength_bounds cap
  refine wp_seq (hv.initRing hr h1 (hmost.trans (by decide)) qIdx) (fun _ _ h => h) fun rc u hu => ?_
  split
  · exact hu.ret _
  · exact hu.keeps (.bind (.get _) fun cq => bringUp_create hl (bringUp_destroyCq hr))

theorem safe_createIoSq (h : BringUp (.sq .io :: l) w) (hr : .sq .io ∉ l)
    (hl : ∀ r ∈ l, r.queue ≠ .admin) (qIdx : Nat) :
    Ranging (nvmeCreateIoSq qIdx) (fun _ => BringUp l) w := by
  refine h.pass (.get _) fun cap v hv => ?_
  rw [nvmeInitSq_eq]
  obtain ⟨h1, hmost⟩ := ioQueueLength_bounds cap
  refine wp_seq (hv.initRing hr h1 (hmost.trans (by decide)) qIdx) (fun _ _ h => h) fun rc u hu => ?_
  split
  · exact hu.ret _
  · exact hu.keeps (.bind (.get _) fun sq => bringUp_create hl (bringUp_destroySq hr))

theorem safe_createIoQueues (h : BringUp [.cq .io, .sq .io] w) :
    Ranging nvmeCreateIoQueues (fun _ => BringUp []) w := by
  refine wp_seq (safe_createIoCq h (by decide) (by decide) 3) (fun _ _ h => h) fun rc v hv => ?_
  split
  · exact hv.none.ret _
  · refine wp_seq (safe_createIoSq hv (by decide) (by decide) 2) (fun _ _ h => h) fun rc u hu => ?_
    split
    · exact hu.keeps (.bind (bringUp_destroyCq (by decide)) fun _ => .ret)
    · exact hu.ret _

/-! ### Probing -/

/-- The bounce page has the address `a`. -/
def PageAt (a : Nat) (w : World) : Prop := BringUp [] w ∧ w.sys.nvmeDmaBuffer = a

theorem PageAt.tame (ht : Tame w v) (h : PageAt a w) : PageAt a v :=
  ⟨ht.bringUp h.1, ht.dma.trans h.2⟩

theorem pageAt_stable (a : Nat) : Stable Untrusted (PageAt a) := fun _ _ h hr => h.tame hr.tame

theorem PageAt.ret (h : PageAt a w) : Ranging (.ret a) PageAt w :=
  wp_ret fun _ he => have hv := (pageAt_stable a).env h he; ⟨hv.1.toRanges, hv⟩

/-- `nvme_dma_buffer` is a page, or null and nothing accepted so far. -/
theorem safe_ensureDma (h : BringUp [] w) : Ranging ensureDmaBuffer PageAt w := by
  refine wp_get_bind fun v he => ?_
  have hv := (bringUp_stable []).env h he
  refine ⟨hv.toRanges, ?_⟩
  split
  · have hpage : PageAt v.sys.nvmeDmaBuffer v := ⟨hv, rfl⟩
    exact hpage.ret
  rename_i hnull
  refine wp_seq (safe_zalloc (P := PageAt 0) (fun _ _ => PageAt.tame) (fun _ h => h.1.toRanges)
    ⟨hv, not_not.mp hnull⟩ .dma nvmePageSize) (fun _ _ h => h) ?_
  rintro a u ⟨hu, hheld⟩
  have hstable : Stable Untrusted fun u : World =>
      PageAt 0 u ∧ (a ≠ 0 → u.sys.heap.Held a .dma nvmePageSize) :=
    fun _ _ h hr => ⟨h.1.tame hr.tame, fun h0 => (h.2 h0).grows hr.tame.heap⟩
  refine wp_modify_bind fun x hx => ?_
  obtain ⟨⟨hx', hdma⟩, hheld'⟩ := hstable.env ⟨hu, hheld⟩ hx
  refine ⟨hx'.toRanges, ?_⟩
  have hnow : PageAt a (x.setSys { x.sys with nvmeDmaBuffer := a }) :=
    ⟨⟨⟨hx'.rings, hx'.used, hheld', hx'.sized, fun hacc => absurd hdma (hx'.paged hacc)⟩,
      by simp⟩, rfl⟩
  split
  · refine wp_modify_bind fun y hy => ?_
    have hy' := (pageAt_stable a).env hnow hy
    have hwarn : PageAt a (y.note (.warn .noalloc)) := hy'.tame (.note y rfl)
    exact ⟨hy'.1.toRanges, hwarn.ret⟩
  · exact hnow.ret

/-- A record is written with a block size. -/
theorem PageAt.setNs (h : PageAt a w) (ha : a ≠ 0) (rec : Nat) {ns : NvmeNamespace}
    (hns : 0 < ns.blockSize) (nsId : Nat) :
    PageAt a (w.setNs rec ns) ∧ PageAt a ((w.setNs rec ns).note (.accepted nsId rec)) := by
  have hsized : ∀ rec', rec' = rec ∨ rec' ∈ accepted w.log →
      0 < (Function.update w.sys.nsRec rec ns rec').blockSize := by
    intro rec' hrec'
    by_cases heq : rec' = rec
    · rw [heq, Function.update_self]
      exact hns
    · rw [Function.update_of_ne heq]
      exact h.1.sized rec' (hrec'.resolve_left heq)
  refine ⟨⟨⟨⟨h.1.rings, h.1.used, h.1.page, fun rec' hrec' => hsized rec' (.inr hrec'), h.1.paged⟩,
    by simp⟩, h.2⟩, ⟨⟨h.1.rings, h.1.used, h.1.page, fun rec' hrec' => hsized rec' ?_, fun _ => ?_⟩,
    by simp⟩, h.2⟩
  · exact List.mem_cons.mp hrec'
  · change w.sys.nvmeDmaBuffer ≠ 0
    rw [h.2]
    exact ha

theorem shl1_pos (n : Nat) : 0 < shl1 n := by
  rw [shl1_eq]
  exact Nat.two_pow_pos _

theorem pageAt_recordNs (ha : a ≠ 0) {fmt : Nat} (hfmt : fmt < 16) (id nsId mdts : Nat) :
    (recordNs id nsId mdts fmt).Keeps (PageAt a) := by
  have htame : ∀ {α : Type} {p : Drv α}, p.Does Tame → p.Keeps (PageAt a) :=
    fun hp => hp.keeps fun _ _ ht h => h.tame ht
  refine .bind (htame (tame_malloc ..)) fun rec => ?_
  refine .bind (.modify fun w h => h.tame { Tame.refl w with }) fun _ => ?_
  split
  · exact htame (tame_warn _)
  · refine .bind (.get _) fun lbaCount => ?_
    refine .bind (htame (.act fun w => .use w (x := .lbads fmt _) hfmt)) fun lbads => ?_
    refine .bind (htame (.act fun w => .use w (x := .ms fmt _) hfmt)) fun ms => ?_
    dsimp only
    split
    · refine .bind (.modify fun w h => (h.setNs ha rec (shl1_pos _) nsId).1) fun _ => ?_
      exact .bind (htame (tame_warn _)) fun _ => htame (tame_free _)
    · exact .modify fun w h => (h.setNs ha rec (shl1_pos _) nsId).2.tame (.use _ (shl1_pos _))

theorem safe_probeIdentified (h : BringUp [] w) (id nsId mdts : Nat) :
    Ranging (probeIdentified id nsId mdts) (fun _ => BringUp []) w := by
  -- the mask keeps the format in the table, whatever the device wrote
  refine wp_get_bind fun v hv => ?_
  have hfmt : (identifyNsAt v.store.mem id).flbas &&& 0xF < 16 :=
    Nat.lt_of_le_of_lt Nat.and_le_right (by decide)
  have hv := (bringUp_stable []).env h hv
  refine ⟨hv.toRanges, hv.pass (.get _) fun nlbaf u hu => ?_⟩
  split
  · exact hu.ret _
  refine hu.pass (.get _) fun nsze x hx => ?_
  split
  · exact hx.ret _
  refine wp_seq (safe_ensureDma hx) (fun _ _ h => h) fun a y hy => ?_
  split
  · exact hy.1.ret _
  · rename_i ha
    exact wp_mono (wp_keeps (pageAt_stable a) (pageAt_recordNs ha hfmt ..) hy) (fun _ h => h.1.toRanges)
      (fun _ _ _ h => h.1) fun _ _ _ h => h

theorem safe_probeLoop (mdts : Nat) : ∀ (n nsIdx : Nat) (w : World), BringUp [] w →
    Ranging (probeLoop mdts n nsIdx) (fun _ => BringUp []) w
  | 0, _, _, h => h.ret ()
  | n + 1, nsIdx, w, h => by
    refine wp_seq (Q := fun _ => BringUp []) ?_ (fun _ _ h => h) fun _ v hv =>
      safe_probeLoop mdts n (nsIdx + 1) v hv
    refine h.pass (bringUp_identify (by simp) ..) fun id v hv => ?_
    split
    · exact hv.ret _
    · exact wp_seq (safe_probeIdentified hv _ _ _) (fun _ _ h => h) fun _ u hu =>
        hu.keeps (bringUp_tame (tame_free _))

/-! ### The controller -/

theorem bringUp_destroyAdminQueues (hs : .sq .admin ∉ l) (hc : .cq .admin ∉ l) :
    destroyAdminQueues.Keeps (BringUp l) :=
  .bind (bringUp_destroySq hs) fun _ => .bind (bringUp_destroyCq hc) fun _ => .ret

theorem tame_waitCstsRdy (rdy : Nat) : (nvmeWaitCstsRdy rdy).Does Tame :=
  does_waitCstsRdy Tame.refl (fun w _ => .use w trivial) tame_warn rdy

theorem BringUp.failed (h : BringUp l w) (hs : .sq .admin ∉ l) (hc : .cq .admin ∉ l) :
    Ranging destroyAdminQueues (fun _ => BringUp []) w :=
  wp_mono (h.keeps (bringUp_destroyAdminQueues hs hc)) (fun _ h => h) (fun _ _ _ h => h.none)
    fun _ _ _ h => h

theorem safe_enableIdentified (h : BringUp [.cq .io, .sq .io] w) :
    Ranging enableIdentified (fun _ => BringUp []) w := by
  refine h.pass (bringUp_identify (by decide) ..) fun identify v hv => ?_
  split
  · exact hv.failed (by decide) (by decide)
  refine hv.pass (bringUp_tame (.act fun w => .use w (x := .nn _) trivial)) fun nn u hu => ?_
  refine hu.pass (bringUp_tame (.modify fun w => { Tame.refl w with })) fun _ x hx => ?_
  refine hx.pass (.get _) fun mdts y hy => hy.pass (bringUp_tame (tame_free _)) fun _ z hz => ?_
  split
  · exact hz.failed (by decide) (by decide)
  refine wp_seq (safe_createIoQueues hz) (fun _ _ h => h) fun rc t ht => ?_
  split
  · exact ht.failed (by simp) (by simp)
  · exact wp_seq (safe_probeLoop mdts nn 0 t ht) (fun _ _ h => h) fun _ s hs => hs.ret _

theorem safe_enable (h : BringUp [.cq .admin, .sq .admin, .cq .io, .sq .io] w) :
    Ranging nvmeControllerEnable (fun _ => BringUp []) w := by
  have htame : ∀ {l : List RingId} {f : World → World}, (∀ w, Tame w (f w)) →
      (Prog.modify f : Drv Unit).Keeps (BringUp l) := fun hf => bringUp_tame (.modify hf)
  refine h.pass (htame fun w => { (Tame.note w rfl : Tame w (w.note (.writeCc 0))) with }) fun _ v hv => ?_
  refine hv.pass (bringUp_tame (tame_waitCstsRdy 0)) fun rc u hu => ?_
  split
  · exact hu.none.ret _
  refine hu.pass (.get _) fun cap x hx => hx.pass (htame fun w => { Tame.refl w with }) fun _ y hy => ?_
  refine wp_seq (hy.initRing (by decide) (by decide) (by decide) 1) (fun _ _ h => h) fun rc z hz => ?_
  split
  · exact hz.none.ret _
  refine wp_seq (hz.initRing (by decide) (by decide) (by decide) 0) (fun _ _ h => h) fun rc t ht => ?_
  split
  · exact wp_mono (ht.keeps (.bind (bringUp_destroyCq (by decide)) fun _ => .ret)) (fun _ h => h)
      (fun _ _ _ h => h.none) fun _ _ _ h => h
  refine ht.pass (htame fun w => { Tame.refl w with }) fun _ s hs => ?_
  refine hs.pass (htame fun w => { (Tame.note w rfl : Tame w (w.note (.writeAsq _))) with }) fun _ v hv => ?_
  refine hv.pass (htame fun w => { (Tame.note w rfl : Tame w (w.note (.writeAcq _))) with }) fun _ u hu => ?_
  refine hu.pass (htame fun w => { (Tame.note w rfl : Tame w (w.note (.writeCc _))) with }) fun _ x hx => ?_
  refine hx.pass (bringUp_tame (tame_waitCstsRdy 1)) fun rc y hy => ?_
  split
  · exact hy.failed (by decide) (by decide)
  · exact safe_enableIdentified hy

/-- The driver's globals as the program starts: no controller, no page, no namespace. -/
structure Booted (w : World) : Prop where
  rings : ∀ r, w.ring r = 0
  page : w.sys.nvmeDmaBuffer = 0
  none : accepted w.log = []
  unused : w.used = []

theorem Booted.bringUp (h : Booted w) : BringUp [] w where
  rings r h0 := absurd (h.rings r) h0
  used := by simp [h.unused, InRange]
  page h0 := absurd h.page h0
  sized := by simp [h.none]
  paged h0 := absurd h.none h0
  blank := by simp

/-- RANGES RULE: the set-up of a controller keeps every access in range. -/
theorem safe_setup (h : Booted w) (nvmeBase : Nat) :
    Ranging (nvmeControllerSetup nvmeBase) (fun _ => BringUp []) w := by
  have hs := h.bringUp
  rw [nvmeControllerSetup]
  split
  · exact hs.ret _
  refine hs.pass (.get _) fun cap v hv => ?_
  split
  · exact hv.ret _
  refine hv.pass (bringUp_tame (tame_zalloc ..)) fun ctrl u hu => ?_
  split
  · exact hu.pass (bringUp_tame (tame_warn _)) fun _ x hx => hx.ret _
  refine wp_modify_bind fun x hx => ?_
  have hx' := (bringUp_stable []).env hu hx
  refine ⟨hx'.toRanges, ?_⟩
  have hclear : BringUp [.cq .admin, .sq .admin, .cq .io, .sq .io] x.clearCtrl :=
    ⟨⟨fun r h0 => absurd (by cases r <;> rfl) h0, hx'.used, hx'.page, hx'.sized, hx'.paged⟩,
      fun r _ => by cases r <;> exact ⟨rfl, rfl⟩⟩
  refine wp_seq (safe_enable hclear) (fun _ _ h => h) fun rc y hy => ?_
  split
  · exact hy.pass (bringUp_tame (tame_free _)) fun _ z hz => hz.ret _
  · exact hy.ret _

end Nvme
