import NvmeDisk.Model.Setup
import NvmeDisk.Queue.Ops

/-! What the set-up code owns. The device is taken as hostile: between any two driver actions it may
    change memory, registers, completion entries and its own state as it likes. Of all this the heap
    blocks the driver holds depend on nothing, so each function is described by what it does to an
    `Inventory` (`Gives`), and the descriptions compose like the functions. -/

namespace Nvme
open Bytes BlockDev Resume Mheap

/-- Anything a device may do; only the driver's own data and the submission rings are not its to
    write. -/
structure Hostile (w v : World) : Prop where
  sq : ∀ i, (v.q i).sq = (w.q i).sq
  cq : ∀ i, (v.q i).cq = (w.q i).cq
  sqes : ∀ i, (v.q i).sqes = (w.q i).sqes
  sys : v.sys = w.sys
  log : v.log = w.log
  used : v.used = w.used

/-- Things a device can be scripted to do: a status register, a byte of memory, an answer to the
    admin command that waits. -/
inductive DeviceAct where
  | csts (v : Nat)
  | poke (a : Nat) (b : UInt8)
  | complete (sf : Nat)

def deviceAct : DeviceAct → World → Option World
  | .csts v, w => some (w.setReg { w.reg with csts := v })
  | .poke a b, w => some (w.setMem (fill w.store.mem a 1 fun _ => b))
  | .complete sf, w =>
    let q := w.q .admin
    let c : NvmeCqe := ⟨0, 0, q.sq.tail, 0, 0, 2 * sf + q.cq.phase.toNat⟩
    some (w.setQ .admin { q with cqes := Function.update q.cqes q.cq.head c })

theorem deviceAct_hostile {w v : World} (h : Moves deviceAct w v) : Hostile w v := by
  obtain ⟨m, hm⟩ := h
  cases m with
  | csts x => cases hm; exact ⟨fun _ => rfl, fun _ => rfl, fun _ => rfl, rfl, rfl, rfl⟩
  | poke a b => cases hm; exact ⟨fun _ => rfl, fun _ => rfl, fun _ => rfl, rfl, rfl, rfl⟩
  | complete sf =>
    cases hm
    refine ⟨fun i => ?_, fun i => ?_, fun i => ?_, rfl, rfl, rfl⟩ <;>
    · cases i
      · rw [World.setQ_q_same]
      · rw [World.setQ_q_ne _ _ (by decide)]

/-- Records of accepted namespaces, newest first. -/
def accepted (log : List Event) : List Nat :=
  log.filterMap fun
    | .accepted _ rec => some rec
    | _ => none

/-- Anything a device may do: only the driver's own data is out of its reach. -/
structure Untrusted (w v : World) : Prop where
  sq : ∀ i, (v.q i).sq = (w.q i).sq
  cq : ∀ i, (v.q i).cq = (w.q i).cq
  sys : v.sys = w.sys
  accepted : accepted v.log = accepted w.log
  used : v.used = w.used

theorem hostile_untrusted {w v : World} (h : Hostile w v) : Untrusted w v :=
  ⟨h.sq, h.cq, h.sys, by rw [h.log], h.used⟩

/-- Blocks owned, ring and bounce page addresses, records of accepted namespaces. -/
structure Inventory where
  own : List (Block Site)
  cqe : QId → Nat
  sqe : QId → Nat
  dma : Nat
  recs : List Nat

/-- The world is as the inventory says, counting blocks from heap `h₀` on. -/
structure Stock (h₀ : Heap Site) (x : Inventory) (w : World) : Prop where
  heap : ∃ dead, Since h₀ x.own dead w.sys.heap
  cqe : ∀ i, (w.q i).cq.cqe = x.cqe i
  sqe : ∀ i, (w.q i).sq.sqe = x.sqe i
  dma : w.sys.nvmeDmaBuffer = x.dma
  recs : accepted w.log = x.recs

/-- Begun with inventory `x`, the code ends, and with a result and an inventory as `Φ` says. -/
abbrev Gives {α : Type} (h₀ : Heap Site) (x : Inventory) (p : Drv α) (Φ : α → Inventory → Prop) :
    Prop := Drives Hostile (Stock h₀) x p Φ

variable {h₀ : Heap Site} {x y : Inventory} {w v : World} {i : QId} {α β : Type}

theorem Hostile.stock (hr : Hostile w v) (h : Stock h₀ x w) : Stock h₀ x v where
  heap := by rw [hr.sys]; exact h.heap
  cqe := fun i => by rw [hr.cq]; exact h.cqe i
  sqe := fun i => by rw [hr.sq]; exact h.sqe i
  dma := by rw [hr.sys]; exact h.dma
  recs := by rw [hr.log]; exact h.recs

theorem stock_stable (h₀ : Heap Site) (x : Inventory) : Stable Hostile (Stock h₀ x) :=
  fun _ _ h hr => hr.stock h

theorem gives_ret {a : α} {Φ : α → Inventory → Prop} (h : Φ a x) : Gives h₀ x (.ret a) Φ :=
  drives_ret (stock_stable h₀) h

/-- Code whose actions keep the inventory. -/
theorem gives_keeps {p : Drv α} (hp : p.Keeps (Stock h₀ x)) : Gives h₀ x p fun _ y => y = x :=
  drives_keeps (stock_stable h₀) hp

/-! ### Single actions -/

/-- A change of the world that no entry of an inventory speaks about. -/
structure Unlisted (w v : World) : Prop where
  heap : v.sys.heap = w.sys.heap
  cqe : ∀ i, (v.q i).cq.cqe = (w.q i).cq.cqe
  sqe : ∀ i, (v.q i).sq.sqe = (w.q i).sq.sqe
  dma : v.sys.nvmeDmaBuffer = w.sys.nvmeDmaBuffer
  recs : accepted v.log = accepted w.log

theorem Unlisted.stock (hu : Unlisted w v) (h : Stock h₀ x w) : Stock h₀ x v where
  heap := by rw [hu.heap]; exact h.heap
  cqe := fun i => (hu.cqe i).trans (h.cqe i)
  sqe := fun i => (hu.sqe i).trans (h.sqe i)
  dma := hu.dma.trans h.dma
  recs := hu.recs.trans h.recs

theorem Unlisted.refl (w : World) : Unlisted w w := ⟨rfl, fun _ => rfl, fun _ => rfl, rfl, rfl⟩

/-- An event other than an acceptance. -/
theorem Unlisted.note (w : World) {ev : Event} (h : accepted [ev] = []) : Unlisted w (w.note ev) :=
  { Unlisted.refl w with
    recs := by
      rw [World.note_log, ← List.singleton_append, accepted, List.filterMap_append]
      exact (congrArg (· ++ _) h).trans (List.nil_append _) }

theorem OnQueue.unlisted {j : QId} {c : Bool} (h : OnQueue j c w v) : Unlisted w v where
  heap := by rw [h.sys]
  cqe i := by
    rcases eq_or_ne i j with rfl | hi
    · exact h.cqe
    · rw [h.other i hi]
  sqe i := by
    rcases eq_or_ne i j with rfl | hi
    · exact h.sqe
    · rw [h.other i hi]
  dma := by rw [h.sys]
  recs := by
    rcases h.log with hl | ⟨ev, hev, _, hl⟩
    · rw [hl]
    · rw [hl]
      cases ev <;> first | rfl | cases hev

/-- A change of one pair that leaves its ring addresses. -/
theorem Unlisted.setQ (w : World) (i : QId) {q : QPair} (hc : q.cq.cqe = (w.q i).cq.cqe)
    (hs : q.sq.sqe = (w.q i).sq.sqe) : Unlisted w (w.setQ i q) :=
  OnQueue.unlisted (c := false) (.setQ w hc hs)

/-- Code all of whose actions are unlisted. -/
abbrev Unlists {α : Type} (p : Drv α) : Prop := p.Does Unlisted

theorem Unlists.gives {p : Drv α} (hp : Unlists p) : Gives h₀ x p fun _ y => y = x :=
  gives_keeps (hp.keeps fun _ _ hu => hu.stock)

/-- Such code may come first. -/
theorem Unlists.pass {p : Drv α} {k : α → Drv β} {Ψ : β → Inventory → Prop} (hp : Unlists p)
    (hk : ∀ a, Gives h₀ x (k a) Ψ) : Gives h₀ x (p >>= k) Ψ :=
  hp.gives.pass hk

theorem unlists_get (g : World → α) : Unlists (.get g : Drv α) := .get .refl g

theorem Unlisted.use (w : World) (x : Used) : Unlisted w (w.use x) := { Unlisted.refl w with }

theorem unlists_getUsed (f : Nat → Used) (g : World → Nat) : Unlists (getUsed f g) :=
  .act fun w => .use w _

theorem unlists_warn (c : Warn) : Unlists (warn c) := .modify fun w => .note w rfl

theorem unlists_getNextSqe (j : QId) (opc metadata data data2 : Nat) :
    Unlists (getNextSqe j opc metadata data data2) := (does_getNextSqe ..).mono fun _ _ => OnQueue.unlisted

theorem unlists_fillIn (j : QId) (slot nsid dword10 dword11 dword12 : Nat) :
    Unlists (fillIn j (some slot) nsid dword10 dword11 dword12) :=
  (does_fillIn ..).mono fun _ _ => OnQueue.unlisted

theorem unlists_commitSqe (j : QId) : Unlists (commitSqe j) :=
  (does_commitSqe j).mono fun _ _ => OnQueue.unlisted

theorem unlists_wait (j : QId) : Unlists (nvmeWait j) :=
  (does_wait j).mono fun _ _ => OnQueue.unlisted

/-! ### Memory -/

theorem stock_alloc (h : Stock h₀ x w) (align size : Nat) (site : Site) :
    ((w.sys.heap.alloc align size site).1 = 0 ∧
      Stock h₀ x (w.setHeap (w.sys.heap.alloc align size site).2)) ∨
    ∃ b, b.addr ≠ 0 ∧ b.site = site ∧ (w.sys.heap.alloc align size site).1 = b.addr ∧
      Stock h₀ { x with own := b :: x.own } (w.setHeap (w.sys.heap.alloc align size site).2) := by
  obtain ⟨dead, hs⟩ := h.heap
  rcases hs.alloc align size site with ⟨h0, hs'⟩ | ⟨b, hb, hsite, ha, hs'⟩
  · exact .inl ⟨h0, { h with heap := ⟨dead, hs'⟩ }⟩
  · exact .inr ⟨b, hb, hsite, ha, { h with heap := ⟨dead, hs'⟩ }⟩

/-- An allocation at a site: null and nothing changed, or one more block. -/
def Allocated (site : Site) (x : Inventory) (a : Nat) (y : Inventory) : Prop :=
  (a = 0 ∧ y = x) ∨ ∃ b : Block Site, b.addr = a ∧ a ≠ 0 ∧ b.site = site ∧
    y = { x with own := b :: x.own }

/-- An action that allocates and changes nothing else an inventory lists. -/
theorem gives_alloc {align size : Nat} {site : Site} {g : World → Nat × World}
    (hg : ∀ w, (g w).1 = (w.sys.heap.alloc align size site).1 ∧
      Unlisted (w.setHeap (w.sys.heap.alloc align size site).2) (g w).2) :
    Gives h₀ x (.act g) (Allocated site x) := by
  refine drives_atom (stock_stable h₀) fun w hw => ?_
  obtain ⟨ha, hu⟩ := hg w
  rcases stock_alloc hw align size site with ⟨h0, hs⟩ | ⟨b, hb, hsite, hba, hs⟩
  · exact ⟨x, hu.stock hs, gives_ret (.inl ⟨ha.trans h0, rfl⟩)⟩
  · exact ⟨_, hu.stock hs, gives_ret (.inr ⟨b, (ha.trans hba).symm, by rw [ha, hba]; exact hb, hsite,
      rfl⟩)⟩

theorem gives_zalloc (site : Site) (size : Nat) :
    Gives h₀ x (zallocPageAligned site size) (Allocated site x) := by
  refine gives_alloc fun w => ⟨rfl, ?_⟩
  dsimp only
  split <;> exact { Unlisted.refl _ with }

theorem gives_malloc (site : Site) (size : Nat) : Gives h₀ x (malloc site size) (Allocated site x) :=
  gives_alloc fun _ => ⟨rfl, .use ..⟩

/-- Freeing an owned block. -/
theorem gives_free {b : Block Site} {own own' : List (Block Site)} (hb : x.own = own ++ b :: own')
    (h0 : b.addr ≠ 0) :
    Gives h₀ x (free b.addr) fun _ y => y = { x with own := own ++ own' } := by
  refine drives_modify (stock_stable h₀) fun w hw => ?_
  obtain ⟨dead, hs⟩ := hw.heap
  rw [hb] at hs
  have hstock : Stock h₀ { x with own := own ++ own' } (w.setHeap (w.sys.heap.free b.addr)) :=
    { hw with heap := ⟨_, hs.free⟩ }
  rw [World.free, if_neg h0]
  exact (Unlisted.note _ rfl).stock hstock

/-- Freeing the block allocated last. -/
theorem gives_free_top {b : Block Site} {own : List (Block Site)} (hb : x.own = b :: own)
    (h0 : b.addr ≠ 0) : Gives h₀ x (free b.addr) fun _ y => y = { x with own := own } := by
  rw [← List.nil_append (b :: own)] at hb
  exact gives_free hb h0

/-- An action that takes the inventory to `y`. -/
theorem gives_modify {f : World → World} (hf : ∀ w, Stock h₀ x w → Stock h₀ y (f w)) :
    Gives h₀ x (.modify f) fun _ z => z = y := drives_modify (stock_stable h₀) hf

theorem gives_modify_bind {f : World → World} {k : Unit → Drv α} {Φ : α → Inventory → Prop}
    (hf : ∀ w, Stock h₀ x w → Stock h₀ y (f w)) (hk : Gives h₀ y (k ()) Φ) :
    Gives h₀ x (.modify f >>= k) Φ :=
  (gives_modify hf).bind fun _ _ hz => hz ▸ hk

theorem gives_get {α : Type} (g : World → α) :
    Gives h₀ x (.get g) fun a z => z = x ∧ ∃ w, Stock h₀ x w ∧ a = g w :=
  drives_get (stock_stable h₀) g

/-- A value is read and put down. -/
theorem wp_getUsed_bind {R : World → World → Prop} {I : World → Prop} {f : Nat → Used} {g : World → Nat}
    {k : Nat → Drv α} {Q : α → World → Prop} {X : Halt → World → Prop}
    (h : ∀ v, Env R w v → I v ∧ Wp R I (k (g v)) Q X (v.use (f (g v)))) :
    Wp R I (getUsed f g >>= k) Q X w := wp_atom h

/-! ### Submitting an admin command -/

/-- An admin command under an assertion that the device and the queue operations keep; the device does
    not write the submission ring. -/
theorem wp_adminSubmit {R : World → World → Prop} {P : World → Prop}
    {opc a nsid dword10 dword11 dword12 : Nat} {f : Option Nat → Drv α} {k : Drv α}
    {Q : α → World → Prop} {X : Halt → World → Prop}
    (hR : ∀ w v, R w v → Hostile w v) (hP : Stable R P)
    (hon : ∀ w v, OnQueue .admin false w v → P w → P v) (hopc : opc < 256)
    (hf : ∀ slot, f (some slot) = do
      fillIn .admin (some slot) nsid dword10 dword11 dword12
      commitSqe .admin
      k)
    (hnone : ∀ w, P w → Wp R (fun _ => True) (f none) Q X w)
    (hcommit : ∀ w slot e tail, P w → e.opc = opc → e.dptrPrp1 = u32 a → e.dword10 = dword10 →
      Wp R (fun _ => True) k Q X (w.note (.commit .admin slot e tail))) (hw : P w) :
    Wp R (fun _ => True) (getNextSqe .admin opc 0 a 0 >>= f) Q X w := by
  refine wp_submit (fun w v hr => ⟨(hR w v hr).sq .admin, (hR w v hr).sqes .admin⟩) hP
    (fun _ _ => trivial) (fun w sqes h => hon w _ (.setQ w rfl rfl) h) hf hnone ?_ hw
  rintro x hx ⟨tail, hentry⟩
  have hset : P (x.setQ .admin (nvmeCommitSqe (x.q .admin))) := hon x _ (.setQ x rfl rfl) hx
  refine hcommit _ _ _ _ hset ?_ ?_ ?_
  · rw [hentry]
    exact freshSqe_opc _ 0 a 0 hopc
  · rw [hentry]
    rfl
  · rw [hentry]
    rfl

end Nvme
