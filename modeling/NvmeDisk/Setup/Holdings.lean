import NvmeDisk.Setup.Inventory

/-! Which queue memory the controller holds, read off the events: the admin rings from the writes of
    ASQ and ACQ on, until CC.EN is cleared; an I/O ring from its create command on, until the command
    is completed with an error, a queue is deleted, or CC.EN is cleared. Three assertions follow it
    through a setup: nothing is held yet, the admin rings are held, and what is held is live. -/

namespace Nvme
open Bytes BlockDev Resume Mheap

/-! ### The controller's holdings -/

/-- Create I/O Submission Queue, Create I/O Completion Queue. -/
def NvmeSqe.creates (e : NvmeSqe) : Bool :=
  e.opc == nvmeSqeOpcAdminCreateIoSq || e.opc == nvmeSqeOpcAdminCreateIoCq

/-- Delete I/O Submission Queue, Delete I/O Completion Queue; the driver has no name for them. -/
def NvmeSqe.deletes (e : NvmeSqe) : Bool := e.opc == 0 || e.opc == 4

/-- The admin command submitted last. -/
def lastCommand : List Event → Option NvmeSqe
  | [] => none
  | .commit .admin _ e _ :: _ => some e
  | _ :: log => lastCommand log

/-- The ring at `a` was written to ASQ or ACQ, and CC.EN was not cleared since. -/
def holdsAdmin (a : Nat) : List Event → Bool
  | [] => false
  | .writeAsq x :: log => x == a || holdsAdmin a log
  | .writeAcq x :: log => x == a || holdsAdmin a log
  | .writeCc v :: log => v % 2 == 1 && holdsAdmin a log
  | _ :: log => holdsAdmin a log

/-- The create command of the ring at `a` was submitted; since then it was not completed with an error,
    no queue was deleted, and CC.EN was not cleared. -/
def holdsIo (a : Nat) : List Event → Bool
  | [] => false
  | .commit .admin _ e _ :: log => (e.creates && e.dptrPrp1 == a) || (!e.deletes && holdsIo a log)
  | .copied .admin c :: log =>
    !(c.sf != 0 && (lastCommand log).any fun e => e.creates && e.dptrPrp1 == a) && holdsIo a log
  | .writeCc v :: log => v % 2 == 1 && holdsIo a log
  | _ :: log => holdsIo a log

def holds (a : Nat) (log : List Event) : Bool := holdsAdmin a log || holdsIo a log

/-- No memory the controller held was freed. -/
def freedSafely : List Event → Bool
  | [] => true
  | .freed a :: log => !holds a log && freedSafely log
  | _ :: log => freedSafely log

/-- CC.EN was set. -/
def enabledIn (log : List Event) : Bool :=
  log.any fun
    | .writeCc v => v % 2 == 1
    | _ => false

/-- The event hands the ring at `a` to the controller. -/
def Event.hands (a : Nat) : Event → Bool
  | .writeAsq x => x == a
  | .writeAcq x => x == a
  | .commit .admin _ e _ => e.creates && e.dptrPrp1 == a
  | _ => false

@[simp] def Event.isFreed : Event → Bool
  | .freed _ => true
  | _ => false

@[simp] def Event.isCc : Event → Bool
  | .writeCc _ => true
  | _ => false

variable {a : Nat} {ev : Event} {log lg evs : List Event} {w v : World} {H bs : List Nat} {α : Type}

theorem holds_cons (h : holds a (ev :: log) = true) : ev.hands a = true ∨ holds a log = true := by
  cases ev with
  | commit i slot e tail =>
    cases i <;>
    · simp only [holds, holdsAdmin, holdsIo, Event.hands, Bool.or_eq_true, Bool.and_eq_true] at h ⊢
      tauto
  | copied i c =>
    cases i <;>
    · simp only [holds, holdsAdmin, holdsIo, Event.hands, Bool.or_eq_true, Bool.and_eq_true] at h ⊢
      tauto
  | _ =>
    simp only [holds, holdsAdmin, holdsIo, Event.hands, Bool.or_eq_true, Bool.and_eq_true] at h ⊢
    tauto

theorem freedSafely_cons (h : ev.isFreed = false) : freedSafely (ev :: log) = freedSafely log := by
  cases ev <;> first | rfl | cases h

theorem holdsAdmin_cons (hev : ev.isCc = false) (h : holdsAdmin a log = true) :
    holdsAdmin a (ev :: log) = true := by
  cases ev <;> first | exact h | exact Bool.or_eq_true_iff.mpr (.inr h) | cases hev

theorem enabledIn_cons (h : enabledIn log = true) : enabledIn (ev :: log) = true := by
  rw [enabledIn, List.any_cons, ← enabledIn, h, Bool.or_true]

/-! ### Before CC.EN is set -/

/-- Since `lg` CC.EN was not set and nothing was handed to the controller. -/
structure Unheld (lg : List Event) (w : World) : Prop where
  log : ∃ evs, w.log = evs ++ lg ∧ freedSafely evs = true ∧ enabledIn evs = false ∧
    ∀ a, holds a evs = false

/-- An action of the kind the set-up takes before CC.EN is set. -/
def Early (w v : World) : Prop :=
  v.log = w.log ∨ ∃ ev, v.log = ev :: w.log ∧ enabledIn [ev] = false ∧ ∀ a, ev.hands a = false

theorem Unheld.early (h : Unheld lg w) (hr : Early w v) : Unheld lg v := by
  obtain ⟨evs, hlog, hfreed, hen, hheld⟩ := h.log
  rcases hr with hv | ⟨ev, hv, hen', hhands⟩
  · exact ⟨evs, hv.trans hlog, hfreed, hen, hheld⟩
  · refine ⟨ev :: evs, by rw [hv, hlog, List.cons_append], ?_, ?_, fun a => ?_⟩
    · cases ev <;> first | exact hfreed | exact Bool.and_eq_true_iff.mpr ⟨by rw [hheld]; rfl, hfreed⟩
    · simp only [enabledIn, List.any_cons, List.any_nil, Bool.or_false] at hen hen' ⊢
      rw [hen', hen]
      rfl
    · by_contra hne
      rw [Bool.not_eq_false] at hne
      rcases holds_cons hne with hh | hh
      · rw [hhands] at hh
        cases hh
      · rw [hheld] at hh
        cases hh

theorem unheld_stable (lg : List Event) : Stable Hostile (Unheld lg) := fun _ _ h hr =>
  h.early (.inl hr.log)

/-! ### Once it is set -/

/-- Since `lg` CC.EN was set, and the controller holds the admin submission ring. -/
structure Armed (lg : List Event) (w : World) : Prop where
  live : (w.q .admin).sq.sqe ≠ 0
  log : ∃ evs, w.log = evs ++ lg ∧ enabledIn evs = true ∧ holdsAdmin (w.q .admin).sq.sqe evs = true

/-- An action that leaves the admin submission ring and CC alone. -/
structure Later (w v : World) : Prop where
  sqe : (v.q .admin).sq.sqe = (w.q .admin).sq.sqe
  log : v.log = w.log ∨ ∃ ev, v.log = ev :: w.log ∧ ev.isCc = false

theorem Armed.later (h : Armed lg w) (hr : Later w v) : Armed lg v := by
  obtain ⟨hlive, evs, hlog, hen, hheld⟩ := h
  refine ⟨by rw [hr.sqe]; exact hlive, ?_⟩
  rw [hr.sqe]
  rcases hr.log with hv | ⟨ev, hv, hcc⟩
  · exact ⟨evs, hv.trans hlog, hen, hheld⟩
  · exact ⟨ev :: evs, by rw [hv, hlog, List.cons_append], enabledIn_cons hen,
      holdsAdmin_cons hcc hheld⟩

theorem armed_stable (lg : List Event) : Stable Hostile (Armed lg) := fun _ _ h hr =>
  h.later ⟨by rw [hr.sq], .inl hr.log⟩

/-- Since `lg` CC.EN was set and memory was freed that the controller held. -/
structure Violated (lg : List Event) (w : World) : Prop where
  log : ∃ evs, w.log = evs ++ lg ∧ enabledIn evs = true ∧ freedSafely evs = false

theorem Violated.more (h : Violated lg w) (hr : v.log = w.log ∨ ∃ ev, v.log = ev :: w.log) :
    Violated lg v := by
  obtain ⟨evs, hlog, hen, hfreed⟩ := h.log
  rcases hr with hv | ⟨ev, hv⟩
  · exact ⟨evs, hv.trans hlog, hen, hfreed⟩
  · refine ⟨ev :: evs, by rw [hv, hlog, List.cons_append], enabledIn_cons hen, ?_⟩
    cases ev <;> first | exact hfreed | exact Bool.and_eq_false_iff.mpr (.inr hfreed)

theorem violated_stable (lg : List Event) : Stable Hostile (Violated lg) := fun _ _ h hr =>
  h.more (.inl hr.log)

/-! ### As long as nothing fails -/

/-- Memory of a queue. -/
def Site.isRing : Site → Bool
  | .cqRing _ => true
  | .sqRing _ => true
  | _ => false

/-- Since `lg` no memory the controller held was freed, and what it holds is among the live rings `H`;
    the blocks `bs` are live, and no rings. -/
structure Kept (lg : List Event) (H bs : List Nat) (w : World) : Prop where
  rings : ∀ a ∈ H, ∃ b ∈ w.sys.heap.live, b.addr = a ∧ b.site.isRing = true
  others : ∀ a ∈ bs, ∃ b ∈ w.sys.heap.live, b.addr = a ∧ b.site.isRing = false
  nodup : bs.Nodup
  space : ∀ n a, w.sys.heap.oracle n = some a → a < 4294967296
  small : ∀ a ∈ H, a < 4294967296
  sqe : ∀ i, (w.q i).sq.sqe ≠ 0 → (w.q i).sq.sqe ∈ H
  cqe : ∀ i, (w.q i).cq.cqe ≠ 0 → (w.q i).cq.cqe ∈ H
  log : ∃ evs, w.log = evs ++ lg ∧ freedSafely evs = true ∧
    ∀ a, a ≠ 0 → holds a evs = true → a ∈ H

/-- An action that neither frees anything nor hands a ring over. -/
structure Idler (w v : World) : Prop where
  heap : v.sys.heap = w.sys.heap
  sqe : ∀ i, (v.q i).sq.sqe = (w.q i).sq.sqe
  cqe : ∀ i, (v.q i).cq.cqe = (w.q i).cq.cqe
  log : v.log = w.log ∨ ∃ ev, v.log = ev :: w.log ∧ ev.isFreed = false ∧ ∀ a, ev.hands a = false

theorem Idler.refl (w : World) : Idler w w := ⟨rfl, fun _ => rfl, fun _ => rfl, .inl rfl⟩

theorem OnQueue.idler {j : QId} (h : OnQueue j false w v) : Idler w v where
  heap := by rw [h.sys]
  sqe i := by
    rcases eq_or_ne i j with rfl | hi
    · exact h.sqe
    · rw [h.other i hi]
  cqe i := by
    rcases eq_or_ne i j with rfl | hi
    · exact h.cqe
    · rw [h.other i hi]
  log := by
    rcases h.log with hl | ⟨ev, hev, hc, hl⟩
    · exact .inl hl
    · refine .inr ⟨ev, hl, ?_, fun a => ?_⟩ <;>
        cases ev <;> first | rfl | exact absurd (hc rfl) (by decide) | cases hev

/-- One more event, which may hand over a ring of `H`. -/
theorem Kept.event (h : Kept lg H bs w) (hheap : v.sys.heap = w.sys.heap)
    (hsqe : ∀ i, (v.q i).sq.sqe = (w.q i).sq.sqe) (hcqe : ∀ i, (v.q i).cq.cqe = (w.q i).cq.cqe)
    (hlog : v.log = ev :: w.log) (hfreed : ev.isFreed = false)
    (hhands : ∀ a, a ≠ 0 → ev.hands a = true → a ∈ H) : Kept lg H bs v := by
  obtain ⟨evs, hevs, hsafe, hheld⟩ := h.log
  refine ⟨by rw [hheap]; exact h.rings, by rw [hheap]; exact h.others, h.nodup,
    by rw [hheap]; exact h.space, h.small, fun i => by rw [hsqe]; exact h.sqe i,
    fun i => by rw [hcqe]; exact h.cqe i, ev :: evs, by rw [hlog, hevs, List.cons_append],
    (freedSafely_cons hfreed).trans hsafe, fun a ha hh => ?_⟩
  rcases holds_cons hh with hh | hh
  · exact hhands a ha hh
  · exact hheld a ha hh

theorem Kept.idler (h : Kept lg H bs w) (hr : Idler w v) : Kept lg H bs v := by
  rcases hr.log with hl | ⟨ev, hl, hfreed, hhands⟩
  · obtain ⟨hheap, hsqe, hcqe, _⟩ := hr
    exact ⟨by rw [hheap]; exact h.rings, by rw [hheap]; exact h.others, h.nodup,
      by rw [hheap]; exact h.space, h.small, fun i => by rw [hsqe]; exact h.sqe i,
      fun i => by rw [hcqe]; exact h.cqe i, by rw [hl]; exact h.log⟩
  · exact h.event hr.heap hr.sqe hr.cqe hl hfreed fun a _ hh => by rw [hhands] at hh; cases hh

theorem kept_stable (lg : List Event) (H bs : List Nat) : Stable Hostile (Kept lg H bs) :=
  fun _ _ h hr => h.idler ⟨by rw [hr.sys], fun i => by rw [hr.sq], fun i => by rw [hr.cq], .inl hr.log⟩

/-- A block need not be kept account of. -/
theorem Kept.forget (h : Kept lg H (a :: bs) w) : Kept lg H bs w :=
  { h with
    others := fun b hb => h.others b (List.mem_cons_of_mem _ hb)
    nodup := (List.nodup_cons.mp h.nodup).2 }

/-- Freeing a block that is no ring. -/
theorem Kept.free (h : Kept lg H (a :: bs) w) : Kept lg H bs (w.free a) := by
  obtain ⟨b, hb, rfl, hsite⟩ := h.others a (List.mem_cons_self ..)
  have h0 : b.addr ≠ 0 := (w.sys.heap.fresh b hb).2.2
  -- no ring lies at its address
  have hring : ∀ a ∈ H, a ≠ b.addr := by
    rintro _ ha rfl
    obtain ⟨c, hc, haddr, hcsite⟩ := h.rings _ ha
    obtain rfl := List.inj_on_of_nodup_map w.sys.heap.addrs hc hb haddr
    rw [hsite] at hcsite
    cases hcsite
  obtain ⟨hnot, hnodup⟩ := List.nodup_cons.mp h.nodup
  have hlive : ∀ c ∈ w.sys.heap.live, c.addr ≠ b.addr → c ∈ (w.sys.heap.free b.addr).live := by
    intro c hc hne
    rw [Heap.free_live]
    exact List.mem_filter.mpr ⟨hc, by simpa using hne⟩
  obtain ⟨evs, hevs, hsafe, hheld⟩ := h.log
  rw [World.free, if_neg h0]
  refine ⟨fun x hx => ?_, fun x hx => ?_, hnodup, fun n x hx => h.space n x ?_, h.small, h.sqe, h.cqe,
    .freed b.addr :: evs, by rw [World.note_log, List.cons_append, ← hevs]; rfl, ?_, fun x hx hh => ?_⟩
  · obtain ⟨c, hc, rfl, hcs⟩ := h.rings x hx
    exact ⟨c, hlive c hc (hring _ hx), rfl, hcs⟩
  · obtain ⟨c, hc, rfl, hcs⟩ := h.others x (List.mem_cons_of_mem _ hx)
    exact ⟨c, hlive c hc fun heq => hnot (heq ▸ hx), rfl, hcs⟩
  · rw [← hx]
    exact (Heap.free_oracle _ _ _).symm
  · have hout : holds b.addr evs = false := by
      by_contra hne
      rw [Bool.not_eq_false] at hne
      exact hring _ (hheld _ h0 hne) rfl
    exact Bool.and_eq_true_iff.mpr ⟨by rw [hout]; rfl, hsafe⟩
  · rcases holds_cons hh with hh | hh
    · cases hh
    · exact hheld x hx hh

/-- What an allocation leaves live, and where the new block lies. -/
theorem Kept.alloc (h : Kept lg H bs w) (align size : Nat) (site : Site) :
    Kept lg H bs (w.setHeap (w.sys.heap.alloc align size site).2) ∧
      ((w.sys.heap.alloc align size site).1 = 0 ∨
        (w.sys.heap.alloc align size site).1 < 4294967296 ∧
        (∃ b ∈ (w.sys.heap.alloc align size site).2.live,
          b.addr = (w.sys.heap.alloc align size site).1 ∧ b.site = site) ∧
        (w.sys.heap.alloc align size site).1 ∉ bs) := by
  have hspace : ∀ n a, (w.sys.heap.alloc align size site).2.oracle n = some a → a < 4294967296 :=
    fun n a ha => h.space n a (by rwa [Heap.alloc_oracle] at ha)
  rcases w.sys.heap.alloc_cases align size site with ⟨h0, hlive⟩ | ⟨b, ha, h0, _, hsite, hlive, hfar⟩
  · refine ⟨{ h with rings := fun x hx => ?_, others := fun x hx => ?_, space := hspace }, .inl h0⟩
    · change ∃ b ∈ (w.sys.heap.alloc align size site).2.live, _
      rw [hlive]
      exact h.rings x hx
    · change ∃ b ∈ (w.sys.heap.alloc align size site).2.live, _
      rw [hlive]
      exact h.others x hx
  · have hmem : b ∈ (w.sys.heap.alloc align size site).2.live := by
      rw [hlive]
      exact List.mem_cons_self ..
    refine ⟨{ h with rings := fun x hx => ?_, others := fun x hx => ?_, space := hspace },
      .inr ⟨?_, ⟨b, hmem, ha.symm, hsite⟩, fun hin => ?_⟩⟩
    · obtain ⟨c, hc, hcx⟩ := h.rings x hx
      exact ⟨c, by rw [World.setHeap, World.setSys_sys, hlive]; exact List.mem_cons_of_mem _ hc, hcx⟩
    · obtain ⟨c, hc, hcx⟩ := h.others x hx
      exact ⟨c, by rw [World.setHeap, World.setSys_sys, hlive]; exact List.mem_cons_of_mem _ hc, hcx⟩
    · rcases w.sys.heap.alloc_addr align size site with h0' | horacle
      · exact absurd (ha.symm.trans h0') h0
      · exact h.space _ _ horacle
    · -- the new block would share its address with a live one
      obtain ⟨c, hc, hcx, _⟩ := h.others _ hin
      have hnodup := (w.sys.heap.alloc align size site).2.addrs
      rw [hlive, List.map_cons, List.nodup_cons] at hnodup
      exact hnodup.1 (List.mem_map.mpr ⟨c, hc, hcx.trans ha⟩)

end Nvme
