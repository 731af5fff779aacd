import NvmeDisk.Queue.Command
import NvmeDisk.Queue.Rounds
import NvmeDisk.Setup.Inventory

/-! What a successful `nvme_create_io_queues` leaves behind: the lengths the driver declared in the
    two create commands, and the I/O queue pair it will use, initialised for those lengths. The
    device answers as it likes; the CAP register does not change, and nothing is posted on the I/O
    queue, which does not exist yet. -/

namespace Nvme
open Ring Resume Bytes BlockDev

/-- A device during queue creation. -/
structure CreateEnv (w v : World) : Prop extends Hostile w v where
  cap : v.reg.cap = w.reg.cap
  cqes : (v.q .io).cqes = (w.q .io).cqes

/-- The length the newest create command with opcode `opc` declares (dword 10, from bit 16 on, holds
    the length less one). -/
def declaredLen (opc : Nat) : List Event → Nat
  | [] => 0
  | .commit .admin _ e _ :: log => if e.opc = opc then e.dword10 / 65536 + 1 else declaredLen opc log
  | _ :: log => declaredLen opc log

/-- The completion queue as `nvme_init_cq` sets it up. -/
structure CqReady (len : Nat) (q : QPair) : Prop where
  mask : q.cq.common.mask = len - 1
  head : q.cq.head = 0
  phase : q.cq.phase = true
  cqes : q.cqes = fun _ => zeroCqe

/-- The submission queue as `nvme_init_sq` sets it up. -/
structure SqReady (len : Nat) (q : QPair) : Prop where
  mask : q.sq.common.mask = len - 1
  head : q.sq.head = 0
  tail : q.sq.tail = 0

/-- How far the creation is: 1 the completion queue is set up, 2 it is declared, 3 the submission
    queue is set up, 4 it is declared. -/
structure Created (c n : Nat) (w : World) : Prop where
  cap : w.reg.cap = c
  trail : trail .io w.log = []
  cq : 1 ≤ n → CqReady (ioQueueLength c) (w.q .io)
  cqLen : 2 ≤ n → declaredLen nvmeSqeOpcAdminCreateIoCq w.log = ioQueueLength c
  sq : 3 ≤ n → SqReady (ioQueueLength c) (w.q .io)
  sqLen : 4 ≤ n → declaredLen nvmeSqeOpcAdminCreateIoSq w.log = ioQueueLength c

abbrev Creates {α : Type} (c n : Nat) (p : Drv α) (Φ : α → Nat → Prop) : Prop :=
  Drives CreateEnv (Created c) n p Φ

variable {w v : World} {c n m : Nat} {α : Type}

theorem created_stable (c n : Nat) : Stable CreateEnv (Created c n) := fun _ _ h hr => {
  cap := hr.cap.trans h.cap
  trail := by rw [hr.log]; exact h.trail
  cq := fun hn => ⟨by rw [hr.cq]; exact (h.cq hn).mask, by rw [hr.cq]; exact (h.cq hn).head,
    by rw [hr.cq]; exact (h.cq hn).phase, hr.cqes.trans (h.cq hn).cqes⟩
  cqLen := by rw [hr.log]; exact h.cqLen
  sq := fun hn => ⟨by rw [hr.sq]; exact (h.sq hn).mask, by rw [hr.sq]; exact (h.sq hn).head,
    by rw [hr.sq]; exact (h.sq hn).tail⟩
  sqLen := by rw [hr.log]; exact h.sqLen }

theorem Created.mono (h : Created c n w) (hm : m ≤ n) : Created c m w where
  cap := h.cap
  trail := h.trail
  cq hn := h.cq (hn.trans hm)
  cqLen hn := h.cqLen (hn.trans hm)
  sq hn := h.sq (hn.trans hm)
  sqLen hn := h.sqLen (hn.trans hm)

/-- Operations on the admin queue, commits apart, change nothing of this. -/
theorem Created.onAdmin (h : Created c n w) (ho : OnQueue .admin false w v) : Created c n v := by
  have hio : v.q .io = w.q .io := ho.other .io (by decide)
  have hlog : Nvme.trail .io v.log = Nvme.trail .io w.log ∧
      ∀ opc, declaredLen opc v.log = declaredLen opc w.log := by
    rcases ho.log with hl | ⟨ev, hev, hc, hl⟩
    · rw [hl]
      exact ⟨rfl, fun _ => rfl⟩
    · rw [hl]
      refine ⟨trail_cons_ne (by simp [hev]) _, fun opc => ?_⟩
      cases ev <;> first | rfl | exact absurd (hc rfl) (by decide)
  exact {
    cap := by rw [ho.reg]; exact h.cap
    trail := by rw [hlog.1]; exact h.trail
    cq := by rw [hio]; exact h.cq
    cqLen := by rw [hlog.2]; exact h.cqLen
    sq := by rw [hio]; exact h.sq
    sqLen := by rw [hlog.2]; exact h.sqLen }

theorem creates_ret {a : α} {Φ : α → Nat → Prop} (h : Φ a n) : Creates c n (.ret a) Φ :=
  drives_ret (created_stable c) h

theorem creates_keeps {p : Drv α} (hp : p.Keeps (Created c n)) : Creates c n p fun _ m => m = n :=
  drives_keeps (created_stable c) hp

theorem creates_onAdmin {p : Drv α} (hp : p.Does (OnQueue .admin false)) :
    Creates c n p fun _ m => m = n :=
  creates_keeps (hp.keeps fun _ _ ho h => h.onAdmin ho)

theorem creates_get (g : World → α) :
    Creates c n (.get g) fun a m => m = n ∧ ∃ w, Created c n w ∧ a = g w :=
  drives_get (created_stable c) g

theorem Creates.weaken {p : Drv α} {Φ : α → Nat → Prop} (h : Creates c m p Φ) (hm : m ≤ n) :
    Creates c n p Φ := fun w hw => h w (hw.mono hm)

/-! ### The committed entry -/

/-- A create command: the entry committed carries the opcode and the dword given, and takes the
    creation from `n` to `m`. -/
theorem creates_command {opc a nsid dword10 dword11 dword12 : Nat} {f : Option Nat → Drv α}
    {k : Drv α} {Φ : α → Nat → Prop} (hopc : opc < 256)
    (hf : ∀ slot, f (some slot) = do
      fillIn .admin (some slot) nsid dword10 dword11 dword12
      commitSqe .admin
      k)
    (hnone : Creates c n (f none) Φ)
    (hcommit : ∀ w slot e tail, Created c n w → e.opc = opc → e.dword10 = dword10 →
      Created c m (w.note (.commit .admin slot e tail)))
    (hk : Creates c m k Φ) : Creates c n (getNextSqe .admin opc 0 a 0 >>= f) Φ := by
  intro w hw
  refine wp_adminSubmit (fun _ _ h => h.toHostile) (created_stable c n) (fun _ _ ho h => h.onAdmin ho) hopc
    hf hnone (fun w slot e tail h he _ hd => ?_) hw
  exact hk _ (hcommit w slot e tail h he hd)

/-! ### Creating the two queues -/

theorem ioQueueLength_bounds (cap : Nat) : 0 < ioQueueLength cap ∧ ioQueueLength cap ≤ 256 := by
  have hmax : nvmePageSize / sizeofCqe = 256 := rfl
  rw [ioQueueLength, hmax]
  split <;> omega

/-- Dword 10 of a create command declares the length. -/
theorem createDword_declares {len qIdx : Nat} (h0 : 0 < len) (h : len ≤ 256) (hq : qIdx >>> 1 = 1) :
    u32 ((len - 1) <<< 16 ||| qIdx >>> 1) / 65536 + 1 = len := by
  have hor : (len - 1) <<< 16 ||| qIdx >>> 1 = 65536 * (len - 1) + 1 := by
    rw [Nat.shiftLeft_eq, Nat.mul_comm, hq]
    exact (Nat.two_pow_add_eq_or_of_lt (i := 16) (by omega) (len - 1)).symm
  rw [hor, u32]
  omega

/-- Failure paths end somewhere without a halt. -/
theorem creates_fail {p : Drv α} {Φ : Int → Nat → Prop} (hp : p.Keeps (Created c 0))
    (hΦ : Φ (-1) 0) : Creates c n (do let _ ← p; return -1) Φ :=
  Creates.weaken (Drives.bind (creates_keeps hp) fun _ _ hm => hm ▸ creates_ret hΦ) (Nat.zero_le n)

/-- Changes of the I/O queues before either is set up. -/
theorem Created.zero (h : Created c 0 w) (hreg : v.reg = w.reg) (hlog : v.log = w.log) :
    Created c 0 v where
  cap := by rw [hreg]; exact h.cap
  trail := by rw [hlog]; exact h.trail
  cq := by omega
  cqLen := by omega
  sq := by omega
  sqLen := by omega

/-- An event that is about no queue. -/
theorem Created.note (h : Created c n w) {ev : Event} (hev : ev.queue? = none) :
    Created c n (w.note ev) where
  cap := h.cap
  trail := (trail_cons_ne (by simp [hev]) _).trans h.trail
  cq := h.cq
  cqLen := by cases ev <;> first | exact h.cqLen | cases hev
  sq := h.sq
  sqLen := by cases ev <;> first | exact h.sqLen | cases hev

theorem keeps_free (a : Nat) : (free a).Keeps (Created c n) := by
  refine .modify fun w h => ?_
  unfold World.free
  split
  · exact h
  · exact Created.note (w := w.setHeap (w.sys.heap.free a)) { h with } rfl

theorem keeps_destroyCq : (nvmeDestroyCq .io).Keeps (Created c 0) :=
  (Prog.Keeps.get _).bind fun cqe => .bind (keeps_free cqe) fun _ => .modify fun _ h => h.zero rfl rfl

theorem keeps_destroySq : (nvmeDestroySq .io).Keeps (Created c 0) :=
  (Prog.Keeps.get _).bind fun sqe => .bind (keeps_free sqe) fun _ => .modify fun _ h => h.zero rfl rfl

/-- Allocating a ring changes nothing of this. -/
theorem keeps_zalloc (site : Site) (size : Nat) :
    (zallocPageAligned site size).Keeps (Created c n) := by
  refine .act fun w h => ?_
  dsimp only
  split <;> exact { h with }

theorem keeps_warn (x : Warn) : (warn x).Keeps (Created c n) := .modify fun _ h => h.note rfl

theorem creates_initCq (qIdx : Nat) : Creates c 0 (nvmeInitCq .io qIdx (ioQueueLength c))
    fun rc m => rc = 0 → m = 1 := by
  have hlen := ioQueueLength_bounds c
  refine Drives.pass (creates_keeps (.modify fun w h => h.zero rfl rfl)) fun _ => ?_
  refine Drives.pass (creates_keeps (keeps_zalloc ..)) fun cqe => ?_
  refine Drives.pass (creates_keeps (.modify fun w h => h.zero rfl rfl)) fun _ => ?_
  split
  · exact Drives.pass (creates_keeps (keeps_warn _)) fun _ => creates_ret fun h => by cases h
  · refine (drives_modify (y := 1) (created_stable c) fun w h => ?_).bind fun _ m hm =>
      creates_ret fun _ => hm
    exact { h with
      cq := fun _ => by
        rw [World.setQ_q_same]
        exact ⟨initQueueCommon_mask _ _ _ hlen.1 (by omega), rfl, rfl, rfl⟩
      cqLen := by omega
      sq := by omega
      sqLen := by omega }

theorem creates_initSq (qIdx : Nat) : Creates c 2 (nvmeInitSq .io qIdx (ioQueueLength c))
    fun rc m => rc = 0 → m = 3 := by
  have hlen := ioQueueLength_bounds c
  -- the submission queue's fields are not spoken of before step 3
  have hsq : ∀ {w : World} {q : QPair}, Created c 2 w → q.cq = (w.q .io).cq →
      q.cqes = (w.q .io).cqes → Created c 2 (w.setQ .io q) := by
    intro w q h hcq hcqes
    exact { h with
      cq := fun hn => by
        rw [World.setQ_q_same]
        obtain ⟨h1, h2, h3, h4⟩ := h.cq hn
        exact ⟨by rw [hcq, h1], by rw [hcq, h2], by rw [hcq, h3], hcqes.trans h4⟩
      sq := by omega }
  refine Drives.pass (creates_keeps (.modify fun w h => hsq h rfl rfl)) fun _ => ?_
  refine Drives.pass (creates_keeps (keeps_zalloc ..)) fun sqe => ?_
  refine Drives.pass (creates_keeps (.modify fun w h => hsq h rfl rfl)) fun _ => ?_
  split
  · exact Drives.pass (creates_keeps (keeps_warn _)) fun _ => creates_ret fun h => by cases h
  · refine (drives_modify (y := 3) (created_stable c) fun w h => ?_).bind fun _ m hm =>
      creates_ret fun _ => hm
    have hq : Created c 2 (w.setQ .io
        (initSq (w.q .io) w.sys.doorbellStride qIdx (ioQueueLength c) sqe)) := hsq h rfl rfl
    exact { hq with
      cq := fun _ => hq.cq (by omega)
      sq := fun _ => by
        rw [World.setQ_q_same]
        exact ⟨initQueueCommon_mask _ _ _ hlen.1 (by omega), rfl, rfl⟩
      cqLen := fun _ => h.cqLen (by omega)
      sqLen := by omega }

theorem creates_ioCq : Creates c 0 (nvmeCreateIoCq 3) fun rc m => rc = 0 → m = 2 := by
  have hlen := ioQueueLength_bounds c
  refine (creates_get _).bind ?_
  rintro cap _ ⟨rfl, w, hw, rfl⟩
  rw [hw.cap]
  refine (creates_initCq 3).bind fun rc m hm => ?_
  split
  · exact creates_ret fun h => by cases h
  · rename_i hrc
    obtain rfl := hm (not_not.mp hrc)
    refine (creates_get _).bind ?_
    rintro cq _ ⟨rfl, w, hw, rfl⟩
    rw [(hw.cq (by omega)).mask]
    have hfail : ∀ n, Creates c n (do nvmeDestroyCq .io; return -1) fun (rc : Int) m => rc = 0 → m = 2 :=
      fun n => creates_fail keeps_destroyCq fun h => by cases h
    refine creates_command (m := 2) (by decide) (fun slot => rfl) (hfail _) ?_ ?_
    · intro w slot e tail h hopc hd
      exact { h with
        trail := (trail_cons_ne (by simp [Event.queue?]) _).trans h.trail
        cq := fun _ => h.cq (by omega)
        cqLen := fun _ => by
          rw [World.note_log, declaredLen, if_pos hopc, hd]
          exact createDword_declares hlen.1 hlen.2 rfl
        sq := by omega
        sqLen := by omega }
    · refine Drives.pass (creates_onAdmin (does_wait .admin)) fun cqe => ?_
      split
      · exact creates_ret fun _ => rfl
      · exact hfail _

theorem creates_ioSq : Creates c 2 (nvmeCreateIoSq 2) fun rc m => rc = 0 → m = 4 := by
  have hlen := ioQueueLength_bounds c
  refine (creates_get _).bind ?_
  rintro cap _ ⟨rfl, w, hw, rfl⟩
  rw [hw.cap]
  refine (creates_initSq 2).bind fun rc m hm => ?_
  split
  · exact creates_ret fun h => by cases h
  · rename_i hrc
    obtain rfl := hm (not_not.mp hrc)
    refine (creates_get _).bind ?_
    rintro sq _ ⟨rfl, w, hw, rfl⟩
    rw [(hw.sq (by omega)).mask]
    have hfail : ∀ n, Creates c n (do nvmeDestroySq .io; return -1) fun (rc : Int) m => rc = 0 → m = 4 :=
      fun n => creates_fail keeps_destroySq fun h => by cases h
    refine creates_command (m := 4) (by decide) (fun slot => rfl) (hfail _) ?_ ?_
    · intro w slot e tail h hopc hd
      exact { h with
        trail := (trail_cons_ne (by simp [Event.queue?]) _).trans h.trail
        cq := fun _ => h.cq (by omega)
        cqLen := fun _ => by
          rw [World.note_log, declaredLen, if_neg (by rw [hopc]; decide)]
          exact h.cqLen (by omega)
        sq := fun _ => h.sq (by omega)
        sqLen := fun _ => by
          rw [World.note_log, declaredLen, if_pos hopc, hd]
          exact createDword_declares hlen.1 hlen.2 rfl }
    · refine Drives.pass (creates_onAdmin (does_wait .admin)) fun cqe => ?_
      split
      · exact creates_ret fun _ => rfl
      · exact hfail _

/-- Where the creation succeeds, both queues are set up and declared with one length. -/
theorem creates_ioQueues : Creates c 0 nvmeCreateIoQueues fun rc m => rc = 0 → m = 4 := by
  refine creates_ioCq.bind fun rc m hm => ?_
  split
  · exact creates_ret fun h => by cases h
  · rename_i hrc
    obtain rfl := hm (not_not.mp hrc)
    refine creates_ioSq.bind fun rc m hm => ?_
    split
    · exact creates_fail keeps_destroyCq fun h => by cases h
    · rename_i hrc
      exact creates_ret fun _ => hm (not_not.mp hrc)

theorem created_of_run {w v : World} (hrun : Steps CreateEnv w nvmeCreateIoQueues v (.ret 0))
    (htrail : trail .io w.log = []) : Created w.reg.cap 4 v := by
  have hw : Created w.reg.cap 0 w := ⟨rfl, htrail, by omega, by omega, by omega, by omega⟩
  obtain ⟨m, hm, hv⟩ := (creates_ioQueues w hw v _ hrun).2
  rwa [hm rfl] at hv

end Nvme
