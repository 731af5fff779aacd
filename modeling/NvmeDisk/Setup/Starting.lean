import NvmeDisk.Model.Power
import NvmeDisk.Queue.Matching
import NvmeDisk.Requests.Bounded
import NvmeDisk.Setup.Ranges

/-! Turning the controller off and on. While it is off, and whenever it is on without work, it does
    nothing, so that the driver's bookkeeping there is an undisturbed run; only the two waits for
    CSTS.RDY see it change. What else it does meanwhile is the end of what it was at before. -/

namespace Nvme
open Ring Resume Bytes BlockDev Mheap

variable {mayFail : Nat → Bool} {w v u : World} {α : Type}

/-! ### A controller that has nothing to do -/

structure Still (w : World) : Prop where
  settled : w.reg.enabled = w.reg.ready
  rested : w.reg.ready = true → Rested w

theorem Still.quiet (h : Still w) : Quiet (Powered mayFail) w := by
  rintro v ⟨b, hb⟩
  have hsettled := h.settled
  rcases powerMove_cases hb with ⟨he, hr, _⟩ | ⟨he, hr, _⟩ | ⟨m, u, hr, hu, _⟩
  · rw [he, hr] at hsettled
    cases hsettled
  · rw [he, hr] at hsettled
    cases hsettled
  · exact (h.rested hr).quiet u ⟨m, hu⟩

/-- Driver actions the controller does not notice. -/
structure Unnoticed (w v : World) : Prop where
  reg : v.reg = w.reg
  ctl : ∀ i, (v.q i).ctl = (w.q i).ctl

theorem Unnoticed.refl (w : World) : Unnoticed w w := ⟨rfl, fun _ => rfl⟩

theorem Unnoticed.still (h : Unnoticed w v) (hw : Still w) : Still v where
  settled := by rw [h.reg]; exact hw.settled
  rested hr i := by
    rw [h.reg] at hr
    rw [h.ctl]
    exact hw.rested hr i

theorem Unnoticed.setQ (w : World) {i : QId} {q : QPair} (h : q.ctl = (w.q i).ctl) :
    Unnoticed w (w.setQ i q) := by
  refine ⟨rfl, fun j => ?_⟩
  rcases eq_or_ne j i with rfl | hj
  · rw [World.setQ_q_same, h]
  · rw [World.setQ_q_ne _ _ hj]

/-- STILL RULE: bookkeeping of the driver runs undisturbed. -/
theorem wp_still {p : Drv α} (hp : p.Does Unnoticed) (h : Still w) :
    Wp (Powered mayFail) Still p (fun a v => p.exec w = (.ok a, v)) (fun _ _ => False) w :=
  wp_exec (fun _ h => h.quiet) (hp.keeps fun _ _ hu hs => hu.still hs) h

section
variable {β : Type} {k : α → Drv β} {Q : β → World → Prop} {X : Halt → World → Prop}

theorem Still.wp_get (h : Still w) {g : World → α}
    (hk : Wp (Powered mayFail) (fun _ => True) (k (g w)) Q X w) :
    Wp (Powered mayFail) (fun _ => True) (.get g >>= k) Q X w := wp_atom_quiet h.quiet trivial hk

theorem Still.wp_modify (h : Still w) {f : World → World} {k : Unit → Drv β}
    (hk : Wp (Powered mayFail) (fun _ => True) (k ()) Q X (f w)) :
    Wp (Powered mayFail) (fun _ => True) (.modify f >>= k) Q X w := wp_atom_quiet h.quiet trivial hk

theorem Still.wp_act (h : Still w) {g : World → α × World}
    (hk : Wp (Powered mayFail) (fun _ => True) (k (g w).1) Q X (g w).2) :
    Wp (Powered mayFail) (fun _ => True) (.act g >>= k) Q X w := wp_atom_quiet h.quiet trivial hk

theorem Still.wp_getUsed (h : Still w) {f : Nat → Used} {g : World → Nat} {k : Nat → Drv β}
    (hk : Wp (Powered mayFail) (fun _ => True) (k (g w)) Q X (w.use (f (g w)))) :
    Wp (Powered mayFail) (fun _ => True) (getUsed f g >>= k) Q X w := h.wp_act hk

theorem Still.wp_ret (h : Still w) {a : α} {Q : α → World → Prop} (hQ : Q a w) :
    Wp (Powered mayFail) (fun _ => True) (.ret a) Q X w := wp_ret_quiet h.quiet trivial hQ

end

theorem unnoticed_zalloc (site : Site) (size : Nat) : (zallocPageAligned site size).Does Unnoticed := by
  refine .act fun w => ?_
  dsimp only
  split <;> exact ⟨rfl, fun _ => rfl⟩

theorem unnoticed_note (ev : Event) : (note ev).Does Unnoticed := .modify fun _ => ⟨rfl, fun _ => rfl⟩

theorem unnoticed_free (a : Nat) : (free a).Does Unnoticed := by
  refine .modify fun w => ?_
  rw [World.free]
  split
  · exact .refl w
  · exact ⟨rfl, fun _ => rfl⟩

theorem unnoticed_get (g : World → α) : (Prog.get g : Drv α).Does Unnoticed := .get .refl g

/-! ### What stays the same -/

/-- What the set-up leaves alone; the disk only if `P`. -/
structure Preserved (P : Prop) (w v : World) : Prop where
  dev : v.dev = w.dev
  cap : v.reg.cap = w.reg.cap
  oracle : ∀ n, v.sys.heap.oracle n = w.sys.heap.oracle n
  log : Grows w v
  disk : P → v.store.disk = w.store.disk

/-- Before it comes to the namespaces, it leaves alone what belongs to these too. -/
structure Unchanged (P : Prop) (w v : World) : Prop extends Preserved P w v where
  ns : v.sys.ns = w.sys.ns
  nsRec : v.sys.nsRec = w.sys.nsRec
  dma : v.sys.nvmeDmaBuffer = w.sys.nvmeDmaBuffer

variable {P : Prop}

theorem Unchanged.refl (P : Prop) (w : World) : Unchanged P w w :=
  ⟨⟨rfl, rfl, fun _ => rfl, .quiet rfl, fun _ => rfl⟩, rfl, rfl, rfl⟩

theorem Grows.trans (h : Grows w v) (h' : Grows v u) : Grows w u := by
  obtain ⟨a, ha⟩ := h
  obtain ⟨b, hb⟩ := h'
  exact ⟨b ++ a, by rw [hb, ha, List.append_assoc]⟩

theorem Preserved.trans (h : Preserved P w v) (h' : Preserved P v u) : Preserved P w u where
  dev := h'.dev.trans h.dev
  cap := h'.cap.trans h.cap
  oracle n := (h'.oracle n).trans (h.oracle n)
  log := h.log.trans h'.log
  disk hP := (h'.disk hP).trans (h.disk hP)

theorem Unchanged.trans (h : Unchanged P w v) (h' : Unchanged P v u) : Unchanged P w u :=
  ⟨h.toPreserved.trans h'.toPreserved, h'.ns.trans h.ns, h'.nsRec.trans h.nsRec, h'.dma.trans h.dma⟩

theorem Unchanged.weaken (h : Unchanged True w v) (P : Prop) : Unchanged P w v :=
  { h with disk := fun _ => h.disk trivial }

theorem Unchanged.setQ (P : Prop) (w : World) (i : QId) (q : QPair) : Unchanged P w (w.setQ i q) :=
  ⟨⟨rfl, rfl, fun _ => rfl, .quiet rfl, fun _ => rfl⟩, rfl, rfl, rfl⟩

theorem Unchanged.note (P : Prop) (w : World) (ev : Event) : Unchanged P w (w.note ev) :=
  ⟨⟨rfl, rfl, fun _ => rfl, .note rfl, fun _ => rfl⟩, rfl, rfl, rfl⟩

theorem Unchanged.use (P : Prop) (w : World) (x : Used) : Unchanged P w (w.use x) :=
  ⟨⟨rfl, rfl, fun _ => rfl, .quiet rfl, fun _ => rfl⟩, rfl, rfl, rfl⟩

/-- Registers other than CAP. -/
theorem Unchanged.setReg (P : Prop) (w : World) {r : NvmeReg} (h : r.cap = w.reg.cap) :
    Unchanged P w (w.setReg r) := ⟨⟨rfl, h, fun _ => rfl, .quiet rfl, fun _ => rfl⟩, rfl, rfl, rfl⟩

theorem powered_grows (h : Powered mayFail w v) : Grows w v := by
  obtain ⟨_, _, _, l, hl⟩ := powered_kept h
  exact ⟨_, hl⟩

/-- A move of the controller, as far as it leaves the disk alone. -/
theorem Powered.unchanged (h : Powered mayFail w v) (hd : P → v.store.disk = w.store.disk) :
    Unchanged P w v := by
  obtain ⟨hsys, hdev, hreg, _⟩ := powered_kept h
  exact ⟨⟨hdev, by rw [hreg], fun _ => by rw [hsys], powered_grows h, hd⟩, by rw [hsys], by rw [hsys],
    by rw [hsys]⟩

/-- From `w` to `v` the driver left queues and registers alone. -/
structure Filed (w v : World) : Prop extends Preserved True w v where
  q : v.q = w.q
  reg : v.reg = w.reg
  stride : v.sys.doorbellStride = w.sys.doorbellStride

/-- From `w` to `v` the driver saw to things of its own: the heap, its memory, the log. -/
structure Tended (w v : World) : Prop extends Unchanged True w v where
  q : v.q = w.q
  reg : v.reg = w.reg
  stride : v.sys.doorbellStride = w.sys.doorbellStride

theorem Tended.filed (h : Tended w v) : Filed w v := ⟨h.toPreserved, h.q, h.reg, h.stride⟩

/-- Every address the allocator may give fits 32 bits. -/
def World.Addressable (w : World) : Prop := ∀ n a, w.sys.heap.oracle n = some a → a < 4294967296

/-- An allocation of whole pages gave `a`: null, or a block of its own. -/
structure Allotted (size a : Nat) (w v : World) : Prop extends Tended w v where
  page : a % 4096 = 0
  low : w.Addressable → a < 4294967296
  live : a ≠ 0 → ∃ c ∈ v.sys.heap.live, c.addr = a ∧ c.size = size

theorem exec_zalloc (site : Site) (size : Nat) (w : World) :
    ∃ a v, (zallocPageAligned site size).exec w = (.ok a, v) ∧ Allotted size a w v := by
  refine ⟨_, _, rfl, ?_, w.sys.heap.alloc_aligned .., fun hspace => ?_, fun h0 => ?_⟩
  · dsimp only
    split <;> exact ⟨⟨⟨rfl, rfl, Heap.alloc_oracle _ _ _ _, .quiet rfl, fun _ => rfl⟩, rfl, rfl, rfl⟩,
      rfl, rfl, rfl⟩
  · rcases w.sys.heap.alloc_addr nvmePageSize size site with h0 | ha
    · simp [h0]
    · exact hspace _ _ ha
  · rcases w.sys.heap.alloc_cases nvmePageSize size site with ⟨h, _⟩ | ⟨c, hc, _, hsize, _, hl, _⟩
    · exact absurd h h0
    · refine ⟨c, ?_, hc.symm, hsize⟩
      dsimp only
      rw [if_neg h0]
      change c ∈ (w.sys.heap.alloc nvmePageSize size site).2.live
      rw [hl]
      exact List.mem_cons_self ..

theorem keeps_tended {I : World → Prop} (h : ∀ w v, I w → Tended w v → I v) (site : Site) (size : Nat) :
    (zallocPageAligned site size).Keeps I := by
  refine .act fun w hw => ?_
  obtain ⟨a, v, hexec, hv⟩ := exec_zalloc site size w
  rw [← show _ = v from congrArg Prod.snd hexec] at hv
  exact h _ _ hw hv.toTended

/-! ### Waiting for CSTS.RDY -/

/-- WAIT RULE: what the controller keeps holds until it is as waited for; then it may go on. -/
theorem wp_waitCsts {R : World → World → Prop} {I : World → Prop} (hI : Stable R I)
    (huse : ∀ w x, I w → I (w.use x)) (rdy : Nat) (h : I w) : Wp R (fun _ => True) (nvmeWaitCstsRdy rdy)
      (fun rc v => rc ≠ 0 ∨ ∃ u, I u ∧ rdy = u.reg.csts % 2 ∧ Env R u v) (fun _ _ => False) w := by
  have hloop : ∀ n w, I w → Wp R (fun _ => True) (cstsLoop rdy n)
      (fun rc v => rc ≠ 0 ∨ ∃ u, I u ∧ rdy = u.reg.csts % 2 ∧ Env R u v) (fun _ _ => False) w := by
    intro n
    induction n with
    | zero =>
      intro w _
      exact wp_modify_bind fun v _ => ⟨trivial, wp_ret fun u _ => ⟨trivial, .inl (by decide)⟩⟩
    | succ n ih =>
      intro w hw
      refine wp_getUsed_bind fun v he => ⟨trivial, ?_⟩
      have hv := huse v (.csts v.reg.csts) (hI.env hw he)
      rw [show v.reg.csts &&& nvmeCstsRdy = v.reg.csts % 2 from Nat.and_one_is_mod _]
      split
      · rename_i hrdy
        exact wp_ret fun u hu => ⟨trivial, .inr ⟨_, hv, hrdy, hu⟩⟩
      · split
        · exact wp_ret fun u _ => ⟨trivial, .inl (by decide)⟩
        · exact ih _ hv
  exact wp_get_bind fun v he => ⟨trivial, hloop _ v (hI.env h he)⟩

/-! ### Off -/

/-- Off, without queues. -/
structure Off (w : World) : Prop where
  enabled : w.reg.enabled = false
  ready : w.reg.ready = false
  ctl : ∀ i, (w.q i).ctl = noQueue

theorem Off.still (h : Off w) : Still w :=
  ⟨h.enabled.trans h.ready.symm, fun hr => by rw [h.ready] at hr; cases hr⟩

theorem Unnoticed.isOff (h : Unnoticed w v) (hw : Off w) : Off v :=
  ⟨by rw [h.reg]; exact hw.enabled, by rw [h.reg]; exact hw.ready, fun i => (h.ctl i).trans (hw.ctl i)⟩

/-- Heard to stop, from `w₀` on; a controller that was off has stayed so. -/
structure Stopping (w₀ w : World) : Prop where
  enabled : w.reg.enabled = false
  off : w.reg.ready = false → ∀ i, (w.q i).ctl = noQueue
  idle : w₀.reg.ready = false → w.reg.ready = false
  same : Unchanged (w₀.reg.ready = false) w₀ w

theorem stopping_stable (w₀ : World) : Stable (Powered mayFail) (Stopping w₀) := by
  rintro w v h hr
  obtain ⟨b, hb⟩ := id hr
  rcases powerMove_cases hb with ⟨_, _, rfl⟩ | ⟨he, _, _⟩ | ⟨m, u, hready, hu, rfl⟩
  · exact ⟨h.enabled, fun _ _ => rfl, fun _ => rfl, h.same.trans (hr.unchanged fun _ => rfl)⟩
  · rw [h.enabled] at he
    cases he
  · have hf := executed_framed hu
    have hnot : w₀.reg.ready ≠ false := fun h0 => by rw [h.idle h0] at hready; cases hready
    refine ⟨by rw [hf.reg]; exact h.enabled, fun h0 => ?_, fun h0 => absurd h0 hnot,
      h.same.trans (hr.unchanged fun h0 => absurd h0 hnot)⟩
    rw [hf.reg, hready] at h0
    cases h0

theorem ready_of_csts (h : 0 = w.reg.csts % 2) : w.reg.ready = false := by
  simp [NvmeReg.ready, ← h]

/-- The controller is off when the wait is over. -/
theorem wp_waitOff (h : Stopping u w) : Wp (Powered mayFail) (fun _ => True) (nvmeWaitCstsRdy 0)
    (fun rc v => rc ≠ 0 ∨ Off v ∧ Unchanged (u.reg.ready = false) u v) (fun _ _ => False) w := by
  refine wp_mono (wp_waitCsts (stopping_stable u)
    (fun _ _ h => { h with same := h.same.trans (.use ..) }) 0 h) (fun _ h => h) ?_ fun _ _ _ h => h
  rintro rc v _ (hrc | ⟨x, hx, hrdy, he⟩)
  · exact .inl hrc
  · have hready := ready_of_csts hrdy
    have hoff : Off x := ⟨hx.enabled, hready, hx.off hready⟩
    rw [hoff.still.quiet.env he]
    exact .inr ⟨hoff, hx.same⟩

/-! ### The rings -/

theorem unnoticed_initRing (r : RingId) (qIdx length : Nat) : (initRing r qIdx length).Does Unnoticed := by
  refine .bind (.modify fun w => ?_) fun _ => .bind (unnoticed_zalloc _ _) fun a =>
    .bind (.modify fun w => ?_) fun _ => ?_
  · cases r <;> exact .setQ w rfl
  · cases r <;> exact .setQ w rfl
  · split
    · exact .bind (unnoticed_note _) fun _ => .ret
    · refine .bind (.modify fun w => ?_) fun _ => .ret
      cases r <;> exact .setQ w rfl

/-- What a successful initialisation leaves: memory for the ring, and the pair as initialised. -/
structure Rung (r : RingId) (qIdx length : Nat) (w : World) (a : Nat) (v : World) : Prop where
  page : a % 4096 = 0
  low : w.Addressable → a < 4294967296
  after : ∃ u, Tended w u ∧ v = u.initRing qIdx length a r

theorem exec_initRing (r : RingId) (qIdx length : Nat) (w : World) :
    ∃ rc v, (initRing r qIdx length).exec w = (.ok rc, v) ∧ (rc ≠ 0 ∨ ∃ a, Rung r qIdx length w a v) := by
  obtain ⟨a, x, hexec, hx⟩ := exec_zalloc r.site (r.entry * length) (w.setCommon r qIdx length)
  have hcommon : (w.setCommon r qIdx length).sys = w.sys := by cases r <;> rfl
  have hstep : (initRing r qIdx length).exec w = (if a = 0 then do warn .noalloc; return -1
      else do Prog.modify (·.initRing qIdx length a r); return 0 : Drv Int).exec (x.setRing r a) := by
    rw [initRing, exec_modify_bind, exec_bind_ok hexec]
    rfl
  by_cases h0 : a = 0
  · rw [if_pos h0] at hstep
    exact ⟨_, _, hstep, .inl (by decide)⟩
  · rw [if_neg h0] at hstep
    refine ⟨_, _, hstep, .inr ⟨a, hx.page, fun hs => hx.low ?_, ?_⟩⟩
    · rw [World.Addressable, hcommon]
      exact hs
    -- the pair is written over, so that memory is all the steps before have left
    refine ⟨{ x with q := w.q }, ?_, ?_⟩
    · cases r <;> exact { hx.toTended with q := rfl }
    · have hq := hx.q
      cases r <;> simp [World.initRing, World.setRing, World.setCqe, World.setSqe, World.setQ, hq,
        World.setCommon, World.setCqCommon, World.setSqCommon, initCq, initSq]

/-- RING RULE: with the controller off or idle. -/
theorem wp_initRing (h : Still w) (r : RingId) (qIdx length : Nat) :
    Wp (Powered mayFail) (fun _ => True) (initRing r qIdx length)
      (fun rc v => rc ≠ 0 ∨ Still v ∧ ∃ a, Rung r qIdx length w a v) (fun _ _ => False) w := by
  refine wp_mono (wp_still (unnoticed_initRing r qIdx length) h) (fun _ _ => trivial) ?_ fun _ _ _ h => h
  rintro rc v hv hexec
  obtain ⟨rc', v', hexec', hend⟩ := exec_initRing r qIdx length w
  rw [hexec] at hexec'
  obtain ⟨hrc, rfl⟩ := Prod.mk.inj hexec'
  obtain rfl := Except.ok.inj hrc
  exact hend.imp_right fun ha => ⟨hv, ha⟩

/-! ### On -/

/-- A pair that is freshly set up: doorbells, masks, empty rings at `sqe` and `cqe`, and the
    controller's side `c`. -/
def newPair (i : QId) (L C stride sqe cqe : Nat) (c : CtlQueue) : QPair where
  sq := ⟨⟨0x1000 + 2 * i.sqId * stride, L - 1⟩, sqe, 0, 0⟩
  cq := ⟨⟨0x1000 + (2 * i.sqId + 1) * stride, C - 1⟩, cqe, 0, true⟩
  sqes := fun _ => zeroSqe
  cqes := fun _ => zeroCqe
  ctl := c

/-- Length of the admin rings: a page each. -/
abbrev adminSqLen : Nat := nvmePageSize / sizeofSqe
abbrev adminCqLen : Nat := nvmePageSize / sizeofCqe

instance : Fact (Pow2 adminSqLen) := ⟨6, by decide, rfl⟩

instance : Fact (Pow2 adminCqLen) := ⟨8, by decide, rfl⟩

theorem newPair_eq (i : QId) {L C : Nat} (stride sqe cqe : Nat) (q : QPair) (hL : 0 < L ∧ L ≤ 65536)
    (hC : 0 < C ∧ C ≤ 65536) :
    initSq (initCq q stride (2 * i.sqId + 1) C cqe) stride (2 * i.sqId) L sqe =
      newPair i L C stride sqe cqe q.ctl := by
  have hq : ∀ qIdx {n}, 0 < n → n ≤ 65536 →
      nvmeInitQueueCommon stride qIdx n = ⟨0x1000 + qIdx * stride, n - 1⟩ := by
    intro qIdx n h0 h
    rw [← initQueueCommon_mask stride qIdx n h0 h]
    rfl
  simp [initSq, initCq, newPair, hq, hL, hC]

theorem newPair_initialised (i : QId) {L C : Nat} (stride sqe cqe : Nat) (hL : 0 < L ∧ L ≤ 65536)
    (hC : 0 < C ∧ C ≤ 65536) : Initialised L C (newPair i L C stride sqe cqe (freshCtl L C)) :=
  ⟨newPair i L C stride sqe cqe (freshCtl L C), stride, 2 * i.sqId, 2 * i.sqId + 1, sqe, cqe, rfl,
    (newPair_eq i stride sqe cqe (newPair i L C stride sqe cqe (freshCtl L C)) hL hC).symm⟩

/-- Where the driver has the rings of a pair, and how far apart their doorbells are. -/
structure RingBase where
  stride : Nat
  sqe : Nat
  cqe : Nat
  sqePage : sqe % 4096 = 0
  cqePage : cqe % 4096 = 0

/-- The doorbell stride out of CAP. -/
def strideOf (cap : Nat) : Nat := u32 (4 <<< ((cap >>> 32) &&& 0xF))

/-- Heard to start, the rings of the admin pair being as `b` says; in the end it has. -/
structure Waking (P : Prop) (b : RingBase) (w₀ w : World) : Prop where
  enabled : w.reg.enabled = true
  aqa : w.reg.asqLen = adminSqLen ∧ w.reg.acqLen = adminCqLen
  asq : w.reg.asq = b.sqe
  acq : w.reg.acq = b.cqe
  admin : w.q .admin = newPair .admin adminSqLen adminCqLen b.stride b.sqe b.cqe
    (if w.reg.ready = true then freshCtl adminSqLen adminCqLen else noQueue)
  io : (w.q .io).ctl = noQueue
  stride : w.sys.doorbellStride = b.stride
  same : Unchanged P w₀ w

/-- The controller is on, the driver has done with all its admin commands, and the I/O pair is not in
    use. -/
structure Up (D : List NvmeCqe) (w : World) : Prop where
  enabled : w.reg.enabled = true
  ready : w.reg.ready = true
  idle : Idle adminSqLen adminCqLen D (w.q .admin)
  io : (w.q .io).ctl.NoWork

variable {D : List NvmeCqe} {b : RingBase}

theorem Up.rested (h : Up D w) : Rested w := by
  intro i
  cases i with
  | admin => exact h.idle.noWork
  | io => exact h.io

theorem Up.still (h : Up D w) : Still w := ⟨h.enabled.trans h.ready.symm, fun _ => h.rested⟩

theorem noQueue_noWork : noQueue.NoWork := ⟨rfl, rfl⟩

theorem Waking.up (h : Waking P b u w) (hr : w.reg.ready = true) : Up [] w where
  enabled := h.enabled
  ready := hr
  idle := by
    rw [h.admin, if_pos hr]
    exact (newPair_initialised .admin _ _ _ (by decide) (by decide)).idle ⟨6, by decide, rfl⟩
      ⟨8, by decide, rfl⟩ (by decide) (by decide)
  io := by rw [h.io]; exact noQueue_noWork

theorem waking_stable (P : Prop) (b : RingBase) (u : World) : Stable (Powered mayFail) (Waking P b u) := by
  rintro w v h hr
  obtain ⟨m, hm⟩ := id hr
  rcases powerMove_cases hm with ⟨he, _, _⟩ | ⟨_, hready, rfl⟩ | ⟨m, x, hready, _, _⟩
  · rw [h.enabled] at he
    cases he
  · refine ⟨h.enabled, h.aqa, h.asq, h.acq, ?_, ?_, h.stride, h.same.trans (hr.unchanged fun _ => rfl)⟩
    · rw [World.start, World.setReg, World.setQ_q_same, h.admin, h.aqa.1, h.aqa.2]
      rfl
    · rw [World.start, World.setReg, World.setQ_q_ne _ _ (by decide), h.io]
  · exact absurd hr ((h.up hready).still.quiet v)

theorem wp_waitOn (h : Waking P b u w) : Wp (Powered mayFail) (fun _ => True) (nvmeWaitCstsRdy 1)
    (fun rc v => rc ≠ 0 ∨ v.reg.ready = true ∧ Waking P b u v) (fun _ _ => False) w := by
  refine wp_mono (wp_waitCsts (waking_stable P b u)
    (fun _ _ h => { h with same := h.same.trans (.use ..) }) 1 h) (fun _ h => h) ?_ fun _ _ _ h => h
  rintro rc v _ (hrc | ⟨x, hx, hrdy, he⟩)
  · exact .inl hrc
  · have hready : x.reg.ready = true := by simp [NvmeReg.ready, ← hrdy]
    rw [(hx.up hready).still.quiet.env he]
    exact .inr ⟨hready, hx⟩

/-! ### `nvme_controller_enable` up to its first command -/

/-- Code of which only the result matters. -/
theorem wp_any {R : World → World → Prop} {ρ : World → World → Prop} {p : Drv α} (hp : p.Does ρ) :
    Wp R (fun _ => True) p (fun _ _ => True) (fun _ _ => False) w :=
  wp_mono (wp_keeps (P := fun _ => True) (fun _ _ _ _ => trivial) (hp.keeps fun _ _ _ _ => trivial)
    trivial) (fun _ _ => trivial) (fun _ _ _ _ => trivial) fun _ _ _ h => h

theorem unnoticed_destroyCq (i : QId) : (nvmeDestroyCq i).Does Unnoticed :=
  .bind (unnoticed_get _) fun _ => .bind (unnoticed_free _) fun _ => .modify fun w => .setQ w rfl

theorem unnoticed_destroySq (i : QId) : (nvmeDestroySq i).Does Unnoticed :=
  .bind (unnoticed_get _) fun _ => .bind (unnoticed_free _) fun _ => .modify fun w => .setQ w rfl

/-- The error path fails, whatever the controller does. -/
theorem wp_destroyAdminQueues {R : World → World → Prop} : Wp R (fun _ => True) destroyAdminQueues
    (fun rc _ => rc ≠ 0) (fun _ _ => False) w :=
  wp_seq (wp_any (unnoticed_destroySq _)) (fun _ _ h => h) fun _ _ _ =>
    wp_seq (wp_any (unnoticed_destroyCq _)) (fun _ _ h => h) fun _ _ _ =>
      wp_ret fun _ _ => ⟨trivial, by decide⟩

theorem Off.initRing (h : Off w) {r : RingId} {qIdx length a : Nat} (hr : Rung r qIdx length w a v) :
    Off v := by
  obtain ⟨x, hx, rfl⟩ := hr.after
  have hoff : Off x := ⟨by rw [hx.reg]; exact h.enabled, by rw [hx.reg]; exact h.ready,
    fun i => by rw [hx.q]; exact h.ctl i⟩
  have hset : Unnoticed x (x.initRing qIdx length a r) := by cases r <;> exact .setQ x rfl
  exact hset.isOff hoff

/-- The admin rings are allocated and initialised; the controller is off. -/
structure Fitted (P : Prop) (b : RingBase) (w₀ w : World) : Prop where
  off : Off w
  admin : w.q .admin = newPair .admin adminSqLen adminCqLen b.stride b.sqe b.cqe noQueue
  stride : w.sys.doorbellStride = b.stride
  same : Unchanged P w₀ w

def World.writeAqa (w : World) : World := w.setReg { w.reg with
  aqa := (w.q .admin).cq.common.mask <<< 16 ||| (w.q .admin).sq.common.mask }

def World.writeAsq (w : World) : World :=
  (w.setReg { w.reg with asq := (w.q .admin).sq.sqe }).note (.writeAsq (w.q .admin).sq.sqe)

def World.writeAcq (w : World) : World :=
  (w.setReg { w.reg with acq := (w.q .admin).cq.cqe }).note (.writeAcq (w.q .admin).cq.cqe)

/-- The register writes that start the controller. -/
def World.launch (w : World) : World := w.writeAqa.writeAsq.writeAcq.writeCc
  (nvmeCcEn ||| nvmeCqeSizeLog <<< 20 ||| nvmeSqeSizeLog <<< 16)

theorem Off.writeAqa (h : Off w) : Off w.writeAqa := ⟨h.enabled, h.ready, h.ctl⟩

theorem Off.writeAsq (h : Off w) : Off w.writeAsq := ⟨h.enabled, h.ready, h.ctl⟩

theorem Off.writeAcq (h : Off w) : Off w.writeAcq := ⟨h.enabled, h.ready, h.ctl⟩

theorem unchanged_launch (P : Prop) (w : World) : Unchanged P w w.launch := by
  have hwrite : ∀ (w : World) {r : NvmeReg} (ev : Event), r.cap = w.reg.cap →
      Unchanged P w ((w.setReg r).note ev) := fun w r ev h => (Unchanged.setReg P w h).trans (.note ..)
  have haqa : Unchanged P w w.writeAqa := .setReg P w rfl
  have hasq : Unchanged P w.writeAqa w.writeAqa.writeAsq := hwrite _ _ rfl
  have hacq : Unchanged P w.writeAqa.writeAsq w.writeAqa.writeAsq.writeAcq := hwrite _ _ rfl
  exact ((haqa.trans hasq).trans hacq).trans (hwrite _ _ rfl)

/-- What is written to the registers is what the controller starts with. -/
theorem Fitted.waking (h : Fitted P b u w) : Waking P b u w.launch := by
  have hadmin := h.admin
  have hready : w.launch.reg.ready = false := by
    rw [World.launch]
    exact h.off.writeAqa.writeAsq.writeAcq.ready
  have hcc : (nvmeCcEn ||| nvmeCqeSizeLog <<< 20 ||| nvmeSqeSizeLog <<< 16) % 2 = 1 := by decide
  have hlen : ((adminCqLen - 1) <<< 16 ||| (adminSqLen - 1)) % 4096 + 1 = adminSqLen ∧
      ((adminCqLen - 1) <<< 16 ||| (adminSqLen - 1)) / 65536 % 4096 + 1 = adminCqLen := by decide
  have haqa : w.launch.reg.aqa = (adminCqLen - 1) <<< 16 ||| (adminSqLen - 1) := by
    change (w.q .admin).cq.common.mask <<< 16 ||| (w.q .admin).sq.common.mask = _
    rw [hadmin]
    rfl
  refine ⟨?_, ?_, ?_, ?_, ?_, h.off.ctl .io, h.stride, ?_⟩
  · exact (congrArg (· == 1) hcc).trans rfl
  · rw [NvmeReg.asqLen, NvmeReg.acqLen, haqa]
    exact hlen
  · change (w.q .admin).sq.sqe = _
    rw [hadmin]
    rfl
  · change (w.q .admin).cq.cqe = _
    rw [hadmin]
    rfl
  · rw [hready]
    exact hadmin
  · exact h.same.trans (unchanged_launch P w)

/-- From a controller that is off: the rings, the registers, and the wait. -/
theorem wp_launch {p : Drv Int} {Q : Int → World → Prop} (hoff : Off w) (hsame : Unchanged P u w)
    (hfail : ∀ rc v, rc ≠ 0 → Q rc v)
    (hp : ∀ b v, b.stride = strideOf u.reg.cap → v.reg.ready = true → Waking P b u v →
      Wp (Powered mayFail) (fun _ => True) p Q (fun _ _ => False) v) :
    Wp (Powered mayFail) (fun _ => True) (do
      let cap ← .get (·.reg.cap)
      Prog.modify fun w =>
        w.setSys { w.sys with doorbellStride := u32 (4 <<< ((cap >>> 32) &&& 0xF)) }
      if (← nvmeInitCq .admin 1 (nvmePageSize / sizeofCqe)) ≠ 0 then return -1
      else
        if (← nvmeInitSq .admin 0 (nvmePageSize / sizeofSqe)) ≠ 0 then
          nvmeDestroyCq .admin
          return -1
        else
          Prog.modify fun w => w.setReg { w.reg with
            aqa := (w.q .admin).cq.common.mask <<< 16 ||| (w.q .admin).sq.common.mask }
          Prog.modify fun w =>
            (w.setReg { w.reg with asq := (w.q .admin).sq.sqe }).note (.writeAsq (w.q .admin).sq.sqe)
          Prog.modify fun w =>
            (w.setReg { w.reg with acq := (w.q .admin).cq.cqe }).note (.writeAcq (w.q .admin).cq.cqe)
          Prog.modify
            (·.writeCc (nvmeCcEn ||| nvmeCqeSizeLog <<< 20 ||| nvmeSqeSizeLog <<< 16))
          if (← nvmeWaitCstsRdy 1) ≠ 0 then destroyAdminQueues
          else p) Q (fun _ _ => False) w := by
  have hret : ∀ v, Wp (Powered mayFail) (fun _ => True) (return -1 : Drv Int) Q (fun _ _ => False) v :=
    fun v => wp_ret fun x _ => ⟨trivial, hfail _ x (by decide)⟩
  refine hoff.still.wp_get (hoff.still.wp_modify ?_)
  change Wp _ _ _ _ _ (w.setSys { w.sys with doorbellStride := strideOf w.reg.cap })
  generalize hstride : strideOf w.reg.cap = stride
  have hoff' : Off (w.setSys { w.sys with doorbellStride := stride }) :=
    ⟨hoff.enabled, hoff.ready, hoff.ctl⟩
  have hsame' : Unchanged P u (w.setSys { w.sys with doorbellStride := stride }) := { hsame with }
  refine wp_seq (wp_initRing hoff'.still (.cq .admin) 1 adminCqLen) (fun _ _ h => h) ?_
  rintro rc y (hrc | ⟨_, cqe, hcq⟩)
  · rw [if_pos hrc]
    exact hret y
  by_cases hrc : rc ≠ 0
  · rw [if_pos hrc]
    exact hret y
  rw [if_neg hrc]
  have hy := hoff'.initRing hcq
  refine wp_seq (wp_initRing hy.still (.sq .admin) 0 adminSqLen) (fun _ _ h => h) ?_
  rintro rc z (hrc | ⟨_, sqe, hsq⟩)
  · rw [if_pos hrc]
    exact wp_seq (wp_any (unnoticed_destroyCq _)) (fun _ _ h => h) fun _ v _ => hret v
  by_cases hrc : rc ≠ 0
  · rw [if_pos hrc]
    exact wp_seq (wp_any (unnoticed_destroyCq _)) (fun _ _ h => h) fun _ v _ => hret v
  rw [if_neg hrc]
  have hfit : Fitted P ⟨stride, sqe, cqe, hsq.page, hcq.page⟩ u z := by
    have hz := hy.initRing hsq
    obtain ⟨y', hy', rfl⟩ := hcq.after
    obtain ⟨z', hz', rfl⟩ := hsq.after
    have hstride' : y'.sys.doorbellStride = stride := hy'.stride
    have hcopy : z'.sys.doorbellStride = stride := hz'.stride.trans hstride'
    refine ⟨hz, ?_, hcopy, ?_⟩
    · have hpair := newPair_eq .admin stride sqe cqe (y'.q .admin) (L := adminSqLen) (C := adminCqLen)
        (by decide) (by decide)
      have hctl : (y'.q .admin).ctl = noQueue := by rw [hy'.q]; exact hoff.ctl .admin
      rw [hctl] at hpair
      simp only [World.initRing, World.setQ_q_same, hcopy, hz'.q, hstride']
      exact hpair
    · exact (((hsame'.trans (hy'.weaken P)).trans (.setQ P y' .admin _)).trans (hz'.weaken P)).trans
        (.setQ P z' .admin _)
  have hoff := hfit.off
  refine hoff.still.wp_modify (hoff.writeAqa.still.wp_modify ?_)
  refine hoff.writeAqa.writeAsq.still.wp_modify (hoff.writeAqa.writeAsq.writeAcq.still.wp_modify ?_)
  refine wp_seq (wp_waitOn hfit.waking) (fun _ _ h => h) ?_
  rintro rc v (hrc | ⟨hready, hv⟩)
  · rw [if_pos hrc]
    exact wp_mono wp_destroyAdminQueues (fun _ h => h) (fun rc v _ h => hfail rc v h) fun _ _ _ h => h
  by_cases hrc : rc ≠ 0
  · rw [if_pos hrc]
    exact wp_mono wp_destroyAdminQueues (fun _ h => h) (fun rc v _ h => hfail rc v h) fun _ _ _ h => h
  rw [if_neg hrc]
  exact hp _ v (by rw [← hsame.cap, hstride]) hready hv

/-! ### From power-on -/

/-- Not told anything yet, from `w₀` on. -/
structure Poised (w₀ w : World) : Prop extends PoweredOn w where
  idle : w₀.reg.ready = false → w.reg.ready = false
  same : Unchanged (w₀.reg.ready = false) w₀ w

theorem PoweredOn.poised (h : PoweredOn w) : Poised w w := ⟨h, id, .refl ..⟩

theorem poised_stable (u : World) : Stable (Powered mayFail) (Poised u) := by
  rintro w v h hr
  obtain ⟨b, hb⟩ := id hr
  have hsettled := h.settled
  rcases powerMove_cases hb with ⟨he, hready, _⟩ | ⟨he, hready, _⟩ | ⟨m, x, hready, hx, rfl⟩
  · rw [he, hready] at hsettled
    cases hsettled
  · rw [he, hready] at hsettled
    cases hsettled
  · have hf := executed_framed hx
    have hnot : u.reg.ready ≠ false := fun h0 => by rw [h.idle h0] at hready; cases hready
    refine ⟨⟨by rw [hf.reg]; exact hsettled, fun h0 => ?_⟩, fun h0 => absurd h0 hnot,
      h.same.trans (hr.unchanged fun h0 => absurd h0 hnot)⟩
    rw [hf.reg, hready] at h0
    cases h0

/-- Actions before the controller is told anything. -/
theorem Poised.act (h : Poised u w) (hs : Unchanged True w v) (hn : Unnoticed w v) : Poised u v :=
  ⟨⟨by rw [hn.reg]; exact h.settled, fun hr i => (hn.ctl i).trans (h.off (by rw [← hn.reg]; exact hr) i)⟩,
    fun h0 => by rw [hn.reg]; exact h.idle h0, h.same.trans (hs.weaken _)⟩

theorem Poised.stop (h : Poised u w) : Stopping u (w.writeCc 0) :=
  ⟨rfl, h.off, h.idle, h.same.trans ⟨⟨rfl, rfl, fun _ => rfl, .note rfl, fun _ => rfl⟩, rfl, rfl, rfl⟩⟩

theorem wp_controllerEnable {Q : Int → World → Prop} (h : Poised u w) (hfail : ∀ rc v, rc ≠ 0 → Q rc v)
    (hp : ∀ b v, b.stride = strideOf u.reg.cap → v.reg.ready = true →
      Waking (u.reg.ready = false) b u v →
      Wp (Powered mayFail) (fun _ => True) enableIdentified Q (fun _ _ => False) v) :
    Wp (Powered mayFail) (fun _ => True) nvmeControllerEnable Q (fun _ _ => False) w := by
  refine wp_modify_bind fun v he => ⟨trivial, ?_⟩
  refine wp_seq (wp_waitOff ((poised_stable u).env h he).stop) (fun _ _ h => h) ?_
  rintro rc x (hrc | ⟨hoff, hsame⟩)
  · rw [if_pos hrc]
    exact wp_ret fun y _ => ⟨trivial, hfail _ y (by decide)⟩
  · split
    · exact wp_ret fun y _ => ⟨trivial, hfail _ y (by decide)⟩
    · exact wp_launch hoff hsame hfail hp

/-- BRING-UP RULE: what holds when the part after the start is through, holds of every set-up that
    succeeds. -/
theorem wp_controllerSetup {Q : World → Prop} (hQ : Stable (Powered mayFail) Q) (h : PoweredOn w)
    (hp : ∀ b v, b.stride = strideOf w.reg.cap → v.reg.ready = true →
      Waking (w.reg.ready = false) b w v →
      Wp (Powered mayFail) (fun _ => True) enableIdentified (fun rc v => rc = 0 → Q v)
        (fun _ _ => False) v) (nvmeBase : Nat) :
    Wp (Powered mayFail) (fun _ => True) (nvmeControllerSetup nvmeBase) (fun r v => r = some 0 → Q v)
      (fun _ _ => False) w := by
  have hnone : ∀ w, Wp (Powered mayFail) (fun _ => True) (return none : Drv (Option Int))
      (fun r v => r = some 0 → Q v) (fun _ _ => False) w :=
    fun w => wp_ret fun v _ => ⟨trivial, fun h => by cases h⟩
  rw [nvmeControllerSetup]
  split
  · exact hnone w
  refine wp_get_bind fun v he => ⟨trivial, ?_⟩
  have hv := (poised_stable w).env h.poised he
  split
  · exact hnone v
  have hact : ∀ x v, Poised w x → Tended x v → Poised w v := fun x v hx ha =>
    hx.act ha.toUnchanged ⟨ha.reg, fun i => by rw [ha.q]⟩
  refine wp_seq (wp_mono (wp_keeps (poised_stable w) (keeps_tended hact .ctrl sizeofCtrl) hv)
    (fun _ _ => trivial) (fun _ _ h _ => h) fun _ _ _ h => h) (fun _ _ h => h) fun ctrl x hx => ?_
  split
  · exact wp_modify_bind fun y _ => ⟨trivial, hnone _⟩
  refine wp_modify_bind fun y hy => ⟨trivial, ?_⟩
  have hclear : Poised w y.clearCtrl := ((poised_stable w).env hx hy).act
    ⟨⟨rfl, rfl, fun _ => rfl, .quiet rfl, fun _ => rfl⟩, rfl, rfl, rfl⟩ ⟨rfl, fun _ => rfl⟩
  refine wp_seq (wp_controllerEnable hclear (Q := fun rc v => rc = 0 → Q v)
    (fun rc v hrc h0 => absurd h0 hrc) hp) (fun _ _ h => h) fun rc z hz => ?_
  split
  · rename_i hrc
    exact wp_seq (wp_any (unnoticed_free ctrl)) (fun _ _ h => h) fun _ t _ => wp_ret fun t' _ =>
      ⟨trivial, fun h0 => absurd (Option.some.inj h0) hrc⟩
  · rename_i hrc
    exact wp_ret fun t ht => ⟨trivial, fun _ => hQ.env (hz (not_not.mp hrc)) ht⟩

end Nvme
