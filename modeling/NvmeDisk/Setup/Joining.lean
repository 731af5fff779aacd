import NvmeDisk.Requests.Entry
import NvmeDisk.Setup.Telling

/-! Identify and the create commands, given to a controller that has been started: what each leaves of
    the two pairs. A command that is given up on ends the set-up, but in the probe loop, where it only
    stays behind on the admin pair. -/

namespace Nvme
open Ring Resume Bytes BlockDev Mheap

/-- Doorbells, masks and ring addresses of the admin pair. -/
def RingBase.base (b : RingBase) : (NvmeQueue × Nat) × NvmeQueue × Nat :=
  ((⟨0x1000, adminSqLen - 1⟩, b.sqe), ⟨0x1000 + b.stride, adminCqLen - 1⟩, b.cqe)

/-- The controller is on with the admin rings of `b`; the admin pair is as `A` says, the I/O pair is
    `p`, not in use. -/
structure Running (b : RingBase) (p : QPair) (A : QPair → Prop) (w : World) : Prop where
  enabled : w.reg.enabled = true
  ready : w.reg.ready = true
  admin : A (w.q .admin)
  base : (w.q .admin).base = b.base
  asq : w.reg.asq = b.sqe
  acq : w.reg.acq = b.cqe
  io : w.q .io = p
  work : p.ctl.NoWork
  stride : w.sys.doorbellStride = b.stride

/-- All admin commands are done with. -/
abbrev Joined (b : RingBase) (p : QPair) (D : List NvmeCqe) : World → Prop :=
  Running b p (Idle adminSqLen adminCqLen D)

/-- An Identify command was given up on. -/
abbrev Left (b : RingBase) (p : QPair) : World → Prop :=
  Running b p fun q => ∃ D e s, e.opc = nvmeSqeOpcAdminIdentify ∧
    Outstanding .admin adminSqLen adminCqLen D e s q

variable {mayFail : Nat → Bool} {w v u : World} {b : RingBase} {p : QPair} {A : QPair → Prop}
  {D : List NvmeCqe} {e : NvmeSqe} {s : Stage} {sf : Nat} {P : Prop}

theorem Running.up (h : Joined b p D w) : Up D w :=
  ⟨h.enabled, h.ready, h.admin, by rw [h.io]; exact h.work⟩

theorem Running.filed (h : Running b p A w) (hf : Filed w v) : Running b p A v where
  enabled := by rw [hf.reg]; exact h.enabled
  ready := by rw [hf.reg]; exact h.ready
  admin := by rw [hf.q]; exact h.admin
  base := by rw [hf.q]; exact h.base
  asq := by rw [hf.reg]; exact h.asq
  acq := by rw [hf.reg]; exact h.acq
  io := by rw [hf.q]; exact h.io
  work := h.work
  stride := hf.stride.trans h.stride

theorem Waking.joined (h : Waking P b u w) (hr : w.reg.ready = true) : Joined b (w.q .io) [] w where
  enabled := h.enabled
  ready := hr
  admin := (h.up hr).idle
  base := by
    rw [h.admin]
    simp [newPair, QPair.base, RingBase.base, QId.sqId]
  asq := h.asq
  acq := h.acq
  io := rfl
  work := by rw [h.io]; exact noQueue_noWork
  stride := h.stride

/-! ### What an admin command leaves alone -/

theorem admin_disk {d : Device} {s₀ s : Store} {t : Transfer} (h : transferOf d s₀ .admin e = some t) :
    (t.full s).disk = s.disk ∧ ∀ g, (t.part g s).disk = s.disk := by
  simp only [transferOf] at h
  split at h
  · obtain ⟨segs, _, rfl⟩ := Option.map_eq_some_iff.mp h
    exact ⟨rfl, fun _ => rfl⟩
  · split at h
    · cases h
      exact ⟨rfl, fun _ => rfl⟩
    · cases h

theorem parts_disk {d : Device} {s₀ s : Store} (h : Parts d .admin e s₀ s) : s.disk = s₀.disk := by
  induction h with
  | refl => rfl
  | step g _ ht ih => exact ((admin_disk ht).2 g).trans ih

theorem ended_disk {d : Device} {s₀ s : Store} (h : Ended d .admin e s₀ sf s) : s.disk = s₀.disk := by
  by_cases h0 : sf = 0
  · subst h0
    obtain ⟨s₁, t, hp, ht, rfl⟩ := ended_zero.mp h
    exact ((admin_disk ht).1).trans (parts_disk hp)
  · exact parts_disk ((ended_error h0).mp h)

theorem data_disk {d : Device} {s₀ s₁ : Store} (h : s.Data d .admin e s₀ s₁) : s₁.disk = s₀.disk := by
  cases s with
  | queued => exact congrArg Store.disk h
  | flying sf =>
    cases sf with
    | none => exact parts_disk h
    | some sf => exact ended_disk h
  | posted sf => exact ended_disk h

theorem unchanged_same (hsys : v.sys = w.sys) (hreg : v.reg = w.reg) (hdev : v.dev = w.dev)
    (hlog : Grows w v) (hdisk : v.store.disk = w.store.disk) : Unchanged True w v :=
  ⟨⟨hdev, by rw [hreg], fun _ => by rw [hsys], hlog, fun _ => hdisk⟩, by rw [hsys], by rw [hsys],
    by rw [hsys]⟩

theorem Completed.unchanged (h : Completed mayFail w D e sf v) : Unchanged True w v :=
  unchanged_same h.sys h.reg h.dev h.log (ended_disk h.data)

theorem InHand.unchanged (h : InHand mayFail w D e s v) : Unchanged True w v :=
  unchanged_same h.sys h.reg h.dev h.log (data_disk h.data)

theorem Running.completed (h : Joined b p D w) (ha : Completed mayFail w D e sf v) :
    Joined b (if sf = 0 then p.create e else p) (D ++ [cqeOf .admin adminSqLen adminCqLen D e sf]) v where
  enabled := ha.up.enabled
  ready := ha.up.ready
  admin := ha.up.idle
  base := ha.base.trans h.base
  asq := by rw [ha.reg]; exact h.asq
  acq := by rw [ha.reg]; exact h.acq
  io := by rw [ha.io, h.io]
  work := by
    rw [← h.io, ← ha.io]
    exact ha.up.io
  stride := by rw [ha.sys]; exact h.stride

theorem create_identify (q : QPair) (h : e.opc = nvmeSqeOpcAdminIdentify) : q.create e = q := by
  simp [QPair.create, h]

theorem Running.left (h : Joined b p D w) (hi : InHand mayFail w D e s v)
    (hopc : e.opc = nvmeSqeOpcAdminIdentify) : Left b p v where
  enabled := hi.enabled
  ready := hi.ready
  admin := ⟨D, e, s, hopc, hi.out⟩
  base := hi.base.trans h.base
  asq := by rw [hi.reg]; exact h.asq
  acq := by rw [hi.reg]; exact h.acq
  io := by rw [hi.io, h.io, create_identify _ hopc, ite_self]
  work := h.work
  stride := by rw [hi.sys]; exact h.stride

theorem joined_stable : Stable (Powered mayFail) (Joined b p D) :=
  fun _ v h hr => absurd hr (h.up.still.quiet v)

theorem left_stable : Stable (Powered mayFail) (Left b p) := by
  intro w v h hr
  obtain ⟨D, e, s, hopc, hout⟩ := h.admin
  obtain ⟨s', hv⟩ := hr.further h.enabled h.ready (by rw [h.io]; exact h.work) hout
  have hf := hv.framed
  have hio : v.q .io = w.q .io := by
    rcases hv.io with ⟨_, _, hq⟩ | ⟨_, hq⟩
    · rw [hq, create_identify _ hopc]
    · exact hq
  exact {
    enabled := by rw [hf.reg]; exact h.enabled
    ready := by rw [hf.reg]; exact h.ready
    admin := ⟨D, e, s', hopc, hv.out⟩
    base := hv.base.trans h.base
    asq := by rw [hf.reg]; exact h.asq
    acq := by rw [hf.reg]; exact h.acq
    io := hio.trans h.io
    work := h.work
    stride := by rw [hf.sys]; exact h.stride }

/-! ### After the I/O queues are there -/

/-- No command is outstanding, or an Identify command that was given up on. -/
def Lasting (b : RingBase) (p : QPair) (w : World) : Prop :=
  (∃ D, Joined b p D w) ∨ (.timeout .admin ∈ w.log ∧ Left b p w)

/-- With the I/O queue at rest no move changes the disk. -/
theorem Powered.disk (hr : Powered mayFail w v) (hio : (w.q .io).ctl.NoWork) :
    v.store.disk = w.store.disk := by
  obtain ⟨x, hx⟩ := hr
  rcases powerMove_cases hx with ⟨_, _, rfl⟩ | ⟨_, _, rfl⟩ | ⟨m, y, _, hy, rfl⟩
  · rfl
  · rfl
  have hstore : ((executed m w).elim y y.create).store = y.store := by cases executed m w <;> rfl
  have hadmin : ∀ {i : QId} {k : Nat} {f : Flight}, (w.q i).ctl.flight[k]? = some f → i = .admin := by
    intro i k f hf
    cases i with
    | admin => rfl
    | io => rw [hio.flight] at hf; cases hf
  rw [hstore]
  rcases nvmeMove_cases hy with ⟨i, _, rfl⟩ | ⟨i, k, g, e, n, t, hf, ht, rfl⟩ |
    ⟨i, k, e, n, t, hf, ht, rfl⟩ | ⟨i, k, e, n, sf, _, _, rfl⟩ | ⟨i, k, e, n, sf, _, rfl⟩
  · rfl
  · obtain rfl := hadmin hf
    exact (admin_disk ht).2 g
  · obtain rfl := hadmin hf
    exact (admin_disk ht).1
  · rfl
  · rfl

theorem Lasting.work (h : Lasting b p w) : (w.q .io).ctl.NoWork := by
  rcases h with ⟨D, h⟩ | ⟨_, h⟩
  · rw [h.io]; exact h.work
  · rw [h.io]; exact h.work

/-- From `u` on nothing else has changed. -/
def Onward (b : RingBase) (p : QPair) (u w : World) : Prop := Lasting b p w ∧ Unchanged True u w

theorem onward_stable : Stable (Powered mayFail) (Onward b p u) := by
  rintro w v ⟨hl, hs⟩ hr
  refine ⟨?_, hs.trans (hr.unchanged fun _ => hr.disk hl.work)⟩
  rcases hl with ⟨D, h⟩ | ⟨hlate, h⟩
  · exact .inl ⟨D, joined_stable w v h hr⟩
  · exact .inr ⟨logged_stable _ w v hlate hr, left_stable w v h hr⟩

theorem Onward.tended (h : Onward b p u w) (ha : Tended w v) : Onward b p u v := by
  refine ⟨?_, h.2.trans ha.toUnchanged⟩
  rcases h.1 with ⟨D, hj⟩ | ⟨hlate, hj⟩
  · exact .inl ⟨D, hj.filed ha.filed⟩
  · exact .inr ⟨ha.log.mem hlate, hj.filed ha.filed⟩

theorem tended_note (w : World) (ev : Event) : Tended w (w.note ev) :=
  ⟨⟨⟨rfl, rfl, fun _ => rfl, .note rfl, fun _ => rfl⟩, rfl, rfl, rfl⟩, rfl, rfl, rfl⟩

theorem tended_use (w : World) (x : Used) : Tended w (w.use x) :=
  ⟨.use .., rfl, rfl, rfl⟩

theorem tended_free (a : Nat) (w : World) : Tended w (w.free a) := by
  rw [World.free]
  split
  · exact ⟨.refl .., rfl, rfl, rfl⟩
  · exact ⟨⟨⟨rfl, rfl, Heap.free_oracle _ _, .note rfl, fun _ => rfl⟩, rfl, rfl, rfl⟩, rfl, rfl, rfl⟩

/-! ### Identify -/

/-- The answer to Identify is in the buffer at `id`. -/
structure Filled (b : RingBase) (p : QPair) (cns nsid : Nat) (w : World) (id : Nat) (v : World) :
    Prop where
  joined : ∃ D, Joined b p D v
  same : Unchanged True w v
  block : ∃ c ∈ v.sys.heap.live, c.addr = id ∧ c.size = 4096
  data : w.Addressable → ∀ o < 4096, v.store.mem (id + o) = v.dev.identify cns nsid o

/-- How `nvme_admin_identify` ends. -/
def Replied (b : RingBase) (p : QPair) (cns nsid : Nat) (w : World) (id : Nat) (v : World) : Prop :=
  if id = 0 then Onward b p w v else Filled b p cns nsid w id v

/-- What a successful Identify writes. -/
theorem identify_data {d : Device} {s₀ s : Store} {cns nsid a : Nat} (hend : Ended d .admin e s₀ 0 s)
    (hopc : e.opc = nvmeSqeOpcAdminIdentify) (hprp : e.dptrPrp1 = a) (hpage : a % 4096 = 0)
    (hcns : e.dword10 = cns) (hlt : cns < 256) (hns : e.nsid = nsid) :
    ∀ o < 4096, s.mem (a + o) = d.identify cns nsid o := by
  obtain ⟨s₁, t, _, ht, rfl⟩ := ended_zero.mp hend
  have hsegs : dataSegs s₁.mem e.dptrPrp1 e.dptrPrp2 nvmePageSize = some [(a, 4096)] := by
    simp only [dataSegs, hprp, hpage]
    rw [if_neg (by omega), if_pos (by simp)]
    simp
  simp only [transferOf, if_pos hopc, hsegs, Option.map_some, hcns, Nat.mod_eq_of_lt hlt, hns] at ht
  cases ht
  intro o ho
  exact fill_in ho

theorem cmdSqe_opc (tail metadata data data2 nsid dword10 dword11 dword12 : Nat) {opc : Nat}
    (h : opc < 256) : (cmdSqe tail opc metadata data data2 nsid dword10 dword11 dword12).opc = opc :=
  freshSqe_opc tail metadata data data2 h

theorem giveBack (h : Onward b p u w) (a cns nsid : Nat) : Wp (Powered mayFail) (fun _ => True)
    (do free a; return 0) (Replied b p cns nsid u) (fun _ _ => False) w := by
  refine wp_modify_bind fun v he => ⟨trivial, wp_ret fun x hx => ⟨trivial, ?_⟩⟩
  rw [Replied, if_pos rfl]
  exact onward_stable.env ((onward_stable.env h he).tended (tended_free a v)) hx

theorem warned (h : Onward b p u w) {k : Drv Nat} {cns nsid : Nat} (c : Warn)
    (hk : ∀ v, Onward b p u v → Wp (Powered mayFail) (fun _ => True) k (Replied b p cns nsid u)
      (fun _ _ => False) v) :
    Wp (Powered mayFail) (fun _ => True) (warn c >>= fun _ => k) (Replied b p cns nsid u)
      (fun _ _ => False) w :=
  wp_modify_bind fun v he => ⟨trivial, hk _ ((onward_stable.env h he).tended (tended_note v _))⟩

theorem wp_zero (h : Onward b p u w) (cns nsid : Nat) : Wp (Powered mayFail) (fun _ => True)
    (return 0 : Drv Nat) (Replied b p cns nsid u) (fun _ _ => False) w :=
  wp_ret fun v he => ⟨trivial, by rw [Replied, if_pos rfl]; exact onward_stable.env h he⟩

/-- The status byte tells every error. -/
theorem success_zero (hm : Coded mayFail) (h : OkStatus mayFail sf)
    (hc : nvmeIsCqeSuccess (cqeOf .admin adminSqLen adminCqLen D e sf) = true) : sf = 0 := by
  rw [nvmeIsCqeSuccess_iff, cqeOf_sf] at hc
  rcases h with h0 | ⟨hfail, _⟩
  · exact h0
  · exact absurd hc (hm sf hfail)

/-- IDENTIFY RULE, from power-on. -/
theorem wp_bootIdentify (hm : Coded mayFail) {cns : Nat} (hcns : cns < 256) (nsid : Nat)
    (h : Lasting b p w) : Wp (Powered mayFail) (fun _ => True) (nvmeAdminIdentify cns nsid)
      (Replied b p cns nsid w) (fun _ _ => False) w := by
  have hself : Onward b p w w := ⟨h, .refl ..⟩
  rcases h with ⟨D, h⟩ | ⟨_, h⟩
  · -- undisturbed up to the command
    obtain ⟨a, x, hexec, hx⟩ := exec_zalloc .identify 4096 w
    refine wp_seq (wp_mono (wp_still (unnoticed_zalloc _ _) h.up.still) (fun _ _ => trivial)
      (fun _ _ _ h => h) fun _ _ _ h => h) (fun _ _ h => h) fun a' x' hexec' => ?_
    rw [hexec] at hexec'
    obtain ⟨ha', rfl⟩ := Prod.mk.inj hexec'
    obtain rfl := Except.ok.inj ha'
    have hon := hself.tended hx.toTended
    split
    · exact warned hon _ fun v hv => wp_zero hv _ _
    rename_i h0
    have hjoined := h.filed hx.toTended.filed
    refine wp_bootCommand hjoined.up (fun _ => rfl) rfl fun c v hc => ?_
    rcases hc with ⟨sf, rfl, hans⟩ | ⟨rfl, hlate, s, hin⟩
    · have hv := hjoined.completed hans
      rw [create_identify _ (cmdSqe_opc _ _ _ _ _ _ _ _ (by decide)), ite_self] at hv
      have hsame := hx.toUnchanged.trans hans.unchanged
      split
      · rename_i hc
        obtain rfl := success_zero hm hans.status hc
        refine wp_ret_quiet hans.up.still.quiet trivial ?_
        rw [Replied, if_neg h0]
        refine ⟨⟨_, hv⟩, hsame, ?_, fun hspace => ?_⟩
        · rw [hans.sys]
          exact hx.live h0
        · rw [hans.dev]
          refine identify_data hans.data (cmdSqe_opc _ _ _ _ _ _ _ _ (by decide)) ?_ hx.page rfl hcns rfl
          exact Nat.mod_eq_of_lt (hx.low hspace)
      · exact giveBack ⟨.inl ⟨_, hv⟩, hsame⟩ _ _ _
    · rw [if_neg (by simp)]
      exact giveBack ⟨.inr ⟨hlate, hjoined.left hin (cmdSqe_opc _ _ _ _ _ _ _ _ (by decide))⟩,
        hx.toUnchanged.trans hin.unchanged⟩ _ _ _
  · -- a command given up on is in the way
    have hstable : Stable (Powered mayFail) fun v => Left b p v ∧ Onward b p w v :=
      fun x y hx hr => ⟨left_stable x y hx.1 hr, onward_stable x y hx.2 hr⟩
    refine wp_seq (wp_mono (wp_keeps hstable (keeps_tended (fun x y hx ha =>
      ⟨hx.1.filed ha.filed, hx.2.tended ha⟩) .identify 4096) ⟨h, hself⟩) (fun _ _ => trivial) (fun _ _ h _ => h)
      fun _ _ _ h => h) (fun _ _ h => h) fun a x hx => ?_
    split
    · exact warned hx.2 _ fun v hv => wp_zero hv _ _
    refine wp_atom_stable hstable hx (fun _ _ => trivial) fun y hy => ?_
    obtain ⟨D, e, s, _, hout⟩ := hy.1.admin
    have hnext : y.setQ .admin (y.q .admin) = y := by simp [World.setQ]
    simp only [hout.getNextSqe, hnext]
    exact warned hy.2 _ fun v hv => giveBack hv _ _ _

/-! ### The I/O pair -/

/-- The controller was handed a create command with opcode `opc`, for a ring of `n` entries at `a`. -/
def Declared (opc a n : Nat) (w : World) : Prop :=
  ∃ slot e tail, .commit .admin slot e tail ∈ w.log ∧ e.opc = opc ∧ e.dptrPrp1 = u32 a ∧ e.qsize = n

theorem Declared.grows {opc a n : Nat} (h : Declared opc a n w) (hg : Grows w v) : Declared opc a n v := by
  obtain ⟨slot, e, tail, hmem, hrest⟩ := h
  exact ⟨slot, e, tail, hg.mem hmem, hrest⟩

/-- The driver writes to the I/O pair. -/
theorem Running.setIo (h : Running b p A w) {q : QPair} (hq : q.ctl.NoWork) :
    Running b q A (w.setQ .io q) where
  enabled := h.enabled
  ready := h.ready
  admin := by rw [World.setQ_q_ne _ _ (by decide)]; exact h.admin
  base := by rw [World.setQ_q_ne _ _ (by decide)]; exact h.base
  asq := h.asq
  acq := h.acq
  io := World.setQ_q_same ..
  work := hq
  stride := h.stride

theorem Running.rungCq {qIdx n a : Nat} (h : Running b p A w) (hr : Rung (.cq .io) qIdx n w a v) :
    Running b (initCq p b.stride qIdx n a) A v ∧ Unchanged True w v := by
  obtain ⟨x, hx, rfl⟩ := hr.after
  have hq := h.filed hx.filed
  refine ⟨?_, hx.toUnchanged.trans (.setQ ..)⟩
  rw [World.initRing, hq.io, hq.stride]
  exact hq.setIo hq.work

theorem Running.rungSq {qIdx n a : Nat} (h : Running b p A w) (hr : Rung (.sq .io) qIdx n w a v) :
    Running b (initSq p b.stride qIdx n a) A v ∧ Unchanged True w v := by
  obtain ⟨x, hx, rfl⟩ := hr.after
  have hq := h.filed hx.filed
  refine ⟨?_, hx.toUnchanged.trans (.setQ ..)⟩
  rw [World.initRing, hq.io, hq.stride]
  exact hq.setIo hq.work

/-- Error paths, under a statement about success. -/
theorem wp_failing {R : World → World → Prop} {Q : World → Prop} (w : World) :
    Wp R (fun _ => True) (return -1 : Drv Int) (fun rc v => rc = 0 → Q v) (fun _ _ => False) w :=
  wp_ret fun _ _ => ⟨trivial, fun h => by cases h⟩

theorem wp_undone {R ρ : World → World → Prop} {α : Type} {Q : World → Prop} {undo : Drv α}
    (h : undo.Does ρ) (w : World) : Wp R (fun _ => True) (do let _ ← undo; return -1 : Drv Int)
      (fun rc v => rc = 0 → Q v) (fun _ _ => False) w :=
  wp_seq (wp_any h) (fun _ _ h => h) fun _ v _ => wp_failing v

/-- CREATE RULE: a create command that succeeds has made its half of the I/O pair. -/
theorem wp_createHalf (hm : Coded mayFail) (h : Joined b p D w) {opc a dword10 dword11 : Nat}
    (hopc : opc < 256) {f : Option Nat → Drv Int} {destroy : Drv Unit}
    {ρ : World → World → Prop} (hd : destroy.Does ρ)
    (hf : ∀ slot, f (some slot) = do
      fillIn .admin (some slot) 0 dword10 dword11 0
      commitSqe .admin
      let cqe ← nvmeWait .admin
      if nvmeIsCqeSuccess cqe then return 0
      else
        destroy
        return -1) :
    Wp (Powered mayFail) (fun _ => True) (getNextSqe .admin opc 0 a 0 >>= f)
      (fun rc v => rc = 0 → ∃ e D', e.opc = opc ∧ e.dword10 = dword10 ∧ Joined b (p.create e) D' v ∧
        Unchanged True w v ∧ Declared opc a (dword10 / 65536 + 1) v) (fun _ _ => False) w := by
  have hopc' := cmdSqe_opc (D.length % adminSqLen) 0 a 0 0 dword10 dword11 0 hopc
  refine wp_bootCommand h.up hf rfl fun c v hc => ?_
  rcases hc with ⟨sf, rfl, hans⟩ | ⟨rfl, _, _⟩
  · split
    · rename_i hc
      obtain rfl := success_zero hm hans.status hc
      refine wp_ret_quiet hans.up.still.quiet trivial fun _ => ?_
      exact ⟨_, _, hopc', rfl, h.completed hans, hans.unchanged, _, _, _, hans.commit, hopc', rfl, rfl⟩
    · exact wp_undone hd v
  · rw [if_neg (by simp)]
    exact wp_undone hd v

/-- The I/O pair with its completion queue made, of length `n`. -/
def halfPair (p : QPair) (stride n cqe : Nat) : QPair :=
  { initCq p stride 3 n cqe with ctl := { noQueue with cqLen := n } }

theorem wp_bootCq (hm : Coded mayFail) (h : Joined b p D w) (hp : p.ctl = noQueue) :
    Wp (Powered mayFail) (fun _ => True) (nvmeCreateIoCq 3)
      (fun rc v => rc = 0 → ∃ cqe D', cqe % 4096 = 0 ∧
        Joined b (halfPair p b.stride (ioQueueLength w.reg.cap) cqe) D' v ∧ Unchanged True w v ∧
        Declared nvmeSqeOpcAdminCreateIoCq cqe (ioQueueLength w.reg.cap) v) (fun _ _ => False) w := by
  refine h.up.still.wp_get ?_
  refine wp_seq (wp_initRing h.up.still (.cq .io) 3 (ioQueueLength w.reg.cap)) (fun _ _ h => h) ?_
  rintro rc v (hrc | ⟨hstill, cqe, hr⟩)
  · rw [if_pos hrc]
    exact wp_failing v
  split
  · exact wp_failing v
  obtain ⟨hv, hsame⟩ := h.rungCq hr
  obtain ⟨h0, hmax⟩ := ioQueueLength_bounds w.reg.cap
  refine hstill.wp_get ?_
  refine wp_mono (wp_createHalf hm hv (by decide) (unnoticed_destroyCq .io) fun _ => rfl)
    (fun _ h => h) ?_ fun _ _ _ h => h
  intro rc u _ hu hrc
  obtain ⟨e, D', hopc, hd10, hj, hun, hdecl⟩ := hu hrc
  have hmask : (v.q .io).cq.common.mask = ioQueueLength w.reg.cap - 1 := by
    rw [hv.io]
    exact initQueueCommon_mask _ _ _ h0 (by omega)
  have hcqe : (v.q .io).cq.cqe = cqe := by rw [hv.io]; rfl
  rw [hmask, createDword_declares h0 hmax (by decide), hcqe] at hdecl
  refine ⟨cqe, D', hr.page, ?_, hsame.trans hun, hdecl⟩
  have hsize : e.qsize = ioQueueLength w.reg.cap := by
    rw [NvmeSqe.qsize, hd10, hmask, createDword_declares h0 hmax (by decide)]
  have hmade : (initCq p b.stride 3 (ioQueueLength w.reg.cap) cqe).create e =
      halfPair p b.stride (ioQueueLength w.reg.cap) cqe := by
    rw [QPair.create, if_pos hopc, hsize, halfPair]
    simp [initCq, hp, noQueue]
  rw [← hmade]
  exact hj

theorem wp_bootSq (hm : Coded mayFail) {n cqe : Nat} (hn : n = ioQueueLength w.reg.cap)
    (h : Joined b (halfPair p b.stride n cqe) D w) :
    Wp (Powered mayFail) (fun _ => True) (nvmeCreateIoSq 2)
      (fun rc v => rc = 0 → ∃ sqe D', sqe % 4096 = 0 ∧
        Joined b (newPair .io n n b.stride sqe cqe (freshCtl n n)) D' v ∧ Unchanged True w v ∧
        Declared nvmeSqeOpcAdminCreateIoSq sqe n v) (fun _ _ => False) w := by
  obtain ⟨h0, hmax⟩ := ioQueueLength_bounds w.reg.cap
  rw [← hn] at h0 hmax
  refine h.up.still.wp_get ?_
  rw [← hn]
  refine wp_seq (wp_initRing h.up.still (.sq .io) 2 n) (fun _ _ h => h) ?_
  rintro rc v (hrc | ⟨hstill, sqe, hr⟩)
  · rw [if_pos hrc]
    exact wp_failing v
  split
  · exact wp_failing v
  obtain ⟨hv, hsame⟩ := h.rungSq hr
  refine hstill.wp_get ?_
  refine wp_mono (wp_createHalf hm hv (by decide) (unnoticed_destroySq .io) fun _ => rfl)
    (fun _ h => h) ?_ fun _ _ _ h => h
  intro rc u _ hu hrc
  obtain ⟨e, D', hopc, hd10, hj, hun, hdecl⟩ := hu hrc
  have hmask : (v.q .io).sq.common.mask = n - 1 := by
    rw [hv.io]
    exact initQueueCommon_mask _ _ _ h0 (by omega)
  have hsqe : (v.q .io).sq.sqe = sqe := by rw [hv.io]; rfl
  rw [hmask, createDword_declares h0 hmax (by decide), hsqe] at hdecl
  refine ⟨sqe, D', hr.page, ?_, hsame.trans hun, hdecl⟩
  have hsize : e.qsize = n := by
    rw [NvmeSqe.qsize, hd10, hmask, createDword_declares h0 hmax (by decide)]
  have hmade : (initSq (halfPair p b.stride n cqe) b.stride 2 n sqe).create e =
      newPair .io n n b.stride sqe cqe (freshCtl n n) := by
    have hnew := newPair_eq .io b.stride sqe cqe { p with ctl := freshCtl n n } (L := n) (C := n)
      ⟨h0, by omega⟩ ⟨h0, by omega⟩
    rw [QPair.create, if_neg (by rw [hopc]; decide), if_pos hopc, hsize, ← hnew]
    simp [halfPair, initSq, initCq, noQueue, freshCtl, QId.sqId]
  rw [← hmade]
  exact hj

/-- QUEUES RULE: the I/O pair as the driver and the controller have it after `nvme_create_io_queues`. -/
theorem wp_bootQueues (hm : Coded mayFail) (h : Joined b p D w) (hp : p.ctl = noQueue) {n : Nat}
    (hn : n = ioQueueLength w.reg.cap) :
    Wp (Powered mayFail) (fun _ => True) nvmeCreateIoQueues
      (fun rc v => rc = 0 → ∃ sqe cqe D', sqe % 4096 = 0 ∧ cqe % 4096 = 0 ∧
        Joined b (newPair .io n n b.stride sqe cqe (freshCtl n n)) D' v ∧ Unchanged True w v ∧
        Declared nvmeSqeOpcAdminCreateIoCq cqe n v ∧ Declared nvmeSqeOpcAdminCreateIoSq sqe n v)
      (fun _ _ => False) w := by
  subst hn
  refine wp_seq (wp_bootCq hm h hp) (fun _ _ h => h) fun rc v hv => ?_
  split
  · exact wp_failing v
  rename_i hrc
  obtain ⟨cqe, D₁, hcqe, hj, hsame, hdecl⟩ := hv (not_not.mp hrc)
  refine wp_seq (wp_bootSq hm (by rw [hsame.cap]) hj) (fun _ _ h => h) fun rc u hu => ?_
  split
  · exact wp_undone (unnoticed_destroyCq .io) u
  rename_i hrc
  obtain ⟨sqe, D₂, hsqe, hj', hsame', hdecl'⟩ := hu (not_not.mp hrc)
  refine wp_ret_quiet hj'.up.still.quiet trivial fun _ => ?_
  exact ⟨sqe, cqe, D₂, hsqe, hcqe, hj', hsame.trans hsame', hdecl.grows hsame'.log, hdecl'⟩

end Nvme
