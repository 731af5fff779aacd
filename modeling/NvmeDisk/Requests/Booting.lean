import NvmeDisk.Requests.Carriage
import NvmeDisk.Setup.Finding

/-! A disk from power-on. Once the set-up is over the controller is left with the I/O pair alone, so that
    it is the controller the request results are about; and the record the driver goes by describes the
    disk that is there. So requests after a set-up do what an array of blocks does, starting with what the
    disk held when the power came. -/

namespace Nvme
open Ring Resume Bytes BlockDev

variable {mayFail : Nat → Bool} {w v u : World} {b : RingBase} {p : QPair} {D : List NvmeCqe} {d : Device}
  {L stride sqe cqe : Nat} {α : Type} {Q : α → World → Prop} {X : Halt → World → Prop}

/-! ### A controller that is on -/

/-- The controller is on, and the admin pair is done with. -/
structure Going (w : World) : Prop where
  enabled : w.reg.enabled = true
  ready : w.reg.ready = true
  admin : (w.q .admin).ctl.NoWork

/-- It then works as one that is never turned off. -/
theorem Going.narrow (h : Going w) (hr : Powered mayFail w v) : Nvmec mayFail w v := by
  obtain ⟨x, hx⟩ := hr
  rcases powerMove_cases hx with ⟨he, _, _⟩ | ⟨_, hoff, _⟩ | ⟨m, y, _, hy, rfl⟩
  · rw [h.enabled] at he
    cases he
  · rw [h.ready] at hoff
    cases hoff
  · refine ⟨m, ?_⟩
    have hnone : executed m w = none := by
      unfold executed
      split
      · simp [h.admin.flight]
      · rfl
    rw [hnone]
    exact hy

theorem going_stable : Stable (Nvmec mayFail) Going := by
  rintro w v h ⟨m, hm⟩
  have hel := h.admin.move hm
  exact ⟨by rw [hel.reg]; exact h.enabled, by rw [hel.reg]; exact h.ready, by rw [hel.q]; exact h.admin⟩

/-- What requests leave alone. -/
structure Spared (w v : World) : Prop where
  reg : v.reg = w.reg
  admin : v.q .admin = w.q .admin

theorem spared_carries : Carries Spared where
  refl _ := ⟨rfl, rfl⟩
  onQueue h := ⟨h.reg, h.other .admin (by decide)⟩
  setMem _ _ := ⟨rfl, rfl⟩
  note _ _ _ := ⟨rfl, rfl⟩

theorem spared_runJobs (ns : NvmeNamespace) (ioctl : Nat → Drv Int) (fuel : Nat) (nvmed : Nvmedisk)
    (js : List Job) : Carried Spared (runJobs ns ioctl fuel nvmed js) :=
  spared_carries.runJobs (fun _ _ _ => ⟨rfl, rfl⟩) ns ioctl nvmed js

/-- POWER RULE: what is shown of requests and a controller that is always on, holds here. -/
theorem Going.wp {I : World → Prop} {p : Drv α} (h : Going w) (hp : Carried Spared p)
    (hw : Wp (Nvmec mayFail) I p Q X w) : Wp (Powered mayFail) I p Q X w := by
  have hacts : p.Acts Going Spared fun _ => True :=
    hp.under (fun _ _ => trivial) fun w v hv hw =>
      ⟨by rw [hv.reg]; exact hw.enabled, by rw [hv.reg]; exact hw.ready, by rw [hv.admin]; exact hw.admin⟩
  have hboth := wp_and hw (wp_acts going_stable hacts h)
  exact wp_mono (wp_narrow hboth fun _ _ hv hr => hv.2.narrow hr) (fun _ h => h.1) (fun _ _ _ h => h.1)
    fun _ _ _ h => h.1

/-- Set up, and with no Identify command left behind, the driver is at ease. -/
theorem Lasting.ease (h : Lasting b (newPair .io L L stride sqe cqe (freshCtl L L)) w)
    (hlate : .timeout .admin ∉ w.log) (hL : Pow2 L) (hmax : L ≤ 65536) (hpage : Paging v w.sys.nvmeDmaBuffer) :
    AtEase L L w ∧ Going w := by
  obtain ⟨D, hj⟩ := h.resolve_right fun hl => hlate hl.1
  have hnew : Initialised L L (w.q .io) := by
    rw [hj.io]
    exact newPair_initialised .io _ _ _ ⟨by have := hL.two_le; omega, hmax⟩ ⟨by have := hL.two_le; omega, hmax⟩
  refine ⟨⟨⟨[], hnew.idle hL hL hmax hmax⟩, fun i hi => ?_, hpage.1⟩, hj.enabled, hj.ready,
    hj.admin.noWork⟩
  cases i with
  | admin => exact hj.admin.noWork
  | io => exact absurd rfl hi

/-! ### The disk the record describes -/

/-- The device has one namespace, says so itself, its blocks and MDTS are within what the driver can do,
    and there is no metadata. -/
structure Device.OneDisk (d : Device) : Prop where
  only : ∀ nsid, (d.nsData nsid).Formatted → nsid = d.nsId
  lbaCount : (d.nsData d.nsId).nsze = d.lbaCount
  blockSize : (d.nsData d.nsId).blockSize = d.blockSize
  sector : 512 ≤ d.blockSize
  fits : d.blockSize ≤ nvmePageSize
  mdts : d.ctrl.mdts ≤ 19
  plain : ((d.nsData d.nsId).lbaf (d.nsData d.nsId).format).ms = 0

/-- The record the driver makes of it. -/
def Device.disk (d : Device) : NvmeNamespace := (d.nsData d.nsId).record d.nsId d.ctrl.mdts

/-- A block size is a power of two. -/
theorem Device.OneDisk.power (h : d.OneDisk) : ∃ k, 9 ≤ k ∧ k ≤ 12 ∧ d.blockSize = 2 ^ k := by
  have hsize : d.blockSize = 2 ^ (((d.nsData d.nsId).lbaf (d.nsData d.nsId).format).lbads % 32) := by
    rw [← h.blockSize, NvmeIdentifyNs.blockSize, shl1_eq]
  refine ⟨_, ?_, ?_, hsize⟩
  · have := h.sector
    rw [hsize] at this
    exact (Nat.pow_le_pow_iff_right (by decide : 1 < 2)).mp (show 2 ^ 9 ≤ _ from this)
  · have := h.fits
    rw [hsize] at this
    exact (Nat.pow_le_pow_iff_right (by decide : 1 < 2)).mp (show _ ≤ 2 ^ 12 from this)

theorem Device.OneDisk.goodBlock (h : d.OneDisk) : GoodBlock d.blockSize := by
  obtain ⟨k, _, hk, hsize⟩ := h.power
  exact ⟨by rw [hsize]; exact Nat.two_pow_pos k, by rw [hsize]; exact Nat.pow_dvd_pow 2 hk⟩

theorem Device.OneDisk.quad (h : d.OneDisk) : d.blockSize % 4 = 0 := by
  obtain ⟨k, hk, _, hsize⟩ := h.power
  rw [hsize]
  exact Nat.mod_eq_zero_of_dvd (Nat.pow_dvd_pow 2 (by omega : 2 ≤ k))

theorem Device.OneDisk.fitting (h : d.OneDisk) : d.Fitting := by
  intro nsid hf
  rw [h.only nsid hf, h.blockSize]
  exact h.fits

theorem Device.OneDisk.serves (h : d.OneDisk) : Serves d.disk d where
  nsId := rfl
  blockSize := h.blockSize
  lbaCount := h.lbaCount
  lbaBits := Nat.le_of_lt (load_lt _ 8 _)

/-- MDTS allows a block at least. -/
theorem Device.OneDisk.request (h : d.OneDisk) : 1 ≤ d.disk.maxReqSize := by
  have hpos := h.goodBlock.pos
  have hfits := h.fits
  change 1 ≤ maxReqSize d.ctrl.mdts (d.nsData d.nsId).blockSize
  rw [h.blockSize, maxReqSize]
  split
  · have hmdts := h.mdts
    have hlow : 2 ^ d.ctrl.mdts ≤ 2 ^ 19 := Nat.pow_le_pow_right (by decide) hmdts
    rw [shl1_eq, Nat.mod_eq_of_lt (by omega), u32, Nat.mod_eq_of_lt (by
      calc 2 ^ d.ctrl.mdts * nvmePageSize ≤ 2 ^ 19 * 4096 := Nat.mul_le_mul_right 4096 hlow
        _ < 4294967296 := by decide)]
    rw [Nat.le_div_iff_mul_le hpos, Nat.one_mul]
    exact hfits.trans (Nat.le_mul_of_pos_left _ (Nat.two_pow_pos _))
  · decide

/-! ### A session -/

/-- A buffer of whole blocks of the disk, off the bounce page. -/
structure Fair (d : Device) (dma : Nat) (sg : Buf) : Prop where
  whole : d.blockSize ∣ sg.len
  most : sg.len / d.blockSize ≤ 65535
  align : sg.addr % 4 = 0
  top : sg.addr + sg.len ≤ 4294967296
  range : sg.block + sg.len / d.blockSize ≤ d.lbaCount
  apart : ∀ o < sg.len, ¬ Page dma (sg.addr + o)

theorem Fair.sound {dma : Nat} {sg : Buf} (h : Fair d dma sg) (hd : d.OneDisk)
    (hdma : dma + 4096 ≤ 4294967296) : Sound d dma d.disk sg := by
  have hsize : d.disk.blockSize = d.blockSize := hd.blockSize
  refine ⟨hd.serves, by rw [hsize]; exact hd.quad, hd.request, by rw [hsize]; exact h.whole,
    by rw [hsize]; exact h.most, h.align, h.top, ?_, hdma, h.apart⟩
  rw [hsize, hd.serves.lbaCount]
  exact h.range

/-- When the power comes: the controller is off, the allocator gives 32-bit addresses, the driver's
    globals are null, there is one disk, and the I/O rings will have a power-of-two length. -/
structure PowerUp (w : World) : Prop extends Off w where
  space : w.Addressable
  ns : w.sys.ns = 0
  dma : w.sys.nvmeDmaBuffer = 0
  disk : w.dev.OneDisk
  queue : Pow2 (ioQueueLength w.reg.cap)

/-- The set-up from `w` was a success, and ends in `v` with a namespace and no wait given up. -/
structure SetUp (mayFail : Nat → Bool) (w v : World) : Prop where
  run : ∃ nvmeBase, Steps (Powered mayFail) w (nvmeControllerSetup nvmeBase) v (.ret (some 0))
  intime : .timeout .admin ∉ v.log
  found : v.sys.ns ≠ 0

/-- What the driver and the controller have then. -/
structure Ready (w v : World) : Prop where
  ease : AtEase (ioQueueLength w.reg.cap) (ioQueueLength w.reg.cap) v
  going : Going v
  record : v.sys.nsRec v.sys.ns = w.dev.disk
  dev : v.dev = w.dev
  room : v.sys.nvmeDmaBuffer + 4096 ≤ 4294967296
  disk : v.store.disk = w.store.disk
  queue : Pow2 (ioQueueLength w.reg.cap)

theorem PowerUp.poweredOn (h : PowerUp w) : PoweredOn w := ⟨h.enabled.trans h.ready.symm, fun _ => h.ctl⟩

theorem SetUp.ready (hm : Coded mayFail) (hw : PowerUp w) (h : SetUp mayFail w v) : Ready w v := by
  obtain ⟨base, hrun⟩ := h.run
  have hpage : Paging w w.sys.nvmeDmaBuffer := ⟨by rw [hw.dma], fun _ => by rw [hw.dma]; decide⟩
  obtain ⟨b, sqe, cqe, hv⟩ := (wp_setUp hm hw.poweredOn hpage base v _ hrun).2 rfl
  have hmax := (ioQueueLength_bounds w.reg.cap).2
  obtain ⟨hease, hgoing⟩ := hv.pairs.ease h.intime hw.queue (by omega) hv.page
  refine ⟨hease, hgoing, ?_, hv.same.dev, ?_, hv.same.disk hw.ready, hw.queue⟩
  · obtain ⟨nsid, hpass, hrec⟩ := hv.names hw.space hw.disk.fitting (fun h0 => absurd hw.ns h0) h.found
    rw [hrec, hw.disk.only nsid hpass.toFormatted]
    rfl
  · have hpage := hv.page.1
    have hlow := hv.page.2 hw.space
    omega

variable {fuel : Nat} {js : List Job} {ioctl : Nat → Drv Int} {nvmed : Nvmedisk}

theorem Ready.wp_runJobs (h : Ready w v) (hd : w.dev.OneDisk)
    (hjobs : ∀ j ∈ js, ∀ sg ∈ j.bufs, Fair w.dev v.sys.nvmeDmaBuffer sg) (hfuel : 65535 ≤ fuel) :
    Wp (Powered noFail) (fun _ => True) (runJobs (v.sys.nsRec v.sys.ns) ioctl fuel nvmed js)
      (fun rcs u => .timeout .io ∉ u.log → AllServed (ioQueueLength w.reg.cap) (ioQueueLength w.reg.cap)
        w.dev.blockSize js v ⟨v.store.mem, w.store.disk⟩ rcs u)
      (fun _ u => .timeout .io ∈ u.log) v := by
  have hsize : w.dev.disk.blockSize = w.dev.blockSize := hd.blockSize
  have hsound : ∀ j ∈ js, ∀ sg ∈ j.bufs, Sound v.dev v.sys.nvmeDmaBuffer w.dev.disk sg := by
    intro j hj sg hsg
    rw [h.dev]
    exact (hjobs j hj sg hsg).sound hd h.room
  have : Fact (Pow2 (ioQueueLength w.reg.cap)) := ⟨h.queue⟩
  have harray := h.ease.wp_runJobs (by rw [hsize]; exact hd.goodBlock) hfuel ioctl nvmed js _ v (.refl ..)
    hsound
  rw [h.record, ← h.disk]
  rw [hsize] at harray
  exact wp_mono (h.going.wp (spared_runJobs _ ioctl fuel nvmed js) harray) (fun _ h => h)
    (fun _ _ _ h hno => h.resolve_left hno) fun _ _ _ h => h

/-- CORRECT: requests after a set-up are served as an array of blocks would serve them that holds what
    the disk held when the power came. -/
theorem disk_from_power (hm : Coded mayFail) (hw : PowerUp w) (h : SetUp mayFail w v)
    (hjobs : ∀ j ∈ js, ∀ sg ∈ j.bufs, Fair w.dev v.sys.nvmeDmaBuffer sg) (hfuel : 65535 ≤ fuel) :
    Wp (Powered noFail) (fun _ => True) (runJobs (v.sys.nsRec v.sys.ns) ioctl fuel nvmed js)
      (fun rcs u => .timeout .io ∉ u.log → AllServed (ioQueueLength w.reg.cap) (ioQueueLength w.reg.cap)
        w.dev.blockSize js v ⟨v.store.mem, w.store.disk⟩ rcs u)
      (fun _ u => .timeout .io ∈ u.log) v :=
  (h.ready hm hw).wp_runJobs hw.disk hjobs hfuel

/-! ### One session after another -/

section
variable (fuel : Nat) (ioctl : Nat → Drv Int) (nvmed : Nvmedisk)

/-- From power-on in `w` through a set-up that ends in `v` to the end of the requests `js` in `u`. -/
structure Uptime (w v : World) (js : List Job) (u : World) : Prop where
  start : PowerUp w
  setUp : SetUp noFail w v
  fair : ∀ j ∈ js, ∀ sg ∈ j.bufs, Fair w.dev v.sys.nvmeDmaBuffer sg
  run : ∃ rcs, Steps (Powered noFail) v (runJobs (v.sys.nsRec v.sys.ns) ioctl fuel nvmed js) u (.ret rcs)
  intime : .timeout .io ∉ u.log

/-- Sessions of one device, the power going off after each: what was in memory and what was asked of
    the earlier ones, and the last. The disk is all that stays, as far as `kept` says it does. -/
inductive History (kept : Mem → Mem → Prop) :
    Device → Mem → List (Mem × List Job) → World → List Job → World → Prop where
  | first {w v u : World} {js : List Job} : Uptime fuel ioctl nvmed w v js u →
      History kept w.dev w.store.disk [] v js u
  | again {d : Device} {disk : Mem} {ss : List (Mem × List Job)} {v u w' v' u' : World}
      {js js' : List Job} : History kept d disk ss v js u → w'.dev = d →
      kept u.store.disk w'.store.disk → Uptime fuel ioctl nvmed w' v' js' u' →
      History kept d disk (ss ++ [(v.store.mem, js)]) v' js' u'

end

/-- What was on the disk when the power went off is there when it comes back: nothing is in a volatile
    write cache. The driver never flushes one, and never asks for a write through it. -/
def NonVolatile (kept : Mem → Mem → Prop) : Prop := ∀ disk disk', kept disk disk' → disk' = disk

/-- The disk after sessions that are over. -/
def lastDisk (B : Nat) (disk : Mem) (ss : List (Mem × List Job)) : Mem :=
  ss.foldl (fun disk s => (serveJobs B ⟨s.1, disk⟩ s.2).disk) disk

theorem Uptime.served {w v u : World} (h : Uptime fuel ioctl nvmed w v js u) (hfuel : 65535 ≤ fuel) :
    EqOff (Page v.sys.nvmeDmaBuffer) (serveJobs w.dev.blockSize ⟨v.store.mem, w.store.disk⟩ js) u.store := by
  obtain ⟨rcs, hrun⟩ := h.run
  have hend := ((h.setUp.ready coded_noFail h.start).wp_runJobs h.start.disk h.fair hfuel u _ hrun).2
  exact (hend h.intime).store

/-- CORRECT: what is written stays, however often the power goes off between sessions, if nothing is in a
    volatile write cache. -/
theorem history_lasts {kept : Mem → Mem → Prop} {disk : Mem} {ss : List (Mem × List Job)}
    (hkept : NonVolatile kept) (h : History fuel ioctl nvmed kept d disk ss v js u)
    (hfuel : 65535 ≤ fuel) :
    EqOff (Page v.sys.nvmeDmaBuffer)
      (serveJobs d.blockSize ⟨v.store.mem, lastDisk d.blockSize disk ss⟩ js) u.store := by
  induction h with
  | first hs => exact hs.served hfuel
  | again _ hdev hdisk hs ih =>
    have hlast := hs.served hfuel
    rw [hdev, hkept _ _ hdisk, ← ih.1] at hlast
    rw [lastDisk, List.foldl_append]
    exact hlast

/-! ### Two sessions -/

theorem diskDevice_oneDisk : diskDevice.OneDisk where
  only nsid h := by
    by_contra hne
    have hother : nsid ≠ 1 := hne
    have hzero : diskDevice.identify nvmeAdminIdentifyCnsIdNs nsid = fun _ => 0 := by
      funext o
      simp [diskDevice, hother]
    refine h.size ?_
    rw [Device.nsData, hzero]
    rfl
  lbaCount := by decide +kernel
  blockSize := by decide +kernel
  sector := by decide
  fits := by decide
  mdts := by decide +kernel
  plain := by decide +kernel

theorem diskStart_powerUp (disk : Nat → UInt8) :
    PowerUp { diskStart with store := { diskStart.store with disk := disk } } where
  enabled := rfl
  ready := rfl
  ctl _ := rfl
  space n a ha := by
    change (if n < 16 then some (sampleBlock n) else none) = some a at ha
    split at ha
    · cases ha
      rw [sampleBlock]
      omega
    · cases ha
  ns := rfl
  dma := rfl
  disk := diskDevice_oneDisk
  queue := ⟨6, by decide, show ioQueueLength diskStart.reg.cap = 2 ^ 6 by decide +kernel⟩

theorem sampleBuf_fair {block page : Nat} (h : block < 1000) (hp : page < 256) :
    Fair diskDevice 0x80000 (sampleBuf block page) where
  whole := ⟨1, rfl⟩
  most := Nat.le_of_lt_succ (show 512 / 512 < 65536 by decide)
  align := by
    change (0x100000 + 4096 * page) % 4 = 0
    omega
  top := by
    change 0x100000 + 4096 * page + 512 ≤ 4294967296
    omega
  range := by
    change block + 512 / 512 ≤ 1000
    omega
  apart o ho := by
    change o < 512 at ho
    change ¬ (0x80000 ≤ 0x100000 + 4096 * page + o ∧ 0x100000 + 4096 * page + o < 0x80000 + 4096)
    omega

/-- Block 5 is written in the first session, and read in the second. -/
def writeJobs : List Job :=
  [⟨fun a => if 0x100000 ≤ a ∧ a < 0x100200 then some 0xAB else none, 1, true, [sampleBuf 5 0]⟩]

def readJobs : List Job := [⟨fun _ => none, 2, false, [sampleBuf 5 1]⟩]

def serveScript : List (Option PowerMove) :=
  (none :: none :: oneCommand .io ++ [none, none]).map (Option.map PowerMove.work)

/-- The requests after a set-up. -/
def serveRun (w : World) (js : List Job) : World × Drv (List Int) :=
  follow (powerMove noFail) serveScript w
    (runJobs (w.sys.nsRec w.sys.ns) (fun _ => return 0) 65535 ⟨512, 1000⟩ js)

def firstRun : World × Drv (List Int) := serveRun diskBoot.1 writeJobs

/-- The power comes back. -/
def diskAgain : World := { diskStart with store := { diskStart.store with disk := firstRun.1.store.disk } }

def secondBoot : World × Drv (Option Int) :=
  follow (powerMove noFail) bootScript diskAgain (nvmeControllerSetup 1)

def secondRun : World × Drv (List Int) := serveRun secondBoot.1 readJobs

theorem sample_fair {w : World} {js : List Job} (hdma : w.sys.nvmeDmaBuffer = 0x80000)
    (hjs : js = writeJobs ∨ js = readJobs) :
    ∀ j ∈ js, ∀ sg ∈ j.bufs, Fair diskDevice w.sys.nvmeDmaBuffer sg := by
  rw [hdma]
  rcases hjs with rfl | rfl <;>
    exact List.forall_mem_singleton.mpr (List.forall_mem_singleton.mpr (sampleBuf_fair (by decide) (by decide)))

set_option maxRecDepth 20000 in
theorem diskBoot_setUp : SetUp noFail diskStart diskBoot.1 :=
  ⟨⟨1, diskBoot_run⟩, by decide +kernel, by decide +kernel⟩

set_option maxRecDepth 20000 in
theorem firstRun_uptime :
    Uptime 65535 (fun _ => return 0) ⟨512, 1000⟩ diskStart diskBoot.1 writeJobs firstRun.1 where
  start := diskStart_powerUp _
  setUp := diskBoot_setUp
  fair := sample_fair (by decide +kernel) (.inl rfl)
  run := ⟨[0], follow_ret (by decide +kernel) fun _ _ h => h⟩
  intime := by decide +kernel

set_option maxRecDepth 20000 in
theorem secondRun_uptime :
    Uptime 65535 (fun _ => return 0) ⟨512, 1000⟩ diskAgain secondBoot.1 readJobs secondRun.1 where
  start := diskStart_powerUp _
  setUp := ⟨⟨1, follow_ret (by decide +kernel) fun _ _ h => h⟩, by decide +kernel, by decide +kernel⟩
  fair := sample_fair (by decide +kernel) (.inr rfl)
  run := ⟨[0], follow_ret (by decide +kernel) fun _ _ h => h⟩
  intime := by decide +kernel

theorem disk_from_power_sample : AllServed (ioQueueLength diskStart.reg.cap)
    (ioQueueLength diskStart.reg.cap) diskStart.dev.blockSize writeJobs diskBoot.1
    ⟨diskBoot.1.store.mem, diskStart.store.disk⟩ [0] firstRun.1 := by
  have hs := firstRun_uptime
  have hrun : Steps (Powered noFail) diskBoot.1 (runJobs (diskBoot.1.sys.nsRec diskBoot.1.sys.ns)
      (fun _ => return 0) 65535 ⟨512, 1000⟩ writeJobs) firstRun.1 (.ret [0]) :=
    follow_ret (by decide +kernel) fun _ _ h => h
  exact (disk_from_power coded_noFail hs.start hs.setUp hs.fair (le_refl _) _ _ hrun).2 hs.intime

/-- What the second session reads is what the first wrote. -/
theorem history_lasts_sample : secondRun.1.store.mem 0x101000 = 0xAB ∧
    EqOff (Page secondBoot.1.sys.nvmeDmaBuffer) (serveJobs diskStart.dev.blockSize
      ⟨secondBoot.1.store.mem, lastDisk diskStart.dev.blockSize diskStart.store.disk
        ([] ++ [(diskBoot.1.store.mem, writeJobs)])⟩ readJobs) secondRun.1.store := by
  have hdev : diskAgain.dev = diskStart.dev := by rw [diskAgain]
  have hdisk : firstRun.1.store.disk = diskAgain.store.disk := by rw [diskAgain]
  refine ⟨by decide +kernel, ?_⟩
  exact history_lasts (fun _ _ (h : _ = _) => h.symm)
    (.again (.first firstRun_uptime) hdev hdisk secondRun_uptime) (le_refl 65535)

end Nvme
