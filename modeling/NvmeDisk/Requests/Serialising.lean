import NvmeDisk.Requests.Parts

/-! Two tasks, each with a request of its own on the same disk. The driver has no lock: the tail of the
    submission queue, the head of the completion queue and the bounce page belong to whoever acts next.
    Requests are serialisable as far as the callers keep them apart: calls of `nvme_prpl_xfer` do not
    overlap, and the requests do not meet or do not overlap either. Without the one or the other a
    WRITE of one task ends up with bytes of the other's. -/

namespace Nvme
open Ring Resume Bytes BlockDev

variable {ns : NvmeNamespace} {fuel L C : Nat} {w v u x : World} {j j' j₁ j₂ : Job} {a b : Int}

section

variable (ns : NvmeNamespace) (ioctl : Nat → Drv Int) (fuel : Nat) (nvmed : Nvmedisk)

/-- The call a task makes. -/
abbrev taskCall (j : Job) : Drv Int := nvmediskIoctl ns ioctl fuel nvmed (.blkioRequest j.request)

/-- The two requests one after the other, with their results. -/
def Serially (j j' : Job) (w : World) (a b : Int) (v : World) : Prop :=
  ∃ u, Steps (Nvmec noFail) w (taskCall ns ioctl fuel nvmed j) u (.ret a) ∧
    Steps (Nvmec noFail) u (taskCall ns ioctl fuel nvmed j') v (.ret b)

/-- The callers keep the two requests apart. -/
inductive KeptApart (j₁ j₂ : Job) (w : World) (a b : Int) (v : World) : Prop where
  | calls : Independent ns j₁ j₂ → ByParts (Nvmec noFail) w
      (requestParts ns j₁.write fuel j₁.request) (requestParts ns j₂.write fuel j₂.request) v
      (.ret a) (.ret b) → KeptApart j₁ j₂ w a b v
  | first : Serially ns ioctl fuel nvmed j₁ j₂ w a b v → KeptApart j₁ j₂ w a b v
  | second : Serially ns ioctl fuel nvmed j₂ j₁ w b a v → KeptApart j₁ j₂ w a b v

end

variable {ioctl : Nat → Drv Int} {nvmed : Nvmedisk}

theorem taskCall_parts (j : Job) :
    (requestParts ns j.write fuel j.request).prog = taskCall ns ioctl fuel nvmed j :=
  requestParts_prog ioctl nvmed j.request rfl

/-- What is kept apart is one of the interleavings of the two tasks. -/
theorem KeptApart.duo (h : KeptApart ns ioctl fuel nvmed j₁ j₂ w a b v) :
    Duo (Nvmec noFail) w (taskCall ns ioctl fuel nvmed j₁) (taskCall ns ioctl fuel nvmed j₂) v
      (.ret a) (.ret b) := by
  cases h with
  | calls _ hrun =>
    rw [← taskCall_parts, ← taskCall_parts]
    exact hrun.duo
  | first hrun =>
    obtain ⟨u, hfirst, hsecond⟩ := hrun
    exact (Duo.refl.leftSteps hfirst).rightSteps hsecond
  | second hrun =>
    obtain ⟨u, hfirst, hsecond⟩ := hrun
    exact (Duo.refl.rightSteps hfirst).leftSteps hsecond

/-- The notifications once the request is through, newest first. -/
def Job.notified (ns : NvmeNamespace) (j : Job) (n : List (Nat × RtemsStatusCode)) :
    List (Nat × RtemsStatusCode) :=
  if (carried ns j.bufs).2 then (j.id, .successful) :: n else n

/-- Disk, memory off the bounce page and notifications are those of the first request served, then the
    second. -/
structure Served₂ (ns : NvmeNamespace) (j j' : Job) (w v : World) : Prop where
  store : EqOff (Page w.sys.nvmeDmaBuffer)
    (serve ns.blockSize j'.write (serve ns.blockSize j.write w.store (carried ns j.bufs).1)
      (carried ns j'.bufs).1) v.store
  notice : notices (ledger v.log) = j'.notified ns (j.notified ns (notices (ledger w.log)))

theorem after_request {fs : List Work} (h : Moving ns.blockSize j.write (carried ns j.bufs).1 fs)
    (t : Store) (n : List (Nat × RtemsStatusCode)) : after Work.on (fs ++ lastWork ns j) (t, n) =
      (serve ns.blockSize j.write t (carried ns j.bufs).1, j.notified ns n) := by
  rw [after_append, h.after, lastWork, Job.notified]
  split <;> rfl

/-- The two requests one after the other, each by its parts. -/
theorem Shown.served {fs gs : List Work}
    (hfs : Moving ns.blockSize j.write (carried ns j.bufs).1 fs)
    (hgs : Moving ns.blockSize j'.write (carried ns j'.bufs).1 gs)
    (h : Shown L C w.sys w.dev (after Work.on (gs ++ lastWork ns j')
      (after Work.on (fs ++ lastWork ns j) (w.store, notices (ledger w.log)))) v) :
    Served₂ ns j j' w v := by
  rw [after_request hfs, after_request hgs] at h
  exact ⟨h.store, h.notice⟩

theorem AtEase.shown (h : AtEase L C w) :
    Shown L C w.sys w.dev (w.store, notices (ledger w.log)) w := ⟨h, rfl, rfl, .refl .., rfl⟩

theorem Serially.served [Fact (Pow2 L)] [Fact (Pow2 C)] (h : AtEase L C w)
    (hB : GoodBlock ns.blockSize) (hfuel : 65535 ≤ fuel)
    (hj : ∀ sg ∈ j.bufs, Placed w.dev w.sys.nvmeDmaBuffer ns sg)
    (hj' : ∀ sg ∈ j'.bufs, Placed w.dev w.sys.nvmeDmaBuffer ns sg)
    (hrun : Serially ns ioctl fuel nvmed j j' w a b v) (hlog : ¬ Late v) :
    a = resultOf (carried ns j.bufs) ∧ b = resultOf (carried ns j'.bufs) ∧ Served₂ ns j j' w v := by
  obtain ⟨u, hfirst, hsecond⟩ := hrun
  rw [← taskCall_parts] at hfirst hsecond
  obtain ⟨fs, hplays, hfs⟩ := plays_request (L := L) (C := C) hB hfuel j hj
  obtain ⟨gs, hplays', hgs⟩ := plays_request (L := L) (C := C) hB hfuel j' hj'
  rcases (hplays.wp shown_stable late_stable (lasts_request _) h.shown u _ hfirst).2 with hlate | ⟨ha, hu⟩
  · exact absurd ((lasts_request _).wp late_stable hlate v _ hsecond).2 hlog
  have hv := (hplays'.wp shown_stable late_stable (lasts_request _) hu v _ hsecond).2
  obtain ⟨hb, hv⟩ := hv.resolve_left hlog
  exact ⟨ha, hb, hv.served hfs hgs⟩

/-- SERIAL RULE: two requests that are kept apart leave the disk, the buffers, the results and the
    notifications of running one after the other, in one of the two orders. -/
theorem kept_apart_serial (hL : Pow2 L) (hC : Pow2 C) (h : AtEase L C w)
    (hB : GoodBlock ns.blockSize) (_hmeta : ns.metadataSize = 0) (hfuel : 65535 ≤ fuel)
    (h₁ : ∀ sg ∈ j₁.bufs, Placed w.dev w.sys.nvmeDmaBuffer ns sg)
    (h₂ : ∀ sg ∈ j₂.bufs, Placed w.dev w.sys.nvmeDmaBuffer ns sg)
    (hrun : KeptApart ns ioctl fuel nvmed j₁ j₂ w a b v) (hlog : .timeout .io ∉ v.log) :
    a = resultOf (carried ns j₁.bufs) ∧ b = resultOf (carried ns j₂.bufs) ∧
    ∃ j j', (j = j₁ ∧ j' = j₂ ∨ j = j₂ ∧ j' = j₁) ∧ Served₂ ns j j' w v ∧
      ∀ x c c', Serially ns ioctl fuel nvmed j j' w c c' x → .timeout .io ∉ x.log →
        c = resultOf (carried ns j.bufs) ∧ c' = resultOf (carried ns j'.bufs) ∧
          Served₂ ns j j' w x := by
  have : Fact (Pow2 L) := ⟨hL⟩
  have : Fact (Pow2 C) := ⟨hC⟩
  have hserial : ∀ {j j'}, (∀ sg ∈ j.bufs, Placed w.dev w.sys.nvmeDmaBuffer ns sg) →
      (∀ sg ∈ j'.bufs, Placed w.dev w.sys.nvmeDmaBuffer ns sg) → ∀ x c c',
      Serially ns ioctl fuel nvmed j j' w c c' x → .timeout .io ∉ x.log →
        c = resultOf (carried ns j.bufs) ∧ c' = resultOf (carried ns j'.bufs) ∧
          Served₂ ns j j' w x :=
    fun hj hj' x c c' hrun hlog => hrun.served h hB hfuel hj hj' hlog
  cases hrun with
  | first hrun =>
    obtain ⟨ha, hb, hs⟩ := hserial h₁ h₂ v a b hrun hlog
    exact ⟨ha, hb, j₁, j₂, .inl ⟨rfl, rfl⟩, hs, hserial h₁ h₂⟩
  | second hrun =>
    obtain ⟨hb, ha, hs⟩ := hserial h₂ h₁ v b a hrun hlog
    exact ⟨ha, hb, j₂, j₁, .inr ⟨rfl, rfl⟩, hs, hserial h₂ h₁⟩
  | calls hind hrun =>
    obtain ⟨fs, hplays, hfs⟩ := plays_request (L := L) (C := C) hB hfuel j₁ h₁
    obtain ⟨gs, hplays', hgs⟩ := plays_request (L := L) (C := C) hB hfuel j₂ h₂
    have hend := hrun.serial shown_stable late_stable hplays hplays' (lasts_request _) (lasts_request _)
      (swaps_request hind hfs hgs) (swaps_request hind.symm hgs hfs) h.shown
    obtain ⟨ha, hb, hs⟩ := hend.resolve_left hlog
    refine ⟨ha, hb, ?_⟩
    rcases hs with hs | hs
    · exact ⟨j₁, j₂, .inl ⟨rfl, rfl⟩, hs.served hfs hgs, hserial h₁ h₂⟩
    · exact ⟨j₂, j₁, .inr ⟨rfl, rfl⟩, hs.served hgs hfs, hserial h₂ h₁⟩

/-! ### Tasks that are not kept apart -/

/-- Two buffers the driver has to bounce, one of bytes `0xAA`, the other of `0xBB`. -/
def taskMem (x : Nat) : UInt8 :=
  if 0x100F00 ≤ x ∧ x < 0x101300 then 0xAA else if 0x102F00 ≤ x ∧ x < 0x103300 then 0xBB else 0

def taskWorld : World := sampleWorld.setMem taskMem

/-- Write `n` blocks from `block` on. -/
def taskJob (id block addr n : Nat) : Job := ⟨fun _ => none, id, true, [⟨block, addr, n * 512⟩]⟩

/-- The namespace of the samples, with its limit on a command. -/
def taskNs (maxReqSize : Nat) : NvmeNamespace := ⟨1, 1000, 512, 0, maxReqSize⟩

/-- Both tasks fill the bounce page before either has a command executed. -/
def mixedTurns : List (Turn Move) :=
  let command (t : Turn Move) : List (Turn Move) :=
    [t, t, t, .env (.fetch .io), .env (.exec .io 0), .env (.post .io 0), t, t, t, t]
  List.replicate 5 .left ++ List.replicate 5 .right ++ command .left ++ command .right

def mixedRun : World × Drv Int × Drv Int :=
  followDuo (nvmeMove noFail) mixedTurns taskWorld
    (taskCall (taskNs 16) (fun _ => return 0) 65535 ⟨512, 1000⟩ (taskJob 1 5 0x100F00 1))
    (taskCall (taskNs 16) (fun _ => return 0) 65535 ⟨512, 1000⟩ (taskJob 2 6 0x102F00 1))

/-- With one block a call, of two writes of two blocks each the one makes the first call and the last. -/
def crossedRun (block : Nat) : World × Calls × Calls :=
  let part : List (Option Move) := List.replicate 4 none ++ oneCommand .io
  followParts (nvmeMove noFail)
    [(true, [none]), (false, [none]), (true, part), (false, part), (false, part), (true, part),
      (true, [none]), (false, [none])] taskWorld
    (requestParts (taskNs 1) true 65535 (taskJob 1 5 0x100F00 2).request)
    (requestParts (taskNs 1) true 65535 (taskJob 2 block 0x102F00 2).request)

/-- No order of the two requests leaves this disk. -/
def Unserial (ns : NvmeNamespace) (j j' : Job) (w v : World) : Prop :=
  ∀ x a b, (Serially ns (fun _ => return 0) 65535 ⟨512, 1000⟩ j j' w a b x ∨
    Serially ns (fun _ => return 0) 65535 ⟨512, 1000⟩ j' j w a b x) → .timeout .io ∉ x.log →
    x.store.disk ≠ v.store.disk

theorem taskNs_goodBlock {m : Nat} : GoodBlock (taskNs m).blockSize :=
  ⟨show 0 < 512 by decide, show 512 ∣ 4096 by decide⟩

instance : Fact (Pow2 2) := ⟨pow2_two⟩

instance : Fact (Pow2 4) := ⟨pow2_four⟩

theorem taskWorld_atEase : AtEase 2 4 taskWorld :=
  (freshWorld_atEase sampleSqLen_pow sampleCqLen_pow rfl _ _).setMem taskMem

theorem taskJob_placed (m id block addr n : Nat) (hm : 1 ≤ m) (hn : n ≤ 65535)
    (htop : addr + n * 512 ≤ 0x200000) (hrange : block + n ≤ 1000) :
    ∀ sg ∈ (taskJob id block addr n).bufs,
      Placed taskWorld.dev taskWorld.sys.nvmeDmaBuffer (taskNs m) sg := by
  have hdiv : n * 512 / 512 = n := Nat.mul_div_cancel n (by decide)
  refine List.forall_mem_singleton.mpr ?_
  exact {
    serves := ⟨rfl, rfl, rfl, show 1000 ≤ 18446744073709551616 by decide⟩
    request := hm
    most := hdiv.le.trans hn
    top := htop.trans (by decide)
    bits := by
      change block + n * 512 / 512 ≤ _
      rw [hdiv]
      exact hrange.trans (by decide)
    dmaTop := by decide
    apart := fun o ho hpage => by
      have hlow : 0x200000 ≤ addr + o := hpage.1
      change o < n * 512 at ho
      omega }

/-- Writes to different blocks go with each other. -/
theorem taskJobs_independent {m id id' block block' addr addr' n : Nat}
    (hj : ∀ sg ∈ (taskJob id block addr n).bufs,
      Placed taskWorld.dev taskWorld.sys.nvmeDmaBuffer (taskNs m) sg)
    (hj' : ∀ sg ∈ (taskJob id' block' addr' n).bufs,
      Placed taskWorld.dev taskWorld.sys.nvmeDmaBuffer (taskNs m) sg) (hlt : block + n ≤ block') :
    Independent (taskNs m) (taskJob id block addr n) (taskJob id' block' addr' n) := by
  refine independent_of_bufs taskNs_goodBlock hj hj' ?_
  refine List.forall_mem_singleton.mpr (List.forall_mem_singleton.mpr ⟨fun _ => ?_, fun h => ?_⟩)
  · intro o ho o' _
    change o < n * 512 at ho
    change block * 512 + o ≠ block' * 512 + o'
    omega
  · rcases h with h | h <;> cases h

/-- For either order a byte that it leaves otherwise. -/
theorem unserial_of {m pos pos' : Nat} {j j' : Job}
    (hj : ∀ sg ∈ j.bufs, Placed taskWorld.dev taskWorld.sys.nvmeDmaBuffer (taskNs m) sg)
    (hj' : ∀ sg ∈ j'.bufs, Placed taskWorld.dev taskWorld.sys.nvmeDmaBuffer (taskNs m) sg)
    (h : (serve 512 j'.write (serve 512 j.write taskWorld.store (carried (taskNs m) j.bufs).1)
      (carried (taskNs m) j'.bufs).1).disk pos ≠ v.store.disk pos)
    (h' : (serve 512 j.write (serve 512 j'.write taskWorld.store (carried (taskNs m) j'.bufs).1)
      (carried (taskNs m) j.bufs).1).disk pos' ≠ v.store.disk pos') :
    Unserial (taskNs m) j j' taskWorld v := by
  rintro x a b (hrun | hrun) hlog hdisk
  · have hs := (hrun.served taskWorld_atEase taskNs_goodBlock (le_refl _) hj hj' hlog).2.2
    rw [← hdisk, ← hs.store.1] at h
    exact h rfl
  · have hs := (hrun.served taskWorld_atEase taskNs_goodBlock (le_refl _) hj' hj hlog).2.2
    rw [← hdisk, ← hs.store.1] at h'
    exact h' rfl

theorem crossedRun_byParts {block : Nat} (h : (crossedRun block).2.1.value? = some 0)
    (h' : (crossedRun block).2.2.value? = some 0) : ByParts (Nvmec noFail) taskWorld
      (requestParts (taskNs 1) true 65535 (taskJob 1 5 0x100F00 2).request)
      (requestParts (taskNs 1) true 65535 (taskJob 2 block 0x102F00 2).request)
      (crossedRun block).1 (.ret 0) (.ret 0) := by
  have hparts : ByParts (Nvmec noFail) taskWorld
      (requestParts (taskNs 1) true 65535 (taskJob 1 5 0x100F00 2).request)
      (requestParts (taskNs 1) true 65535 (taskJob 2 block 0x102F00 2).request)
      (crossedRun block).1 (crossedRun block).2.1 (crossedRun block).2.2 := followParts_byParts ..
  rwa [Chain.eq_ret_of_value? h, Chain.eq_ret_of_value? h'] at hparts

theorem tasks_mix :
    (Independent (taskNs 16) (taskJob 1 5 0x100F00 1) (taskJob 2 6 0x102F00 1) ∧
      Duo (Nvmec noFail) taskWorld
        (taskCall (taskNs 16) (fun _ => return 0) 65535 ⟨512, 1000⟩ (taskJob 1 5 0x100F00 1))
        (taskCall (taskNs 16) (fun _ => return 0) 65535 ⟨512, 1000⟩ (taskJob 2 6 0x102F00 1))
        mixedRun.1 (.ret 0) (.ret 0) ∧
      .timeout .io ∉ mixedRun.1.log ∧
      Unserial (taskNs 16) (taskJob 1 5 0x100F00 1) (taskJob 2 6 0x102F00 1) taskWorld mixedRun.1) ∧
    ByParts (Nvmec noFail) taskWorld
      (requestParts (taskNs 1) true 65535 (taskJob 1 5 0x100F00 2).request)
      (requestParts (taskNs 1) true 65535 (taskJob 2 5 0x102F00 2).request)
      (crossedRun 5).1 (.ret 0) (.ret 0) ∧
    .timeout .io ∉ (crossedRun 5).1.log ∧
    Unserial (taskNs 1) (taskJob 1 5 0x100F00 2) (taskJob 2 5 0x102F00 2) taskWorld (crossedRun 5).1 := by
  have hduo := followDuo_duo (nvmeMove noFail) mixedTurns taskWorld
    (taskCall (taskNs 16) (fun _ => return 0) 65535 ⟨512, 1000⟩ (taskJob 1 5 0x100F00 1))
    (taskCall (taskNs 16) (fun _ => return 0) 65535 ⟨512, 1000⟩ (taskJob 2 6 0x102F00 1))
  have hleft : mixedRun.2.1 = .ret 0 := Prog.eq_ret_of_value? (by decide +kernel)
  have hright : mixedRun.2.2 = .ret 0 := Prog.eq_ret_of_value? (by decide +kernel)
  change Duo _ _ _ _ mixedRun.1 mixedRun.2.1 mixedRun.2.2 at hduo
  rw [hleft, hright] at hduo
  have hfirst := taskJob_placed 16 1 5 0x100F00 1
    (by decide) (by decide) (by decide) (by decide)
  have hsecond := taskJob_placed 16 2 6 0x102F00 1
    (by decide) (by decide) (by decide) (by decide)
  refine ⟨⟨taskJobs_independent hfirst hsecond (le_refl 6), hduo, by decide +kernel, ?_⟩,
    crossedRun_byParts (by decide +kernel) (by decide +kernel), by decide +kernel, ?_⟩
  · exact unserial_of hfirst hsecond
      (show _ ≠ mixedRun.1.store.disk 2560 by decide +kernel)
      (show _ ≠ mixedRun.1.store.disk 2560 by decide +kernel)
  · exact unserial_of (taskJob_placed 1 1 5 0x100F00 2 (by decide) (by decide) (by decide) (by decide))
      (taskJob_placed 1 2 5 0x102F00 2 (by decide) (by decide) (by decide) (by decide))
      (show _ ≠ (crossedRun 5).1.store.disk 3072 by decide +kernel)
      (show _ ≠ (crossedRun 5).1.store.disk 2560 by decide +kernel)

/-- Calls of two writes to different blocks, taken in turn. -/
theorem kept_apart_serial_sample : (crossedRun 8).1.store.disk 2560 = 0xAA ∧
    (crossedRun 8).1.store.disk 4096 = 0xBB ∧
    ∃ j j', (j = taskJob 1 5 0x100F00 2 ∧ j' = taskJob 2 8 0x102F00 2 ∨
        j = taskJob 2 8 0x102F00 2 ∧ j' = taskJob 1 5 0x100F00 2) ∧
      Served₂ (taskNs 1) j j' taskWorld (crossedRun 8).1 := by
  have hfirst := taskJob_placed 1 1 5 0x100F00 2
    (by decide) (by decide) (by decide) (by decide)
  have hsecond := taskJob_placed 1 2 8 0x102F00 2
    (by decide) (by decide) (by decide) (by decide)
  have hrun : KeptApart (taskNs 1) (fun _ => return 0) 65535 ⟨512, 1000⟩ (taskJob 1 5 0x100F00 2)
      (taskJob 2 8 0x102F00 2) taskWorld 0 0 (crossedRun 8).1 :=
    .calls (taskJobs_independent hfirst hsecond (by decide))
      (crossedRun_byParts (by decide +kernel) (by decide +kernel))
  obtain ⟨_, _, j, j', hj, hs, _⟩ := kept_apart_serial pow2_two pow2_four taskWorld_atEase
    taskNs_goodBlock rfl (le_refl 65535) hfirst hsecond hrun (by decide +kernel)
  exact ⟨by decide +kernel, by decide +kernel, j, j', hj, hs⟩

end Nvme
