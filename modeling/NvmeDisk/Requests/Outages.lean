import NvmeDisk.Requests.Booting
import NvmeDisk.Requests.Stopping
import NvmeDisk.Setup.Duration

/-! The disk across power failures. The power may fail at any moment, of the set-up or of the requests
    after it, and comes back to a controller that is off, with nothing left but the disk, or what is kept
    of it. -/

namespace Nvme
open Ring Resume Bytes BlockDev

variable {w v u : World} {d : Device} {fuel : Nat} {js : List Job} {ioctl : Nat → Drv Int} {nvmed : Nvmedisk}
  {m : Mem} {as : List (Nat × RtemsStatusCode)} {disk disk' : Mem}

/-- What was asked between two failures: memory as the requests found it, the requests, and the answers
    there were when the power failed. -/
structure Asked where
  mem : Mem
  jobs : List Job
  answers : List (Nat × RtemsStatusCode)

section
variable (fuel : Nat) (ioctl : Nat → Drv Int) (nvmed : Nvmedisk)

/-- The power is on from `w` to `u`. -/
inductive Outage (w : World) : Asked → World → Prop where
  | starting {nvmeBase : Nat} {p : Drv (Option Int)} {u : World} :
      Steps (Powered noFail) w (nvmeControllerSetup nvmeBase) u p → Outage w ⟨w.store.mem, [], []⟩ u
  | serving {v u : World} {js : List Job} {as : List (Nat × RtemsStatusCode)} {p : Drv (List Int)} :
      SetUp noFail w v → (∀ j ∈ js, ∀ sg ∈ j.bufs, Fair w.dev v.sys.nvmeDmaBuffer sg) →
      Steps (Powered noFail) v (runJobs (v.sys.nsRec v.sys.ns) ioctl fuel nvmed js) u p →
      .timeout .io ∉ u.log → answers u = as ++ answers v → Outage w ⟨v.store.mem, js, as⟩ u

/-- Any number of failures, from one disk to another; each leaves what `kept` says of it. -/
inductive Outages (kept : Mem → Mem → Prop) (d : Device) : Mem → List Asked → Mem → Prop where
  | none {disk : Mem} : Outages kept d disk [] disk
  | more {w u : World} {x : Asked} {xs : List Asked} {disk left disk' : Mem} : w.dev = d →
      w.store.disk = disk → PowerUp w → Outage fuel ioctl nvmed w x u → kept u.store.disk left →
      Outages kept d left xs disk' → Outages kept d disk (x :: xs) disk'

end

/-- What an array of blocks can have on it then. -/
def Survives (B : Nat) : Mem → List Asked → Mem → Prop
  | disk, [], disk' => disk' = disk
  | disk, x :: xs, disk' => ∃ e, Stopped B ⟨x.mem, disk⟩ x.jobs x.answers e ∧ Survives B e xs disk'

theorem Survives.frame {B a : Nat} : ∀ {xs : List Asked} {disk disk' : Mem}, Survives B disk xs disk' →
    (∀ x ∈ xs, Unnamed B x.jobs a) → disk' a = disk a
  | [], _, _, h, _ => congrFun h a
  | x :: xs, _, _, ⟨_, hstop, hrest⟩, ha => by
    rw [hrest.frame fun y hy => ha y (List.mem_cons_of_mem _ hy), hstop.frame (ha x (List.mem_cons_self ..))]

/-- Until the power fails the requests are served from the disk there was when it came. -/
theorem Ready.stopped (hr : Ready w v) (hd : w.dev.OneDisk)
    (hjobs : ∀ j ∈ js, ∀ sg ∈ j.bufs, Fair w.dev v.sys.nvmeDmaBuffer sg) (hfuel : 65535 ≤ fuel) :
    Throughout (Powered noFail) (StoppedIn w.dev.blockSize ⟨v.store.mem, w.store.disk⟩ js v)
      (runJobs (v.sys.nsRec v.sys.ns) ioctl fuel nvmed js) v := by
  have hsize : w.dev.disk.blockSize = w.dev.blockSize := hd.blockSize
  have hsound : ∀ j ∈ js, ∀ sg ∈ j.bufs, Sound v.dev v.sys.nvmeDmaBuffer w.dev.disk sg := by
    intro j hj sg hsg
    rw [hr.dev]
    exact (hjobs j hj sg hsg).sound hd hr.room
  have : Fact (Pow2 (ioQueueLength w.reg.cap)) := ⟨hr.queue⟩
  have hstop : Throughout (Nvmec noFail)
      (StoppedIn w.dev.disk.blockSize ⟨v.store.mem, w.store.disk⟩ js v)
      (runJobs w.dev.disk ioctl fuel nvmed js) v :=
    hr.ease.throughout_runJobs (by rw [hsize]; exact hd.goodBlock) hfuel ioctl nvmed js _ v
      ⟨hr.disk.symm, fun _ _ => rfl⟩ hsound
  rw [hr.record]
  rw [hsize] at hstop
  exact hr.going.wp (spared_runJobs _ ioctl fuel nvmed js) hstop

theorem Outage.stopped {x : Asked} (h : Outage fuel ioctl nvmed w x u) (hw : PowerUp w) (hfuel : 65535 ≤ fuel) :
    Stopped w.dev.blockSize ⟨x.mem, w.store.disk⟩ x.jobs x.answers u.store.disk := by
  cases h with
  | @starting nvmeBase p u hrun =>
    have hio : (w.q .io).ctl.NoWork := by
      rw [hw.ctl .io]
      exact noQueue_noWork
    rw [(wp_spare hio nvmeBase u p hrun).1.disk]
    exact .between
  | @serving v u js as p hset hfair hrun hlate hans =>
    have hstop := ((hset.ready coded_noFail hw).stopped hw.disk hfair hfuel u p hrun).1.resolve_left hlate
    obtain ⟨as', hans', hstop⟩ := hstop
    rw [hans] at hans'
    rw [List.append_cancel_right hans']
    exact hstop

/-- CORRECT: however often and whenever the power fails, if nothing is in a volatile write cache, then what
    was answered is on the disk, at most the request being served is cut short, and no byte changes that no
    write request names. -/
theorem outages_survived {kept : Mem → Mem → Prop} {xs : List Asked} (hkept : NonVolatile kept)
    (h : Outages fuel ioctl nvmed kept d disk xs disk') (hfuel : 65535 ≤ fuel) :
    Survives d.blockSize disk xs disk' ∧
      ∀ a, (∀ x ∈ xs, Unnamed d.blockSize x.jobs a) → disk' a = disk a := by
  have hall : Survives d.blockSize disk xs disk' := by
    induction h with
    | none => rfl
    | more hdev hdisk hw hout hleft _ ih =>
      have hstop := hout.stopped hw hfuel
      rw [hdev, hdisk, ← hkept _ _ hleft] at hstop
      exact ⟨_, hstop, ih⟩
  exact ⟨hall, fun a ha => hall.frame ha⟩

/-! ### A write, a set-up that is not finished, and a read -/

def cutBoot : World × Drv (Option Int) :=
  follow (powerMove noFail) (bootScript.take 30) diskAgain (nvmeControllerSetup 1)

def threeAsked : List Asked :=
  [⟨diskBoot.1.store.mem, writeJobs, [(1, .successful)]⟩, ⟨diskAgain.store.mem, [], []⟩,
    ⟨secondBoot.1.store.mem, readJobs, [(2, .successful)]⟩]

theorem cutBoot_run : Steps (Powered noFail) diskAgain (nvmeControllerSetup 1) cutBoot.1 cutBoot.2 :=
  follow_steps _ _ _ _

set_option maxRecDepth 20000 in
theorem threeAsked_outages : Outages 65535 (fun _ => return 0) ⟨512, 1000⟩ Eq diskDevice diskStart.store.disk
    threeAsked secondRun.1.store.disk := by
  have hagain : diskAgain.dev = diskDevice := by
    rw [diskAgain]
    rfl
  have hcut : diskAgain.store.disk = cutBoot.1.store.disk :=
    (wp_spare noQueue_noWork 1 _ _ cutBoot_run).1.disk.symm
  have hfirst := firstRun_uptime
  have hsecond := secondRun_uptime
  obtain ⟨_, hrun⟩ := hfirst.run
  obtain ⟨_, hrun'⟩ := hsecond.run
  refine .more rfl rfl hfirst.start
    (.serving hfirst.setUp hfirst.fair hrun hfirst.intime (by decide +kernel)) rfl ?_
  refine .more hagain (by rw [diskAgain]) hsecond.start (.starting cutBoot_run) rfl ?_
  exact .more hagain hcut hsecond.start
    (.serving hsecond.setUp hsecond.fair hrun' hsecond.intime (by decide +kernel)) rfl .none

theorem outages_survived_sample : secondRun.1.store.disk 2560 = 0xAB ∧
    Survives 512 diskStart.store.disk threeAsked secondRun.1.store.disk :=
  ⟨by decide +kernel,
    (outages_survived (fun _ _ h => h.symm) threeAsked_outages (le_refl 65535)).1⟩

end Nvme
