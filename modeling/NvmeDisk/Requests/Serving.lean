import NvmeDisk.Requests.Bounded
import NvmeDisk.Requests.Entry

/-! The disk as an array of blocks. A caller hands in requests one after another and does with its
    memory between them what it likes; a controller that completes every command successfully and in
    time makes of them what the abstract block device does. What is shown of every interleaving
    with the controller is therefore the one store `serveJobs` computes. -/

namespace Nvme
open Ring Resume Bytes BlockDev

/-- A request, handed in after the caller has put the bytes `poke` into memory. -/
structure Job where
  poke : Nat → Option UInt8
  id : Nat
  write : Bool
  bufs : List Buf

def Job.request (j : Job) : BlkdevRequest := ⟨j.id, reqOp j.write, j.bufs⟩

def pokeMem (m : Mem) (poke : Nat → Option UInt8) : Mem := fun a => (poke a).getD (m a)

def pokeStore (s : Store) (poke : Nat → Option UInt8) : Store := { s with mem := pokeMem s.mem poke }

/-- The requests go to `nvmedisk_ioctl` one after another; their results. -/
def runJobs (ns : NvmeNamespace) (ioctl : Nat → Drv Int) (fuel : Nat) (nvmed : Nvmedisk) :
    List Job → Drv (List Int)
  | [] => return []
  | j :: js => do
    Prog.modify fun w => w.setMem (pokeMem w.store.mem j.poke)
    let rc ← nvmediskIoctl ns ioctl fuel nvmed (.blkioRequest j.request)
    let rcs ← runJobs ns ioctl fuel nvmed js
    return rc :: rcs

/-- What an array of blocks of size `B` makes of the requests. -/
def serveJobs (B : Nat) (s : Store) (js : List Job) : Store :=
  js.foldl (fun s j => serve B j.write (pokeStore s j.poke) j.bufs) s

/-- The notifications on the account, newest first. -/
def notices (items : List Item) : List (Nat × RtemsStatusCode) :=
  items.filterMap fun
    | .done req sc => some (req, sc)
    | .buf _ _ => none

variable {mayFail : Nat → Bool} {L C n fuel dma : Nat} {w v : World} {ns : NvmeNamespace}
  {write : Bool} {bufs : List Buf} {gs : List (Buf × List Piece)} {rc : Int} {t : Store} {d : Device}
  {j : Job} {js : List Job} {sg : Buf} {α : Type}

/-! ### One request -/

/-- No followed buffer is stray, and no step of the loop moves nothing. -/
theorem Sound.walk (h : Sound d dma ns sg) (hB : GoodBlock ns.blockSize) {id : Nat}
    (hid : (id : Int) < blockCount ns sg) : ¬ StrayAt ns sg id ∧ 1 ≤ stride ns sg id := by
  have hcnt := h.placed.blockCount
  have hmost := h.most
  refine ⟨?_, stride_pos hB h.request (by omega) hid⟩
  rintro ⟨_, hstray⟩
  have hquad : id * ns.blockSize % 4 = 0 := by rw [Nat.mul_mod, h.quad, Nat.mul_zero, Nat.zero_mod]
  have halign := h.align
  rw [opBuf, u32] at hstray
  omega

/-- Every status on the account is one the controller may report. -/
theorem Follows.okStatus {id : Nat} {ps : List Piece} (h : Follows mayFail ns sg id ps rc) :
    ∀ p ∈ ps, ∀ sf, p.sf = some sf → OkStatus mayFail sf := by
  induction h with
  | done _ => simp
  | stray _ _ => simp
  | late _ _ => exact List.forall_mem_singleton.mpr (by simp)
  | error _ _ hok _ =>
    refine List.forall_mem_singleton.mpr fun sf hsf => ?_
    cases hsf
    exact hok
  | next _ _ hok _ _ ih =>
    refine List.forall_mem_cons.mpr ⟨fun sf hsf => ?_, ih⟩
    cases hsf
    exact hok

theorem FollowsBufs.okStatus (h : FollowsBufs mayFail ns bufs gs rc) :
    ∀ p ∈ pieces gs, ∀ sf, p.sf = some sf → OkStatus mayFail sf := by
  induction h with
  | nil => simp
  | @stop sg bufs ps hf =>
    rw [pieces, List.flatMap_singleton]
    exact hf.okStatus
  | @next sg bufs ps gs rc hf _ ih =>
    intro p hp
    rcases List.mem_append.mp hp with hp | hp
    · exact hf.okStatus p hp
    · exact ih p hp

/-- Where only successes may be reported, every piece that was completed succeeded. -/
theorem pieces_moved {ps : List Piece} (hok : ∀ p ∈ ps, ∀ sf, p.sf = some sf → OkStatus mayFail sf)
    (hzero : ∀ sf, OkStatus mayFail sf → sf = 0) (hps : ∀ p ∈ ps, p.sf ≠ none) :
    ∀ p ∈ ps, p.sf = some 0 := by
  intro p hp
  obtain ⟨sf, hsf⟩ := Option.ne_none_iff_exists'.mp (hps p hp)
  rw [hsf, hzero sf (hok p hp sf hsf)]

/-- The pieces of a finished request, all moved, are the request served. -/
theorem FollowsBufs.allMoved (h : FollowsBufs mayFail ns bufs gs rc) (hrc : rc = 0)
    (hB : GoodBlock ns.blockSize) (hS : ∀ sg ∈ bufs, Sound d dma ns sg) (t : Store) :
    Nvme.allMoved write ns.blockSize t (pieces gs) = serve ns.blockSize write t bufs := by
  induction h generalizing t with
  | nil => rfl
  | stop _ => cases hrc
  | @next sg bufs ps gs rc hf _ ih =>
    have hsg := hS sg (List.mem_cons_self ..)
    have hlen : sg.len / ns.blockSize * ns.blockSize = sg.len := Nat.div_mul_cancel hsg.whole
    have hone : Nvme.allMoved write ns.blockSize t ps =
        move write t (sg.block * ns.blockSize) sg.addr sg.len := by
      have hstart : move write t (sg.block * ns.blockSize) sg.addr (0 * ns.blockSize) = t := by
        rw [Nat.zero_mul, move_zero]
      conv_lhs => rw [← hstart]
      rw [hf.allMoved hsg.placed.blockCount (Nat.zero_le _) (by rw [hlen]; exact hsg.top) hB.pos, hlen]
    have happend : Nvme.allMoved write ns.blockSize t (pieces ((sg, ps) :: gs)) =
        Nvme.allMoved write ns.blockSize (Nvme.allMoved write ns.blockSize t ps) (pieces gs) := by
      rw [pieces, List.flatMap_cons, Nvme.allMoved, List.foldl_append]
      rfl
    rw [happend, hone, serve_cons]
    exact ih hrc (fun b hb => hS b (List.mem_cons_of_mem _ hb)) _

theorem coded_noFail : Coded noFail := by simp [Coded, noFail]

theorem notices_bufs (gs : List (Buf × List Piece)) (lg : List Item) :
    notices ((gs.map (itemOf write)).reverse ++ lg) = notices lg := by
  have hnone : notices (gs.map (itemOf write)).reverse = [] := by
    refine List.filterMap_eq_nil_iff.mpr fun it hit => ?_
    obtain ⟨g, _, rfl⟩ := List.mem_map.mp (List.mem_reverse.mp hit)
    rfl
  rw [notices, List.filterMap_append]
  exact congrArg (· ++ _) hnone

/-- A request served: it was answered once, and the driver is at ease again. -/
structure Handled (L C id : Nat) (w v : World) (s : Store) : Prop where
  ease : AtEase L C v
  sys : v.sys = w.sys
  dev : v.dev = w.dev
  notice : notices (ledger v.log) = (id, .successful) :: notices (ledger w.log)
  store : EqOff (Page w.sys.nvmeDmaBuffer) s v.store

/-- REQUEST: it is served, unless a wait of it gave up. -/
theorem AtEase.wp_serve [Fact (Pow2 L)] [Fact (Pow2 C)] (h : AtEase L C w)
    (ht : EqOff (Page w.sys.nvmeDmaBuffer) t w.store)
    (hB : GoodBlock ns.blockSize) (hbufs : ∀ sg ∈ j.bufs, Sound w.dev w.sys.nvmeDmaBuffer ns sg)
    (hfuel : 65535 ≤ fuel) (ioctl : Nat → Drv Int) (nvmed : Nvmedisk) :
    Wp (Nvmec noFail) (fun _ => True)
      (nvmediskIoctl ns ioctl fuel nvmed (.blkioRequest j.request))
      (fun rc v => .timeout .io ∈ v.log ∨
        rc = 0 ∧ Handled L C j.id w v (serve ns.blockSize j.write t j.bufs)) (fun _ _ => False) w := by
  have hplaced := fun sg hsg => (hbufs sg hsg).placed
  refine wp_mono (h.wp_ioctl coded_noFail hB hplaced hfuel ioctl nvmed j.id) (fun _ h => h) ?_
    fun _ _ _ h => h
  rintro rc v _ ⟨gs, hf, hover⟩
  cases hover with
  | hung _ hh => exact .inl hh.timeout
  | resting hps hr =>
    have hmoved : ∀ p ∈ pieces gs, p.sf = some 0 := pieces_moved hf.okStatus noFail_ok hps
    have hrc := hf.ends (fun sg hsg id hv => (hbufs sg hsg).walk hB hv.lt) hmoved
    refine .inr ⟨hrc, hr.atEase h coded_noFail, hr.sys, hr.dev, ?_, ?_⟩
    · rw [hr.ledger, if_pos hrc]
      exact congrArg (_ :: ·) (notices_bufs gs _)
    · have heff := (effect_moved hmoved).mp (hr.store trivial).2
      rw [hf.allMoved hrc hB hbufs] at heff
      exact (ht.serve ns.blockSize j.write j.bufs fun sg hsg => (hbufs sg hsg).apart).trans heff

/-! ### A wait that gave up is on record -/

theorem wp_late {p : Drv α} (hp : Bounded n p) (h : .timeout .io ∈ w.log) :
    Wp (Nvmec mayFail) (fun _ => True) p (fun _ v => .timeout .io ∈ v.log)
      (fun _ v => .timeout .io ∈ v.log) w := by
  have hstable : Stable (Nvmec mayFail) (fun w => .timeout .io ∈ w.log) :=
    fun _ _ hw hr => (grows_env (.single hr)).mem hw
  exact wp_mono (wp_within hstable (fun _ _ hg hw => hg.mem hw) hp h) (fun _ _ => trivial)
    (fun _ _ _ h => h) fun _ _ _ h => h

/-! ### A sequence of requests -/

theorem bounded_request (ioctl : Nat → Drv Int) (nvmed : Nvmedisk) (j : Job) :
    Bounded ((510 * fuel + 1) * j.bufs.length + 1)
      (nvmediskIoctl ns ioctl fuel nvmed (.blkioRequest j.request)) := by
  have hop : j.request.req = reqOp j.write := rfl
  rw [nvmediskIoctl_xfer ioctl nvmed hop]
  exact bounded_xfer ns nvmed j.request

/-- Every path through the requests is bounded. -/
theorem bounded_runJobs (ns : NvmeNamespace) (ioctl : Nat → Drv Int) (fuel : Nat) (nvmed : Nvmedisk) :
    ∀ js, ∃ n, Bounded n (runJobs ns ioctl fuel nvmed js) := by
  intro js
  induction js with
  | nil => exact ⟨0, .ret⟩
  | cons j js ih =>
    obtain ⟨n, hn⟩ := ih
    exact ⟨_, .bind (.modify fun _ => .quiet rfl) fun _ =>
      .bind (bounded_request ioctl nvmed j) fun rc => .bind (m := 0) hn fun rcs => .ret⟩

theorem AtEase.env (h : AtEase L C w) (he : Env (Nvmec mayFail) w v) : v = w := by
  obtain ⟨D, hidle⟩ := h.idle
  exact (hidle.noWork.env he).calm h.calm

/-- What the caller does with its memory the device does not notice. -/
theorem AtEase.setMem (h : AtEase L C w) (m : Mem) : AtEase L C (w.setMem m) :=
  ⟨h.idle, h.calm, h.dmaPage⟩

theorem eqOff_poke {P : Nat → Prop} {s t : Store} (h : EqOff P s t) (poke : Nat → Option UInt8) :
    EqOff P (pokeStore s poke) (pokeStore t poke) :=
  ⟨h.1, fun a ha => congrArg (poke a).getD (h.2 a ha)⟩

/-- The requests are done: each was answered once, in order, and memory and disk are as the block
    device leaves them. -/
structure AllServed (L C B : Nat) (js : List Job) (w : World) (t : Store) (rcs : List Int)
    (v : World) : Prop where
  ease : AtEase L C v
  results : rcs = js.map fun _ => 0
  notice : notices (ledger v.log) =
    (js.map fun j => (j.id, .successful)).reverse ++ notices (ledger w.log)
  store : EqOff (Page w.sys.nvmeDmaBuffer) (serveJobs B t js) v.store

theorem AtEase.wp_runJobs [Fact (Pow2 L)] [Fact (Pow2 C)] (hB : GoodBlock ns.blockSize)
    (hfuel : 65535 ≤ fuel) (ioctl : Nat → Drv Int) (nvmed : Nvmedisk) :
    ∀ (js : List Job) (t : Store) (w : World),
    AtEase L C w → EqOff (Page w.sys.nvmeDmaBuffer) t w.store →
    (∀ j ∈ js, ∀ sg ∈ j.bufs, Sound w.dev w.sys.nvmeDmaBuffer ns sg) →
    Wp (Nvmec noFail) (fun _ => True) (runJobs ns ioctl fuel nvmed js)
      (fun rcs v => .timeout .io ∈ v.log ∨ AllServed L C ns.blockSize js w t rcs v)
      (fun _ v => .timeout .io ∈ v.log) w := by
  intro js
  induction js with
  | nil =>
    intro t w h ht _
    refine wp_ret fun v he => ⟨trivial, .inr ?_⟩
    obtain rfl : v = w := h.env he
    exact ⟨h, rfl, rfl, ht⟩
  | cons j js ih =>
    intro t w h ht hjobs
    refine wp_modify_bind fun v he => ⟨trivial, ?_⟩
    obtain rfl : v = w := h.env he
    have hease := h.setMem (pokeMem v.store.mem j.poke)
    refine wp_seq (hease.wp_serve (eqOff_poke ht j.poke) hB (hjobs j (List.mem_cons_self ..)) hfuel
      ioctl nvmed) (fun _ _ hf => hf.elim) ?_
    rintro rc u (hlate | ⟨rfl, hu⟩)
    · obtain ⟨n, hn⟩ := bounded_runJobs ns ioctl fuel nvmed js
      exact wp_mono (wp_late (hn.bind (m := 0) fun _ => .ret) hlate) (fun _ h => h)
        (fun _ _ _ h => .inl h) fun _ _ _ h => h
    · have hsys : u.sys = v.sys := hu.sys
      have hdev : u.dev = v.dev := hu.dev
      have hrest := ih (serve ns.blockSize j.write (pokeStore t j.poke) j.bufs) u hu.ease
        (by rw [hsys]; exact hu.store) fun j' hj' sg hsg => by
          rw [hdev, hsys]
          exact hjobs j' (List.mem_cons_of_mem _ hj') sg hsg
      refine wp_seq hrest (fun _ _ h => h) ?_
      rintro rcs z (hlate | hz)
      · exact wp_ret fun z' he' => ⟨trivial, .inl ((grows_env he').mem hlate)⟩
      · refine wp_ret fun z' he' => ⟨trivial, .inr ?_⟩
        obtain rfl : z' = z := hz.ease.env he'
        refine ⟨hz.ease, ?_, ?_, ?_⟩
        · rw [hz.results, List.map_cons]
        · rw [hz.notice, hu.notice, List.map_cons, List.reverse_cons, List.append_assoc]
          rfl
        · have hstore := hz.store
          rw [hsys] at hstore
          exact hstore

/-- CORRECT: the disk is an array of blocks. Whatever requests are handed in one after another, every
    path through them is bounded; and unless a wait gives up each is answered once with success, and
    memory and disk, but for the bounce page, are those of the block device. -/
theorem disk_is_array (hL : Pow2 L) (hC : Pow2 C) (h : AtEase L C w) (hB : GoodBlock ns.blockSize)
    (hjobs : ∀ j ∈ js, ∀ sg ∈ j.bufs, Sound w.dev w.sys.nvmeDmaBuffer ns sg) (hfuel : 65535 ≤ fuel)
    (ioctl : Nat → Drv Int) (nvmed : Nvmedisk) :
    (∃ n, Bounded n (runJobs ns ioctl fuel nvmed js)) ∧
      Wp (Nvmec noFail) (fun _ => True) (runJobs ns ioctl fuel nvmed js)
        (fun rcs v => .timeout .io ∉ v.log → AllServed L C ns.blockSize js w w.store rcs v)
        (fun _ v => .timeout .io ∈ v.log) w := by
  have : Fact (Pow2 L) := ⟨hL⟩
  have : Fact (Pow2 C) := ⟨hC⟩
  refine ⟨bounded_runJobs ns ioctl fuel nvmed js, ?_⟩
  exact wp_mono (h.wp_runJobs hB hfuel ioctl nvmed js _ w (.refl ..) hjobs) (fun _ h => h)
    (fun _ _ _ h hno => h.resolve_left hno) fun _ _ _ h => h

/-! ### A write read back -/

/-- Write a block of `0xAB` to block 5, and read it to another page. -/
def echoJobs : List Job :=
  [⟨fun a => if 0x100000 ≤ a ∧ a < 0x100200 then some 0xAB else none, 1, true, [sampleBuf 5 0]⟩,
    ⟨fun _ => none, 2, false, [sampleBuf 5 1]⟩]

def echoRun : World × Drv (List Int) :=
  follow (nvmeMove noFail) (none :: none :: oneCommand .io ++ none :: none :: none ::
      oneCommand .io ++ [none]) sampleWorld
    (runJobs sampleNs (fun _ => return 0) 65535 ⟨512, 1000⟩ echoJobs)

theorem disk_is_array_sample : echoRun.2.value? = some [0, 0] ∧ echoRun.1.store.mem 0x101000 = 0xAB ∧
    .timeout .io ∉ echoRun.1.log ∧
      AllServed 2 4 512 echoJobs sampleWorld sampleWorld.store [0, 0] echoRun.1 := by
  have hret : echoRun.2.value? = some [0, 0] := by decide +kernel
  have hlog : .timeout .io ∉ echoRun.1.log := by decide +kernel
  have hease : AtEase 2 4 sampleWorld := freshWorld_atEase sampleSqLen_pow sampleCqLen_pow rfl _ _
  have hjobs : ∀ j ∈ echoJobs, ∀ sg ∈ j.bufs,
      Sound sampleDevice sampleSys.nvmeDmaBuffer sampleNs sg :=
    List.forall_mem_cons.mpr ⟨List.forall_mem_singleton.mpr (sampleBuf_sound (by decide) (by decide)),
      List.forall_mem_singleton.mpr
        (List.forall_mem_singleton.mpr (sampleBuf_sound (by decide) (by decide)))⟩
  refine ⟨hret, by decide +kernel, hlog, ?_⟩
  exact ((disk_is_array pow2_two pow2_four hease sampleNs_goodBlock hjobs (le_refl _) _ _).2 _ _
    (follow_ret hret fun _ _ h => h)).2 hlog

end Nvme
