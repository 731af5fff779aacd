import NvmeDisk.Requests.Serving
import NvmeDisk.Schemes.Duo
import NvmeDisk.Transfer.Carried

/-! A block request in parts, each a call of `nvme_prpl_xfer` (or a notification). On a driver at ease a
    part moves its piece of a buffer whatever has happened before, so that the parts of two requests
    that do not meet may come in any order. -/

namespace Nvme
open Ring Resume Bytes BlockDev

/-! ### The request in parts -/

abbrev Calls := Chain World Halt Int Int

def noted (ev : Event) : Drv Int := do
  note ev
  return 0

/-- `xferBlocks`, a part for each transfer. -/
def blocksParts (ns : NvmeNamespace) (sg : Buf) (write : Bool) (cnt : Int) : Nat → Nat → Calls
  | fuel, id =>
    if (id : Int) < cnt then
      match fuel with
      | 0 => .part (.halt .fuel) .ret
      | fuel + 1 =>
        .part (nvmePrplXfer ns (sg.block + id) (u32 (sg.addr + id * ns.blockSize))
            ((cnt - id) % 65536).toNat write) fun blocks =>
          if blocks < 0 then .ret (-1) else blocksParts ns sg write cnt fuel (id + blocks.toNat)
    else .ret 0

def bufsParts (ns : NvmeNamespace) (write : Bool) (fuel : Nat) : List Buf → Calls
  | [] => .ret 0
  | sg :: bufs =>
    .part (noted (.sg sg)) fun _ =>
      (blocksParts ns sg write (blockCount ns sg) fuel 0).bind fun rc =>
        if rc < 0 then .ret (-1) else bufsParts ns write fuel bufs

def requestParts (ns : NvmeNamespace) (write : Bool) (fuel : Nat) (req : BlkdevRequest) : Calls :=
  (bufsParts ns write fuel req.bufs).bind fun rc =>
    if rc < 0 then .ret (-1) else .part (noted (.done req.id .successful)) .ret

variable {ns : NvmeNamespace} {sg : Buf} {write : Bool} {fuel id L C : Nat} {w v : World} {B : Nat}

theorem blocksParts_prog (cnt : Int) : ∀ fuel id,
    (blocksParts ns sg write cnt fuel id).prog = xferBlocks ns sg write cnt fuel id := by
  intro fuel
  induction fuel with
  | zero =>
    intro id
    rw [blocksParts, xferBlocks]
    split <;> rfl
  | succ fuel ih =>
    intro id
    rw [blocksParts, xferBlocks]
    split
    · rw [Chain.prog]
      congr 1
      funext blocks
      split
      · rfl
      · exact ih _
    · rfl

theorem bufsParts_prog : ∀ bufs, (bufsParts ns write fuel bufs).prog = xferBufs ns write fuel bufs := by
  intro bufs
  induction bufs with
  | nil => rfl
  | cons sg bufs ih =>
    rw [bufsParts, xferBufs, Chain.prog, Chain.prog_bind, blocksParts_prog]
    have hrest : (fun rc : Int => (if rc < 0 then (.ret (-1) : Calls)
        else bufsParts ns write fuel bufs).prog) =
        fun rc => if rc < 0 then .ret (-1) else xferBufs ns write fuel bufs := by
      funext rc
      split
      · rfl
      · exact ih
    rw [hrest]
    rfl

/-- The parts are `nvmedisk_ioctl` with the request. -/
theorem requestParts_prog (ioctl : Nat → Drv Int) (nvmed : Nvmedisk) (r : BlkdevRequest)
    (h : r.req = reqOp write) : (requestParts ns write fuel r).prog =
      nvmediskIoctl ns ioctl fuel nvmed (.blkioRequest r) := by
  rw [nvmediskIoctl_xfer ioctl nvmed h, requestParts, nvmediskXfer, Chain.prog_bind, bufsParts_prog]
  congr 1
  funext rc
  split <;> rfl

/-! ### What a part does -/

/-- Memory and disk, and the notifications so far, newest first. -/
abbrev Ground := Store × List (Nat × RtemsStatusCode)

/-- What a part does to them. -/
inductive Work where
  | idle
  | move (write : Bool) (pos addr len : Nat)
  | done (id : Nat)

def Work.on : Work → Ground → Ground
  | .idle, s => s
  | .move write pos addr len, s => (BlockDev.move write s.1 pos addr len, s.2)
  | .done id, s => (s.1, (id, .successful) :: s.2)

variable {y : Sys} {d : Device} {s : Ground} {ev : Event} {f g : Work} {fs gs : List Work}
  {bufs bufs' : List Buf} {dma : Nat}

/-- The driver is at ease, and memory off the bounce page, disk and notifications are `s`. -/
structure Shown (L C : Nat) (y : Sys) (d : Device) (s : Ground) (w : World) : Prop where
  ease : AtEase L C w
  sys : w.sys = y
  dev : w.dev = d
  store : EqOff (Page y.nvmeDmaBuffer) s.1 w.store
  notice : notices (ledger w.log) = s.2

/-- Some wait gave up. -/
abbrev Late (w : World) : Prop := .timeout .io ∈ w.log

theorem shown_stable (s : Ground) : Stable (Nvmec noFail) (Shown L C y d s) := fun w v h hr => by
  obtain rfl : v = w := h.ease.env (.single hr)
  exact h

theorem late_stable : Stable (Nvmec noFail) Late := fun _ _ h hr => (grows_env (.single hr)).mem h

theorem notices_onTop (f : List Cmd → List Cmd) (l : List Item) : notices (onTop f l) = notices l := by
  cases l with
  | nil => rfl
  | cons it l => cases it <;> rfl

/-- An event on the record leaves the driver at ease. -/
theorem Shown.note (h : Shown L C y d s w) (hev : notices (ledger (ev :: w.log)) = (f.on s).2)
    (hf : (f.on s).1 = s.1) : Shown L C y d (f.on s) (w.note ev) where
  ease := ⟨h.ease.idle, h.ease.calm, h.ease.dmaPage⟩
  sys := h.sys
  dev := h.dev
  store := by rw [hf]; exact h.store
  notice := hev

theorem Shown.wp_noted (ev : Event) (f : Work) (h : Shown L C y d s w)
    (hev : ∀ v, Shown L C y d s v → notices (ledger (ev :: v.log)) = (f.on s).2)
    (hf : (f.on s).1 = s.1) : Wp (Nvmec noFail) (fun _ => True) (noted ev)
      (fun r v => Late v ∨ r = 0 ∧ Shown L C y d (f.on s) v) (fun _ _ => True) w := by
  refine wp_modify_bind fun v he => ⟨trivial, ?_⟩
  have hv := (shown_stable s).env h he
  have hnow := hv.note (hev v hv) hf
  exact wp_ret fun u hu => ⟨trivial, .inr ⟨rfl, (shown_stable _).env hnow hu⟩⟩

/-- The piece at block `id`, if it is not refused. -/
def pieceWork (ns : NvmeNamespace) (sg : Buf) (write : Bool) (id : Nat) : Work :=
  if StrayAt ns sg id then .idle
  else .move write ((sg.block + id) * ns.blockSize) (opBuf ns sg id) (stride ns sg id * ns.blockSize)

/-- The blocks `nvme_prpl_xfer` reports for it. -/
def pieceBlocks (ns : NvmeNamespace) (sg : Buf) (id : Nat) : Int :=
  if StrayAt ns sg id then -1 else stride ns sg id

/-- A call of `nvme_prpl_xfer` moves its piece. -/
theorem Shown.wp_piece [Fact (Pow2 L)] [Fact (Pow2 C)] (write : Bool) (h : Shown L C y d s w)
    (hB : GoodBlock ns.blockSize)
    (hP : Placed d y.nvmeDmaBuffer ns sg) (hid : (id : Int) < blockCount ns sg) :
    Wp (Nvmec noFail) (fun _ => True)
      (nvmePrplXfer ns (sg.block + id) (opBuf ns sg id) (remaining ns sg id) write)
      (fun r v => Late v ∨ r = pieceBlocks ns sg id ∧
        Shown L C y d ((pieceWork ns sg write id).on s) v) (fun _ _ => True) w := by
  have hplaced : Placed w.dev w.sys.nvmeDmaBuffer ns sg := by
    rw [h.dev, h.sys]
    exact hP
  have hrest : Resting (h.ease.setting coded_noFail) (ledger w.log)
      (EqOff (Page w.sys.nvmeDmaBuffer) s.1) w :=
    (h.ease.resting coded_noFail).mono fun _ t ht => by
      rw [h.sys] at ht ⊢
      exact h.store.trans ht
  refine wp_mono (wp_prplXfer hB (remaining_le ns sg id) (fun _ => hplaced.followable hB hid) hrest)
    (fun _ h => h) (fun r v _ hend => ?_) fun _ _ _ _ => trivial
  cases hend with
  | stray hs hres hr =>
    have hs : StrayAt ns sg id := hs
    rw [pieceBlocks, if_pos hs, pieceWork, if_pos hs]
    refine .inr ⟨hres, hr.atEase h.ease coded_noFail, hr.sys.trans h.sys, hr.dev.trans h.dev, ?_, ?_⟩
    · rw [← h.sys]
      exact (hr.store trivial).2
    · rw [hr.ledger]
      exact h.notice
  | command hs hend =>
    have hs : ¬ StrayAt ns sg id := hs
    cases hend with
    | timedOut _ hh => exact .inl hh.timeout
    | completed sf hok hres hr =>
      obtain rfl : sf = 0 := noFail_ok sf hok
      rw [pieceBlocks, if_neg hs, pieceWork, if_neg hs]
      refine .inr ⟨hres, hr.atEase h.ease coded_noFail, hr.sys.trans h.sys, hr.dev.trans h.dev, ?_, ?_⟩
      · have hmoved := (hr.store trivial).2
        rw [MovedTo, if_pos rfl] at hmoved
        rw [← h.sys]
        exact hmoved
      · rw [hr.ledger, notices_onTop]
        exact h.notice

/-! ### What a request does -/

/-- The work `fs` moves the buffers `bs` in order. -/
inductive Moving (B : Nat) (write : Bool) : List Buf → List Work → Prop where
  | nil : Moving B write [] []
  | idle {bs fs} : Moving B write bs fs → Moving B write bs (.idle :: fs)
  | move {b bs fs} : Moving B write bs fs →
      Moving B write (b :: bs) (.move write (b.block * B) b.addr b.len :: fs)

theorem Moving.append (h : Moving B write bufs fs) (h' : Moving B write bufs' gs) :
    Moving B write (bufs ++ bufs') (fs ++ gs) := by
  induction h with
  | nil => exact h'
  | idle _ ih => exact .idle ih
  | move _ ih => exact .move ih

theorem Moving.after (h : Moving B write bufs fs) (t : Store) (n : List (Nat × RtemsStatusCode)) :
    after Work.on fs (t, n) = (serve B write t bufs, n) := by
  induction h generalizing t with
  | nil => rfl
  | idle _ ih => exact ih t
  | move _ ih => exact ih _

theorem Moving.mem (h : Moving B write bufs fs) (hf : f ∈ fs) :
    f = .idle ∨ ∃ b ∈ bufs, f = .move write (b.block * B) b.addr b.len := by
  induction h with
  | nil => simp at hf
  | idle _ ih =>
    rcases List.mem_cons.mp hf with rfl | hf
    · exact .inl rfl
    · exact ih hf
  | @move b bs fs _ ih =>
    rcases List.mem_cons.mp hf with rfl | hf
    · exact .inr ⟨b, List.mem_cons_self .., rfl⟩
    · exact (ih hf).imp_right fun ⟨c, hc, heq⟩ => ⟨c, List.mem_cons_of_mem _ hc, heq⟩

/-- What the caller of a request gets when its pieces are the first of `r` and they reach its end as the
    second says. -/
def resultOf (r : List Buf × Bool) : Int := if r.2 then 0 else -1

/-- The parts move the pieces of `r`, with the result that goes with them. -/
def Performs (L C : Nat) (y : Sys) (d : Device) (c : Calls) (B : Nat) (write : Bool)
    (r : List Buf × Bool) : Prop :=
  ∃ fs, Plays (Nvmec noFail) (Shown L C y d) Late Work.on c (resultOf r) fs ∧ Moving B write r.1 fs

/-- The rest of a buffer from block `id` on. -/
theorem performs_blocks [Fact (Pow2 L)] [Fact (Pow2 C)] (hB : GoodBlock ns.blockSize)
    (hP : Placed d y.nvmeDmaBuffer ns sg) :
    ∀ (fuel k id : Nat), blockCount ns sg ≤ id + k → k ≤ fuel →
      Performs L C y d (blocksParts ns sg write (blockCount ns sg) fuel id) ns.blockSize write
        (carriedBlocks ns sg k id) := by
  have hcnt : blockCount ns sg ≤ 65535 := by
    rw [hP.blockCount]
    exact_mod_cast hP.most
  intro fuel
  induction fuel with
  | zero =>
    intro k id hk hfuel
    obtain rfl : k = 0 := by omega
    rw [blocksParts, if_neg (by omega), carriedBlocks]
    exact ⟨[], .ret, .nil⟩
  | succ fuel ih =>
    intro k id hk hfuel
    cases k with
    | zero =>
      rw [blocksParts, if_neg (by omega), carriedBlocks]
      exact ⟨[], .ret, .nil⟩
    | succ k =>
      rw [blocksParts, carriedBlocks]
      by_cases hid : (id : Int) < blockCount ns sg
      · rw [if_pos hid, if_pos hid]
        have hpart : ∀ s w, Shown L C y d s w → _ := fun s w hs => hs.wp_piece write hB hP hid
        by_cases hs : StrayAt ns sg id
        · rw [if_pos hs]
          refine ⟨[.idle], .part (r := -1) (fun s w h => ?_) .ret, .idle .nil⟩
          have := hpart s w h
          rw [pieceBlocks, if_pos hs, pieceWork, if_pos hs] at this
          exact this
        · rw [if_neg hs]
          have hpos := stride_pos hB hP.request hcnt hid
          obtain ⟨fs, hplays, hmoving⟩ := ih k (id + stride ns sg id) (by omega) (by omega)
          refine ⟨_ :: fs, ?_, .move hmoving⟩
          change Plays _ _ _ _ _ (resultOf (carriedBlocks ns sg k (id + stride ns sg id))) _
          refine .part (r := (stride ns sg id : Int)) (fun s w h => ?_) ?_
          · have := hpart s w h
            rw [pieceBlocks, if_neg hs, pieceWork, if_neg hs] at this
            exact this
          · rw [if_neg (by omega), Int.toNat_natCast]
            exact hplays
      · rw [if_neg hid, if_neg hid]
        exact ⟨[], .ret, .nil⟩

theorem performs_bufs [Fact (Pow2 L)] [Fact (Pow2 C)] (hB : GoodBlock ns.blockSize)
    (hfuel : 65535 ≤ fuel) : ∀ (bufs : List Buf),
    (∀ sg ∈ bufs, Placed d y.nvmeDmaBuffer ns sg) →
    Performs L C y d (bufsParts ns write fuel bufs) ns.blockSize write (carried ns bufs) := by
  intro bufs
  induction bufs with
  | nil => exact fun _ => ⟨[], .ret, .nil⟩
  | cons sg bufs ih =>
    intro hplaced
    obtain ⟨hP, hrest⟩ := List.forall_mem_cons.mp hplaced
    have hmost := hP.most
    have hcnt := hP.blockCount
    have hone : Performs L C y d (blocksParts ns sg write (blockCount ns sg) fuel 0) ns.blockSize write
        (carriedBlocks ns sg (sg.len / ns.blockSize) 0) :=
      performs_blocks hB hP fuel _ 0 (by omega) (by omega)
    obtain ⟨fs, hplays, hmoving⟩ := hone
    have hnoted : ∀ s w, Shown L C y d s w → _ := fun s w h =>
      h.wp_noted (.sg sg) .idle (fun v hv => hv.notice) rfl
    rw [carried]
    split
    · rename_i hall
      obtain ⟨gs, hplays', hmoving'⟩ := ih hrest
      refine ⟨.idle :: (fs ++ gs), .part hnoted (hplays.bind ?_), .idle (hmoving.append hmoving')⟩
      rw [resultOf, if_pos hall, if_neg (by decide)]
      exact hplays'
    · rename_i hall
      refine ⟨.idle :: (fs ++ []), .part hnoted (hplays.bind ?_), ?_⟩
      · rw [resultOf, if_neg hall, if_pos (by decide)]
        exact .ret
      · rw [List.append_nil]
        exact .idle hmoving

/-- The notification of a request that was carried out to its end. -/
def lastWork (ns : NvmeNamespace) (j : Job) : List Work :=
  if (carried ns j.bufs).2 then [.done j.id] else []

/-- A request moves its pieces, and if they reach its end it is notified of. -/
theorem plays_request [Fact (Pow2 L)] [Fact (Pow2 C)] (hB : GoodBlock ns.blockSize)
    (hfuel : 65535 ≤ fuel) (j : Job) (hplaced : ∀ sg ∈ j.bufs, Placed d y.nvmeDmaBuffer ns sg) :
    ∃ fs, Plays (Nvmec noFail) (Shown L C y d) Late Work.on (requestParts ns j.write fuel j.request)
        (resultOf (carried ns j.bufs)) (fs ++ lastWork ns j) ∧
      Moving ns.blockSize j.write (carried ns j.bufs).1 fs := by
  obtain ⟨fs, hplays, hmoving⟩ := performs_bufs (L := L) (C := C) hB hfuel j.bufs hplaced
  refine ⟨fs, hplays.bind ?_, hmoving⟩
  rw [lastWork, resultOf]
  split
  · rw [if_neg (by decide)]
    have hnoted : ∀ s w, Shown L C y d s w → _ := fun s w h =>
      h.wp_noted (.done j.request.id .successful) (.done j.id)
        (fun v hv => congrArg (_ :: ·) hv.notice) rfl
    exact .part hnoted .ret
  · rw [if_pos (by decide)]
    exact .ret

/-! ### Parts are bounded -/

theorem Bounded.lasts {p : Drv Int} {n : Nat} (hp : Bounded n p) (h : Late w) :
    Wp (Nvmec noFail) (fun _ => True) p (fun _ => Late) (fun _ _ => True) w :=
  wp_mono (wp_late hp h) (fun _ h => h) (fun _ _ _ h => h) fun _ _ _ _ => trivial

theorem lasts_noted (ev : Event) : ∀ w, Late w →
    Wp (Nvmec noFail) (fun _ => True) (noted ev) (fun _ => Late) (fun _ _ => True) w := fun _ h =>
  Bounded.lasts (n := 1 + 0) (.bind (bounded_note ev) fun _ => .ret) h

theorem lasts_blocks (cnt : Int) : ∀ (fuel id : Nat),
    Lasts (Nvmec noFail) Late (blocksParts ns sg write cnt fuel id) := by
  intro fuel
  induction fuel with
  | zero =>
    intro id
    rw [blocksParts]
    split
    · exact .part (fun _ h => Bounded.lasts (n := 0) .halt h) fun _ => .ret
    · exact .ret
  | succ fuel ih =>
    intro id
    rw [blocksParts]
    split
    · refine .part (fun _ h => Bounded.lasts (bounded_prplXfer ..) h) fun blocks => ?_
      split
      · exact .ret
      · exact ih _
    · exact .ret

theorem lasts_bufs : ∀ bufs, Lasts (Nvmec noFail) Late (bufsParts ns write fuel bufs) := by
  intro bufs
  induction bufs with
  | nil => exact .ret
  | cons sg bufs ih =>
    refine .part (lasts_noted _) fun _ => (lasts_blocks _ fuel 0).bind fun rc => ?_
    split
    · exact .ret
    · exact ih

theorem lasts_request (r : BlkdevRequest) :
    Lasts (Nvmec noFail) Late (requestParts ns write fuel r) := by
  refine (lasts_bufs r.bufs).bind fun rc => ?_
  split
  · exact .ret
  · exact .part (lasts_noted _) fun _ => .ret

/-! ### Requests that do not meet -/

/-- No piece of one request is moved to or from where the other moves one to. -/
def Independent (ns : NvmeNamespace) (j j' : Job) : Prop :=
  ∀ b ∈ (carried ns j.bufs).1, ∀ b' ∈ (carried ns j'.bufs).1,
    Unmet j.write (b.block * ns.blockSize) b.addr b.len j'.write (b'.block * ns.blockSize) b'.addr b'.len

theorem Independent.symm {j j' : Job} (h : Independent ns j j') : Independent ns j' j :=
  fun b hb b' hb' => (h b' hb' b hb).symm

/-- It is enough to look at the buffers. -/
theorem independent_of_bufs {j j' : Job} (hB : GoodBlock ns.blockSize)
    (hj : ∀ sg ∈ j.bufs, Placed d dma ns sg) (hj' : ∀ sg ∈ j'.bufs, Placed d dma ns sg)
    (h : ∀ sg ∈ j.bufs, ∀ sg' ∈ j'.bufs, Unmet j.write (sg.block * ns.blockSize) sg.addr sg.len
      j'.write (sg'.block * ns.blockSize) sg'.addr sg'.len) : Independent ns j j' := by
  intro b hb b' hb'
  obtain ⟨sg, hsg, hin⟩ := carried_within hB j.bufs hj b hb
  obtain ⟨sg', hsg', hin'⟩ := carried_within hB j'.bufs hj' b' hb'
  obtain ⟨hdisk, hmem⟩ := h sg hsg sg' hsg'
  exact ⟨fun hw => (hdisk hw).part hin.pos hin.posEnd hin'.pos hin'.posEnd,
    fun hw => (hmem hw).part hin.addr hin.addrEnd hin'.addr hin'.addrEnd⟩

theorem swaps_moving {j j' : Job} (h : Independent ns j j')
    (hfs : Moving ns.blockSize j.write (carried ns j.bufs).1 fs)
    (hgs : Moving ns.blockSize j'.write (carried ns j'.bufs).1 gs) (hf : f ∈ fs) (hg : g ∈ gs) :
    Swaps Work.on f g := by
  intro s
  rcases hfs.mem hf with rfl | ⟨b, hb, rfl⟩
  · rfl
  rcases hgs.mem hg with rfl | ⟨b', hb', rfl⟩
  · rfl
  exact Prod.ext (move_comm (h b hb b' hb') s.1) rfl

theorem swaps_done {id : Nat} (hgs : Moving B write bufs gs) (hg : g ∈ gs) :
    Swaps Work.on (.done id) g := by
  intro s
  rcases hgs.mem hg with rfl | ⟨_, _, rfl⟩ <;> rfl

/-- All the work of one request goes with all but the last of the other's. -/
theorem swaps_request {j j' : Job} (h : Independent ns j j')
    (hfs : Moving ns.blockSize j.write (carried ns j.bufs).1 fs)
    (hgs : Moving ns.blockSize j'.write (carried ns j'.bufs).1 gs) :
    ∀ f ∈ fs ++ lastWork ns j, ∀ g ∈ (gs ++ lastWork ns j').dropLast, Swaps Work.on f g := by
  intro f hf g hg
  have hg' : g ∈ gs := by
    rw [lastWork] at hg
    split at hg
    · rwa [List.dropLast_concat] at hg
    · rw [List.append_nil] at hg
      exact List.dropLast_subset _ hg
  rcases List.mem_append.mp hf with hf | hf
  · exact swaps_moving h hfs hgs hf hg'
  · rw [lastWork] at hf
    split at hf
    · rw [List.mem_singleton.mp hf]
      exact swaps_done hgs hg'
    · simp at hf

end Nvme
