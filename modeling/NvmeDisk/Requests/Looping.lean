import NvmeDisk.Queue.Prompt
import NvmeDisk.Requests.Bounded
import NvmeDisk.Requests.Entry
import NvmeDisk.Requests.Jammed

/-! The block loop of `nvmedisk_read` and `nvmedisk_write`, iteration by iteration. What is left goes
    to `nvme_prpl_xfer` in 16 bits: a buffer of 65536 blocks or more comes to an iteration that asks
    for none, and its command moves 65536. -/

namespace Nvme
open Ring Resume Bytes BlockDev

section
variable (mayFail : Nat → Bool) (ns : NvmeNamespace) (sg : Buf) (write : Bool) (w : World)

/-- The call the loop makes at block `id`. -/
def callAt (id : Nat) : Drv Int :=
  nvmePrplXfer ns (sg.block + id) (opBuf ns sg id) (remaining ns sg id) write

/-- The block loop, begun in world `w`, has come to block `id`. -/
inductive Reaches : Nat → World → Prop where
  | start {v} : Env (Nvmec mayFail) w v → Reaches 0 v
  | next {id v u} {res : Int} : Reaches id v → (id : Int) < blockCount ns sg →
      Steps (Nvmec mayFail) v (callAt ns sg write id) u (.ret res) → ¬ res < 0 →
      Reaches (id + res.toNat) u

/-- One command was submitted since `v`, for as many blocks as the loop adds to its counter. -/
def Covered (id : Nat) (res : Int) (v u : World) : Prop :=
  ∃ c : Cmd, ledger u.log = onTop (c :: ·) (ledger v.log) ∧ c.opc = ioOpc write ∧
    c.slba = u64 (sg.block + id) ∧ (c.blocks : Int) = res

/-- The loop does what it should as long as no wait gives up. -/
structure LoopRight : Prop where
  asks : ∀ id v, Reaches mayFail ns sg write w id v → (id : Int) < blockCount ns sg →
    1 ≤ remaining ns sg id ∧ (remaining ns sg id : Int) ≤ blockCount ns sg - id
  covers : ∀ id v u res, Reaches mayFail ns sg write w id v → (id : Int) < blockCount ns sg →
    Steps (Nvmec mayFail) v (callAt ns sg write id) u (.ret res) →
    .timeout .io ∈ u.log ∨ 1 ≤ res ∧ Covered sg write id res v u
  ends : ∀ fuel, 65535 ≤ fuel →
    (∃ n, Bounded n (xferBlocks ns sg write (blockCount ns sg) fuel 0)) ∧
    Wp (Nvmec mayFail) (fun _ => True) (xferBlocks ns sg write (blockCount ns sg) fuel 0)
      (fun rc v => .timeout .io ∈ v.log ∨
        rc = 0 ∧ Reaches mayFail ns sg write w (sg.len / ns.blockSize) v) (fun _ _ => False) w

end

variable {mayFail : Nat → Bool} {ns : NvmeNamespace} {sg : Buf} {write : Bool} {w v u : World}
  {id fuel : Nat} {x : Setting} {lg : List Item} {t : Store} {rc : Int}

theorem Reaches.env (h : Reaches mayFail ns sg write w id v) (he : Env (Nvmec mayFail) v u) :
    Reaches mayFail ns sg write w id u := by
  cases h with
  | start h => exact .start (h.trans he)
  | next h hid hs hres => exact .next h hid (hs.trans (.of_env he)) hres

/-! ### Every call the loop makes -/

/-- From a double-word aligned buffer no piece is stray. -/
theorem not_strayAt (hquad : ns.blockSize % 4 = 0) (haddr : sg.addr % 4 = 0) (id : Nat) :
    ¬ StrayAt ns sg id := by
  rintro ⟨_, hstray⟩
  have hoff : id * ns.blockSize % 4 = 0 := by rw [Nat.mul_mod, hquad, Nat.mul_zero, Nat.zero_mod]
  rw [opBuf, u32] at hstray
  omega

/-- A driver whose queue rests, nothing but the account being followed. -/
structure AtRestFor (x : Setting) (lg : List Item) (w : World) : Prop where
  account : ¬ x.followed
  low : ∀ sf, OkStatus x.mayFail sf → sf % 256 = 0
  rest : Resting x lg (EqOff (Page x.sys.nvmeDmaBuffer) w.store) w

theorem AtRestFor.of_resting {S : Store → Prop} (hx : ¬ x.followed)
    (hlow : ∀ sf, OkStatus x.mayFail sf → sf % 256 = 0) (h : Resting x lg S v) :
    AtRestFor x lg v :=
  ⟨hx, hlow, h.mono fun hf => absurd hf hx⟩

/-- How a call of the loop ends: one command for as many blocks as it says, or its wait gave up. -/
def CallEnd (x : Setting) (lg : List Item) (ns : NvmeNamespace) (sg : Buf) (write : Bool) (id : Nat)
    (res : Int) (u : World) : Prop :=
  res = -1 ∧ .timeout .io ∈ u.log ∨ res = stride ns sg id ∧ ∃ sf, AtRestFor x
    (onTop ((⟨ioOpc write, u64 (sg.block + id), cmdBlocks (stride ns sg id), sf⟩ : Cmd) :: ·) lg) u

theorem AtRestFor.wp_call (h : AtRestFor x lg v) (hB : GoodBlock ns.blockSize)
    (hs : ¬ StrayAt ns sg id) :
    Wp (Nvmec x.mayFail) (fun _ => True) (callAt ns sg write id) (CallEnd x lg ns sg write id)
      (fun _ _ => False) v := by
  obtain ⟨hx, hlow, hrest⟩ := h
  refine wp_mono (wp_prplXfer hB (remaining_le ns sg id) (fun hf => absurd hf hx) hrest)
    (fun _ _ => trivial) (fun res u _ hend => ?_) fun _ _ _ hf => hf
  cases hend with
  | stray hs' _ _ => exact absurd hs' hs
  | command _ hend =>
    cases hend with
    | completed sf hok hres hu =>
      rw [if_pos (hlow sf hok)] at hres
      exact .inr ⟨hres, _, .of_resting hx hlow hu⟩
    | timedOut hres hu => exact .inl ⟨hres, hu.timeout⟩

/-- Wherever the loop has come to, the queue rests, and the counter is not past the end. -/
theorem Reaches.atRest (h : Reaches x.mayFail ns sg write w id v) (hw : AtRestFor x lg w)
    (hB : GoodBlock ns.blockSize) (hs : ∀ id, ¬ StrayAt ns sg id) (hcnt : 0 ≤ blockCount ns sg) :
    (id : Int) ≤ blockCount ns sg ∧ ∃ lg', AtRestFor x lg' v := by
  induction h with
  | start he => exact ⟨hcnt, lg, .of_resting hw.account hw.low (hw.rest.env he)⟩
  | next _ hid hrun hres ih =>
    obtain ⟨_, lg', hv⟩ := ih
    rcases (hv.wp_call hB (hs _) _ _ hrun).2 with ⟨rfl, _⟩ | ⟨rfl, _, hu⟩
    · exact absurd (by decide) hres
    · rw [Int.toNat_natCast]
      exact ⟨stride_le hid, _, hu⟩

/-! ### The loop -/

/-- LOOP RULE: below 65536 blocks the counter gets to the end, whatever it has come to before. -/
theorem wp_loop (hB : GoodBlock ns.blockSize) (hs : ∀ id, ¬ StrayAt ns sg id)
    (hreq : 1 ≤ ns.maxReqSize) {n : Nat} (hcnt : blockCount ns sg = n) (hn : n ≤ 65535)
    (hw : AtRestFor x lg w) : ∀ (fuel id : Nat) (v : World),
      Reaches x.mayFail ns sg write w id v → n ≤ id + fuel →
      Wp (Nvmec x.mayFail) (fun _ => True) (xferBlocks ns sg write (blockCount ns sg) fuel id)
        (fun rc u => .timeout .io ∈ u.log ∨ rc = 0 ∧ Reaches x.mayFail ns sg write w n u)
        (fun _ _ => False) v := by
  have hdone : ∀ {id v}, Reaches x.mayFail ns sg write w id v → ¬ (id : Int) < blockCount ns sg →
      Wp (Nvmec x.mayFail) (fun _ => True) (return 0 : Drv Int)
        (fun rc u => .timeout .io ∈ u.log ∨ rc = 0 ∧ Reaches x.mayFail ns sg write w n u)
        (fun _ _ => False) v := by
    intro id v h hid
    obtain ⟨hle, _⟩ := h.atRest hw hB hs (by omega)
    obtain rfl : id = n := by omega
    exact wp_ret fun u he => ⟨trivial, .inr ⟨rfl, h.env he⟩⟩
  intro fuel
  induction fuel with
  | zero =>
    intro id v h hfuel
    rw [xferBlocks, if_neg (by omega)]
    exact hdone h (by omega)
  | succ fuel ih =>
    intro id v h hfuel
    rw [xferBlocks]
    split
    · rename_i hid
      obtain ⟨_, lg', hv⟩ := h.atRest hw hB hs (by omega)
      refine wp_seq (wp_traced (hv.wp_call hB (hs id))) (fun _ _ hf => hf) fun res u hu => ?_
      obtain ⟨⟨rfl, hlate⟩ | ⟨hres, _⟩, hrun⟩ := hu
      · exact wp_ret fun z hz => ⟨trivial, .inl ((grows_env hz).mem hlate)⟩
      · have hpos := stride_pos hB hreq (by omega) hid
        have hnext := h.next hid hrun (by omega)
        rw [if_neg (by omega)]
        exact ih _ u hnext (by omega)
    · exact hdone h (by assumption)

/-! ### A controller that is in time -/

/-- On an idle queue a command can be completed in time. -/
theorem Idle.steps_ioXfer {L C lba prp1 prp2 count : Nat} {D : List NvmeCqe} [Fact (Pow2 L)]
    [Fact (Pow2 C)] (h : Idle L C D (w.q .io)) (hal : ¬ misaligned prp1 prp2) :
    ∃ u, Steps (Nvmec allSucceed) w (nvmeIoXfer ns lba prp1 prp2 count write) u (.ret (count : Int)) := by
  rw [nvmeIoXfer, if_neg hal]
  -- the entry is taken, filled in and committed
  let w1 := w.setQ .io { w.q .io with
    sqes := Function.update (w.q .io).sqes (D.length % L)
      (freshSqe (D.length % L) (if write then nvmeSqeOpcIoWrite else nvmeSqeOpcIoRead) 0 prp1 prp2) }
  have h1 : Idle L C D (w1.q .io) := by
    rw [World.setQ_q_same]
    exact h.setSqes _
  let w2 := w1.setQ .io (fillSqe (w1.q .io) (D.length % L) ns.nsId (u32 lba) (u32 (lba >>> 32))
    (1 <<< 31 ||| u32 (count + 4294967295)))
  have h2 : Idle L C D (w2.q .io) := by
    rw [World.setQ_q_same]
    exact h1.setSqes _
  have h3 : Outstanding .io L C D ((w2.q .io).sqes (D.length % L)) .queued ((w2.commitSqe .io).q .io) := by
    simpa [World.commitSqe] using h2.commit
  obtain ⟨v, he, hv⟩ := h3.served (show allSucceed 2048 = true by decide) (by decide) (by decide)
  obtain ⟨u, hu⟩ := hv.steps_wait (Nvmec allSucceed)
  have hok : nvmeIsCqeSuccess (cqeOf .io L C D ((w2.q .io).sqes (D.length % L)) 2048) = true := by
    rw [nvmeIsCqeSuccess_iff, cqeOf_sf]
  refine ⟨u, .act_bind ?_⟩
  simp only [h.getNextSqe]
  refine .modify_bind (.modify_bind ((Steps.of_env he).trans (.seq hu ?_)))
  rw [if_pos hok]
  exact .refl

theorem Idle.steps_bounceXfer {L C lba buf count : Nat} {D : List NvmeCqe} [Fact (Pow2 L)]
    [Fact (Pow2 C)] (h : Idle L C D (w.q .io)) (hdma : w.sys.nvmeDmaBuffer % 4096 = 0) :
    ∃ u, Steps (Nvmec allSucceed) w (nvmeBounceXfer ns lba buf count write) u
      (.ret (bounceBlocks ns count : Int)) := by
  have hal : ¬ misaligned w.sys.nvmeDmaBuffer 0 := by
    rw [misaligned_iff]
    omega
  have hcmd : ∀ {v}, Idle L C D (v.q .io) → ∃ u, Steps (Nvmec allSucceed) v (do
      let res ← nvmeIoXfer ns lba w.sys.nvmeDmaBuffer 0 (bounceBlocks ns count) write
      if write = false ∧ 0 ≤ res then
        memcpy buf w.sys.nvmeDmaBuffer (u32 (res.toNat * ns.blockSize))
      return res) u (.ret (bounceBlocks ns count : Int)) := by
    intro v hv
    obtain ⟨u, hu⟩ := hv.steps_ioXfer hal
    by_cases hw : write = false
    · refine ⟨u.setMem (copy u.store.mem buf w.sys.nvmeDmaBuffer
        (u32 ((bounceBlocks ns count : Int).toNat * ns.blockSize))), .seq hu ?_⟩
      rw [if_pos ⟨hw, by omega⟩]
      exact .modify_bind .refl
    · refine ⟨u, .seq hu ?_⟩
      rw [if_neg fun hr => hw hr.1]
      exact .refl
  cases write with
  | true =>
    obtain ⟨u, hu⟩ := hcmd (v := w.setMem (copy w.store.mem w.sys.nvmeDmaBuffer buf
      (u32 (bounceBlocks ns count * ns.blockSize)))) h
    exact ⟨u, .get_bind (.modify_bind hu)⟩
  | false =>
    obtain ⟨u, hu⟩ := hcmd h
    exact ⟨u, .get_bind hu⟩

/-- Whatever the loop asks for can be done in time. -/
theorem Resting.steps_call {S : Store → Prop} (h : Resting x lg S v) (hB : GoodBlock ns.blockSize)
    (hs : ¬ StrayAt ns sg id) :
    ∃ u, Steps (Nvmec allSucceed) v (callAt ns sg write id) u (.ret (stride ns sg id : Int)) := by
  obtain ⟨D, hidle⟩ := h.idle
  have hdma := x.dmaPage
  rw [← h.sys] at hdma
  have hclamp := (clampCount_le ns (remaining ns sg id)).trans (remaining_le ns sg id)
  have hway := prplPath_way hB hclamp (opBuf ns sg id)
  rw [StrayAt, Stray] at hs
  simp only [callAt, nvmePrplXfer, stride, movedBlocks]
  rcases hp : prplPath ns (opBuf ns sg id) (clampCount ns (remaining ns sg id)) with _ | _ | l | l <;>
    rw [hp] at hway hs
  · exact hidle.steps_ioXfer (hway.aligned trivial hs hdma)
  · exact hidle.steps_ioXfer (hway.aligned trivial hs hdma)
  · have hlist : Idle x.L x.C D
        ((v.setMem (storeWords v.store.mem v.sys.nvmeDmaBuffer l)).q .io) := hidle
    obtain ⟨u, hu⟩ := hlist.steps_ioXfer (hway.aligned trivial hs hdma)
    exact ⟨u, .get_bind (.modify_bind hu)⟩
  · have hlist : Idle x.L x.C D
        ((v.setMem (storeWords v.store.mem v.sys.nvmeDmaBuffer l)).q .io) := hidle
    obtain ⟨u, hu⟩ := hlist.steps_bounceXfer hdma
    exact ⟨u, .get_bind (.modify_bind hu)⟩

/-- So every block the plan visits is come to in some run. -/
theorem Visits.reached {id' : Nat} (h : Visits ns sg id id') (hm : x.mayFail = allSucceed)
    (hB : GoodBlock ns.blockSize) (hs : ∀ id, ¬ StrayAt ns sg id) (hw : AtRestFor x lg w)
    (hv : Reaches allSucceed ns sg write w id v) : ∃ u, Reaches allSucceed ns sg write w id' u := by
  induction h generalizing v with
  | here _ => exact ⟨v, hv⟩
  | @next id id' hid _ ih =>
    have hcnt : 0 ≤ blockCount ns sg := by omega
    have hrest := Reaches.atRest (by rw [hm]; exact hv) hw hB hs hcnt
    obtain ⟨_, lg', hrest⟩ := hrest
    obtain ⟨u, hu⟩ := hrest.rest.steps_call hB (hs id)
    exact ih (hv.next hid hu (by omega))

/-- From 65536 blocks on the walk comes to a block where a multiple of 65536 is left, and the 16 bits
    are zero. -/
theorem visits_stuck (hB : GoodBlock ns.blockSize) (hreq : 1 ≤ ns.maxReqSize) : ∀ (r id : Nat),
    remaining ns sg id = r → (id : Int) + 65536 ≤ blockCount ns sg →
      ∃ id', Visits ns sg id id' ∧ remaining ns sg id' = 0 := by
  intro r
  induction r using Nat.strong_induction_on with
  | _ r ih =>
    intro id hr hid
    have hlt : (id : Int) < blockCount ns sg := by omega
    rcases Nat.eq_zero_or_pos r with rfl | hpos
    · exact ⟨id, .here hlt, hr⟩
    · have h1 : 1 ≤ stride ns sg id := movedBlocks_pos hB hreq (by omega) _
      have hle : stride ns sg id ≤ remaining ns sg id := movedBlocks_le ..
      have hnext : remaining ns sg (id + stride ns sg id) = r - stride ns sg id := by
        rw [← hr]
        simp only [remaining] at hle ⊢
        omega
      obtain ⟨id', hv, hzero⟩ := ih _ (by omega) _ hnext (by simp only [remaining] at hle; omega)
      exact ⟨id', .next hlt hv, hzero⟩

/-! ### Right or not -/

/-- Below 65536 blocks every call is asked for all that is left, and makes a command of it. -/
theorem AtRestFor.loopRight (h : AtRestFor x lg w) (hB : GoodBlock ns.blockSize)
    (hs : ∀ id, ¬ StrayAt ns sg id) (hreq : 1 ≤ ns.maxReqSize)
    (hn : sg.len / ns.blockSize ≤ 65535) : LoopRight x.mayFail ns sg write w := by
  have hcnt := blockCount_eq (hn.trans_lt (by decide))
  refine ⟨fun id v _ hid => ?_, fun id v u res hv hid hrun => ?_, fun fuel hfuel => ⟨?_, ?_⟩⟩
  · rw [remaining, Int.emod_eq_of_lt (by omega) (by omega)]
    omega
  · obtain ⟨_, lg', hv⟩ := hv.atRest h hB hs (by omega)
    rcases (hv.wp_call hB (hs id) _ _ hrun).2 with ⟨_, hlate⟩ | ⟨rfl, sf, hu⟩
    · exact .inl hlate
    · have hpos := stride_pos hB hreq (by omega) hid
      refine .inr ⟨by omega, ⟨ioOpc write, u64 (sg.block + id), cmdBlocks (stride ns sg id), sf⟩,
        ?_, rfl, rfl, ?_⟩
      · rw [hu.rest.ledger, hv.rest.ledger]
      · rw [cmdBlocks, if_neg (by omega)]
  · exact ⟨_, bounded_xferBlocks ns sg write _ fuel 0⟩
  · exact wp_loop hB hs hreq hcnt hn h fuel 0 w (.start .refl) (by omega)

/-- A buffer of 32 MiB, 65536 blocks, below the bounce page. -/
def longBuf : Buf := ⟨0, 0x100000, 0x2000000⟩

def longNs : NvmeNamespace := ⟨1, 200000, 512, 0, 16⟩

def longWorld : World :=
  freshWorld sampleSqLen sampleCqLen ⟨fun _ => 0, fun _ => 0⟩
    { sampleSys with nvmeDmaBuffer := 0x4000000 } ⟨1, 512, 200000, fun _ _ _ => 7⟩

/-- Read it, up to the first commit. -/
def longRun : World × Drv Int :=
  follow (nvmeMove noFail) [none, none, none] longWorld
    (xferBlocks longNs longBuf false (blockCount longNs longBuf) 65535 0)

end Nvme
