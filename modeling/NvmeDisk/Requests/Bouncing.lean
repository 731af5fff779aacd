import NvmeDisk.Requests.Serving

/-! The block loop with its transfer function exchanged. `nvme_bounce_xfer`, a page at a time, does for
    any buffer what `nvme_prpl_xfer` does for those it does not refuse. It refuses a buffer that is
    not double-word aligned as soon as a piece of it lies within one page: such a piece goes to the
    device as it is, although `nvme_io_xfer` takes no such address. -/

namespace Nvme
open Ring Resume Bytes BlockDev

/-- The block loop, with `xfer` in the place of `nvme_prpl_xfer`. -/
def xferBlocksBy (xfer : Nat → Nat → Nat → Bool → Drv Int) (ns : NvmeNamespace) (sg : Buf)
    (write : Bool) (cnt : Int) : Nat → Nat → Drv Int
  | fuel, id =>
    if (id : Int) < cnt then
      match fuel with
      | 0 => .halt .fuel
      | fuel + 1 => do
        let blocksRemaining := ((cnt - id) % 65536).toNat
        let opBuf := u32 (sg.addr + id * ns.blockSize)
        let blocks ← xfer (sg.block + id) opBuf blocksRemaining write
        if blocks < 0 then return -1
        else xferBlocksBy xfer ns sg write cnt fuel (id + blocks.toNat)
    else return 0

/-- The loop that bounces everything. -/
def bounceLoop (ns : NvmeNamespace) (sg : Buf) (write : Bool) (fuel : Nat) : Drv Int :=
  xferBlocksBy (nvmeBounceXfer ns) ns sg write (blockCount ns sg) fuel 0

/-- The loop of `nvmedisk_read` and `nvmedisk_write`. -/
def directLoop (ns : NvmeNamespace) (sg : Buf) (write : Bool) (fuel : Nat) : Drv Int :=
  xferBlocks ns sg write (blockCount ns sg) fuel 0

/-- Of a request cut to `max_req_size`, the most blocks one bounce moves. -/
def chunk (ns : NvmeNamespace) : Nat := min ns.maxReqSize (4096 / ns.blockSize)

/-- The buffer is double-word aligned, or each chunk of it crosses a page boundary. -/
def Transferable (ns : NvmeNamespace) (sg : Buf) : Prop :=
  sg.addr % 4 = 0 ∨ ∀ k, k * chunk ns < sg.len / ns.blockSize →
    4096 < (sg.addr + k * chunk ns * ns.blockSize) % 4096 +
      min (chunk ns) (sg.len / ns.blockSize - k * chunk ns) * ns.blockSize

/-- Both loops succeeded, with the same disk and the same buffer. -/
structure Alike (sg : Buf) (rc rc' : Int) (v v' : World) : Prop where
  direct : rc = 0
  bounced : rc' = 0
  disk : v.store.disk = v'.store.disk
  buffer : ∀ o < sg.len, v.store.mem (sg.addr + o) = v'.store.mem (sg.addr + o)

/-- Every run is bounded, and none ends abnormally. -/
def Ends (mayFail : Nat → Bool) (p : Drv Int) (w : World) : Prop :=
  (∃ n, Bounded n p) ∧ ∀ v e, ¬ Steps (Nvmec mayFail) w p v (.halt e)

variable {x : Setting} {ns : NvmeNamespace} {sg : Buf} {write : Bool} {fuel id L C dma : Nat}
  {w v v' : World} {t : Store} {lg : List Item} {d : Device} {rc rc' : Int} {mayFail : Nat → Bool}

theorem xferBlocksBy_prpl (cnt : Int) : ∀ fuel id,
    xferBlocksBy (nvmePrplXfer ns) ns sg write cnt fuel id = xferBlocks ns sg write cnt fuel id := by
  intro fuel
  induction fuel with
  | zero =>
    intro id
    rw [xferBlocksBy, xferBlocks]
  | succ fuel ih =>
    intro id
    rw [xferBlocksBy, xferBlocks]
    simp only [ih]

/-! ### Where the direct loop strays -/

theorem Visits.snoc {id id' : Nat} (h : Visits ns sg id id')
    (hid : ((id' + stride ns sg id' : Nat) : Int) < blockCount ns sg) :
    Visits ns sg id (id' + stride ns sg id') := by
  induction h with
  | here h => exact .next h (.here hid)
  | next h _ ih => exact .next h (ih hid)

theorem Visits.begun {id id' : Nat} (h : Visits ns sg id id') : (id : Int) < blockCount ns sg := by
  cases h with
  | here h => exact h
  | next h _ => exact h

section
variable (hB : GoodBlock ns.blockSize) (h : Placed d dma ns sg) (haddr : sg.addr % 4 ≠ 0)
include h

/-- What is left, as far as one command may take it. -/
theorem Placed.clamp_eq (hid : id < sg.len / ns.blockSize) :
    clampCount ns (remaining ns sg id) = min ns.maxReqSize (sg.len / ns.blockSize - id) := by
  rw [h.remaining_eq hid, clampCount]
  split <;> omega

include hB haddr

/-- A misaligned buffer strays where a command's share of it fits a page. -/
theorem Placed.strayAt_iff (hquad : ns.blockSize % 4 = 0) (hid : id < sg.len / ns.blockSize) :
    StrayAt ns sg id ↔ (sg.addr + id * ns.blockSize) % 4096 +
      min ns.maxReqSize (sg.len / ns.blockSize - id) * ns.blockSize ≤ 4096 := by
  have hoff : id * ns.blockSize % 4 = 0 := by rw [Nat.mul_mod, hquad, Nat.mul_zero, Nat.zero_mod]
  have hbuf := h.opBuf_eq hB.pos hid
  have hway := prplPath_way hB ((clampCount_le ns _).trans (remaining_le ns sg id)) (opBuf ns sg id)
  rw [StrayAt, Stray]
  rw [h.clamp_eq hid] at hway ⊢
  rw [hbuf] at hway ⊢
  generalize prplPath ns _ _ = p at hway ⊢
  cases hway with
  | single hsize => simp only [true_and]; omega
  | two hzero => omega
  | list l hzero => omega
  | bounce l hsize => simp only [reduceCtorEq, false_and, false_iff]; omega

/-- Where it does not, a chunk is bounced. -/
theorem Placed.stride_bounced (hquad : ns.blockSize % 4 = 0) (hid : id < sg.len / ns.blockSize)
    (hs : ¬ StrayAt ns sg id) :
    stride ns sg id = min (chunk ns) (sg.len / ns.blockSize - id) := by
  have hoff : id * ns.blockSize % 4 = 0 := by rw [Nat.mul_mod, hquad, Nat.mul_zero, Nat.zero_mod]
  have hbuf := h.opBuf_eq hB.pos hid
  have hway := prplPath_way hB ((clampCount_le ns _).trans (remaining_le ns sg id)) (opBuf ns sg id)
  rcases hp : prplPath ns (opBuf ns sg id) (clampCount ns (remaining ns sg id)) with _ | _ | l | l
  case bounce =>
    rw [stride, movedBlocks_bounce hp, h.clamp_eq hid, bounceBlocks_eq, chunk]
    omega
  case single => exact absurd ⟨hp, by omega⟩ hs
  all_goals
    rw [hp] at hway
    cases hway
    omega

/-- The chunk at a block strays if it fits a page. -/
theorem Placed.chunk_strays (hquad : ns.blockSize % 4 = 0) (hid : id < sg.len / ns.blockSize) :
    ¬ StrayAt ns sg id ↔ 4096 < (sg.addr + id * ns.blockSize) % 4096 +
      min (chunk ns) (sg.len / ns.blockSize - id) * ns.blockSize := by
  have hoff : id * ns.blockSize % 4 = 0 := by rw [Nat.mul_mod, hquad, Nat.mul_zero, Nat.zero_mod]
  have hpage : 4096 / ns.blockSize * ns.blockSize = 4096 := Nat.div_mul_cancel hB.page
  rw [h.strayAt_iff hB haddr hquad hid, not_le, chunk]
  by_cases hbig : 4096 / ns.blockSize ≤ min ns.maxReqSize (sg.len / ns.blockSize - id)
  · have hfull := Nat.mul_le_mul_right ns.blockSize hbig
    have hmin : min (min ns.maxReqSize (4096 / ns.blockSize)) (sg.len / ns.blockSize - id) =
        4096 / ns.blockSize := by omega
    rw [hmin]
    omega
  · have hmin : min (min ns.maxReqSize (4096 / ns.blockSize)) (sg.len / ns.blockSize - id) =
        min ns.maxReqSize (sg.len / ns.blockSize - id) := by omega
    rw [hmin]

include hB haddr in
/-- As long as no chunk strays, the walk goes from chunk to chunk. -/
theorem Placed.visits_chunk (hquad : ns.blockSize % 4 = 0)
    (hclean : ∀ id, Visits ns sg 0 id → ¬ StrayAt ns sg id) :
    ∀ k, k * chunk ns < sg.len / ns.blockSize → Visits ns sg 0 (k * chunk ns) := by
  have hcnt := h.blockCount
  intro k
  induction k with
  | zero =>
    intro hk
    rw [Nat.zero_mul] at hk ⊢
    exact .here (by omega)
  | succ k ih =>
    intro hk
    rw [Nat.add_mul, Nat.one_mul] at hk ⊢
    have hv := ih (by omega)
    have hstride := h.stride_bounced hB haddr hquad (by omega) (hclean _ hv)
    have hmin : min (chunk ns) (sg.len / ns.blockSize - k * chunk ns) = chunk ns := by omega
    rw [hmin] at hstride
    have hnext := hv.snoc (by omega)
    rwa [hstride] at hnext

include hB haddr in
/-- If no chunk strays, the walk is at a chunk wherever it is. -/
theorem Placed.not_strayAt (hquad : ns.blockSize % 4 = 0)
    (hchunks : ∀ k, k * chunk ns < sg.len / ns.blockSize → ¬ StrayAt ns sg (k * chunk ns)) :
    ∀ {id id'}, Visits ns sg id id' → (∃ k, id = k * chunk ns) → ¬ StrayAt ns sg id' := by
  have hcnt := h.blockCount
  intro id id' hv
  induction hv with
  | here hid =>
    rintro ⟨k, rfl⟩
    exact hchunks k (by omega)
  | @next id id' hid hrest ih =>
    rintro ⟨k, rfl⟩
    have hstride := h.stride_bounced hB haddr hquad (by omega) (hchunks k (by omega))
    have hlt := hrest.begun
    refine ih ⟨k + 1, ?_⟩
    rw [Nat.add_mul, Nat.one_mul]
    omega

end

/-- The walk meets no stray block just if the buffer is transferable. -/
theorem Placed.transferable_iff (h : Placed d dma ns sg) (hB : GoodBlock ns.blockSize)
    (hquad : ns.blockSize % 4 = 0) :
    (∀ id, Visits ns sg 0 id → ¬ StrayAt ns sg id) ↔ Transferable ns sg := by
  by_cases haddr : sg.addr % 4 = 0
  · refine ⟨fun _ => .inl haddr, fun _ id _ hs => ?_⟩
    have hid : id * ns.blockSize % 4 = 0 := by rw [Nat.mul_mod, hquad, Nat.mul_zero, Nat.zero_mod]
    have hstray := hs.2
    rw [opBuf, u32] at hstray
    omega
  · rw [Transferable, or_iff_right haddr]
    constructor
    · intro hclean k hk
      exact (h.chunk_strays hB haddr hquad hk).mp (hclean _ (h.visits_chunk hB haddr hquad hclean k hk))
    · intro hchunks id hv
      exact h.not_strayAt hB haddr hquad (fun k hk => (h.chunk_strays hB haddr hquad hk).mpr (hchunks k hk))
        hv ⟨0, (Nat.zero_mul _).symm⟩

/-! ### The two loops -/

/-- BOUNCE LOOP: block after block it moves the whole buffer, unless a wait gives up. -/
theorem wp_bounceLoop (hB : GoodBlock ns.blockSize) (hx : x.followed)
    (hok : ∀ sf, OkStatus x.mayFail sf → sf = 0) (hsg : Placed x.dev x.sys.nvmeDmaBuffer ns sg) :
    ∀ (fuel id : Nat) (lg : List Item) (w : World), id ≤ sg.len / ns.blockSize →
      sg.len / ns.blockSize ≤ id + fuel →
      Resting x lg (EqOff (Page x.sys.nvmeDmaBuffer)
        (move write t (sg.block * ns.blockSize) sg.addr (id * ns.blockSize))) w →
      Wp (Nvmec x.mayFail) (fun _ => True)
        (xferBlocksBy (nvmeBounceXfer ns) ns sg write (blockCount ns sg) fuel id)
        (fun rc v => .timeout .io ∈ v.log ∨ rc = 0 ∧ EqOff (Page x.sys.nvmeDmaBuffer)
          (move write t (sg.block * ns.blockSize) sg.addr
            (sg.len / ns.blockSize * ns.blockSize)) v.store)
        (fun _ _ => False) w := by
  have hcnt := hsg.blockCount
  intro fuel
  induction fuel with
  | zero =>
    intro id lg w hid hfuel h
    rw [xferBlocksBy, if_neg (by omega)]
    obtain rfl : id = sg.len / ns.blockSize := by omega
    exact wp_ret fun v he => ⟨trivial, .inr ⟨rfl, ((h.env he).store hx).2⟩⟩
  | succ fuel ih =>
    intro id lg w hid hfuel h
    rw [xferBlocksBy]
    split
    · rename_i hlt
      have hbounds := bounceBlocks_bounds hB (hsg.followable (x := x) hB hlt).fits.pos
      have hrem := hsg.remaining_eq (show id < sg.len / ns.blockSize by omega)
      refine wp_seq (p := nvmeBounceXfer ns (sg.block + id) (opBuf ns sg id) (remaining ns sg id) write)
        (wp_bounceXfer hB (remaining_le ns sg id) (fun _ => hsg.followable hB hlt) h)
        (fun _ _ hf => hf.elim) fun res v hv => ?_
      cases hv with
      | completed sf hsf hres hv =>
        obtain rfl := hok sf hsf
        rw [if_pos rfl] at hres
        rw [if_neg (by omega), hres, Int.toNat_natCast]
        refine ih _ _ v (by omega) (by omega) (hv.mono fun _ s hS => ?_)
        rw [MovedTo, if_pos rfl, move_piece (hsg.opBuf_eq hB.pos (by omega))] at hS
        exact hS
      | timedOut hres hv =>
        rw [if_pos (by omega)]
        exact wp_ret fun u hu => ⟨trivial, .inl (hv.env hu).timeout⟩
    · rename_i hdone
      obtain rfl : id = sg.len / ns.blockSize := by omega
      exact wp_ret fun v he => ⟨trivial, .inr ⟨rfl, ((h.env he).store hx).2⟩⟩

/-- DIRECT LOOP: as far as no wait gives up it succeeds just if it meets no stray block, and then
    moves the whole buffer. -/
theorem BlocksEnd.moved (hB : GoodBlock ns.blockSize) (hx : x.followed)
    (hok : ∀ sf, OkStatus x.mayFail sf → sf = 0) (hsg : Placed x.dev x.sys.nvmeDmaBuffer ns sg)
    (h : BlocksEnd x lg t ns sg write 0 rc v) (hlate : .timeout .io ∉ v.log) :
    (rc = 0 ↔ ∀ id, Visits ns sg 0 id → ¬ StrayAt ns sg id) ∧
      (rc = 0 → EqOff (Page x.sys.nvmeDmaBuffer) (move write t (sg.block * ns.blockSize) sg.addr
        (sg.len / ns.blockSize * ns.blockSize)) v.store) := by
  have hcnt := hsg.blockCount
  have hmost := hsg.most
  obtain ⟨ps, hf, hover⟩ := h
  cases hover with
  | hung _ hh => exact absurd hh.timeout hlate
  | resting hps hr =>
    have hmoved : ∀ p ∈ ps, p.sf = some 0 := pieces_moved hf.okStatus hok hps
    refine ⟨⟨?_, fun hclean => ?_⟩, ?_⟩
    · rintro rfl id hv
      exact (hf.visits hv).1
    · exact hf.ends (fun id hv =>
        ⟨hclean id hv, stride_pos hB hsg.request (by omega) hv.lt⟩) hmoved
    · rintro rfl
      have hlen : sg.len / ns.blockSize * ns.blockSize ≤ sg.len := Nat.div_mul_le_self ..
      have heff := (effect_moved hmoved).mp (hr.store hx).2
      have hstart : move write t (sg.block * ns.blockSize) sg.addr (0 * ns.blockSize) = t := by
        rw [Nat.zero_mul, move_zero]
      rw [← hstart, hf.allMoved hcnt (Nat.zero_le _) (by have := hsg.top; omega) hB.pos] at heff
      exact heff

/-! ### The comparison -/

theorem bounded_bounceLoop (ns : NvmeNamespace) (sg : Buf) (write : Bool) (cnt : Int) (fuel : Nat) :
    ∀ id, Bounded (508 * fuel) (xferBlocksBy (nvmeBounceXfer ns) ns sg write cnt fuel id) := by
  induction fuel with
  | zero =>
    intro id
    rw [xferBlocksBy]
    split
    · exact .halt
    · exact .ret
  | succ fuel ih =>
    intro id
    rw [xferBlocksBy]
    split
    · rw [Nat.mul_succ, Nat.add_comm]
      refine .bind (bounded_bounceXfer _ _ _ _) fun res => ?_
      split
      · exact .ret
      · exact ih _
    · exact .ret

theorem AtEase.wp_bounceLoop [Fact (Pow2 L)] [Fact (Pow2 C)] (h : AtEase L C w)
    (hB : GoodBlock ns.blockSize) (hsg : Placed w.dev w.sys.nvmeDmaBuffer ns sg) (hfuel : 65535 ≤ fuel) :
    Wp (Nvmec noFail) (fun _ => True) (bounceLoop ns sg write fuel)
      (fun rc v => .timeout .io ∈ v.log ∨ rc = 0 ∧ EqOff (Page w.sys.nvmeDmaBuffer)
        (move write w.store (sg.block * ns.blockSize) sg.addr
          (sg.len / ns.blockSize * ns.blockSize)) v.store)
      (fun _ _ => False) w := by
  have hmost := hsg.most
  refine Nvme.wp_bounceLoop (x := h.setting coded_noFail) hB trivial noFail_ok hsg fuel 0 _ w
    (Nat.zero_le _) (by omega) ((h.resting coded_noFail).mono fun _ s hS => ?_)
  rw [Nat.zero_mul, move_zero]
  exact hS

theorem AtEase.wp_directLoop [Fact (Pow2 L)] [Fact (Pow2 C)] (h : AtEase L C w)
    (hB : GoodBlock ns.blockSize) (hsg : Placed w.dev w.sys.nvmeDmaBuffer ns sg) (hfuel : 65535 ≤ fuel) :
    Wp (Nvmec noFail) (fun _ => True) (directLoop ns sg write fuel)
      (BlocksEnd (h.setting coded_noFail) (ledger w.log) w.store ns sg write 0)
      (fun _ _ => False) w :=
  wp_mono (wp_xferBlocks (x := h.setting coded_noFail) hB (fun _ => hsg) fuel 0 _ _ w
    (h.resting coded_noFail)) (fun _ h => h) (fun _ _ _ h => h)
    fun _ _ _ hshort => hshort.2 (hsg.enough hB hfuel)

/-- EXACT: both loops come to an end, and where no wait gives up they end alike just if the buffer is
    double-word aligned or each chunk of it crosses a page boundary. -/
theorem direct_agrees_iff {k : Nat} (hL : Pow2 L) (hC : Pow2 C) (h : AtEase L C w)
    (hk : ns.blockSize = 2 ^ k) (h9 : 9 ≤ k) (h12 : k ≤ 12) (_hmeta : ns.metadataSize = 0)
    (hsg : Placed w.dev w.sys.nvmeDmaBuffer ns sg) (hfuel : 65535 ≤ fuel) :
    Ends noFail (directLoop ns sg write fuel) w ∧ Ends noFail (bounceLoop ns sg write fuel) w ∧
      ∀ rc v rc' v', Steps (Nvmec noFail) w (directLoop ns sg write fuel) v (.ret rc) →
        Steps (Nvmec noFail) w (bounceLoop ns sg write fuel) v' (.ret rc') →
        .timeout .io ∉ v.log → .timeout .io ∉ v'.log →
        (Alike sg rc rc' v v' ↔ Transferable ns sg) := by
  have : Fact (Pow2 L) := ⟨hL⟩
  have : Fact (Pow2 C) := ⟨hC⟩
  obtain ⟨hB, hquad⟩ := goodBlock_pow hk h9 h12
  refine ⟨⟨⟨_, bounded_xferBlocks ..⟩, fun v e hs => (h.wp_directLoop hB hsg hfuel v _ hs).2⟩,
    ⟨⟨_, bounded_bounceLoop ..⟩, fun v e hs => (h.wp_bounceLoop hB hsg hfuel v _ hs).2⟩, ?_⟩
  intro rc v rc' v' hrun hrun' hlate hlate'
  obtain ⟨hiff, hmoved⟩ := BlocksEnd.moved hB trivial noFail_ok hsg
    (h.wp_directLoop hB hsg hfuel v _ hrun).2 hlate
  obtain ⟨hrc', hmoved'⟩ := (h.wp_bounceLoop hB hsg hfuel v' _ hrun').2.resolve_left hlate'
  rw [← hsg.transferable_iff hB hquad, ← hiff]
  refine ⟨fun ha => ha.direct, fun hrc => ⟨hrc, hrc', ?_, fun o ho => ?_⟩⟩
  all_goals have heq := (hmoved hrc).symm.trans hmoved'
  · exact heq.1
  · exact heq.2 _ (hsg.apart o ho)

/-! ### A block at a half-word address -/

/-- Block 5, to be read to 0x100002. -/
def oddBuf : Buf := ⟨5, 0x100002, 512⟩

def directRun (sg : Buf) (schedule : List (Option Move)) : World × Drv Int :=
  follow (nvmeMove noFail) schedule sampleWorld (directLoop sampleNs sg false 65535)

def bouncedRun (sg : Buf) : World × Drv Int :=
  follow (nvmeMove noFail) (none :: oneCommand .io ++ [none]) sampleWorld
    (bounceLoop sampleNs sg false 65535)

theorem oddBuf_placed : Placed sampleDevice sampleSys.nvmeDmaBuffer sampleNs oddBuf where
  serves := ⟨rfl, rfl, rfl, by decide⟩
  request := by decide
  most := Nat.le_of_lt_succ (show 512 / 512 < 65536 by decide)
  top := by decide
  bits := by decide
  dmaTop := by decide
  apart o ho := by
    change o < 512 at ho
    change ¬ (0x200000 ≤ 0x100002 + o ∧ 0x100002 + o < 0x200000 + 4096)
    omega

/-- The direct loop refuses what the bounce loop reads. -/
theorem misaligned_refused : Placed sampleDevice sampleSys.nvmeDmaBuffer sampleNs oddBuf ∧
    Steps (Nvmec noFail) sampleWorld (directLoop sampleNs oddBuf false 65535)
      (directRun oddBuf [none]).1 (.ret (-1)) ∧
    Steps (Nvmec noFail) sampleWorld (bounceLoop sampleNs oddBuf false 65535)
      (bouncedRun oddBuf).1 (.ret 0) ∧
    .timeout .io ∉ (directRun oddBuf [none]).1.log ∧ .timeout .io ∉ (bouncedRun oddBuf).1.log ∧
    ¬ Alike oddBuf (-1) 0 (directRun oddBuf [none]).1 (bouncedRun oddBuf).1 :=
  ⟨oddBuf_placed, follow_ret (by decide +kernel) fun _ _ h => h,
    follow_ret (by decide +kernel) fun _ _ h => h, by decide +kernel, by decide +kernel,
    fun ha => absurd ha.direct (by decide)⟩

theorem direct_agrees_iff_sample :
    Alike (sampleBuf 5 0) 0 0 (directRun (sampleBuf 5 0) (oneCommand .io)).1
        (bouncedRun (sampleBuf 5 0)).1 ↔ Transferable sampleNs (sampleBuf 5 0) :=
  (direct_agrees_iff pow2_two pow2_four (freshWorld_atEase sampleSqLen_pow sampleCqLen_pow rfl _ _)
    rfl (le_refl 9) (by decide) rfl (sampleBuf_sound (by decide) (by decide)).placed (le_refl _)).2.2 _ _ _ _
    (follow_ret (by decide +kernel) fun _ _ h => h) (follow_ret (by decide +kernel) fun _ _ h => h)
    (by decide +kernel) (by decide +kernel)

end Nvme
