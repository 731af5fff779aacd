import NvmeDisk.Transfer.Plan

/-! `nvmedisk_read` and `nvmedisk_write` on a resting queue: in every interleaving the two loops follow
    the plan of `Plan`, the account shows its pieces, and, where memory is followed, memory and disk
    are what the pieces make of them. -/

namespace Nvme
open Ring Resume Bytes BlockDev

/-- What it takes to follow memory and disk through a whole buffer, the bounce page being at `dma`. -/
structure Sound (d : Device) (dma : Nat) (ns : NvmeNamespace) (sg : Buf) : Prop where
  serves : Serves ns d
  quad : ns.blockSize % 4 = 0
  request : 1 ≤ ns.maxReqSize
  whole : ns.blockSize ∣ sg.len
  most : sg.len / ns.blockSize ≤ 65535
  align : sg.addr % 4 = 0
  top : sg.addr + sg.len ≤ 4294967296
  range : sg.block + sg.len / ns.blockSize ≤ ns.lbaCount
  dmaTop : dma + 4096 ≤ 4294967296
  apart : ∀ o < sg.len, ¬ Page dma (sg.addr + o)

/-- The same of a buffer that may be misaligned, of a length that is no multiple of the block size and
    anywhere on the disk or past its end. -/
structure Placed (d : Device) (dma : Nat) (ns : NvmeNamespace) (sg : Buf) : Prop where
  serves : Serves ns d
  request : 1 ≤ ns.maxReqSize
  most : sg.len / ns.blockSize ≤ 65535
  top : sg.addr + sg.len ≤ 4294967296
  bits : sg.block + sg.len / ns.blockSize ≤ 18446744073709551616
  dmaTop : dma + 4096 ≤ 4294967296
  apart : ∀ o < sg.len, ¬ Page dma (sg.addr + o)

theorem Sound.placed {d : Device} {dma : Nat} {ns : NvmeNamespace} {sg : Buf}
    (h : Sound d dma ns sg) : Placed d dma ns sg :=
  { h with bits := h.range.trans h.serves.lbaBits }

section
variable (x : Setting) (lg : List Item) (S : Store → Prop) (ps : List Piece)

/-- The driver is through with pieces `ps`: the queue rests, or its last command was given up on. -/
inductive Over (w : World) : Prop where
  | resting : (∀ p ∈ ps, p.sf ≠ none) → Resting x lg S w → Over w
  | hung : (∃ p ∈ ps, p.sf = none) → Hung x lg S w → Over w

end

variable {x : Setting} {lg : List Item} {S S' : Store → Prop} {ps : List Piece} {w v : World}
  {t : Store} {ns : NvmeNamespace} {sg : Buf} {write : Bool} {rc : Int} {id fuel : Nat}

theorem Over.env (h : Over x lg S ps w) (he : Env (Nvmec x.mayFail) w v) : Over x lg S ps v := by
  cases h with
  | resting hps h => exact .resting hps (h.env he)
  | hung hps h => exact .hung hps (h.env he)

theorem Over.ledger (h : Over x lg S ps w) : Nvme.ledger w.log = lg := by
  cases h with
  | resting _ h => exact h.ledger
  | hung _ h => exact h.ledger

theorem Over.store (h : Over x lg S ps w) (hx : x.followed) : S w.store := by
  cases h with
  | resting _ h => exact (h.store hx).2
  | hung _ h => exact h.store hx

/-- One piece before, which was completed. -/
theorem Over.cons {p : Piece} (h : Over x lg S ps w) (hp : p.sf ≠ none)
    (hS : x.followed → ∀ s, S s → S' s) : Over x lg S' (p :: ps) w := by
  cases h with
  | resting hps h => exact .resting (List.forall_mem_cons.mpr ⟨hp, hps⟩) (h.mono hS)
  | hung hps h =>
    obtain ⟨q, hq, hsf⟩ := hps
    exact .hung ⟨q, List.mem_cons_of_mem _ hq, hsf⟩ (h.mono hS)

/-! ### Blocks -/

/-- The block count in whole numbers. -/
theorem Placed.blockCount {d : Device} {dma : Nat} (h : Placed d dma ns sg) :
    blockCount ns sg = (sg.len / ns.blockSize : Nat) :=
  blockCount_eq (h.most.trans_lt (by decide))

/-- The 16 bits of `blocks_remaining` hold what is left. -/
theorem Placed.remaining_eq {d : Device} {dma : Nat} (h : Placed d dma ns sg)
    (hid : id < sg.len / ns.blockSize) : remaining ns sg id = sg.len / ns.blockSize - id := by
  have := h.most
  rw [remaining, h.blockCount, Int.emod_eq_of_lt (by omega) (by omega)]
  omega

/-- No address of the buffer wraps. -/
theorem Placed.opBuf_eq {d : Device} {dma : Nat} (h : Placed d dma ns sg) (hB : 0 < ns.blockSize)
    (hid : id < sg.len / ns.blockSize) : opBuf ns sg id = sg.addr + id * ns.blockSize := by
  have hlen : sg.len / ns.blockSize * ns.blockSize ≤ sg.len := Nat.div_mul_le_self ..
  have hlt := Nat.mul_lt_mul_of_pos_right hid hB
  have htop := h.top
  exact Nat.mod_eq_of_lt (by omega)

theorem Placed.followable (h : Placed x.dev x.sys.nvmeDmaBuffer ns sg) (hB : GoodBlock ns.blockSize)
    (hid : (id : Int) < Nvme.blockCount ns sg) :
    Followable x ns (sg.block + id) (opBuf ns sg id) (remaining ns sg id) := by
  have hcnt := h.blockCount
  rw [hcnt] at hid
  have hrem := h.remaining_eq (show id < sg.len / ns.blockSize by omega)
  have hlen : sg.len / ns.blockSize * ns.blockSize ≤ sg.len := Nat.div_mul_le_self ..
  have hsplit : id * ns.blockSize + (sg.len / ns.blockSize - id) * ns.blockSize =
      sg.len / ns.blockSize * ns.blockSize := by
    rw [← Nat.add_mul, Nat.add_sub_cancel' (by omega)]
  have hpos := Nat.mul_pos (show 0 < sg.len / ns.blockSize - id by omega) hB.pos
  have htop := h.top
  have haddr := h.opBuf_eq hB.pos (show id < sg.len / ns.blockSize by omega)
  have hbits := h.bits
  rw [haddr, hrem]
  exact {
    serves := h.serves
    request := h.request
    bits := by omega
    fits := {
      block := hB
      pos := by omega
      most := (Nat.sub_le ..).trans h.most
      top := by omega
      dmaPage := x.dmaPage
      dmaTop := h.dmaTop
      apart := fun o ho => by
        rw [Nat.add_assoc]
        exact h.apart _ (by omega) } }

/-- The loop has fuel for every block left, and every piece has a block. -/
def Enough (ns : NvmeNamespace) (sg : Buf) (fuel id : Nat) : Prop :=
  blockCount ns sg ≤ id + fuel ∧ ∀ id', Visits ns sg id id' → 1 ≤ stride ns sg id'

section
variable (x : Setting) (lg : List Item) (t : Store) (ns : NvmeNamespace) (sg : Buf) (write : Bool)

/-- How the block loop ends, begun at block `id`. -/
def BlocksEnd (id : Nat) (rc : Int) (w : World) : Prop :=
  ∃ ps, Follows x.mayFail ns sg id ps rc ∧
    Over x (onTop ((ps.map (Piece.cmd write)).reverse ++ ·) lg)
      (Effect (Page x.sys.nvmeDmaBuffer) write ns.blockSize t ps) ps w

end

/-- No piece at all. -/
theorem BlocksEnd.none (hf : Follows x.mayFail ns sg id [] rc)
    (h : Resting x lg (EqOff (Page x.sys.nvmeDmaBuffer) t) w) :
    BlocksEnd x lg t ns sg write id rc w := by
  refine ⟨[], hf, .resting (by simp) ?_⟩
  have hlg : onTop (([].map (Piece.cmd write)).reverse ++ ·) lg = lg := onTop_nil lg
  rwa [hlg]

/-- One piece more, after which the loop goes on. -/
theorem BlocksEnd.cons {sf : Nat} (hid : (id : Int) < blockCount ns sg) (hs : ¬ StrayAt ns sg id)
    (hok : OkStatus x.mayFail sf) (hsf : sf % 256 = 0)
    (h : BlocksEnd x (onTop ((pieceAt ns sg id (some sf)).cmd write :: ·) lg)
      (move write t ((sg.block + id) * ns.blockSize) (opBuf ns sg id) (stride ns sg id * ns.blockSize))
      ns sg write (id + stride ns sg id) rc w) :
    BlocksEnd x lg t ns sg write id rc w := by
  obtain ⟨ps, hf, ho⟩ := h
  refine ⟨_, .next hid hs hok hsf hf, ?_⟩
  have hlg : onTop (((pieceAt ns sg id (some sf) :: ps).map (Piece.cmd write)).reverse ++ ·) lg =
      onTop ((ps.map (Piece.cmd write)).reverse ++ ·)
        (onTop ((pieceAt ns sg id (some sf)).cmd write :: ·) lg) := by
    rw [onTop_onTop]
    simp only [List.map_cons, List.reverse_cons, List.append_assoc, List.singleton_append]
  rw [hlg]
  refine ho.cons (by simp) fun hx s hs => ?_
  rw [Effect, if_pos (by rw [pieceAt, x.success hx hok hsf])]
  exact hs

/-- A piece whose command did not succeed ends the loop. -/
theorem effect_last {sf : Option Nat} {s : Store} (hsf : sf ≠ some 0)
    (h : TornOff (Page x.sys.nvmeDmaBuffer) write t ((sg.block + id) * ns.blockSize) (opBuf ns sg id)
      (stride ns sg id * ns.blockSize) s) :
    Effect (Page x.sys.nvmeDmaBuffer) write ns.blockSize t [pieceAt ns sg id sf] s := by
  rw [Effect, if_neg (show (pieceAt ns sg id sf).sf ≠ some 0 from hsf)]
  exact h

/-- BLOCK LOOP: it follows the plan, and has fuel enough for a buffer of at most 65535 blocks. -/
theorem wp_xferBlocks (hB : GoodBlock ns.blockSize)
    (hplaced : x.followed → Placed x.dev x.sys.nvmeDmaBuffer ns sg) :
    ∀ (fuel id : Nat) (t : Store) (lg : List Item) (w : World),
      Resting x lg (EqOff (Page x.sys.nvmeDmaBuffer) t) w →
      Wp (Nvmec x.mayFail) (fun _ => True) (xferBlocks ns sg write (blockCount ns sg) fuel id)
        (BlocksEnd x lg t ns sg write id) (fun e _ => e = .fuel ∧ ¬ Enough ns sg fuel id) w := by
  intro fuel
  induction fuel with
  | zero =>
    intro id t lg w h
    rw [xferBlocks]
    split
    · refine wp_halt fun v he => ⟨trivial, rfl, ?_⟩
      rintro ⟨hfuel, _⟩
      omega
    · refine wp_ret fun v he => ⟨trivial, .none (.done (by omega)) (h.env he)⟩
  | succ fuel ih =>
    intro id t lg w h
    rw [xferBlocks]
    split
    · rename_i hid
      refine wp_seq (wp_prplXfer hB (remaining_le ns sg id)
        (fun hx => (hplaced hx).followable hB hid) h) (fun _ _ hf => hf.elim) fun res v hv => ?_
      cases hv with
      | stray hs hres hv =>
        rw [if_pos (by omega)]
        exact wp_ret fun u hu => ⟨trivial, .none (.stray hid hs) (hv.env hu)⟩
      | command hs hv =>
        cases hv with
        | completed sf hok hres hv =>
          by_cases hsf : sf % 256 = 0
          · rw [if_pos hsf] at hres
            rw [if_neg (by omega), hres, Int.toNat_natCast]
            have hnext : Resting x (onTop ((pieceAt ns sg id (some sf)).cmd write :: ·) lg)
                (EqOff (Page x.sys.nvmeDmaBuffer) (move write t ((sg.block + id) * ns.blockSize)
                  (opBuf ns sg id) (stride ns sg id * ns.blockSize))) v := hv.mono fun hx s hS => by
              rw [MovedTo, if_pos (x.success hx hok hsf)] at hS
              exact hS
            refine wp_mono (ih (id + stride ns sg id) _ _ v hnext) (fun _ _ => trivial)
              (fun rc u _ hu => hu.cons hid hs hok hsf) fun e u _ hu => ⟨hu.1, fun henough => ?_⟩
            obtain ⟨hfuel, hmoves⟩ := henough
            have := hmoves id (.here hid)
            exact hu.2 ⟨by omega, fun id' hv => hmoves id' (.next hid hv)⟩
          · rw [if_neg hsf] at hres
            rw [if_pos (by omega)]
            refine wp_ret fun u hu => ⟨trivial, _, .error hid hs hok hsf,
              .resting (by simp [pieceAt]) ((hv.env hu).mono fun _ s hS => ?_)⟩
            rw [MovedTo, if_neg fun h0 => hsf (by rw [h0])] at hS
            exact effect_last (fun h0 => hsf (by cases h0; rfl)) hS
        | timedOut hres hv =>
          rw [if_pos (by omega)]
          exact wp_ret fun u hu => ⟨trivial, _, .late hid hs, .hung ⟨_, List.mem_cons_self .., rfl⟩
            ((hv.env hu).mono fun _ s hS => effect_last (by simp) hS)⟩
    · exact wp_ret fun v he => ⟨trivial, .none (.done (by omega)) (h.env he)⟩

/-! ### Buffers -/

/-- A buffer and its pieces, as the account has them. -/
def itemOf (write : Bool) (g : Buf × List Piece) : Item :=
  .buf g.1 (g.2.map (Piece.cmd write)).reverse

/-- All pieces, in order. -/
def pieces (gs : List (Buf × List Piece)) : List Piece := gs.flatMap (·.2)

@[simp] theorem pieces_nil : pieces [] = [] := rfl

@[simp] theorem pieces_cons (g : Buf × List Piece) (gs : List (Buf × List Piece)) :
    pieces (g :: gs) = g.2 ++ pieces gs := rfl

section
variable (x : Setting) (lg : List Item) (t : Store) (ns : NvmeNamespace) (bufs : List Buf)
  (write : Bool)

/-- How the buffer loop ends. -/
def BufsEnd (rc : Int) (w : World) : Prop :=
  ∃ gs, FollowsBufs x.mayFail ns bufs gs rc ∧
    Over x ((gs.map (itemOf write)).reverse ++ lg)
      (Effect (Page x.sys.nvmeDmaBuffer) write ns.blockSize t (pieces gs)) (pieces gs) w

end

variable {bufs : List Buf} {gs : List (Buf × List Piece)}

/-- Pieces before, which were completed. -/
theorem Over.append {qs : List Piece} (h : Over x lg S ps w) (hqs : ∀ q ∈ qs, q.sf ≠ none)
    (hS : x.followed → ∀ s, S s → S' s) : Over x lg S' (qs ++ ps) w := by
  cases h with
  | resting hps h =>
    refine .resting (fun p hp => ?_) (h.mono hS)
    rcases List.mem_append.mp hp with hp | hp
    · exact hqs p hp
    · exact hps p hp
  | hung hps h =>
    obtain ⟨q, hq, hsf⟩ := hps
    exact .hung ⟨q, List.mem_append_right _ hq, hsf⟩ (h.mono hS)

/-- A finished block loop leaves the queue resting. -/
theorem Follows.resting (hf : Follows x.mayFail ns sg id ps 0) (h : Over x lg S ps w) :
    Resting x lg S w := by
  cases h with
  | resting _ h => exact h
  | hung hps h =>
    obtain ⟨p, hp, hsf⟩ := hps
    obtain ⟨_, hsf', _⟩ := hf.completed p hp
    rw [hsf] at hsf'
    cases hsf'

/-- Where memory is followed, the pieces of a finished block loop are all moved. -/
theorem Follows.zero (hf : Follows x.mayFail ns sg id ps 0) (hx : x.followed) :
    ∀ p ∈ ps, p.sf = some 0 := by
  intro p hp
  obtain ⟨sf, hsf, hok, hmod⟩ := hf.completed p hp
  rw [hsf, x.success hx hok hmod]

/-- A finished buffer loop gave no command up. -/
theorem FollowsBufs.completed (hf : FollowsBufs x.mayFail ns bufs gs 0) :
    ∀ p ∈ pieces gs, p.sf ≠ none := by
  generalize hrc : (0 : Int) = rc at hf
  induction hf with
  | nil => simp [pieces]
  | stop _ => cases hrc
  | next hf _ ih =>
    intro p hp hnone
    rcases List.mem_append.mp hp with hp | hp
    · obtain ⟨_, hsf, _⟩ := hf.completed p hp
      rw [hnone] at hsf
      cases hsf
    · exact ih hrc p hp hnone

/-- On a walk without stray blocks, commands that all succeed take the block loop to its end. -/
theorem Follows.ends (h : Follows x.mayFail ns sg id ps rc)
    (hwalk : ∀ id', Visits ns sg id id' → ¬ StrayAt ns sg id' ∧ 1 ≤ stride ns sg id')
    (hps : ∀ p ∈ ps, p.sf = some 0) : rc = 0 := by
  induction h with
  | done _ => rfl
  | stray hid hs => exact absurd hs (hwalk _ (.here hid)).1
  | late _ _ => cases hps _ (List.mem_singleton.mpr rfl)
  | error _ _ _ hsf =>
    have := hps _ (List.mem_singleton.mpr rfl)
    cases this
    exact absurd rfl hsf
  | next hid _ _ _ _ ih =>
    obtain ⟨_, hrest⟩ := List.forall_mem_cons.mp hps
    exact ih (fun id' hv => hwalk id' (.next hid hv)) hrest

theorem FollowsBufs.ends (h : FollowsBufs x.mayFail ns bufs gs rc)
    (hwalk : ∀ sg ∈ bufs, ∀ id, Visits ns sg 0 id → ¬ StrayAt ns sg id ∧ 1 ≤ stride ns sg id)
    (hps : ∀ p ∈ pieces gs, p.sf = some 0) : rc = 0 := by
  induction h with
  | nil => rfl
  | @stop sg bufs ps hf =>
    rw [pieces, List.flatMap_singleton] at hps
    exact hf.ends (hwalk sg (List.mem_cons_self ..)) hps
  | @next sg bufs ps gs rc hf _ ih =>
    rw [pieces, List.flatMap_cons] at hps
    exact ih (fun b hb => hwalk b (List.mem_cons_of_mem _ hb))
      fun p hp => hps p (List.mem_append_right _ hp)

/-- BUFFER LOOP: it follows the plan. -/
theorem wp_xferBufs (hB : GoodBlock ns.blockSize) : ∀ (bufs : List Buf) (t : Store) (lg : List Item)
    (w : World), (x.followed → ∀ sg ∈ bufs, Placed x.dev x.sys.nvmeDmaBuffer ns sg) →
    Resting x lg (EqOff (Page x.sys.nvmeDmaBuffer) t) w →
    Wp (Nvmec x.mayFail) (fun _ => True) (xferBufs ns write fuel bufs)
      (BufsEnd x lg t ns bufs write)
      (fun e _ => e = .fuel ∧ ¬ ∀ sg ∈ bufs, Enough ns sg fuel 0) w := by
  intro bufs
  induction bufs with
  | nil =>
    intro t lg w _ h
    exact wp_ret fun v he => ⟨trivial, [], .nil, .resting (by simp [pieces]) (h.env he)⟩
  | cons sg bufs ih =>
    intro t lg w hplaced h
    rw [xferBufs]
    refine wp_modify_bind fun v he => ⟨trivial, ?_⟩
    have hv := h.env he
    have hnote : Resting x (.buf sg [] :: lg) (EqOff (Page x.sys.nvmeDmaBuffer) t)
        (v.note (.sg sg)) :=
      { hv with ledger := congrArg (Item.buf sg [] :: ·) hv.ledger }
    refine wp_seq (wp_xferBlocks hB (fun hx => hplaced hx sg (List.mem_cons_self ..)) fuel 0 t _ _
      hnote) (fun e _ hf => ⟨hf.1, fun hall => hf.2 (hall sg (List.mem_cons_self ..))⟩)
      fun rc u hu => ?_
    obtain ⟨ps, hf, ho⟩ := hu
    rcases hf.result with rfl | rfl
    · rw [if_neg (by decide)]
      have hrest := hf.resting ho
      have hstart : Resting x (itemOf write (sg, ps) :: lg) (EqOff (Page x.sys.nvmeDmaBuffer)
          (allMoved write ns.blockSize t ps)) u := by
        have := hrest.mono fun hx s hS => (effect_moved (hf.zero hx)).mp hS
        simpa [onTop, itemOf] using this
      refine wp_mono (ih _ _ u (fun hx b hb => hplaced hx b (List.mem_cons_of_mem _ hb)) hstart)
        (fun _ _ => trivial) (fun rc z _ hz => ?_)
        fun e z _ hz => ⟨hz.1, fun hall => hz.2 fun b hb => hall b (List.mem_cons_of_mem _ hb)⟩
      obtain ⟨gs, hfs, hos⟩ := hz
      refine ⟨(sg, ps) :: gs, .next hf hfs, ?_⟩
      have hlg : (((sg, ps) :: gs).map (itemOf write)).reverse ++ lg =
          (gs.map (itemOf write)).reverse ++ (itemOf write (sg, ps) :: lg) := by simp
      rw [hlg, pieces, List.flatMap_cons]
      refine hos.append (fun p hp hnone => ?_) fun hx s hS => (effect_append (hf.zero hx)).mpr hS
      obtain ⟨_, hsf, _⟩ := hf.completed p hp
      rw [hnone] at hsf
      cases hsf
    · rw [if_pos (by decide)]
      refine wp_ret fun z hz => ⟨trivial, [(sg, ps)], .stop hf, ?_⟩
      have := ho.env hz
      simpa [onTop, itemOf, pieces] using this

/-! ### The request -/

section
variable (x : Setting) (lg : List Item) (t : Store) (ns : NvmeNamespace) (req : BlkdevRequest)
  (write : Bool)

/-- How a request ends: its notification, if the loops came to their end. -/
def RequestEnd (rc : Int) (w : World) : Prop :=
  ∃ gs, FollowsBufs x.mayFail ns req.bufs gs rc ∧
    Over x ((if rc = 0 then [.done req.id .successful] else []) ++
        ((gs.map (itemOf write)).reverse ++ lg))
      (Effect (Page x.sys.nvmeDmaBuffer) write ns.blockSize t (pieces gs)) (pieces gs) w

end

/-- REQUEST RULE: `nvmedisk_read` and `nvmedisk_write` from a resting queue. -/
theorem wp_nvmediskXfer (hB : GoodBlock ns.blockSize) (nvmed : Nvmedisk) (req : BlkdevRequest)
    (hplaced : x.followed → ∀ sg ∈ req.bufs, Placed x.dev x.sys.nvmeDmaBuffer ns sg)
    (h : Resting x lg (EqOff (Page x.sys.nvmeDmaBuffer) t) w) :
    Wp (Nvmec x.mayFail) (fun _ => True) (nvmediskXfer ns write fuel nvmed req)
      (RequestEnd x lg t ns req write)
      (fun e _ => e = .fuel ∧ ¬ ∀ sg ∈ req.bufs, Enough ns sg fuel 0) w := by
  refine wp_seq (wp_xferBufs hB req.bufs t lg w hplaced h) (fun _ _ hf => hf) fun rc v hv => ?_
  obtain ⟨gs, hf, ho⟩ := hv
  rcases hf.result with rfl | rfl
  · rw [if_neg (by decide)]
    refine wp_modify_bind fun u hu => ⟨trivial, wp_ret fun z hz => ⟨trivial, gs, hf, ?_⟩⟩
    refine Over.env ?_ hz
    cases ho.env hu with
    | resting hps hr =>
      exact .resting hps { hr with ledger := congrArg (Item.done req.id .successful :: ·) hr.ledger }
    | hung hps hh =>
      obtain ⟨p, hp, hsf⟩ := hps
      exact absurd hsf (hf.completed p hp)
  · rw [if_pos (by decide)]
    exact wp_ret fun u hu => ⟨trivial, gs, hf, ho.env hu⟩

end Nvme
