import NvmeDisk.Transfer.Cut

/-! What a request moves when every command of it succeeds: its buffers as the block loop cuts them, up
    to the first piece that is refused. This depends on the request and the namespace alone. -/

namespace Nvme
open Ring Resume Bytes BlockDev

/-- The pieces of one buffer from block `id` on, and whether they reach its end. -/
def carriedBlocks (ns : NvmeNamespace) (sg : Buf) : Nat → Nat → List Buf × Bool
  | 0, _ => ([], true)
  | fuel + 1, id =>
    if (id : Int) < blockCount ns sg then
      if StrayAt ns sg id then ([], false)
      else
        let rest := carriedBlocks ns sg fuel (id + stride ns sg id)
        (⟨sg.block + id, opBuf ns sg id, stride ns sg id * ns.blockSize⟩ :: rest.1, rest.2)
    else ([], true)

/-- The pieces of a request, and whether it is carried out to its end. -/
def carried (ns : NvmeNamespace) : List Buf → List Buf × Bool
  | [] => ([], true)
  | sg :: bufs =>
    let r := carriedBlocks ns sg (sg.len / ns.blockSize) 0
    if r.2 then (r.1 ++ (carried ns bufs).1, (carried ns bufs).2) else r

variable {mayFail : Nat → Bool} {ns : NvmeNamespace} {sg : Buf} {id fuel dma : Nat} {d : Device}
  {ps : List Piece} {bufs : List Buf} {gs : List (Buf × List Piece)} {rc : Int}

/-- Commands that all succeed take the block loop as far as it gets. -/
theorem Follows.carriedBlocks (h : Follows mayFail ns sg id ps rc) (hps : ∀ p ∈ ps, p.sf = some 0)
    (hpos : ∀ id : Nat, (id : Int) < blockCount ns sg → 1 ≤ stride ns sg id)
    (hfuel : blockCount ns sg ≤ id + fuel) :
    Nvme.carriedBlocks ns sg fuel id = (ps.map (Piece.buf ns.blockSize), decide (rc = 0)) := by
  induction h generalizing fuel with
  | done hle =>
    cases fuel with
    | zero => rfl
    | succ fuel =>
      rw [Nvme.carriedBlocks, if_neg (by omega)]
      rfl
  | stray hid hs =>
    cases fuel with
    | zero => omega
    | succ fuel =>
      rw [Nvme.carriedBlocks, if_pos hid, if_pos hs]
      rfl
  | late _ _ => cases hps _ (List.mem_singleton.mpr rfl)
  | error _ _ _ hsf =>
    have := hps _ (List.mem_singleton.mpr rfl)
    cases this
    exact absurd rfl hsf
  | @next id sf ps rc hid hs _ _ _ ih =>
    cases fuel with
    | zero => omega
    | succ fuel =>
      have hstride := hpos id hid
      have hrest := ih (fun p hp => hps p (List.mem_cons_of_mem _ hp))
        (show blockCount ns sg ≤ (id + stride ns sg id : Nat) + fuel by omega)
      rw [Nvme.carriedBlocks, if_pos hid, if_neg hs, hrest]
      rfl

/-- Commands that all succeed carry out what `carried` says. -/
theorem FollowsBufs.carried (h : FollowsBufs mayFail ns bufs gs rc)
    (hps : ∀ p ∈ pieces gs, p.sf = some 0) (hB : GoodBlock ns.blockSize)
    (hbufs : ∀ sg ∈ bufs, Placed d dma ns sg) :
    Nvme.carried ns bufs = ((pieces gs).map (Piece.buf ns.blockSize), decide (rc = 0)) := by
  have hone : ∀ {sg ps rc}, Placed d dma ns sg → Follows mayFail ns sg 0 ps rc →
      (∀ p ∈ ps, p.sf = some 0) → Nvme.carriedBlocks ns sg (sg.len / ns.blockSize) 0 =
        (ps.map (Piece.buf ns.blockSize), decide (rc = 0)) := by
    intro sg ps rc hsg hf hps
    have hcnt := hsg.blockCount
    have hmost := hsg.most
    exact hf.carriedBlocks hps (fun id hid => stride_pos hB hsg.request (by omega) hid) (by omega)
  induction h with
  | nil => rfl
  | @stop sg bufs ps hf =>
    rw [pieces, List.flatMap_singleton] at hps ⊢
    rw [Nvme.carried, hone (hbufs sg (List.mem_cons_self ..)) hf hps]
    rfl
  | @next sg bufs ps gs rc hf _ ih =>
    rw [pieces_cons] at hps ⊢
    rw [Nvme.carried, hone (hbufs sg (List.mem_cons_self ..)) hf
        fun p hp => hps p (List.mem_append_left _ hp),
      ih (fun p hp => hps p (List.mem_append_right _ hp)) fun b hb => hbufs b (List.mem_cons_of_mem _ hb),
      List.map_append]
    rfl

/-! ### Within the request -/

/-- A piece `b` of the buffer `sg`. -/
structure PartOf (B : Nat) (b sg : Buf) : Prop where
  addr : sg.addr ≤ b.addr
  addrEnd : b.addr + b.len ≤ sg.addr + sg.len
  pos : sg.block * B ≤ b.block * B
  posEnd : b.block * B + b.len ≤ sg.block * B + sg.len

theorem Placed.carriedBlocks_within (h : Placed d dma ns sg) (hB : GoodBlock ns.blockSize) :
    ∀ fuel id, ∀ b ∈ (carriedBlocks ns sg fuel id).1, PartOf ns.blockSize b sg := by
  have hlen : sg.len / ns.blockSize * ns.blockSize ≤ sg.len := Nat.div_mul_le_self ..
  intro fuel
  induction fuel with
  | zero => simp [carriedBlocks]
  | succ fuel ih =>
    intro id b hb
    rw [carriedBlocks] at hb
    split at hb
    · rename_i hid
      have hcnt := h.blockCount
      have haddr := h.opBuf_eq hB.pos (show id < sg.len / ns.blockSize by omega)
      have hstride := stride_le hid
      split at hb
      · simp at hb
      · rcases List.mem_cons.mp hb with rfl | hb
        · have hend : (id + stride ns sg id) * ns.blockSize ≤ sg.len :=
            (Nat.mul_le_mul_right _ (by omega)).trans hlen
          rw [Nat.add_mul] at hend
          refine ⟨?_, ?_, Nat.mul_le_mul_right _ (Nat.le_add_right ..), ?_⟩
          · dsimp only
            omega
          · dsimp only
            omega
          · dsimp only
            rw [Nat.add_mul]
            omega
        · exact ih _ b hb
    · simp at hb

/-- What is moved lies within the buffers of the request. -/
theorem carried_within (hB : GoodBlock ns.blockSize) : ∀ bufs : List Buf,
    (∀ sg ∈ bufs, Placed d dma ns sg) → ∀ b ∈ (carried ns bufs).1,
      ∃ sg ∈ bufs, PartOf ns.blockSize b sg
  | [], _, b, hb => by simp [carried] at hb
  | sg :: bufs, hbufs, b, hb => by
    have hsg := (hbufs sg (List.mem_cons_self ..)).carriedBlocks_within hB (sg.len / ns.blockSize) 0
    rw [carried] at hb
    split at hb
    · rcases List.mem_append.mp hb with hb | hb
      · exact ⟨sg, List.mem_cons_self .., hsg b hb⟩
      · obtain ⟨g, hg, hin⟩ := carried_within hB bufs
          (fun b hb => hbufs b (List.mem_cons_of_mem _ hb)) b hb
        exact ⟨g, List.mem_cons_of_mem _ hg, hin⟩
    · exact ⟨sg, List.mem_cons_self .., hsg b hb⟩

end Nvme
