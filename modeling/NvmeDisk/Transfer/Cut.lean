import NvmeDisk.Transfer.Request

/-! The pieces of a request as ranges of blocks. Within a buffer they follow one another without gap
    or overlap, from its first block on; the buffers come in the order of the request, and only the
    last one turned to may be incomplete. -/

namespace Nvme
open BlockDev

/-- The blocks of a piece, as a buffer of their own. -/
def Piece.buf (B : Nat) (p : Piece) : Buf := ⟨p.lba, p.addr, p.n * B⟩

theorem allMoved_eq (write : Bool) (B : Nat) (t : Store) (ps : List Piece) :
    allMoved write B t ps = serve B write t (ps.map (Piece.buf B)) := by
  rw [allMoved, serve, List.foldl_map]
  rfl

/-- The pieces are blocks of `sg` from block `id` on, in order and without a gap. -/
def Cut (B : Nat) (sg : Buf) : Nat → List Piece → Prop
  | _, [] => True
  | id, p :: ps => (p.lba = sg.block + id ∧ p.addr = sg.addr + id * B ∧ 1 ≤ p.n ∧
      (id + p.n) * B ≤ sg.len) ∧ Cut B sg (id + p.n) ps

def blocks (ps : List Piece) : Nat := (ps.map Piece.n).sum

/-- The pieces are the blocks of the buffers, in the order of the request, up to some point. -/
structure InOrder (B : Nat) (bufs : List Buf) (gs : List (Buf × List Piece)) : Prop where
  bufs : gs.map (·.1) <+: bufs
  cut : ∀ g ∈ gs, Cut B g.1 0 g.2
  whole : ∀ g ∈ gs.dropLast, blocks g.2 * B = g.1.len

variable {B dma id n : Nat} {sg : Buf} {ps : List Piece} {p : Piece} {mayFail : Nat → Bool}
  {ns : NvmeNamespace} {bufs : List Buf} {gs : List (Buf × List Piece)} {rc : Int} {d : Device}
  {write : Bool} {t : Store}

/-! ### One buffer -/

theorem Cut.within (h : Cut B sg id ps) (hp : p ∈ ps) :
    sg.addr + id * B ≤ p.addr ∧ p.addr + p.n * B ≤ sg.addr + sg.len := by
  induction ps generalizing id with
  | nil => cases hp
  | cons q ps ih =>
    obtain ⟨⟨_, haddr, _, hlen⟩, hps⟩ := h
    rw [Nat.add_mul] at hlen
    rcases List.mem_cons.mp hp with rfl | hp
    · omega
    · have := ih hps hp
      rw [Nat.add_mul] at this
      omega

theorem Cut.disjoint (h : Cut B sg id ps) : Disjoint (ps.map (Piece.buf B)) := by
  induction ps generalizing id with
  | nil => exact .nil
  | cons p ps ih =>
    obtain ⟨⟨_, haddr, _, _⟩, hps⟩ := h
    refine .cons (fun b hb => ?_) (ih hps)
    obtain ⟨q, hq, rfl⟩ := List.mem_map.mp hb
    have hafter := (hps.within hq).1
    rw [Nat.add_mul] at hafter
    left
    simp only [Piece.buf]
    omega

/-- A piece of a followed buffer is in its place. -/
theorem Placed.place (hS : Placed d dma ns sg) (hB : GoodBlock ns.blockSize)
    (hid : (id : Int) < Nvme.blockCount ns sg) (sf : Option Nat) :
    Cut ns.blockSize sg id [pieceAt ns sg id sf] := by
  have hcnt := hS.blockCount
  have hstride := stride_le hid
  have hpos := stride_pos hB hS.request (by have := hS.most; omega) hid
  have hlen : sg.len / ns.blockSize * ns.blockSize ≤ sg.len := Nat.div_mul_le_self ..
  have hend : (id + stride ns sg id) * ns.blockSize ≤ sg.len :=
    (Nat.mul_le_mul_right _ (by omega)).trans hlen
  have hstart : id * ns.blockSize < sg.len :=
    (Nat.mul_lt_mul_of_pos_right (by omega) hB.pos).trans_le hlen
  refine ⟨⟨rfl, ?_, hpos, hend⟩, trivial⟩
  have htop := hS.top
  exact Nat.mod_eq_of_lt (by omega)

theorem Follows.cut (h : Follows mayFail ns sg id ps rc) (hS : Placed d dma ns sg)
    (hB : GoodBlock ns.blockSize) : Cut ns.blockSize sg id ps := by
  induction h with
  | done _ => trivial
  | stray _ _ => trivial
  | late hid _ => exact hS.place hB hid none
  | error hid _ _ _ => exact hS.place hB hid (some _)
  | next hid _ _ _ _ ih => exact ⟨(hS.place hB hid (some _)).1, ih⟩

/-- The pieces of a finished buffer have all its blocks. -/
theorem Follows.blocks (h : Follows mayFail ns sg id ps 0) (hid : id ≤ n)
    (hn : blockCount ns sg = n) : id + blocks ps = n := by
  generalize hrc : (0 : Int) = rc at h
  induction h with
  | @done id hle =>
    simp [Nvme.blocks]
    omega
  | stray _ _ => cases hrc
  | late _ _ => cases hrc
  | error _ _ _ _ => cases hrc
  | @next id sf ps rc hlt _ _ _ _ ih =>
    have hstride := stride_le hlt
    have := ih (by omega) hrc
    simp only [Nvme.blocks, List.map_cons, List.sum_cons, pieceAt] at this ⊢
    omega

/-! ### The request -/

theorem FollowsBufs.inOrder (h : FollowsBufs mayFail ns bufs gs rc) (hB : GoodBlock ns.blockSize)
    (hS : ∀ sg ∈ bufs, Sound d dma ns sg) : InOrder ns.blockSize bufs gs := by
  induction h with
  | nil => exact ⟨List.prefix_rfl, by simp, by simp⟩
  | @stop sg bufs ps hf =>
    refine ⟨by simp, ?_, by simp⟩
    intro g hg
    rw [List.mem_singleton.mp hg]
    exact hf.cut (hS sg (List.mem_cons_self ..)).placed hB
  | @next sg bufs ps gs rc hf _ ih =>
    have hsg := hS sg (List.mem_cons_self ..)
    obtain ⟨hpre, hcut, hwhole⟩ := ih fun b hb => hS b (List.mem_cons_of_mem _ hb)
    refine ⟨by simpa using hpre, ?_, ?_⟩
    · intro g hg
      rcases List.mem_cons.mp hg with rfl | hg
      · exact hf.cut hsg.placed hB
      · exact hcut g hg
    · intro g hg
      cases gs with
      | nil => cases hg
      | cons g' gs =>
        rw [List.dropLast_cons_cons] at hg
        rcases List.mem_cons.mp hg with rfl | hg
        · have hall := hf.blocks (Nat.zero_le _) hsg.placed.blockCount
          rw [Nat.zero_add] at hall
          rw [hall, Nat.div_mul_cancel hsg.whole]
        · exact hwhole g hg

/-- Pieces of disjoint buffers are disjoint. -/
theorem InOrder.disjoint (h : InOrder B bufs gs) (hd : Disjoint bufs) :
    Disjoint ((pieces gs).map (Piece.buf B)) := by
  have hbufs : Disjoint (gs.map (·.1)) := List.Pairwise.sublist h.bufs.sublist hd
  have hcut := h.cut
  clear h
  induction gs with
  | nil => exact .nil
  | cons g gs ih =>
    obtain ⟨hg, hgs⟩ := List.pairwise_cons.mp hbufs
    rw [pieces, List.flatMap_cons, List.map_append]
    refine List.pairwise_append.mpr ⟨(hcut g (List.mem_cons_self ..)).disjoint,
      ih hgs fun g' hg' => hcut g' (List.mem_cons_of_mem _ hg'), ?_⟩
    intro a ha b hb
    obtain ⟨p, hp, rfl⟩ := List.mem_map.mp ha
    obtain ⟨q, hq, rfl⟩ := List.mem_map.mp hb
    obtain ⟨g', hg', hq'⟩ := List.mem_flatMap.mp hq
    have hp' := (hcut g (List.mem_cons_self ..)).within hp
    have hq'' := (hcut g' (List.mem_cons_of_mem _ hg')).within hq'
    have : g.1.addr + g.1.len ≤ g'.1.addr ∨ g'.1.addr + g'.1.len ≤ g.1.addr :=
      hg g'.1 (List.mem_map_of_mem hg')
    simp only [Piece.buf]
    omega

end Nvme
