import NvmeDisk.Transfer.Piece

/-! What the loops over blocks and buffers cut a request into, and how far they get. A buffer is walked
    in pieces, each one command; where the walk goes depends on the request alone, how far it gets on
    the statuses of the commands (`Follows`). Taken together the pieces of a finished buffer are the
    whole buffer, each block once. -/

namespace Nvme
open BlockDev

/-- `u16 blocks_remaining = cnt - id`. -/
def remaining (ns : NvmeNamespace) (sg : Buf) (id : Nat) : Nat :=
  ((blockCount ns sg - id) % 65536).toNat

def opBuf (ns : NvmeNamespace) (sg : Buf) (id : Nat) : Nat := u32 (sg.addr + id * ns.blockSize)

/-- How far block `id` takes the loop. -/
def stride (ns : NvmeNamespace) (sg : Buf) (id : Nat) : Nat :=
  movedBlocks ns (opBuf ns sg id) (remaining ns sg id)

def StrayAt (ns : NvmeNamespace) (sg : Buf) (id : Nat) : Prop :=
  Stray ns (opBuf ns sg id) (remaining ns sg id)

instance (ns : NvmeNamespace) (sg : Buf) (id : Nat) : Decidable (StrayAt ns sg id) := by
  unfold StrayAt; infer_instance

/-- One command's share of a buffer: `n` blocks from `lba` on at host address `addr`; the status field
    it was completed with, `none` if its wait gave up. -/
structure Piece where
  lba : Nat
  n : Nat
  addr : Nat
  sf : Option Nat

def pieceAt (ns : NvmeNamespace) (sg : Buf) (id : Nat) (sf : Option Nat) : Piece :=
  ⟨sg.block + id, stride ns sg id, opBuf ns sg id, sf⟩

@[simp] theorem pieceAt_sf (ns : NvmeNamespace) (sg : Buf) (id : Nat) (sf : Option Nat) :
    (pieceAt ns sg id sf).sf = sf := rfl

/-- The command of a piece, as the account has it. -/
def Piece.cmd (write : Bool) (p : Piece) : Cmd := ⟨ioOpc write, u64 p.lba, cmdBlocks p.n, p.sf⟩

section
variable (mayFail : Nat → Bool) (ns : NvmeNamespace)

/-- The block loop over buffer `sg` from block `id` on: its pieces, and what it returns. -/
inductive Follows (sg : Buf) : Nat → List Piece → Int → Prop where
  | done {id : Nat} : blockCount ns sg ≤ id → Follows sg id [] 0
  | stray {id : Nat} : (id : Int) < blockCount ns sg → StrayAt ns sg id → Follows sg id [] (-1)
  | late {id : Nat} : (id : Int) < blockCount ns sg → ¬ StrayAt ns sg id →
      Follows sg id [pieceAt ns sg id none] (-1)
  | error {id sf : Nat} : (id : Int) < blockCount ns sg → ¬ StrayAt ns sg id → OkStatus mayFail sf →
      sf % 256 ≠ 0 → Follows sg id [pieceAt ns sg id (some sf)] (-1)
  | next {id sf : Nat} {ps rc} : (id : Int) < blockCount ns sg → ¬ StrayAt ns sg id → OkStatus mayFail sf →
      sf % 256 = 0 → Follows sg (id + stride ns sg id) ps rc →
      Follows sg id (pieceAt ns sg id (some sf) :: ps) rc

/-- Begun at block `id`, the block loop can come to block `id'`. -/
inductive Visits (sg : Buf) : Nat → Nat → Prop where
  | here {id : Nat} : (id : Int) < blockCount ns sg → Visits sg id id
  | next {id id' : Nat} : (id : Int) < blockCount ns sg → Visits sg (id + stride ns sg id) id' →
      Visits sg id id'

/-- The buffer loop: the pieces of each buffer it turned to. -/
inductive FollowsBufs : List Buf → List (Buf × List Piece) → Int → Prop where
  | nil : FollowsBufs [] [] 0
  | stop {sg bufs ps} : Follows mayFail ns sg 0 ps (-1) → FollowsBufs (sg :: bufs) [(sg, ps)] (-1)
  | next {sg bufs ps gs rc} : Follows mayFail ns sg 0 ps 0 → FollowsBufs bufs gs rc →
      FollowsBufs (sg :: bufs) ((sg, ps) :: gs) rc

end

/-- What the pieces do to memory and disk, up to the scratch region: all before the last are moved;
    the last is moved, or torn if its command did not succeed. -/
def Effect (P : Nat → Prop) (write : Bool) (B : Nat) : Store → List Piece → Store → Prop
  | t, [], s => EqOff P t s
  | t, p :: ps, s =>
    if p.sf = some 0 then Effect P write B (move write t (p.lba * B) p.addr (p.n * B)) ps s
    else TornOff P write t (p.lba * B) p.addr (p.n * B) s

/-- The store once all pieces are moved. -/
def allMoved (write : Bool) (B : Nat) (t : Store) (ps : List Piece) : Store :=
  ps.foldl (fun t p => move write t (p.lba * B) p.addr (p.n * B)) t

variable {mayFail : Nat → Bool} {ns : NvmeNamespace} {sg : Buf} {id : Nat} {ps qs : List Piece}
  {rc : Int} {P : Nat → Prop} {write : Bool} {B : Nat} {t s : Store}

theorem effect_append (h : ∀ p ∈ ps, p.sf = some 0) :
    Effect P write B t (ps ++ qs) s ↔ Effect P write B (allMoved write B t ps) qs s := by
  induction ps generalizing t with
  | nil => rfl
  | cons p ps ih =>
    rw [List.cons_append, Effect, if_pos (h p (List.mem_cons_self ..)),
      ih fun q hq => h q (List.mem_cons_of_mem _ hq)]
    rfl

theorem effect_moved (h : ∀ p ∈ ps, p.sf = some 0) :
    Effect P write B t ps s ↔ EqOff P (allMoved write B t ps) s := by
  rw [← List.append_nil ps, effect_append h, List.append_nil]
  rfl

/-! ### Statuses -/

/-- The loop goes on, and ends well, only with statuses the driver takes for success. -/
theorem Follows.completed (h : Follows mayFail ns sg id ps 0) :
    ∀ p ∈ ps, ∃ sf, p.sf = some sf ∧ OkStatus mayFail sf ∧ sf % 256 = 0 := by
  generalize hrc : (0 : Int) = rc at h
  induction h with
  | done _ => simp
  | stray _ _ => cases hrc
  | late _ _ => cases hrc
  | error _ _ _ _ => cases hrc
  | next _ _ hok hsf _ ih =>
    intro p hp
    rcases List.mem_cons.mp hp with rfl | hp
    · exact ⟨_, rfl, hok, hsf⟩
    · exact ih hrc p hp

theorem Follows.result (h : Follows mayFail ns sg id ps rc) : rc = 0 ∨ rc = -1 := by
  induction h with
  | done _ => exact .inl rfl
  | next _ _ _ _ _ ih => exact ih
  | _ => exact .inr rfl

theorem FollowsBufs.result {bufs : List Buf} {gs : List (Buf × List Piece)}
    (h : FollowsBufs mayFail ns bufs gs rc) : rc = 0 ∨ rc = -1 := by
  induction h with
  | nil => exact .inl rfl
  | stop _ => exact .inr rfl
  | next _ _ ih => exact ih

/-! ### Where the walk goes -/

theorem Visits.lt {id' : Nat} (h : Visits ns sg id id') : (id' : Int) < blockCount ns sg := by
  induction h with
  | here h => exact h
  | next _ _ ih => exact ih

/-- What the walk meets at each block it comes to. -/
theorem Visits.meets {P Q : Nat → Prop} {id' : Nat} (hv : Visits ns sg id id') (hP : P id)
    (hstep : ∀ id : Nat, P id → (id : Int) < blockCount ns sg → Q id ∧ P (id + stride ns sg id)) : Q id' := by
  induction hv with
  | here hid => exact (hstep _ hP hid).1
  | next hid _ ih => exact ih (hstep _ hP hid).2

/-- A loop that does not move does not end well. -/
theorem Follows.moves (h : Follows mayFail ns sg id ps 0) (hid : (id : Int) < blockCount ns sg) :
    1 ≤ stride ns sg id := by
  generalize hrc : (0 : Int) = rc at h
  induction h with
  | done hle => omega
  | stray _ _ => cases hrc
  | late _ _ => cases hrc
  | error _ _ _ _ => cases hrc
  | @next id sf ps rc _ _ _ _ _ ih =>
    by_contra hzero
    have hstay : id + stride ns sg id = id := by omega
    rw [hstay] at ih
    exact hzero (ih hid hrc)

/-- A loop that ended well met no stray block, and moved at each. -/
theorem Follows.visits {id' : Nat} (h : Follows mayFail ns sg id ps 0) (hv : Visits ns sg id id') :
    ¬ StrayAt ns sg id' ∧ 1 ≤ stride ns sg id' := by
  refine hv.meets (P := fun id => ∃ ps, Follows mayFail ns sg id ps 0)
    (Q := fun id => ¬ StrayAt ns sg id ∧ 1 ≤ stride ns sg id) ⟨ps, h⟩ ?_
  rintro id ⟨ps, h⟩ hid
  have hmove := h.moves hid
  cases h with
  | done hle => omega
  | next _ hs _ _ hrest => exact ⟨⟨hs, hmove⟩, _, hrest⟩

theorem movedBlocks_le_clamp (ns : NvmeNamespace) (buf count : Nat) :
    movedBlocks ns buf count ≤ clampCount ns count := by
  rw [movedBlocks]
  split
  · rw [bounceBlocks_eq]
    exact Nat.min_le_left ..
  · exact le_refl _

theorem movedBlocks_le (ns : NvmeNamespace) (buf count : Nat) : movedBlocks ns buf count ≤ count :=
  (movedBlocks_le_clamp ns buf count).trans (clampCount_le ns count)

theorem movedBlocks_pos (hB : GoodBlock ns.blockSize) (hreq : 1 ≤ ns.maxReqSize) {count : Nat}
    (h : 1 ≤ count) (buf : Nat) : 1 ≤ movedBlocks ns buf count := by
  have hclamp := clampCount_pos hreq h
  rw [movedBlocks]
  split
  · exact (bounceBlocks_bounds hB hclamp).1
  · exact hclamp

/-- No piece moves more than 64 KiB. -/
theorem movedBlocks_size (hB : GoodBlock ns.blockSize) {count : Nat} (h : count ≤ 65535) (buf : Nat) :
    movedBlocks ns buf count * ns.blockSize ≤ 65536 := by
  have hclamp : clampCount ns count ≤ 65535 := (clampCount_le ns count).trans h
  have hway := prplPath_way hB hclamp buf
  rcases hp : prplPath ns buf (clampCount ns count) with _ | _ | l | l
  case bounce =>
    rw [movedBlocks_bounce hp, bounceBlocks_eq]
    calc min (clampCount ns count) (4096 / ns.blockSize) * ns.blockSize
        ≤ 4096 / ns.blockSize * ns.blockSize := Nat.mul_le_mul_right _ (Nat.min_le_right ..)
      _ ≤ 4096 := Nat.div_mul_le_self ..
      _ ≤ 65536 := by decide
  all_goals
    have hd : (prplPath ns buf (clampCount ns count)).Direct := by rw [hp]; trivial
    rw [movedBlocks_direct hd]
    exact hway.size_le hd

theorem remaining_le (ns : NvmeNamespace) (sg : Buf) (id : Nat) : remaining ns sg id ≤ 65535 := by
  rw [remaining]
  omega

/-- The walk does not pass the end of the buffer. -/
theorem stride_le (h : (id : Int) < blockCount ns sg) :
    ((id + stride ns sg id : Nat) : Int) ≤ blockCount ns sg := by
  have hle := movedBlocks_le ns (opBuf ns sg id) (remaining ns sg id)
  rw [stride]
  simp only [remaining] at hle ⊢
  omega

/-- The block count, as long as it fits an `int`. -/
theorem blockCount_eq (h : sg.len / ns.blockSize < 2147483648) :
    blockCount ns sg = (sg.len / ns.blockSize : Nat) := by
  rw [blockCount]
  generalize sg.len / ns.blockSize = n at h ⊢
  rw [s32, if_pos (by omega)]
  omega

/-- In a buffer of at most 65535 blocks every piece has a block. -/
theorem stride_pos (hB : GoodBlock ns.blockSize) (hreq : 1 ≤ ns.maxReqSize)
    (hcnt : blockCount ns sg ≤ 65535) (h : (id : Int) < blockCount ns sg) : 1 ≤ stride ns sg id := by
  refine movedBlocks_pos hB hreq ?_ _
  rw [remaining, Int.emod_eq_of_lt (by omega) (by omega)]
  omega

/-- The blocks before `id` moved, and then `k` more. -/
theorem move_piece (haddr : opBuf ns sg id = sg.addr + id * ns.blockSize) (k : Nat) :
    move write (move write t (sg.block * ns.blockSize) sg.addr (id * ns.blockSize))
        ((sg.block + id) * ns.blockSize) (opBuf ns sg id) (k * ns.blockSize) =
      move write t (sg.block * ns.blockSize) sg.addr ((id + k) * ns.blockSize) := by
  rw [haddr, Nat.add_mul, move_append, ← Nat.add_mul]

/-- All the pieces of a finished buffer, from block `id` on, are the rest of the buffer. -/
theorem Follows.allMoved {n : Nat} (h : Follows mayFail ns sg id ps 0) (hn : blockCount ns sg = n)
    (hid : id ≤ n) (htop : sg.addr + n * ns.blockSize ≤ 4294967296) (hB : 0 < ns.blockSize) :
    allMoved write ns.blockSize
      (move write t (sg.block * ns.blockSize) sg.addr (id * ns.blockSize)) ps =
      move write t (sg.block * ns.blockSize) sg.addr (n * ns.blockSize) := by
  generalize hrc : (0 : Int) = rc at h
  induction h with
  | done hle =>
    rw [show n = _ from Nat.le_antisymm (by omega) hid]
    rfl
  | stray _ _ => cases hrc
  | late _ _ => cases hrc
  | error _ _ _ _ => cases hrc
  | @next id sf ps rc hlt _ _ _ _ ih =>
    have hstride := stride_le hlt
    have hlt' : id < n := by omega
    have haddr : opBuf ns sg id = sg.addr + id * ns.blockSize := by
      have := Nat.mul_lt_mul_of_pos_right hlt' hB
      exact Nat.mod_eq_of_lt (by omega)
    rw [← ih (by omega) hrc, ← move_piece haddr]
    rfl

end Nvme
