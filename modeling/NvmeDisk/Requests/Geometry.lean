import NvmeDisk.Model.Setup
import NvmeDisk.Requests.Entry
import NvmeDisk.Requests.Jammed

/-! Two geometries: requests count blocks of the registered size `S`, commands blocks of the
    namespace's size `B`, and the code converts neither. A request that is reported successful moved
    the bytes it names exactly if the two agree on each of its buffers and no command was taken for
    successful that was not. -/

namespace Nvme
open Ring Resume Bytes BlockDev

/-! ### Accepted namespaces -/

/-- A namespace record as `nvme_probe_ns` completes it. -/
structure Accepted (ns : NvmeNamespace) : Prop where
  block : ∃ lbads, ns.blockSize = shl1 lbads
  fits : ns.blockSize ≤ nvmePageSize
  request : ∃ mdts, ns.maxReqSize = maxReqSize mdts ns.blockSize

/-- An action that completes a record completes a proper one. -/
def Accepts (w v : World) : Prop :=
  ∀ nsId rec, v.log = .accepted nsId rec :: w.log → Accepted (v.sys.nsRec rec)

theorem Accepts.quiet {w v : World} (h : v.log = w.log) : Accepts w v := by
  intro nsId rec hlog
  rw [h] at hlog
  exact absurd (congrArg List.length hlog) (by simp)

theorem Accepts.note {w v : World} {ev : Event} (h : v.log = ev :: w.log)
    (hev : ∀ nsId rec, ev ≠ .accepted nsId rec) : Accepts w v := by
  intro nsId rec hlog
  rw [h] at hlog
  exact absurd (List.cons.inj hlog).1 (hev nsId rec)

/-- Every record `nvme_probe_ns` accepts is `Accepted`. -/
theorem recordNs_accepts (id nsId mdts currentLbaFormat : Nat) :
    (recordNs id nsId mdts currentLbaFormat).Does Accepts := by
  have hused : ∀ (f : Nat → Used) (g : World → Nat), (getUsed f g).Does Accepts :=
    fun f g => .act fun _ => .quiet rfl
  have hwarn : ∀ x, (warn x).Does Accepts := fun x => .modify fun _ => .note rfl (by simp)
  refine .bind (.act fun _ => .quiet rfl) fun rec => .bind (.modify fun _ => .quiet rfl) fun _ => ?_
  split
  · exact hwarn _
  · refine .bind (.get (fun _ => .quiet rfl) _) fun lbaCount => ?_
    refine .bind (hused _ _) fun lbads => .bind (hused _ _) fun ms => ?_
    dsimp only
    split
    · refine .bind (.modify fun _ => .quiet rfl) fun _ => .bind (hwarn _) fun _ => .modify fun w => ?_
      rw [World.free]
      split
      · exact .quiet rfl
      · exact .note rfl (by simp)
    · rename_i hfits
      refine .modify fun w nsId' rec' hlog => ?_
      obtain ⟨hev, _⟩ := List.cons.inj hlog
      obtain ⟨rfl, rfl⟩ := Event.accepted.inj hev
      simp only [World.setNs, World.use_sys, World.note_sys, World.setSys_sys, Function.update_self]
      exact ⟨⟨lbads, rfl⟩, Nat.not_lt.mp hfits, ⟨mdts, rfl⟩⟩

/-- The block size divides the page. -/
theorem Accepted.goodBlock {ns : NvmeNamespace} (h : Accepted ns) : GoodBlock ns.blockSize := by
  obtain ⟨lbads, hblock⟩ := h.block
  have hfits := h.fits
  rw [shl1_eq] at hblock
  rw [hblock] at hfits ⊢
  have hle : lbads % 32 ≤ 12 := (Nat.pow_le_pow_iff_right (by decide)).mp hfits
  exact ⟨Nat.two_pow_pos _, Nat.pow_dvd_pow 2 hle⟩

/-! ### What a buffer's commands moved -/

/-- The command moved namespace byte `a`. -/
def Cmd.Moves (B : Nat) (c : Cmd) (a : Nat) : Prop :=
  c.sf = some 0 ∧ c.slba * B ≤ a ∧ a < (c.slba + c.blocks) * B

/-- The commands for buffer `b` moved the bytes it names in blocks of size `S`, and no others. -/
def Exact (S B : Nat) (b : Buf) (cmds : List Cmd) : Prop :=
  ∀ a, (∃ c ∈ cmds, c.Moves B a) ↔ b.block * S ≤ a ∧ a < b.block * S + b.len

/-- Blocks of size `S` and of size `B` are the same thing for buffer `b`, and the code can count
    them. -/
structure Agrees (S B : Nat) (b : Buf) : Prop where
  start : b.block = 0 ∨ S = B
  whole : B ∣ b.len
  count : b.len / B < 2147483648

/-- The pieces follow one another from block `b` on. -/
def Consecutive : Nat → List Piece → Prop
  | _, [] => True
  | b, p :: ps => p.lba = b ∧ 1 ≤ p.n ∧ Consecutive (b + p.n) ps

variable {mayFail : Nat → Bool} {ns : NvmeNamespace} {sg : Buf} {id b a S B : Nat} {rc : Int}
  {ps : List Piece} {p q : Piece} {write : Bool} {bufs : List Buf} {gs : List (Buf × List Piece)}

theorem Follows.consecutive (h : Follows mayFail ns sg id ps 0) : Consecutive (sg.block + id) ps := by
  generalize hrc : (0 : Int) = rc at h
  induction h with
  | done _ => trivial
  | stray _ _ => cases hrc
  | late _ _ => cases hrc
  | error _ _ _ _ => cases hrc
  | next hid hs hok hsf hrest ih =>
    have hmoves := (Follows.next hid hs hok hsf (hrc ▸ hrest)).moves hid
    exact ⟨rfl, hmoves, by rw [pieceAt, Nat.add_assoc]; exact ih hrc⟩

theorem Consecutive.within (h : Consecutive b ps) (hp : p ∈ ps) :
    b ≤ p.lba ∧ p.lba + p.n ≤ b + blocks ps ∧ 1 ≤ p.n := by
  induction ps generalizing b with
  | nil => cases hp
  | cons q ps ih =>
    obtain ⟨hlba, hn, hps⟩ := h
    simp only [blocks, List.map_cons, List.sum_cons] at ih ⊢
    rcases List.mem_cons.mp hp with rfl | hp
    · omega
    · have := ih hps hp
      omega

/-- No block lies in two pieces. -/
theorem Consecutive.unique (h : Consecutive b ps) (hp : p ∈ ps) (hq : q ∈ ps) {x : Nat}
    (hpx : p.lba ≤ x ∧ x < p.lba + p.n) (hqx : q.lba ≤ x ∧ x < q.lba + q.n) : p = q := by
  induction ps generalizing b with
  | nil => cases hp
  | cons r ps ih =>
    obtain ⟨hlba, hn, hps⟩ := h
    rcases List.mem_cons.mp hp with rfl | hp' <;> rcases List.mem_cons.mp hq with rfl | hq'
    · rfl
    · have := (hps.within hq').1
      omega
    · have := (hps.within hp').1
      omega
    · exact ih hps hp' hq'

/-- Every block of the chain lies in a piece. -/
theorem Consecutive.covers (h : Consecutive b ps) {x : Nat} (hx : b ≤ x ∧ x < b + blocks ps) :
    ∃ p ∈ ps, p.lba ≤ x ∧ x < p.lba + p.n := by
  induction ps generalizing b with
  | nil =>
    simp only [blocks, List.map_nil, List.sum_nil] at hx
    omega
  | cons p ps ih =>
    obtain ⟨hlba, _, hps⟩ := h
    simp only [blocks, List.map_cons, List.sum_cons] at ih hx
    by_cases hin : x < p.lba + p.n
    · exact ⟨p, List.mem_cons_self .., by omega, hin⟩
    · obtain ⟨q, hq, hqx⟩ := ih hps (by omega)
      exact ⟨q, List.mem_cons_of_mem _ hq, hqx⟩

/-- The commands of a chain below 2^64, by the blocks they moved. -/
theorem Consecutive.moves (h : Consecutive b ps) (hbits : b + blocks ps ≤ 18446744073709551616) (hB : 0 < B) :
    (∃ c ∈ (ps.map (Piece.cmd write)).reverse, c.Moves B a) ↔
      ∃ p ∈ ps, p.sf = some 0 ∧ p.lba ≤ a / B ∧ a / B < p.lba + p.n := by
  have hcmd : ∀ p ∈ ps, (p.cmd write).Moves B a ↔
      p.sf = some 0 ∧ p.lba ≤ a / B ∧ a / B < p.lba + p.n := by
    intro p hp
    obtain ⟨_, hend, hn⟩ := h.within hp
    have hslba : u64 p.lba = p.lba := Nat.mod_eq_of_lt (by omega)
    have hblocks : cmdBlocks p.n = p.n := if_neg (by omega)
    rw [Cmd.Moves, Piece.cmd, hslba, hblocks, Nat.le_div_iff_mul_le hB, Nat.div_lt_iff_lt_mul hB]
  constructor
  · rintro ⟨c, hc, hmoves⟩
    obtain ⟨p, hp, rfl⟩ := List.mem_map.mp (List.mem_reverse.mp hc)
    exact ⟨p, hp, (hcmd p hp).mp hmoves⟩
  · rintro ⟨p, hp, hmoves⟩
    exact ⟨_, List.mem_reverse.mpr (List.mem_map_of_mem hp), (hcmd p hp).mpr hmoves⟩

/-- How many blocks of size `B` the loop counts in a buffer: none if there are too many. -/
def counted (B len : Nat) : Nat := if len / B < 2147483648 then len / B else 0

theorem Follows.counted (h : Follows mayFail ns sg 0 ps 0) (hlen : sg.len < 4294967296) :
    Nvme.blocks ps = Nvme.counted ns.blockSize sg.len := by
  have hdiv : sg.len / ns.blockSize < 4294967296 := (Nat.div_le_self ..).trans_lt hlen
  rw [Nvme.counted]
  split
  · rename_i hlt
    have hcnt := blockCount_eq hlt
    have := h.blocks (Nat.zero_le _) hcnt
    omega
  · rename_i hge
    have hcnt : blockCount ns sg ≤ 0 := by
      rw [blockCount]
      generalize sg.len / ns.blockSize = n at hge hdiv
      rw [s32, if_neg (by omega)]
      omega
    cases h with
    | done _ => rfl
    | next hid _ _ _ _ => omega

theorem counted_mul_le (B len : Nat) : counted B len * B ≤ len := by
  rw [counted]
  split
  · exact Nat.div_mul_le_self ..
  · omega

theorem counted_eq {len : Nat} (hlen : 0 < len) :
    counted B len * B = len ↔ B ∣ len ∧ len / B < 2147483648 := by
  rw [counted]
  split
  · rename_i hlt
    constructor
    · exact fun h => ⟨⟨len / B, by rw [Nat.mul_comm]; exact h.symm⟩, hlt⟩
    · exact fun h => Nat.div_mul_cancel h.1
  · rename_i hge
    constructor
    · intro h
      omega
    · exact fun h => absurd h.2 hge

/-- BUFFER RULE: the commands of a finished buffer moved the bytes it names exactly if the two
    geometries agree on it and all of them succeeded. -/
theorem exact_iff (hB : 0 < ns.blockSize) (h : Follows mayFail ns sg 0 ps 0) (hlen : 0 < sg.len)
    (hlen' : sg.len < 4294967296) (hblock : sg.block < 4294967296) :
    Exact S ns.blockSize sg (ps.map (Piece.cmd write)).reverse ↔
      (∀ c ∈ (ps.map (Piece.cmd write)).reverse, c.sf = some 0) ∧ Agrees S ns.blockSize sg := by
  have hchain : Consecutive sg.block ps := h.consecutive
  have hcount := h.counted hlen'
  have hle := counted_mul_le ns.blockSize sg.len
  have heq := counted_eq (B := ns.blockSize) hlen
  have hbits : sg.block + blocks ps ≤ 18446744073709551616 := by
    have : counted ns.blockSize sg.len ≤ counted ns.blockSize sg.len * ns.blockSize :=
      Nat.le_mul_of_pos_right _ hB
    omega
  have hmoves : ∀ a, (∃ c ∈ (ps.map (Piece.cmd write)).reverse, c.Moves ns.blockSize a) ↔
      ∃ p ∈ ps, p.sf = some 0 ∧ p.lba ≤ a / ns.blockSize ∧ a / ns.blockSize < p.lba + p.n :=
    fun a => hchain.moves hbits hB
  have hall : (∀ c ∈ (ps.map (Piece.cmd write)).reverse, c.sf = some 0) ↔
      ∀ p ∈ ps, p.sf = some 0 := by
    simp [Piece.cmd]
  rw [hall]
  -- all blocks of the chain, as bytes
  have hrange : ∀ a, (sg.block ≤ a / ns.blockSize ∧ a / ns.blockSize < sg.block + blocks ps) ↔
      sg.block * ns.blockSize ≤ a ∧
        a < sg.block * ns.blockSize + counted ns.blockSize sg.len * ns.blockSize := by
    intro a
    rw [hcount, Nat.le_div_iff_mul_le hB, Nat.div_lt_iff_lt_mul hB, Nat.add_mul]
  constructor
  · intro hexact
    have hinside : ∀ a, sg.block * S ≤ a → a < sg.block * S + sg.len →
        sg.block * ns.blockSize ≤ a ∧
          a < sg.block * ns.blockSize + counted ns.blockSize sg.len * ns.blockSize := by
      intro a h1 h2
      obtain ⟨p, hp, _, hpa⟩ := (hmoves a).mp ((hexact a).mpr ⟨h1, h2⟩)
      have := hchain.within hp
      exact (hrange a).mp ⟨by omega, by omega⟩
    have hfirst := hinside (sg.block * S) (le_refl _) (by omega)
    have hlast := hinside (sg.block * S + sg.len - 1) (by omega) (by omega)
    have hstart : sg.block * S = sg.block * ns.blockSize := by omega
    have hwhole := heq.mp (by omega)
    refine ⟨fun p hp => ?_, ⟨?_, hwhole.1, hwhole.2⟩⟩
    · -- the first byte of a piece is moved by no other piece
      obtain ⟨hlow, hhigh, hn⟩ := hchain.within hp
      have hdiv : p.lba * ns.blockSize / ns.blockSize = p.lba := Nat.mul_div_cancel _ hB
      have hin := (hrange (p.lba * ns.blockSize)).mp ⟨by omega, by omega⟩
      obtain ⟨q, hq, hsf, hqx⟩ := (hmoves _).mp ((hexact (p.lba * ns.blockSize)).mpr
        ⟨by omega, by omega⟩)
      rw [hdiv] at hqx
      rw [hchain.unique hp hq ⟨le_refl _, by omega⟩ hqx]
      exact hsf
    · rcases Nat.eq_zero_or_pos sg.block with h0 | hpos
      · exact .inl h0
      · exact .inr (Nat.eq_of_mul_eq_mul_left hpos hstart)
  · rintro ⟨hsf, hstart, hwhole, hlt⟩ a
    have hcounted := heq.mpr ⟨hwhole, hlt⟩
    have hS : sg.block * S = sg.block * ns.blockSize := by
      rcases hstart with h0 | hS
      · rw [h0, Nat.zero_mul, Nat.zero_mul]
      · rw [hS]
    rw [hmoves, hS]
    have hra := hrange a
    rw [hcounted] at hra
    rw [← hra]
    constructor
    · rintro ⟨p, hp, _, hpa⟩
      have := hchain.within hp
      omega
    · intro hin
      obtain ⟨p, hp, hpa⟩ := hchain.covers hin
      exact ⟨p, hp, hsf p hp, hpa⟩

/-! ### The request -/

theorem FollowsBufs.finished (h : FollowsBufs mayFail ns bufs gs rc) (hrc : rc = 0) :
    gs.map (·.1) = bufs ∧ ∀ g ∈ gs, Follows mayFail ns g.1 0 g.2 0 := by
  induction h with
  | nil => exact ⟨rfl, by simp⟩
  | stop _ => cases hrc
  | next hf _ ih =>
    obtain ⟨hbufs, hgs⟩ := ih hrc
    exact ⟨congrArg (_ :: ·) hbufs, List.forall_mem_cons.mpr ⟨hf, hgs⟩⟩

/-- What a request reported successful added to the account: its buffers with their commands. -/
structure Reported (r : BlkdevRequest) (old new : List Item) (gs : List (Buf × List Cmd)) : Prop where
  bufs : gs.map (·.1) = r.bufs
  account : new = .done r.id .successful :: ((gs.map fun g => .buf g.1 g.2).reverse ++ old)

/-- Only a request whose loops came to their end is reported successful. -/
theorem Told.reported {x : Setting} {lg items : List Item} {r : BlkdevRequest} {v : World}
    (h : Told x lg ns r write gs rc v) (hitems : ledger v.log = items ++ lg)
    (hdone : .done r.id .successful ∈ items) : rc = 0 ∧
      Reported r lg (ledger v.log) (gs.map fun g => (g.1, (g.2.map (Piece.cmd write)).reverse)) := by
  obtain ⟨hf, hlg⟩ := h
  have hrc : rc = 0 := by
    by_contra hne
    rw [hlg, if_neg hne, List.nil_append] at hitems
    rw [← List.append_cancel_right hitems] at hdone
    obtain ⟨g, _, hg⟩ := List.mem_map.mp (List.mem_reverse.mp hdone)
    cases hg
  obtain ⟨hbufs, _⟩ := hf.finished hrc
  refine ⟨hrc, ?_, ?_⟩
  · rw [← hbufs, List.map_map]
    rfl
  · rw [hlg, if_pos hrc, List.map_map]
    rfl

/-- Read block 5, its one command completed before the first poll. -/
def readBlock : BlkdevRequest := ⟨1, .read, [sampleBuf 5 0]⟩

def readRun : World × Drv Int :=
  follow (nvmeMove noFail) (none :: oneCommand .io ++ [none]) sampleWorld
    (nvmediskIoctl sampleNs (fun _ => return 0) 65535 ⟨512, 1000⟩ (.blkioRequest readBlock))

/-- A namespace of 4096-byte blocks, under the configuration of 512-byte blocks. -/
def largeNs : NvmeNamespace := ⟨1, 1000, 4096, 0, 4294967295⟩

theorem largeNs_accepted : Accepted largeNs := ⟨⟨12, rfl⟩, le_refl _, ⟨0, rfl⟩⟩

def geometryWorld : World :=
  freshWorld sampleSqLen sampleCqLen ⟨fun _ => 0, fun _ => 0xAC⟩ sampleSys ⟨1, 4096, 1000, fun _ _ _ => 7⟩

/-- Read one block of 512 bytes. -/
def smallRead : BlkdevRequest := ⟨1, .read, [⟨8, 0x100000, 512⟩]⟩

def smallRun : World × Drv Int :=
  follow (nvmeMove noFail) [none, none] geometryWorld
    (nvmediskIoctl largeNs (fun _ => return 0) 65535 ⟨512, 1048576⟩ (.blkioRequest smallRead))

end Nvme
