import NvmeDisk.Transfer.Command
import NvmeDisk.Transfer.Segments

/-! One call of `nvme_prpl_xfer`: whichever way it takes, it is one command for the first blocks of what
    it was asked to move, or, for a buffer the device cannot take as it is, no command at all. Up to
    the bounce page a command that succeeded is the block device move of those blocks. -/

namespace Nvme
open Ring Resume Bytes BlockDev

/-- The bounce page, which also holds the PRP list. -/
def Page (dma : Nat) : Nat → Prop := fun a => dma ≤ a ∧ a < dma + 4096

/-- How many blocks the command of `nvme_prpl_xfer` moves. -/
def movedBlocks (ns : NvmeNamespace) (buf count : Nat) : Nat :=
  match prplPath ns buf (clampCount ns count) with
  | .bounce _ => bounceBlocks ns (clampCount ns count)
  | _ => clampCount ns count

/-- The buffer goes to the device as it is, and is not double-word aligned. -/
def Stray (ns : NvmeNamespace) (buf count : Nat) : Prop :=
  prplPath ns buf (clampCount ns count) = .single ∧ buf % 4 ≠ 0

instance (ns : NvmeNamespace) (buf count : Nat) : Decidable (Stray ns buf count) := by
  unfold Stray; infer_instance

/-- What one command may have done, by its status field: moved the bytes, or torn them. -/
def MovedTo (P : Nat → Prop) (write : Bool) (t : Store) (pos buf len sf : Nat) : Store → Prop :=
  if sf = 0 then EqOff P (move write t pos buf len) else TornOff P write t pos buf len

/-- What it takes to follow memory and disk through a transfer of `count` blocks. -/
structure Followable (x : Setting) (ns : NvmeNamespace) (lba buf count : Nat) : Prop where
  serves : Serves ns x.dev
  fits : Fits ns.blockSize x.sys.nvmeDmaBuffer buf count
  bits : lba + count ≤ 18446744073709551616
  request : 1 ≤ ns.maxReqSize

section
variable (x : Setting) (lg : List Item) (t : Store) (ns : NvmeNamespace) (lba buf count : Nat)
  (write : Bool)

/-- How `nvme_prpl_xfer` ends. -/
inductive PieceEnd (res : Int) (w : World) : Prop where
  | stray : Stray ns buf count → res = -1 →
      Resting x lg (EqOff (Page x.sys.nvmeDmaBuffer) t) w → PieceEnd res w
  | command : ¬ Stray ns buf count →
      IoEnd x lg (⟨ioOpc write, u64 lba, cmdBlocks (movedBlocks ns buf count), ·⟩)
        (movedBlocks ns buf count)
        (MovedTo (Page x.sys.nvmeDmaBuffer) write t (lba * ns.blockSize) buf
          (movedBlocks ns buf count * ns.blockSize))
        (TornOff (Page x.sys.nvmeDmaBuffer) write t (lba * ns.blockSize) buf
          (movedBlocks ns buf count * ns.blockSize)) res w → PieceEnd res w

end

variable {x : Setting} {lg : List Item} {S S' : Store → Prop} {w v : World} {t s₀ s : Store}
  {ns : NvmeNamespace} {lba buf count : Nat} {write : Bool}

theorem clampCount_le (ns : NvmeNamespace) (count : Nat) : clampCount ns count ≤ count := by
  rw [clampCount]
  split <;> omega

theorem clampCount_pos (h : 1 ≤ ns.maxReqSize) (h1 : 1 ≤ count) : 1 ≤ clampCount ns count := by
  rw [clampCount]
  split <;> omega

theorem Followable.less (h : Followable x ns lba buf count) {n : Nat} (h1 : 1 ≤ n) (hn : n ≤ count) :
    Followable x ns lba buf n where
  serves := h.serves
  fits := h.fits.less h1 hn
  bits := by have := h.bits; omega
  request := h.request

/-! ### Memory copies -/

/-- The driver writes memory between commands. -/
theorem Resting.setMem (h : Resting x lg S w) {m : Mem}
    (hS : x.followed → S w.store → S' { w.store with mem := m }) : Resting x lg S' (w.setMem m) where
  idle := h.idle
  sys := h.sys
  dev := h.dev
  ledger := h.ledger
  store hx := ⟨(h.store hx).1, hS hx (h.store hx).2⟩

/-- Events no account is kept of. -/
theorem Resting.note (h : Resting x lg S w) {ev : Event}
    (hev : Nvme.ledger (ev :: w.log) = Nvme.ledger w.log) : Resting x lg S (w.note ev) :=
  { h with ledger := hev.trans h.ledger }

/-- Writing the list. -/
theorem Resting.writePrpl (h : Resting x lg (EqOff (Page x.sys.nvmeDmaBuffer) t) w) {l : List Nat}
    (hlen : l.length ≤ 15) :
    Resting x lg (EqOff (Page x.sys.nvmeDmaBuffer) t)
      (w.setMem (storeWords w.store.mem x.sys.nvmeDmaBuffer l)) :=
  h.setMem fun _ hS => hS.scratch fun o ho => ⟨by omega, by omega⟩

/-! ### Direct transfers -/

theorem Holds.fill {m : Mem} {dma : Nat} {l : List Nat} {a n : Nat} {f : Nat → UInt8}
    (h : Holds m dma l) (hl : l.length ≤ 15) (hout : ∀ o < n, ¬ Page dma (a + o)) :
    Holds (Bytes.fill m a n f) dma l := by
  intro k hk
  rw [← h k hk]
  refine load_congr 8 _ fun o ho => fill_out ?_
  by_contra hin
  rw [not_or] at hin
  have := hout (dma + 8 * k + o - a) (by omega)
  rw [show a + (dma + 8 * k + o - a) = dma + 8 * k + o by omega] at this
  exact this ⟨by omega, by omega⟩

/-- What is known of a command whose target is the caller's buffer. -/
theorem Targets.direct {d : Device} {e : NvmeSqe} {Keep : Mem → Prop} {pos len : Nat}
    {P : Nat → Prop} (h : Targets d e Keep write pos buf len) (hk : Keep s₀.mem)
    (hE : EqOff P t s₀) (hP : ∀ o < len, ¬ P (buf + o)) :
    (∀ sf s, Ended d .io e s₀ sf s → MovedTo P write t pos buf len sf s) ∧
      ∀ st s, Stage.Data d .io e s₀ st s → TornOff P write t pos buf len s := by
  refine ⟨fun sf s he => ?_, fun st s hd => ⟨s₀, hE, h.data hk hd⟩⟩
  by_cases hsf : sf = 0
  · subst hsf
    rw [MovedTo, if_pos rfl, h.moved hk he]
    exact hE.move write hP
  · rw [MovedTo, if_neg hsf]
    exact ⟨s₀, hE, h.ended hk he⟩

/-- Such a command that cannot succeed does nothing. -/
theorem Refused.direct {d : Device} {e : NvmeSqe} {pos len : Nat} {P : Nat → Prop}
    (h : Refused d e) (hE : EqOff P t s₀) :
    (∀ sf s, Ended d .io e s₀ sf s → MovedTo P write t pos buf len sf s) ∧
      ∀ st s, Stage.Data d .io e s₀ st s → TornOff P write t pos buf len s := by
  refine ⟨fun sf s he => ?_, fun st s hd => ?_⟩
  · obtain ⟨hsf, rfl⟩ := h.ended he
    rw [MovedTo, if_neg hsf]
    exact hE.torn ..
  · rw [h.data hd]
    exact hE.torn ..

theorem wp_direct {p : Path} (hway : Way ns.blockSize buf count p) (hd : p.Direct)
    (hal : ¬ misaligned buf (p.prp2 x.sys.nvmeDmaBuffer buf)) (hcount : count ≤ 65535)
    (hfollow : x.followed → Followable x ns lba buf count)
    (h : Resting x lg (fun s => EqOff (Page x.sys.nvmeDmaBuffer) t s ∧
      Holds s.mem x.sys.nvmeDmaBuffer p.words) w) :
    Wp (Nvmec x.mayFail) (fun _ => True)
      (nvmeIoXfer ns lba buf (p.prp2 x.sys.nvmeDmaBuffer buf) count write)
      (IoEnd x lg (⟨ioOpc write, u64 lba, cmdBlocks count, ·⟩) count
        (MovedTo (Page x.sys.nvmeDmaBuffer) write t (lba * ns.blockSize) buf (count * ns.blockSize))
        (TornOff (Page x.sys.nvmeDmaBuffer) write t (lba * ns.blockSize) buf
          (count * ns.blockSize)))
      (fun _ _ => False) w := by
  refine wp_ioXfer hal hcount h fun hx tail s₀ hs₀ => ?_
  obtain ⟨hserves, hfits, hbits, _⟩ := hfollow hx
  by_cases hrange : lba + count ≤ ns.lbaCount
  case neg => exact (ioSqe_refused tail hserves hfits.pos hcount hbits hrange).direct hs₀.1
  have hprp2 : p.prp2 x.sys.nvmeDmaBuffer buf < 4294967296 := by
    have := hfits.dmaTop
    cases p with
    | single => exact Nat.two_pow_pos 32
    | two => exact Nat.mod_lt _ (by omega)
    | list l => exact Nat.lt_of_lt_of_le (Nat.lt_add_of_pos_right (by omega)) this
    | bounce l => exact hd.elim
  have hbuf : buf < 4294967296 := by
    have := hfits.top
    have := Nat.mul_pos hfits.pos hfits.block.pos
    omega
  have halign : buf % 4 = 0 := by
    by_contra hne
    exact hal ((misaligned_iff _ _).mpr (.inl hne))
  refine Targets.direct (ioSqe_targets (K := fun m => Holds m x.sys.nvmeDmaBuffer p.words) (a := buf)
    tail hserves hfits.pos hcount hrange hbuf hprp2 (fun m hm => ?_) ?_) hs₀.2 hs₀.1 hfits.apart
  · obtain ⟨segs, hsegs, htiles, _⟩ := hway.segs hd hfits.top hfits.dmaPage halign hm
    exact ⟨segs, hsegs, htiles⟩
  exact fun _ m f hm => hm.fill hway.words_bound.1 hfits.apart

/-! ### Through the bounce page -/

/-- The data of a write waits in the page. -/
def Loaded (dma : Nat) (t : Store) (buf len : Nat) (s : Store) : Prop :=
  EqOff (Page dma) t s ∧ ∀ o < len, s.mem (dma + o) = t.mem (buf + o)

/-- The data of a read that succeeded waits in the page. -/
def Fetched (dma : Nat) (t : Store) (pos len sf : Nat) (s : Store) : Prop :=
  EqOff (Page dma) t s ∧ (sf = 0 → ∀ o < len, s.mem (dma + o) = t.disk (pos + o))

theorem page_mem {dma len o : Nat} (hlen : len ≤ 4096) (ho : o < len) : Page dma (dma + o) :=
  ⟨by omega, by omega⟩

section
variable {d : Device} {e : NvmeSqe} {Keep : Mem → Prop} {dma pos len sf : Nat} {st : Stage}

/-- The page is filled before the command. -/
theorem loaded_of_copy (h : EqOff (Page dma) t s) (hlen : len ≤ 4096)
    (hP : ∀ o < len, ¬ Page dma (buf + o)) :
    Loaded dma t buf len { s with mem := copy s.mem dma buf len } := by
  refine ⟨h.scratch fun o ho => page_mem hlen ho, fun o ho => ?_⟩
  rw [h.2 _ (hP o ho)]
  change copy s.mem dma buf len (dma + o) = _
  exact fill_in ho

theorem Targets.loaded (h : Targets d e Keep true pos dma len) (hk : Keep s₀.mem)
    (hs : Loaded dma t buf len s₀) :
    (∀ sf s, Ended d .io e s₀ sf s → MovedTo (Page dma) true t pos buf len sf s) ∧
      ∀ st s, Stage.Data d .io e s₀ st s → TornOff (Page dma) true t pos buf len s := by
  obtain ⟨hE, hdata⟩ := hs
  refine ⟨fun sf s he => ?_, fun st s hd => ⟨s₀, hE, torn_write.mpr (torn_write.mp (h.data hk hd))⟩⟩
  by_cases hsf : sf = 0
  · subst hsf
    rw [MovedTo, if_pos rfl, h.moved hk he]
    refine ⟨?_, hE.2⟩
    rw [move_write_disk, move_write_disk, hE.1]
    exact fill_congr fun o ho => (hdata o ho).symm
  · rw [MovedTo, if_neg hsf]
    exact ⟨s₀, hE, torn_write.mpr (torn_write.mp (h.ended hk he))⟩

/-- A read into the page leaves everything else. -/
theorem torn_page (h : Torn false s₀ pos dma len s) (hE : EqOff (Page dma) t s₀)
    (hlen : len ≤ 4096) : EqOff (Page dma) t s := by
  obtain ⟨hd, hm⟩ := torn_read.mp h
  refine ⟨hE.1.trans hd.symm, fun a ha => (hE.2 a ha).trans (hm a ?_).symm⟩
  by_contra hin
  rw [not_or] at hin
  exact ha ⟨by omega, by omega⟩

theorem Targets.fetched (buf : Nat) (h : Targets d e Keep false pos dma len) (hk : Keep s₀.mem)
    (hE : EqOff (Page dma) t s₀) (hlen : len ≤ 4096) :
    (∀ sf s, Ended d .io e s₀ sf s → Fetched dma t pos len sf s) ∧
      ∀ st s, Stage.Data d .io e s₀ st s → TornOff (Page dma) false t pos buf len s := by
  refine ⟨fun sf s he => ⟨torn_page (h.ended hk he) hE hlen, ?_⟩,
    fun st s hd => (torn_page (h.data hk hd) hE hlen).torn ..⟩
  rintro rfl o ho
  rw [h.moved hk he, move_read_mem, fill_in ho, hE.1]

theorem Refused.fetched (buf : Nat) (h : Refused d e) (hE : EqOff (Page dma) t s₀) :
    (∀ sf s, Ended d .io e s₀ sf s → Fetched dma t pos len sf s) ∧
      ∀ st s, Stage.Data d .io e s₀ st s → TornOff (Page dma) false t pos buf len s := by
  refine ⟨fun sf s he => ?_, fun st s hd => ?_⟩
  · obtain ⟨hsf, rfl⟩ := h.ended he
    exact ⟨hE, fun h0 => absurd h0 hsf⟩
  · rw [h.data hd]
    exact hE.torn ..

/-- The caller's buffer is filled after the command. -/
theorem Fetched.unload (h : Fetched dma t pos len sf s) :
    MovedTo (Page dma) false t pos buf len sf { s with mem := copy s.mem buf dma len } := by
  obtain ⟨hE, hdata⟩ := h
  rw [MovedTo]
  split
  · rename_i hsf
    refine ⟨hE.1, fun a ha => ?_⟩
    rw [move_read_mem, copy, fill_congr fun o ho => hdata hsf o ho]
    simp only [fill]
    split
    · rfl
    · exact hE.2 a ha
  · refine ⟨s, hE, torn_read.mpr ⟨rfl, fun a ha => ?_⟩⟩
    change copy s.mem buf dma len a = _
    exact fill_out ha

end

/-- BOUNCE: one command for as many blocks as fit the page. -/
theorem wp_bounceXfer (hB : GoodBlock ns.blockSize) (hcount : count ≤ 65535)
    (hfollow : x.followed → Followable x ns lba buf count)
    (h : Resting x lg (EqOff (Page x.sys.nvmeDmaBuffer) t) w) :
    Wp (Nvmec x.mayFail) (fun _ => True) (nvmeBounceXfer ns lba buf count write)
      (IoEnd x lg (⟨ioOpc write, u64 lba, cmdBlocks (bounceBlocks ns count), ·⟩)
        (bounceBlocks ns count)
        (MovedTo (Page x.sys.nvmeDmaBuffer) write t (lba * ns.blockSize) buf
          (bounceBlocks ns count * ns.blockSize))
        (TornOff (Page x.sys.nvmeDmaBuffer) write t (lba * ns.blockSize) buf
          (bounceBlocks ns count * ns.blockSize)))
      (fun _ _ => False) w := by
  have hlen : bounceBlocks ns count * ns.blockSize ≤ 4096 := by
    rw [bounceBlocks_eq]
    exact (Nat.mul_le_mul_right _ (Nat.min_le_right ..)).trans (Nat.div_mul_le_self ..)
  have hn : bounceBlocks ns count ≤ 65535 := by
    rw [bounceBlocks_eq]
    omega
  have hu : u32 (bounceBlocks ns count * ns.blockSize) = bounceBlocks ns count * ns.blockSize :=
    Nat.mod_eq_of_lt (by omega)
  have hal : ¬ misaligned x.sys.nvmeDmaBuffer 0 := by
    have hdma := x.dmaPage
    rw [misaligned_iff]
    omega
  have hless : x.followed → Followable x ns lba buf (bounceBlocks ns count) := fun hx => by
    obtain ⟨h1, hle, _⟩ := bounceBlocks_bounds hB (hfollow hx).fits.pos
    exact (hfollow hx).less h1 hle
  -- the command's own target is the page
  have htargets : x.followed → ∀ tail,
      Refused x.dev (ioSqe ns lba x.sys.nvmeDmaBuffer 0 (bounceBlocks ns count) write tail) ∨
      Targets x.dev (ioSqe ns lba x.sys.nvmeDmaBuffer 0 (bounceBlocks ns count) write tail)
        (fun _ => True) write (lba * ns.blockSize) x.sys.nvmeDmaBuffer
        (bounceBlocks ns count * ns.blockSize) := by
    intro hx tail
    obtain ⟨hserves, hfits, hbits, _⟩ := hless hx
    have htop := hfits.dmaTop
    by_cases hrange : lba + bounceBlocks ns count ≤ ns.lbaCount
    case neg => exact .inl (ioSqe_refused tail hserves hfits.pos hn hbits hrange)
    exact .inr (ioSqe_targets tail hserves hfits.pos hn hrange (by omega) (by omega)
      (fun m _ => ⟨_, bounce_segs hlen x.dmaPage⟩) fun _ _ _ _ => trivial)
  unfold nvmeBounceXfer
  refine wp_get_bind fun v he => ⟨trivial, ?_⟩
  have hv := h.env he
  rw [hv.sys]
  cases write with
  | true =>
    refine wp_modify_bind fun u hu' => ⟨trivial, ?_⟩
    have hu1 := hv.env hu'
    rw [hu]
    have hloaded : Resting x lg (Loaded x.sys.nvmeDmaBuffer t buf
        (bounceBlocks ns count * ns.blockSize)) (u.setMem _) :=
      hu1.setMem fun hx hS => loaded_of_copy hS hlen (hless hx).fits.apart
    refine wp_seq (wp_ioXfer hal hn hloaded fun hx tail s₀ hs₀ =>
      (htargets hx tail).elim (·.direct hs₀.1) (·.loaded trivial hs₀)) (fun _ _ hf => hf.elim)
      fun res z hz => ?_
    rw [if_neg (by simp)]
    exact wp_ret fun z' he' => ⟨trivial, hz.env he'⟩
  | false =>
    refine wp_seq (wp_ioXfer hal hn hv fun hx tail s₀ hs₀ =>
      (htargets hx tail).elim (·.fetched buf hs₀) (·.fetched buf trivial hs₀ hlen))
      (fun _ _ hf => hf.elim) fun res z hz => ?_
    cases hz with
    | completed sf hok hres hz =>
      by_cases hsf : sf % 256 = 0
      · rw [if_pos hsf] at hres
        rw [if_pos ⟨rfl, by omega⟩, hres]
        refine wp_modify_bind fun z' he' => ⟨trivial, wp_ret fun z'' he'' => ⟨trivial, ?_⟩⟩
        have hz' := hz.env he'
        refine .completed sf hok (by rw [if_pos hsf]) (Resting.env (hz'.setMem fun _ hS => ?_) he'')
        rw [Int.toNat_natCast, hu]
        exact hS.unload
      · rw [if_neg hsf] at hres
        rw [if_neg (by omega)]
        refine wp_ret fun z' he' => ⟨trivial, .completed sf hok (by rw [if_neg hsf, hres]) ?_⟩
        refine (hz.env he').mono fun _ s hS => ?_
        rw [MovedTo, if_neg fun h0 => hsf (by rw [h0])]
        exact hS.1.torn ..
    | timedOut hres hz =>
      rw [if_neg (by omega)]
      exact wp_ret fun z' he' => ⟨trivial, .timedOut hres (hz.env he')⟩

/-! ### Any way -/

theorem movedBlocks_direct (hd : (prplPath ns buf (clampCount ns count)).Direct) :
    movedBlocks ns buf count = clampCount ns count := by
  rw [movedBlocks]
  split
  · rename_i hp
    rw [hp] at hd
    exact hd.elim
  · rfl

theorem movedBlocks_bounce {l : List Nat} (hp : prplPath ns buf (clampCount ns count) = .bounce l) :
    movedBlocks ns buf count = bounceBlocks ns (clampCount ns count) := by
  rw [movedBlocks, hp]

/-- A direct transfer that is not stray is aligned. -/
theorem Way.aligned {p : Path} {dma : Nat} (h : Way ns.blockSize buf count p) (hd : p.Direct)
    (hs : ¬ (p = .single ∧ buf % 4 ≠ 0)) (hdma : dma % 4096 = 0) :
    ¬ misaligned buf (p.prp2 dma buf) := by
  rw [misaligned_iff]
  cases h with
  | single _ => simp only [Path.prp2, true_and] at hs ⊢; omega
  | two hoff _ _ =>
    have hpage : nvmePageSize = 4096 := rfl
    simp only [Path.prp2, u32, hpage]
    omega
  | list l hoff _ _ => simp only [Path.prp2]; omega
  | bounce l _ _ => exact hd.elim

/-- PIECE RULE: `nvme_prpl_xfer` on a resting queue. -/
theorem wp_prplXfer (hB : GoodBlock ns.blockSize) (hcount : count ≤ 65535)
    (hfollow : x.followed → Followable x ns lba buf count)
    (h : Resting x lg (EqOff (Page x.sys.nvmeDmaBuffer) t) w) :
    Wp (Nvmec x.mayFail) (fun _ => True) (nvmePrplXfer ns lba buf count write)
      (PieceEnd x lg t ns lba buf count write) (fun _ _ => False) w := by
  have hclamp : clampCount ns count ≤ 65535 := (clampCount_le ns count).trans hcount
  have hway := prplPath_way hB hclamp buf
  have hfollow' : x.followed → Followable x ns lba buf (clampCount ns count) := fun hx =>
    (hfollow hx).less (clampCount_pos (hfollow hx).request (hfollow hx).fits.pos)
      (clampCount_le ns count)
  -- a direct way, once its list is written
  have hdirect : ∀ v, (prplPath ns buf (clampCount ns count)).Direct → ¬ Stray ns buf count →
      Resting x lg (fun s => EqOff (Page x.sys.nvmeDmaBuffer) t s ∧
        Holds s.mem x.sys.nvmeDmaBuffer (prplPath ns buf (clampCount ns count)).words) v →
      Wp (Nvmec x.mayFail) (fun _ => True)
        (nvmeIoXfer ns lba buf ((prplPath ns buf (clampCount ns count)).prp2 x.sys.nvmeDmaBuffer buf)
          (clampCount ns count) write)
        (PieceEnd x lg t ns lba buf count write) (fun _ _ => False) v := by
    intro v hd hs hv
    refine wp_mono (wp_direct hway hd (hway.aligned hd hs x.dmaPage) hclamp hfollow' hv)
      (fun _ _ => trivial) (fun res z _ hz => .command hs ?_) fun _ _ _ hf => hf
    rwa [movedBlocks_direct hd]
  have hget : ∀ {k : Nat → Drv Int}, (∀ v, Resting x lg (EqOff (Page x.sys.nvmeDmaBuffer) t) v →
      Wp (Nvmec x.mayFail) (fun _ => True) (k x.sys.nvmeDmaBuffer)
        (PieceEnd x lg t ns lba buf count write) (fun _ _ => False) v) →
      Wp (Nvmec x.mayFail) (fun _ => True) (dmaBuffer >>= k)
        (PieceEnd x lg t ns lba buf count write) (fun _ _ => False) w := by
    intro k hk
    refine wp_get_bind fun v he => ⟨trivial, ?_⟩
    have hv := h.env he
    rw [hv.sys]
    exact hk v hv
  have hempty : Resting x lg (fun s => EqOff (Page x.sys.nvmeDmaBuffer) t s ∧
      Holds s.mem x.sys.nvmeDmaBuffer []) w :=
    h.mono fun _ s hS => ⟨hS, fun k hk => by cases hk⟩
  unfold nvmePrplXfer
  dsimp only
  rcases hp : prplPath ns buf (clampCount ns count) with _ | _ | l | l <;> rw [hp] at hway hdirect
  · by_cases hs : Stray ns buf count
    · rw [nvmeIoXfer, if_pos ((misaligned_iff _ _).mpr (.inl hs.2))]
      refine wp_modify_bind fun v he => ⟨trivial, wp_ret fun u hu => ⟨trivial, .stray hs rfl ?_⟩⟩
      exact Resting.env ((h.env he).note rfl) hu
    · exact hdirect w trivial hs hempty
  · exact hdirect w trivial (fun hs => by rw [Stray, hp] at hs; cases hs.1) hempty
  · refine hget fun v hv => wp_modify_bind fun u hu => ⟨trivial, ?_⟩
    obtain ⟨hlen, hbits⟩ : l.length ≤ 15 ∧ ∀ a ∈ l, a < 4294967296 := hway.words_bound
    have hu' := hv.env hu
    refine hdirect _ trivial (fun hs => by rw [Stray, hp] at hs; cases hs.1) (hu'.setMem ?_)
    exact fun _ hS => ⟨hS.scratch fun o ho => ⟨by omega, by omega⟩, holds_storeWords _ _ hbits⟩
  · have hlen : l.length ≤ 15 := by
      cases hway with
      | bounce _ _ hlen => exact hlen
    refine hget fun v hv => wp_modify_bind fun u hu => ⟨trivial, ?_⟩
    have hu' := (hv.env hu).writePrpl hlen
    refine wp_mono (wp_bounceXfer hB hclamp hfollow' hu') (fun _ _ => trivial)
      (fun res z _ hz => .command (fun hs => by rw [Stray, hp] at hs; cases hs.1) ?_)
      fun _ _ _ hf => hf
    rwa [movedBlocks_bounce hp]

end Nvme
