import NvmeDisk.Queue.Matching
import NvmeDisk.Transfer.Plan
import NvmeDisk.Transfer.Submitting

/-! What a submitted transfer command says, decoded as NVMe decodes it: the starting LBA, the number of
    blocks, and the bytes its PRPs describe. -/

namespace Nvme
open Ring Resume Bytes BlockDev

section
variable (m : Mem) (e : NvmeSqe) (dma start len : Nat) (segs : List Seg)

/-- Walking PRP1 and then PRP2 finds the segments `segs`, which are the `len` bytes from `start` on. -/
structure Walk : Prop where
  found : dataSegs m e.dptrPrp1 e.dptrPrp2 len = some segs
  covers : Tiles start segs len
  aligned : ∀ s ∈ segs.tail, s.1 % nvmePageSize = 0
  onePage : start % nvmePageSize + len ≤ nvmePageSize → e.dptrPrp2 = 0
  list : 2 * nvmePageSize < start % nvmePageSize + len →
    e.dptrPrp2 = dma ∧ segs.tail.length ≤ nvmeMaxPrplEntries ∧
      Holds m dma (segs.tail.map (·.1))

end

section
variable (ns : NvmeNamespace) (dma lba buf count : Nat) (write : Bool) (e : NvmeSqe)

/-- Where the command's bytes start: the caller's buffer, or the bounce page. -/
def startAddr : Nat := if (prplPath ns buf (clampCount ns count)).Direct then buf else dma

/-- The command is for the first blocks of those asked for, and its PRPs describe their bytes in any
    memory that holds the list words as the driver wrote them. -/
structure Described : Prop where
  opc : e.opc = ioOpc write
  nsId : e.nsid = ns.nsId
  slba : e.slba = lba
  pos : 1 ≤ e.blocks
  most : e.blocks ≤ min count ns.maxReqSize
  walk : ∀ m, Holds m dma (prplPath ns buf (clampCount ns count)).words →
    ∃ segs, Walk m e dma (startAddr ns dma buf count) (e.blocks * ns.blockSize) segs

end

variable {mayFail : Nat → Bool} {count : Nat} {w v : World} {ns : NvmeNamespace}
  {lba buf dma prp1 prp2 len : Nat} {write : Bool} {e : NvmeSqe} {m : Mem} {segs : List Seg}
  {q : Drv Int}

/-! ### Decoding -/

theorem prpList_aligned : ∀ (fuel addr rest : Nat) (segs : List Seg),
    prpList m fuel addr rest = some segs → ∀ s ∈ segs, s.1 % nvmePageSize = 0
  | 0, addr, rest, segs, h => by
    rw [prpList] at h
    split at h
    · cases h
      simp
    · cases h
  | fuel + 1, addr, rest, segs, h => by
    rw [prpList] at h
    split at h
    · cases h
      simp
    · split at h
      · cases h
      · rename_i hword
        split at h
        · exact prpList_aligned fuel _ _ _ h
        · obtain ⟨segs', hsegs', rfl⟩ := Option.map_eq_some_iff.mp h
          exact List.forall_mem_cons.mpr ⟨not_not.mp hword, prpList_aligned fuel _ _ _ hsegs'⟩

/-- The controller takes no PRP after the first that is not page aligned. -/
theorem dataSegs_aligned (h : dataSegs m prp1 prp2 len = some segs) :
    ∀ s ∈ segs.tail, s.1 % nvmePageSize = 0 := by
  simp only [dataSegs] at h
  split at h
  · cases h
  · split at h
    · cases h
      simp
    · split at h
      · split at h
        · cases h
          simpa
        · cases h
      · split at h
        · obtain ⟨segs', hsegs', rfl⟩ := Option.map_eq_some_iff.mp h
          exact prpList_aligned _ _ _ _ hsegs'
        · cases h

/-- The PRPs of a direct transfer. -/
theorem Way.walk {p : Path} (h : Way ns.blockSize buf count p) (hd : p.Direct)
    (htop : buf + count * ns.blockSize ≤ 4294967296) (hdma : dma % 4096 = 0)
    (hdma' : dma < 4294967296) (halign : buf % 4 = 0) (hbuf : buf < 4294967296)
    (hm : Holds m dma p.words) (h1 : e.dptrPrp1 = u32 buf) (h2 : e.dptrPrp2 = u32 (p.prp2 dma buf)) :
    ∃ segs, Walk m e dma buf (count * ns.blockSize) segs := by
  have hpage : nvmePageSize = 4096 := rfl
  have hprp1 : e.dptrPrp1 = buf := by rw [h1, u32, Nat.mod_eq_of_lt hbuf]
  have hprp2 : e.dptrPrp2 = p.prp2 dma buf := by
    rw [h2, u32, Nat.mod_eq_of_lt]
    cases h with
    | single _ => exact Nat.two_pow_pos 32
    | two _ _ _ => exact Nat.mod_lt _ (by omega)
    | list _ _ _ _ => exact hdma'
    | bounce _ _ _ => exact hd.elim
  obtain ⟨segs, hsegs, htiles, hwords⟩ := h.segs hd htop hdma halign hm
  refine ⟨segs, ?_, htiles, dataSegs_aligned hsegs, fun hone => ?_, fun hlist => ?_⟩
  · rw [hprp1, hprp2]
    exact hsegs
  · rw [hpage] at hone
    rw [hprp2]
    cases h with
    | single _ => rfl
    | two _ _ _ => omega
    | list _ _ _ _ => omega
    | bounce _ _ _ => exact hd.elim
  · rw [hpage] at hlist
    cases h with
    | single _ => omega
    | two _ _ _ => omega
    | list l hoff hlt hl =>
      have htail := hwords (by simp)
      refine ⟨hprp2, ?_, by rw [htail]; exact hm⟩
      rw [← List.length_map, htail]
      exact (Way.list l hoff hlt hl).words_bound.1
    | bounce _ _ _ => exact hd.elim

/-- The PRPs of a bounce. -/
theorem bounce_walk (hlen : len ≤ 4096) (hdma : dma % 4096 = 0) (hdma' : dma < 4294967296)
    (h1 : e.dptrPrp1 = u32 dma) (h2 : e.dptrPrp2 = 0) : Walk m e dma dma len [(dma, len)] := by
  have hpage : nvmePageSize = 4096 := rfl
  obtain ⟨hsegs, htiles⟩ := bounce_segs (m := m) hlen hdma
  refine ⟨?_, htiles, by simp, fun _ => h2, fun hlist => by rw [hpage] at hlist; omega⟩
  rw [h1, h2, u32, Nat.mod_eq_of_lt hdma']
  exact hsegs

theorem CallSqe.blocks (h : CallSqe ns dma lba buf count write e) (hcount : count ≤ 65535) :
    e.blocks = cmdBlocks (movedBlocks ns buf count) := by
  obtain ⟨_, tail, rfl⟩ := h
  exact ioSqe_blocks _ _ _ _ _ _ ((movedBlocks_le ns buf count).trans hcount)

/-- The PRPs of the command `nvme_prpl_xfer` hands over. -/
theorem CallSqe.walk (h : CallSqe ns dma lba buf count write e) (hB : GoodBlock ns.blockSize)
    (hreq : 1 ≤ ns.maxReqSize) (h1 : 1 ≤ count) (hcount : count ≤ 65535)
    (hbuf : buf + count * ns.blockSize ≤ 4294967296) (hdma : dma % 4096 = 0)
    (hdma' : dma < 4294967296) (hm : Holds m dma (prplPath ns buf (clampCount ns count)).words) :
    ∃ segs, Walk m e dma (startAddr ns dma buf count) (movedBlocks ns buf count * ns.blockSize)
      segs := by
  obtain ⟨hs, tail, rfl⟩ := h
  rw [startAddr]
  have hway := prplPath_way hB ((clampCount_le ns count).trans hcount) buf
  by_cases hd : (prplPath ns buf (clampCount ns count)).Direct
  · have hfit := Nat.mul_le_mul_right ns.blockSize (clampCount_le ns count)
    have hsize := Nat.mul_pos h1 hB.pos
    rw [if_pos hd, movedBlocks_direct hd]
    have hquad : buf % 4 = 0 := by
      have := hway.aligned hd hs hdma
      rw [misaligned_iff] at this
      omega
    exact hway.walk hd (by omega) hdma hdma' hquad (by omega) hm (by rw [prplSqe, if_pos hd]; rfl) rfl
  · rcases hp : prplPath ns buf (clampCount ns count) with _ | _ | l | l <;> rw [hp] at hd
    · exact absurd trivial hd
    · exact absurd trivial hd
    · exact absurd trivial hd
    · rw [if_neg hd, movedBlocks_bounce hp]
      have hlen := (bounceBlocks_bounds hB (clampCount_pos hreq h1)).2.2
      refine ⟨_, bounce_walk hlen hdma hdma' ?_ ?_⟩
      · rw [prplSqe, hp, if_neg hd]
        rfl
      · rw [prplSqe, hp]
        rfl

/-- What `nvme_prpl_xfer` hands over is what it was asked for. -/
theorem CallSqe.described (h : CallSqe ns dma lba buf count write e) (hB : GoodBlock ns.blockSize)
    (hreq : 1 ≤ ns.maxReqSize) (h1 : 1 ≤ count) (hcount : count ≤ 65535)
    (hlba : lba < 18446744073709551616) (hbuf : buf + count * ns.blockSize ≤ 4294967296)
    (hdma : dma % 4096 = 0) (hdma' : dma < 4294967296) :
    Described ns dma lba buf count write e ∧ e.blocks = movedBlocks ns buf count := by
  have hpos := movedBlocks_pos hB hreq h1 buf
  have hle := movedBlocks_le ns buf count
  have hblocks : e.blocks = movedBlocks ns buf count := by
    rw [h.blocks hcount, cmdBlocks, if_neg (by omega)]
  have hclamp := movedBlocks_le_clamp ns buf count
  have hmost : clampCount ns count ≤ min count ns.maxReqSize := by
    rw [clampCount]
    split <;> omega
  have hwalk := fun m hm => h.walk (m := m) hB hreq h1 hcount hbuf hdma hdma' hm
  obtain ⟨_, tail, rfl⟩ := h
  refine ⟨⟨ioSqe_opc .., rfl, ?_, by omega, by omega, fun m hm => ?_⟩, hblocks⟩
  · rw [prplSqe, ioSqe_slba, u64, Nat.mod_eq_of_lt hlba]
  · rw [hblocks]
    exact hwalk m hm

/-! ### Every command submitted -/

/-- A command the call has submitted is its own. -/
theorem submitted_call (hB : GoodBlock ns.blockSize) (hcount : count ≤ 65535)
    (hdma : w.sys.nvmeDmaBuffer % 4096 = 0)
    (hrun : Steps (Nvmec mayFail) w (nvmePrplXfer ns lba buf count write) v q) {new : List NvmeSqe}
    (hnew : handedOver v.log = new ++ handedOver w.log) (he : e ∈ new) :
    CallSqe ns w.sys.nvmeDmaBuffer lba buf count write e ∧
    (Rested w → ∀ ev log, v.log = ev :: log → ev.ioEntry? = some e →
      Holds v.store.mem w.sys.nvmeDmaBuffer (prplPath ns buf (clampCount ns count)).words) ∧
    ∀ res, q = .ret res → res = movedBlocks ns buf count ∨ res = -1 := by
  obtain ⟨hsub, hend⟩ := wp_prplSubmits hB hcount hdma v q hrun
  cases hsub with
  | none hnone =>
    have hnil : new = [] := by
      rw [hnone] at hnew
      exact List.append_left_eq_self.mp hnew.symm
    rw [hnil] at he
    cases he
  | one e' hcall hone hmem =>
    have hsingle : new = [e'] := by
      have hcancel : [e'] ++ handedOver w.log = new ++ handedOver w.log := hone.symm.trans hnew
      exact (List.append_cancel_right hcancel).symm
    obtain rfl : e = e' := by simpa [hsingle] using he
    refine ⟨hcall, fun hs ev log hlog hev => hmem hs ev log hlog (by rw [hev]; simp), ?_⟩
    rintro res rfl
    exact hend.2

/-- CORRECT: every command a call of `nvme_prpl_xfer` submits, from any state, describes the bytes it
    should; when the doorbell rings its list stands in memory, if the controller had no other work;
    and a call that does not fail returns the number of its blocks. -/
theorem commands_described {k : Nat} (hB : ns.blockSize = 2 ^ k) (h9 : 9 ≤ k) (h12 : k ≤ 12)
    (hreq : 1 ≤ ns.maxReqSize) (h1 : 1 ≤ count) (hcount : count ≤ 65535)
    (hlba : lba < 18446744073709551616) (hbuf : buf + count * ns.blockSize ≤ 4294967296)
    (hdma : w.sys.nvmeDmaBuffer % 4096 = 0) (hdma' : w.sys.nvmeDmaBuffer < 4294967296)
    (hrun : Steps (Nvmec mayFail) w (nvmePrplXfer ns lba buf count write) v q)
    {new : List NvmeSqe} (hnew : handedOver v.log = new ++ handedOver w.log) (he : e ∈ new) :
    Described ns w.sys.nvmeDmaBuffer lba buf count write e ∧
    (Rested w → ∀ ev log, v.log = ev :: log → ev.ioEntry? = some e → ∃ segs,
      Walk v.store.mem e w.sys.nvmeDmaBuffer (startAddr ns w.sys.nvmeDmaBuffer buf count)
        (e.blocks * ns.blockSize) segs) ∧
    ∀ res, q = .ret res → res = e.blocks ∨ res = -1 := by
  obtain ⟨hgood, _⟩ := goodBlock_pow hB h9 h12
  obtain ⟨hcall, hmem, hend⟩ := submitted_call hgood hcount hdma hrun hnew he
  obtain ⟨hdesc, hblocks⟩ := hcall.described hgood hreq h1 hcount hlba hbuf hdma hdma'
  refine ⟨hdesc, fun hs ev log hlog hev => hdesc.walk _ (hmem hs ev log hlog hev), ?_⟩
  rw [hblocks]
  exact hend

/-- Write four blocks of a page each, from a page-aligned buffer: PRP1 and a list of three. -/
def listNs : NvmeNamespace := ⟨1, 1000, 4096, 0, 16⟩

/-- Up to the doorbell write. -/
def listRun : World × Drv Int :=
  follow (nvmeMove noFail) [none, none, none, none, none] sampleWorld
    (nvmePrplXfer listNs 8 0x100000 4 true)

theorem commands_described_sample : ∃ e, handedOver listRun.1.log = [e] ∧
    Described listNs 0x200000 8 0x100000 4 true e ∧
    ∃ segs, Walk listRun.1.store.mem e 0x200000 0x100000 16384 segs := by
  have hrested : Rested sampleWorld := fun i =>
    ((freshPair_initialised i _ _).idle (sampleSqLen_pow i).1 (sampleCqLen_pow i).1
      (sampleSqLen_pow i).2 (sampleCqLen_pow i).2).noWork
  have hlog : ∃ e, listRun.1.log = [.commit .io 0 e 1] ∧ e.blocks = 4 := ⟨_, rfl, by decide⟩
  obtain ⟨e, hlog, hblocks⟩ := hlog
  have hnew : handedOver listRun.1.log = [e] ++ handedOver sampleWorld.log := by
    rw [hlog]
    rfl
  have hdone := commands_described (k := 12) rfl (by decide) (by decide) (by decide) (by decide)
    (by decide) (by decide) (by decide) rfl (by decide)
    (follow_steps (nvmeMove noFail) [none, none, none, none, none] sampleWorld
      (nvmePrplXfer listNs 8 0x100000 4 true)) hnew (List.mem_singleton.mpr rfl)
  obtain ⟨hdesc, hwalk, _⟩ := hdone
  refine ⟨e, hnew, hdesc, ?_⟩
  have := hwalk hrested _ _ hlog rfl
  rw [hblocks] at this
  exact this

end Nvme
