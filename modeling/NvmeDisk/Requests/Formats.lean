import NvmeDisk.Setup.Probing
import NvmeDisk.Transfer.Described

/-! What a controller touches for a command depends on the format of the namespace: so many bytes a
    block as LBADS says, and the metadata, between the blocks or at the metadata pointer. The driver
    counts blocks of `block_size` bytes, and has only those in its PRPs. -/

namespace Nvme
open Ring Resume Bytes BlockDev

namespace NvmeIdentifyNs

variable (d : NvmeIdentifyNs)

/-- Bytes of data in a block. -/
def dataSize : Nat := 2 ^ (d.lbaf d.format).lbads

/-- Bytes of metadata beside them. -/
def metaSize : Nat := (d.lbaf d.format).ms

/-- Metadata is transferred at the end of each block's data, not at the metadata pointer. -/
def extended : Bool := d.flbas.testBit 4

/-- What is transferred through the PRPs for a block. -/
def lbaSize : Nat := if d.extended then d.dataSize + d.metaSize else d.dataSize

/-- The bytes a read or write command touches, data first; `none` if it must be refused. -/
def accessed (m : Mem) (e : NvmeSqe) : Option (List Nat) :=
  (dataSegs m e.dptrPrp1 e.dptrPrp2 (e.blocks * d.lbaSize)).map fun segs =>
    bytesOf segs ++ if d.extended then [] else List.range' e.mptr (e.blocks * d.metaSize)

end NvmeIdentifyNs

variable {mayFail : Nat → Bool} {count : Nat} {w v : World} {lba buf prp1 prp2 len dma : Nat}
  {write : Bool} {e : NvmeSqe} {m : Mem} {segs : List Seg} {l : List Nat} {q : Drv Int}
  {d : NvmeIdentifyNs}

/-! ### How much -/

theorem prpList_total : ∀ (fuel addr rest : Nat) (segs : List Seg),
    prpList m fuel addr rest = some segs → (segs.map (·.2)).sum = rest
  | 0, addr, rest, segs, h => by
    rw [prpList] at h
    split at h
    · cases h
      simp [*]
    · cases h
  | fuel + 1, addr, rest, segs, h => by
    rw [prpList] at h
    split at h
    · cases h
      simp [*]
    · split at h
      · cases h
      · split at h
        · exact prpList_total fuel _ _ _ h
        · obtain ⟨segs', hsegs', rfl⟩ := Option.map_eq_some_iff.mp h
          have := prpList_total fuel _ _ _ hsegs'
          rw [List.map_cons, List.sum_cons, this]
          omega

/-- A command that is not refused transfers all its bytes. -/
theorem dataSegs_total (h : dataSegs m prp1 prp2 len = some segs) : (segs.map (·.2)).sum = len := by
  have hfirst : min len (nvmePageSize - prp1 % nvmePageSize) ≤ len := Nat.min_le_left ..
  simp only [dataSegs] at h
  split at h
  · cases h
  · split at h
    · cases h
      simp only [List.map_cons, List.map_nil, List.sum_cons, List.sum_nil]
      omega
    · split at h
      · split at h
        · cases h
          simp only [List.map_cons, List.map_nil, List.sum_cons, List.sum_nil]
          omega
        · cases h
      · split at h
        · obtain ⟨segs', hsegs', rfl⟩ := Option.map_eq_some_iff.mp h
          have := prpList_total _ _ _ _ hsegs'
          rw [List.map_cons, List.sum_cons, this]
          omega
        · cases h

theorem length_accessed (h : d.accessed m e = some l) :
    l.length = e.blocks * (d.dataSize + d.metaSize) := by
  obtain ⟨segs, hsegs, rfl⟩ := Option.map_eq_some_iff.mp h
  rw [List.length_append, length_bytesOf, dataSegs_total hsegs, NvmeIdentifyNs.lbaSize, Nat.mul_add]
  split <;> simp [Nat.mul_add]

/-! ### Block sizes -/

theorem NvmeIdentifyNs.blockSize_le (d : NvmeIdentifyNs) : d.blockSize ≤ d.dataSize := by
  rw [blockSize, shl1_eq, dataSize]
  exact Nat.pow_le_pow_right (by decide) (Nat.mod_le ..)

/-- The driver's block size is that of the data unless the shift is too far. -/
theorem NvmeIdentifyNs.blockSize_eq_iff (d : NvmeIdentifyNs) :
    d.blockSize = d.dataSize ↔ (d.lbaf d.format).lbads < 32 := by
  rw [blockSize, shl1_eq, dataSize, Nat.pow_right_inj (by decide)]
  omega

theorem NvmeIdentifyNs.Passes.goodBlock (h : d.Passes) : GoodBlock d.blockSize := by
  have hfits := h.fits
  rw [NvmeIdentifyNs.blockSize, shl1_eq] at hfits ⊢
  have hle : (d.lbaf d.format).lbads % 32 ≤ 12 :=
    (Nat.pow_le_pow_iff_right (by decide)).mp (show _ ≤ 2 ^ 12 from hfits)
  exact ⟨Nat.two_pow_pos _, Nat.pow_dvd_pow 2 hle⟩

/-- The format is one the driver reckons with: no metadata, and a block size the shift can give. -/
structure NvmeIdentifyNs.Plain (d : NvmeIdentifyNs) : Prop where
  metadata : d.metaSize = 0
  shift : (d.lbaf d.format).lbads < 32

/-! ### Exactly the buffer -/

/-- The command touches exactly the bytes of the `n` blocks from `start` on, in order. -/
def Touches (d : NvmeIdentifyNs) (m : Mem) (e : NvmeSqe) (start n : Nat) : Prop :=
  d.accessed m e = some (List.range' start (n * d.blockSize))

theorem accessed_plain (h : d.Plain) (m : Mem) (e : NvmeSqe) :
    d.accessed m e = (dataSegs m e.dptrPrp1 e.dptrPrp2 (e.blocks * d.blockSize)).map bytesOf := by
  have hsize := d.blockSize_eq_iff.mpr h.shift
  rw [NvmeIdentifyNs.accessed, NvmeIdentifyNs.lbaSize, h.metadata, hsize]
  simp

/-- COMMAND: for the blocks the driver has in mind, at least one, in a plain format. -/
theorem CallSqe.touches_iff {nsId mdts : Nat} (hd : d.Passes)
    (h : CallSqe (d.record nsId mdts) dma lba buf count write e) (hcount : count ≤ 65535)
    (hbuf : buf + count * d.blockSize ≤ 4294967296) (hdma : dma % 4096 = 0)
    (hdma' : dma < 4294967296)
    (hm : Holds m dma (prplPath (d.record nsId mdts) buf (clampCount (d.record nsId mdts) count)).words) :
    Touches d m e (startAddr (d.record nsId mdts) dma buf count)
        (movedBlocks (d.record nsId mdts) buf count) ↔
      d.Plain ∧ 1 ≤ count ∧ 1 ≤ (d.record nsId mdts).maxReqSize := by
  have hB : GoodBlock (d.record nsId mdts).blockSize := hd.goodBlock
  have hblocks := h.blocks hcount
  constructor
  · intro htouch
    have hlen := length_accessed htouch
    rw [List.length_range', hblocks, cmdBlocks] at hlen
    have hle := d.blockSize_le
    have hpos := hd.goodBlock.pos
    split at hlen
    · rename_i hzero
      rw [hzero] at hlen
      omega
    · rename_i hsome
      have hsize := Nat.eq_of_mul_eq_mul_left (Nat.pos_of_ne_zero hsome) hlen
      refine ⟨⟨by omega, d.blockSize_eq_iff.mp (by omega)⟩, ?_⟩
      have hclamp := movedBlocks_le_clamp (d.record nsId mdts) buf count
      rw [clampCount] at hclamp
      split at hclamp <;> omega
  · rintro ⟨hplain, h1, hreq⟩
    have hpos := movedBlocks_pos hB hreq h1 buf
    obtain ⟨segs, hwalk⟩ := h.walk hB hreq h1 hcount hbuf hdma hdma' hm
    rw [Touches, accessed_plain hplain, hblocks, cmdBlocks, if_neg (by omega)]
    have hfound := hwalk.found
    change dataSegs _ _ _ (_ * d.blockSize) = _ at hfound
    rw [hfound, Option.map_some, bytesOf_tiles _ _ _ hwalk.covers]
    rfl

/-- CORRECT: a command `nvme_prpl_xfer` submits for an accepted namespace makes the controller touch
    exactly the bytes of its blocks if and only if the namespace has no metadata and a block size
    below 2^32, and there is a block to transfer. -/
theorem touches_exact_iff {nsId mdts : Nat} (hd : d.Passes) (hcount : count ≤ 65535)
    (hbuf : buf + count * d.blockSize ≤ 4294967296) (hdma : w.sys.nvmeDmaBuffer % 4096 = 0)
    (hdma' : w.sys.nvmeDmaBuffer < 4294967296)
    (hrun : Steps (Nvmec mayFail) w (nvmePrplXfer (d.record nsId mdts) lba buf count write) v q)
    {new : List NvmeSqe} (hnew : handedOver v.log = new ++ handedOver w.log) (he : e ∈ new)
    (hm : Holds m w.sys.nvmeDmaBuffer
      (prplPath (d.record nsId mdts) buf (clampCount (d.record nsId mdts) count)).words) :
    Touches d m e (startAddr (d.record nsId mdts) w.sys.nvmeDmaBuffer buf count)
        (movedBlocks (d.record nsId mdts) buf count) ↔
      d.Plain ∧ 1 ≤ count ∧ 1 ≤ (d.record nsId mdts).maxReqSize := by
  have hB : GoodBlock (d.record nsId mdts).blockSize := hd.goodBlock
  obtain ⟨hcall, _⟩ := submitted_call hB hcount hdma hrun hnew he
  exact hcall.touches_iff hd hcount hbuf hdma hdma' hm

/-! ### Two formats -/

/-- Blocks of 512 bytes without metadata. -/
def plainData : NvmeIdentifyNs := ⟨1000, 0, 0, fun _ => ⟨0, 9⟩⟩

/-- Blocks of 512 bytes with 8 bytes of metadata at the end of each. -/
def extendedData : NvmeIdentifyNs := ⟨1000, 0, 0x10, fun _ => ⟨8, 9⟩⟩

theorem plainData_passes : plainData.Passes := ⟨⟨by decide, by decide⟩, by decide⟩

theorem extendedData_passes : extendedData.Passes := ⟨⟨by decide, by decide⟩, by decide⟩

/-- Read eight blocks into a page, up to the doorbell write. -/
def pageRun (d : NvmeIdentifyNs) : World × Drv Int :=
  follow (nvmeMove noFail) [none, none, none] sampleWorld
    (nvmePrplXfer (d.record 1 0) 8 0x100000 8 false)

theorem touches_exact_iff_sample : ∃ e, handedOver (pageRun plainData).1.log = [e] ∧
    (Touches plainData (pageRun plainData).1.store.mem e 0x100000 8 ↔
      plainData.Plain ∧ 1 ≤ 8 ∧ 1 ≤ (plainData.record 1 0).maxReqSize) := by
  have hlog : ∃ e, (pageRun plainData).1.log = [.commit .io 0 e 1] := ⟨_, rfl⟩
  obtain ⟨e, hlog⟩ := hlog
  have hnew : handedOver (pageRun plainData).1.log = [e] ++ handedOver sampleWorld.log := by
    rw [hlog]
    rfl
  refine ⟨e, hnew, ?_⟩
  exact touches_exact_iff plainData_passes (by decide) (by decide) rfl (by decide)
    (follow_steps (nvmeMove noFail) [none, none, none] sampleWorld
      (nvmePrplXfer (plainData.record 1 0) 8 0x100000 8 false))
    hnew (List.mem_singleton.mpr rfl) (fun k hk => absurd hk (Nat.not_lt_zero k))

/-- The driver gives the page, and no second PRP; the controller transfers 64 bytes more, to address
    0. -/
theorem metadata_astray : extendedData.Passes ∧ ∃ e, handedOver (pageRun extendedData).1.log = [e] ∧
    dataSegs (pageRun extendedData).1.store.mem e.dptrPrp1 e.dptrPrp2 (e.blocks * extendedData.lbaSize) =
      some [(0x100000, 4096), (0, 64)] ∧
    ¬ Touches extendedData (pageRun extendedData).1.store.mem e 0x100000 8 := by
  refine ⟨extendedData_passes, _, rfl, by decide +kernel, fun h => ?_⟩
  have hlen := length_accessed h
  rw [List.length_range'] at hlen
  exact absurd hlen (by decide)

end Nvme
