import NvmeDisk.Requests.Geometry
import NvmeDisk.Requests.Handing
import NvmeDisk.Setup.Selected

/-! The geometry of an accepted namespace as numbers. Two exponents of the device meet in it, the block
    size and the largest transfer, and the code bounds neither before it shifts: the geometry is what
    the exponents say exactly if the one is below 32 and the other below 20. From 20 on the product
    with the page size wraps to 0, no command can be for 0 blocks, and it is for 65536. -/

namespace Nvme
open Ring Resume Bytes BlockDev Mheap

/-- The exponent of the format in use. -/
def NvmeIdentifyNs.lbads (d : NvmeIdentifyNs) : Nat := (d.lbaf d.format).lbads

/-- The record `ns` has the geometry the exponents say, and so have its transfers. -/
structure Unwrapped (d : NvmeIdentifyNs) (mdts : Nat) (ns : NvmeNamespace) : Prop where
  blockShift : d.lbads < 32
  limitShift : mdts ≠ 0 → mdts < 32
  block : ns.blockSize = 2 ^ d.lbads ∧ ns.blockSize ∣ 4096
  request : 1 ≤ ns.maxReqSize
  limit : mdts ≠ 0 → ns.maxReqSize * ns.blockSize = 2 ^ mdts * 4096
  transfers : ∀ {w v lba buf count write q new}, 1 ≤ count → count ≤ 65535 →
    Steps Foreign w (nvmePrplXfer ns lba buf count write) v q →
    handedOver v.log = new ++ handedOver w.log →
      (∀ e ∈ new, e.blocks = movedBlocks ns buf count) ∧ 1 ≤ movedBlocks ns buf count ∧
      (mdts ≠ 0 → movedBlocks ns buf count * ns.blockSize ≤ 2 ^ mdts * 4096) ∧
      (w.sys.nvmeDmaBuffer % 4096 = 0 → ¬ Stray ns buf count → ∀ res, q = .ret res → ∃ e, new = [e])

variable {d : NvmeIdentifyNs} {ns : NvmeNamespace} {nsId mdts rec : Nat} {w v u : World}
  {b : Block Site}

/-! ### The numbers -/

theorem record_accepted (h : d.Passes) (nsId mdts : Nat) : Accepted (d.record nsId mdts) :=
  ⟨⟨_, rfl⟩, h.fits, ⟨_, rfl⟩⟩

theorem record_blockSize (h : d.lbads < 32) : (d.record nsId mdts).blockSize = 2 ^ d.lbads := by
  change shl1 d.lbads = 2 ^ d.lbads
  rw [shl1_eq, Nat.mod_eq_of_lt h]

/-- Below 20 nothing wraps. -/
theorem record_limit (h : d.Passes) (hmdts : mdts < 20) (h0 : mdts ≠ 0) :
    (d.record nsId mdts).maxReqSize * (d.record nsId mdts).blockSize = 2 ^ mdts * 4096 := by
  have hdvd : (d.record nsId mdts).blockSize ∣ 2 ^ mdts * 4096 :=
    Dvd.dvd.mul_left (record_accepted h nsId mdts).goodBlock.page _
  have hlt : 2 ^ mdts * 4096 < 4294967296 :=
    calc 2 ^ mdts * 4096 ≤ 2 ^ 19 * 4096 :=
          Nat.mul_le_mul_right _ (Nat.pow_le_pow_right (by decide) (Nat.le_of_lt_succ hmdts))
      _ < 4294967296 := by decide
  have hmax : (d.record nsId mdts).maxReqSize =
      2 ^ mdts * 4096 / (d.record nsId mdts).blockSize := by
    change maxReqSize mdts d.blockSize = 2 ^ mdts * nvmePageSize / d.blockSize
    rw [maxReqSize, if_pos h0, shl1_eq, Nat.mod_eq_of_lt (by omega : mdts < 32), u32,
      Nat.mod_eq_of_lt hlt]
  rw [hmax, Nat.div_mul_cancel hdvd]

/-- From 20 on the product is 0 modulo 2^32. -/
theorem record_wraps (h0 : mdts ≠ 0) (h20 : 20 ≤ mdts) (h32 : mdts < 32) :
    (d.record nsId mdts).maxReqSize = 0 := by
  have hprod : 2 ^ mdts * nvmePageSize = 4294967296 * 2 ^ (mdts - 20) := by
    rw [← Nat.sub_add_cancel h20, Nat.pow_add, Nat.add_sub_cancel]
    change 2 ^ (mdts - 20) * 1048576 * 4096 = _
    omega
  change maxReqSize mdts d.blockSize = 0
  rw [maxReqSize, if_pos h0, shl1_eq, Nat.mod_eq_of_lt h32, u32, hprod, Nat.mul_mod_right,
    Nat.zero_div]

theorem record_request (h : d.Passes) (hmdts : mdts < 20) :
    1 ≤ (d.record nsId mdts).maxReqSize := by
  by_cases h0 : mdts = 0
  · change 1 ≤ maxReqSize mdts d.blockSize
    rw [maxReqSize, if_neg (not_not.mpr h0)]
    decide
  · by_contra hzero
    have hlimit : (d.record nsId mdts).maxReqSize * (d.record nsId mdts).blockSize = _ :=
      record_limit h hmdts h0
    rw [Nat.lt_one_iff.mp (Nat.not_le.mp hzero), Nat.zero_mul] at hlimit
    have := Nat.two_pow_pos mdts
    omega

/-- Every command of a transfer is for the blocks it moves: one at least, and within the limit of the
    record. -/
theorem transfer_within {lba buf count : Nat} {write : Bool} {q : Drv Int} {new : List NvmeSqe}
    (hB : GoodBlock ns.blockSize) (hreq : 1 ≤ ns.maxReqSize) (h1 : 1 ≤ count) (hcount : count ≤ 65535)
    (hrun : Steps Foreign w (nvmePrplXfer ns lba buf count write) v q)
    (hnew : handedOver v.log = new ++ handedOver w.log) :
    (∀ e ∈ new, e.blocks = movedBlocks ns buf count) ∧ 1 ≤ movedBlocks ns buf count ∧
      movedBlocks ns buf count ≤ ns.maxReqSize := by
  have hpos := movedBlocks_pos hB hreq h1 buf
  have hmost : movedBlocks ns buf count ≤ ns.maxReqSize := by
    refine (movedBlocks_le_clamp ns buf count).trans ?_
    rw [clampCount]
    split <;> omega
  refine ⟨((hands_prplXfer (fun prp1 prp2 tail => ?_) (.start _ w)) v q hrun).1.new hnew, hpos, hmost⟩
  rw [ioSqe_blocks _ _ _ _ _ _ ((movedBlocks_le ..).trans hcount), cmdBlocks, if_neg (by omega)]

/-- A transfer that is not refused and returns has handed one command over. -/
theorem transfer_submits {lba buf count : Nat} {write : Bool} {res : Int} {new : List NvmeSqe}
    (hB : GoodBlock ns.blockSize) (hcount : count ≤ 65535) (hdma : w.sys.nvmeDmaBuffer % 4096 = 0)
    (hstray : ¬ Stray ns buf count)
    (hrun : Steps Foreign w (nvmePrplXfer ns lba buf count write) v (.ret res))
    (hnew : handedOver v.log = new ++ handedOver w.log) : ∃ e, new = [e] := by
  have hany : ∀ a b, Foreign a b → AnyDevice a b := fun _ _ h => ⟨h.sq .io, h.sys, h.log⟩
  obtain ⟨y, hy, hv⟩ := (goes_prplXfer hB hdma hcount w
    (show Showing w.sys.nvmeDmaBuffer ⟨doings w.log, (w.q .io).sq⟩ w from ⟨rfl, rfl, rfl⟩) v _
    (hrun.mono hany)).2
  rcases hy with ⟨hs, _, _⟩ | ⟨_, _, r, hcmd, _⟩
  · exact absurd hs hstray
  · obtain ⟨es, hes, hlen⟩ := hcmd.handedOver
    rw [← hv.doings, handedOver_doings, handedOver_doings, hnew] at hes
    rw [← List.append_cancel_right hes] at hlen
    exact List.length_eq_one_iff.mp hlen

theorem unwrapped_record (h : d.Passes) (nsId mdts : Nat) :
    Unwrapped d mdts (d.record nsId mdts) ↔ d.lbads < 32 ∧ mdts < 20 := by
  constructor
  · refine fun hu => ⟨hu.blockShift, ?_⟩
    by_contra h20
    have h0 : mdts ≠ 0 := by omega
    have hreq := hu.request
    rw [record_wraps h0 (Nat.not_lt.mp h20) (hu.limitShift h0)] at hreq
    omega
  · rintro ⟨hlbads, hmdts⟩
    have hgood := (record_accepted h nsId mdts).goodBlock
    refine ⟨hlbads, fun _ => by omega, ⟨record_blockSize hlbads, hgood.page⟩, record_request h hmdts,
      record_limit h hmdts, fun {w v lba buf count write q new} h1 hcount hrun hnew => ?_⟩
    obtain ⟨hall, hpos, hmost⟩ := transfer_within hgood (record_request h hmdts) h1 hcount hrun hnew
    refine ⟨hall, hpos, fun h0 => ?_, fun hdma hstray res hres => ?_⟩
    · calc movedBlocks (d.record nsId mdts) buf count * (d.record nsId mdts).blockSize
        _ ≤ (d.record nsId mdts).maxReqSize * (d.record nsId mdts).blockSize :=
          Nat.mul_le_mul_right _ hmost
        _ = 2 ^ mdts * 4096 := record_limit h hmdts h0
    · rw [hres] at hrun
      exact transfer_submits hgood hcount hdma hstray hrun hnew

/-! ### The probe -/

/-- Anything a device may do, but for the 4096 bytes at `a`. -/
structure Spares (a : Nat) (w v : World) : Prop extends Hostile w v where
  bytes : ∀ o < 4096, v.store.mem (a + o) = w.store.mem (a + o)

/-- The Identify buffer `b` is still there with the data it had in `w`, and nothing is accepted yet. -/
structure Reading (b : Block Site) (w v : World) : Prop where
  live : b ∈ v.sys.heap.live
  size : b.size = 4096
  bytes : ∀ o < 4096, v.store.mem (b.addr + o) = w.store.mem (b.addr + o)
  none : accepted v.log = accepted w.log

/-- At most one namespace has been accepted, one that passes the checks, with its record. -/
def RecordsOnly (d : NvmeIdentifyNs) (nsId mdts : Nat) (w v : World) : Prop :=
  accepted v.log = accepted w.log ∨ ∃ rec, accepted v.log = rec :: accepted w.log ∧ d.Passes ∧
    v.sys.nsRec rec = d.record nsId mdts

theorem Reading.recordsOnly (h : Reading b w v) : RecordsOnly d nsId mdts w v := .inl h.none

theorem reading_stable : Stable (Spares b.addr) (Reading b w) := fun v u h hr =>
  ⟨by rw [hr.sys]; exact h.live, h.size, fun o ho => (hr.bytes o ho).trans (h.bytes o ho),
    by rw [hr.log]; exact h.none⟩

/-- Only the log and the records matter. -/
theorem RecordsOnly.same (h : RecordsOnly d nsId mdts w v) (hlog : accepted u.log = accepted v.log)
    (hrec : u.sys.nsRec = v.sys.nsRec) : RecordsOnly d nsId mdts w u := by
  rw [RecordsOnly, hlog, hrec]
  exact h

theorem recordsOnly_stable : Stable (Spares b.addr) (RecordsOnly d nsId mdts w) := fun v u h hr =>
  h.same (by rw [hr.log]) (by rw [hr.sys])

/-- The fields the checks read. -/
theorem Reading.fields (h : Reading b w v) :
    (identifyNsAt v.store.mem b.addr).format = (identifyNsAt w.store.mem b.addr).format ∧
      (identifyNsAt v.store.mem b.addr).nlbaf = (identifyNsAt w.store.mem b.addr).nlbaf ∧
      SameNsData w.store.mem v.store.mem b.addr := by
  have hload : ∀ o < 4096, load v.store.mem (b.addr + o) 1 = load w.store.mem (b.addr + o) 1 := by
    intro o ho
    refine load_congr 1 _ fun k hk => ?_
    rw [Nat.lt_one_iff.mp hk, Nat.add_zero]
    exact h.bytes o ho
  refine ⟨?_, hload 25 (by decide), sameNsData h.bytes⟩
  exact congrArg (· &&& 0xF) (hload 26 (by decide))

variable {α β : Type} {Q : β → World → Prop} {X : Halt → World → Prop}

/-- A field is read as it was when Identify returned. -/
theorem Reading.wp_read {field : NvmeIdentifyNs → α} {k : α → Drv β} (h : Reading b w v)
    (hfield : ∀ {u}, Reading b w u →
      field (identifyNsAt u.store.mem b.addr) = field (identifyNsAt w.store.mem b.addr))
    (hk : ∀ u, Reading b w u → Wp (Spares b.addr) (RecordsOnly d nsId mdts w)
      (k (field (identifyNsAt w.store.mem b.addr))) Q X u) :
    Wp (Spares b.addr) (RecordsOnly d nsId mdts w) (idNs b.addr field >>= k) Q X v :=
  wp_get_bind fun u he => by
    have hu := reading_stable.env h he
    refine ⟨hu.recordsOnly, ?_⟩
    rw [hfield hu]
    exact hk u hu

/-- So is one the code goes by. -/
theorem Reading.wp_readUsed {asUsed : Nat → Used} {k : Nat → Drv β} (h : Reading b w v)
    (field : NvmeIdentifyNs → Nat)
    (hfield : ∀ {u}, Reading b w u →
      field (identifyNsAt u.store.mem b.addr) = field (identifyNsAt w.store.mem b.addr))
    (hk : ∀ u, Reading b w u → Wp (Spares b.addr) (RecordsOnly d nsId mdts w)
      (k (field (identifyNsAt w.store.mem b.addr))) Q X u) :
    Wp (Spares b.addr) (RecordsOnly d nsId mdts w)
      (getUsed asUsed (fun w => field (identifyNsAt w.store.mem b.addr)) >>= k) Q X v :=
  wp_atom fun u he => by
    have hu := reading_stable.env h he
    refine ⟨hu.recordsOnly, ?_⟩
    dsimp only
    rw [hfield hu]
    exact hk _ ⟨hu.live, hu.size, hu.bytes, hu.none⟩

/-- An allocation leaves the buffer where it is, zero-filled or not. -/
theorem Reading.alloc (h : Reading b w v) (align size : Nat) (site : Site) (used : Used) :
    Reading b w ((v.setHeap (v.sys.heap.alloc align size site).2).use used) ∧
      ((v.sys.heap.alloc align size site).1 ≠ 0 →
        Reading b w (((v.setHeap (v.sys.heap.alloc align size site).2).use used).setMem
          (fill v.store.mem (v.sys.heap.alloc align size site).1 size fun _ => 0))) := by
  rcases v.sys.heap.alloc_cases align size site with ⟨h0, hl⟩ | ⟨c, hc, _, hsize, _, hl, hapart⟩
  · have hlive : b ∈ (v.sys.heap.alloc align size site).2.live := by rw [hl]; exact h.live
    exact ⟨⟨hlive, h.size, h.bytes, h.none⟩, fun hne => absurd h0 hne⟩
  · have hlive : b ∈ (v.sys.heap.alloc align size site).2.live := by
      rw [hl]
      exact List.mem_cons_of_mem _ h.live
    refine ⟨⟨hlive, h.size, h.bytes, h.none⟩, fun _ => ⟨hlive, h.size, fun o ho => ?_, h.none⟩⟩
    have hout := hapart b h.live
    have hpage := h.size
    rw [← h.bytes o ho, hc]
    exact fill_out (f := fun _ => 0) (by omega)

theorem reading_ensureDma : ensureDmaBuffer.Keeps (Reading b w) := by
  refine .bind (.get _) fun dma => ?_
  split
  · exact .ret
  · refine .bind (.act fun v hv => ?_) fun a => .bind (.modify fun v hv => ⟨hv.live, hv.size, hv.bytes,
      hv.none⟩) fun _ => ?_
    · obtain ⟨hheap, hfill⟩ := hv.alloc nvmePageSize nvmePageSize .dma (.alloc .dma _)
      dsimp only
      split
      · exact hheap
      · rename_i h0
        exact hfill h0
    · split
      · exact .bind (.modify fun v hv => ⟨hv.live, hv.size, hv.bytes, hv.none⟩) fun _ => .ret
      · exact .ret

/-- The record of the namespace. -/
theorem Reading.wp_recordNs (h : Reading b w v) (hd : d = identifyNsAt w.store.mem b.addr)
    (hf : d.Formatted) :
    Wp (Spares b.addr) (RecordsOnly d nsId mdts w) (recordNs b.addr nsId mdts d.format)
      (fun _ => RecordsOnly d nsId mdts w) (fun _ _ => False) v := by
  have hquiet : ∀ {u}, RecordsOnly d nsId mdts w u → Wp (Spares b.addr) (RecordsOnly d nsId mdts w)
      (.ret () : Drv Unit) (fun _ => RecordsOnly d nsId mdts w) (fun _ _ => False) u := fun hu =>
    wp_ret fun x he => ⟨recordsOnly_stable.env hu he, recordsOnly_stable.env hu he⟩
  have hlt : d.format < 16 := Nat.lt_of_le_of_lt Nat.and_le_right (by decide)
  refine wp_atom_stable reading_stable h (fun _ h => h.recordsOnly) fun v hv => ?_
  refine wp_modify_bind fun u hu => ?_
  have hu' := reading_stable.env (hv.alloc 4 sizeofNamespace .ns (.alloc .ns _)).1 hu
  refine ⟨hu'.recordsOnly, ?_⟩
  have hnow : Reading b w (u.setSys { u.sys with ns := (v.sys.heap.alloc 4 sizeofNamespace .ns).1 }) :=
    ⟨hu'.live, hu'.size, hu'.bytes, hu'.none⟩
  split
  · exact wp_modify_bind fun x hx => by
      have hx' := reading_stable.env hnow hx
      exact ⟨hx'.recordsOnly, hquiet (hx'.recordsOnly.same rfl rfl)⟩
  subst hd
  generalize hfmt : (identifyNsAt w.store.mem b.addr).format = fmt at hlt ⊢
  refine hnow.wp_read (fun hr => hr.fields.2.2.nsze) fun x hx => ?_
  rw [idLbads, idMs]
  refine hx.wp_readUsed (fun d => (d.lbaf fmt).lbads)
    (fun hr => congrArg NvmeLbaFormat.lbads (hr.fields.2.2.lbaf _ hlt)) fun y hy => ?_
  refine hy.wp_readUsed (fun d => (d.lbaf fmt).ms)
    (fun hr => congrArg NvmeLbaFormat.ms (hr.fields.2.2.lbaf _ hlt)) fun z hz => ?_
  dsimp only
  split
  · -- too large: the record is given back, nothing is accepted
    have hnone : Stable (Spares b.addr) fun v : World => accepted v.log = accepted w.log :=
      fun v u h hr => (congrArg accepted hr.log).trans h
    refine wp_mono (wp_keeps hnone ?_ hz.none) (fun _ h => .inl h) (fun _ _ _ h => .inl h)
      fun _ _ _ h => h
    refine .bind (.modify fun _ h => h) fun _ => .bind (.modify fun _ h => h) fun _ => .modify fun t h => ?_
    rw [World.free]
    split
    · exact h
    · exact h
  · rename_i hfits
    refine wp_atom_stable reading_stable hz (fun _ h => h.recordsOnly) fun t ht => hquiet ?_
    subst hfmt
    refine .inr ⟨_, congrArg (_ :: ·) ht.none, ⟨hf, Nat.not_lt.mp hfits⟩, ?_⟩
    simp only [World.setNs, World.use_sys, World.note_sys, World.setSys_sys, Function.update_self]
    rfl

/-- PROBE RULE: what follows Identify accepts nothing, or the namespace with its record. -/
theorem wp_probeBuffer (hb : b ∈ w.sys.heap.live) (hsize : b.size = 4096)
    (hd : d = identifyNsAt w.store.mem b.addr) :
    Wp (Spares b.addr) (RecordsOnly d nsId mdts w)
      (do probeIdentified b.addr nsId mdts; free b.addr : Drv Unit)
      (fun _ => RecordsOnly d nsId mdts w) (fun _ _ => False) w := by
  have hstart : Reading b w w := ⟨hb, hsize, fun _ _ => rfl, rfl⟩
  have hret : ∀ {u}, Reading b w u → Wp (Spares b.addr) (RecordsOnly d nsId mdts w)
      (.ret () : Drv Unit) (fun _ => RecordsOnly d nsId mdts w) (fun _ _ => False) u := fun hu =>
    wp_ret fun x he => ⟨recordsOnly_stable.env hu.recordsOnly he,
      recordsOnly_stable.env hu.recordsOnly he⟩
  refine wp_seq (Q := fun _ => RecordsOnly d nsId mdts w) ?_ (fun _ _ h => h) fun _ v hv => ?_
  · refine hstart.wp_read (fun hr => hr.fields.1) fun x hx => ?_
    refine hx.wp_read (fun hr => hr.fields.2.1) fun y hy => ?_
    split
    · exact hret hy
    rename_i hrange
    refine hy.wp_read (fun hr => hr.fields.2.2.nsze) fun z hz => ?_
    split
    · exact hret hz
    rename_i hnsze
    refine wp_seq (wp_mono (wp_keeps reading_stable reading_ensureDma hz)
      (fun _ h => h.recordsOnly) (fun _ _ _ h => h) fun _ _ _ h => h) (fun _ _ h => h)
      fun dma t ht => ?_
    split
    · exact hret ht
    · subst hd
      exact ht.wp_recordNs rfl ⟨Nat.not_lt.mp hrange, hnsze⟩
  · refine wp_modify_bind (k := fun _ => .ret ()) fun u hu => ?_
    have hu' := recordsOnly_stable.env hv hu
    refine ⟨hu', wp_ret fun x hx => ?_⟩
    have hfree : RecordsOnly d nsId mdts w (u.free b.addr) := by
      refine hu'.same ?_ (free_nsRec u b.addr)
      rw [World.free]
      split <;> rfl
    exact ⟨recordsOnly_stable.env hfree hx, recordsOnly_stable.env hfree hx⟩

/-- CORRECT: whatever the data of an accepted namespace and the MDTS value, the record has the geometry
    they say, and its transfers keep to it, if and only if the block exponent is below 32 and MDTS is
    below 20. -/
theorem unwrapped_iff {q : Drv Unit} (hb : b ∈ w.sys.heap.live) (hsize : b.size = 4096)
    (hd : d = identifyNsAt w.store.mem b.addr)
    (hrun : Steps (Spares b.addr) w (do probeIdentified b.addr nsId mdts; free b.addr : Drv Unit) v q)
    (hacc : accepted v.log = rec :: accepted w.log) :
    Unwrapped d mdts (v.sys.nsRec rec) ↔ d.lbads < 32 ∧ mdts < 20 := by
  rcases (wp_probeBuffer hb hsize hd v q hrun).1 with hnone | ⟨rec', hacc', hpass, hrec⟩
  · exact absurd (congrArg List.length (hnone.symm.trans hacc)) (by simp)
  · obtain rfl : rec' = rec := (List.cons.inj (hacc'.symm.trans hacc)).1
    rw [hrec]
    exact unwrapped_record hpass nsId mdts

/-! ### A limit that wraps to nothing -/

/-- The buffer of an Identify that has just succeeded. -/
def limitBuffer : Block Site := ⟨0, sampleBlock 0, 4096, .identify⟩

/-- It says 1000 blocks of 512 bytes. -/
def limitStart : World :=
  let w := bareWorld 255 fun n => some (sampleBlock n)
  (w.setHeap (w.sys.heap.alloc 4096 4096 .identify).2).setMem
    (fill w.store.mem limitBuffer.addr 4096 (identifyBytes 9))

/-- The rest of the probe, the device doing nothing. -/
def limitProbe (mdts : Nat) : World × Drv Unit :=
  follow (fun (_ : Empty) _ => none) (List.replicate 20 none) limitStart
    (do probeIdentified limitBuffer.addr 1 mdts; free limitBuffer.addr)

theorem limitProbe_run (mdts : Nat) : Steps (Spares limitBuffer.addr) limitStart
    (do probeIdentified limitBuffer.addr 1 mdts; free limitBuffer.addr) (limitProbe mdts).1
    (limitProbe mdts).2 :=
  (follow_steps _ _ _ _).mono fun _ _ ⟨m, _⟩ => m.elim

/-- The record's address. -/
abbrev limitRec : Nat := sampleBlock 2

/-- One block is asked for; up to the doorbell write. -/
def limitCall : World × Drv Int :=
  follow (nvmeMove noFail) [none, none, none] sampleWorld
    (nvmePrplXfer ((limitProbe 20).1.sys.nsRec limitRec) 0 0x100000 1 false)

/-- With an MDTS of 20 the namespace is accepted with a limit of 0, and a call for one block submits a
    command for 65536. -/
theorem limit_wraps : accepted (limitProbe 20).1.log = [limitRec] ∧
    ((limitProbe 20).1.sys.nsRec limitRec).maxReqSize = 0 ∧
    Steps (Nvmec noFail) sampleWorld
      (nvmePrplXfer ((limitProbe 20).1.sys.nsRec limitRec) 0 0x100000 1 false) limitCall.1 limitCall.2 ∧
    (handedOver limitCall.1.log).map NvmeSqe.blocks = [65536] ∧
    ¬ Unwrapped (identifyNsAt limitStart.store.mem limitBuffer.addr) 20
      ((limitProbe 20).1.sys.nsRec limitRec) := by
  have hzero : ((limitProbe 20).1.sys.nsRec limitRec).maxReqSize = 0 := by decide +kernel
  refine ⟨by decide +kernel, hzero, follow_steps .., by decide +kernel, fun hu => ?_⟩
  have := hu.request
  omega

theorem limit_live : limitBuffer ∈ limitStart.sys.heap.live := List.mem_cons_self ..

theorem unwrapped_iff_sample :
    Unwrapped (identifyNsAt limitStart.store.mem limitBuffer.addr) 5
        ((limitProbe 5).1.sys.nsRec limitRec) ↔
      (identifyNsAt limitStart.store.mem limitBuffer.addr).lbads < 32 ∧ 5 < 20 :=
  unwrapped_iff limit_live rfl rfl (limitProbe_run 5) (by decide +kernel)

end Nvme
