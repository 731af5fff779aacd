import NvmeDisk.Transfer.Request

/-! The disk at every moment of a request, and not only where it ends. A command can have changed at most
    the blocks it names, whatever its PRPs say; between commands the disk is what the pieces so far have
    made of it. So wherever a request is stopped, it is cut short: moved up to some block, with the blocks
    of one command in doubt from there on. -/

namespace Nvme
open Ring Resume Bytes BlockDev

/-- The most one command moves. -/
abbrev maxCommand : Nat := 65536

/-- No transfer for `e` changes disk byte `a`. -/
def Misses (d : Device) (i : QId) (e : NvmeSqe) (a : Nat) : Prop :=
  ∀ s t, transferOf d s i e = some t → ∀ u, (t.full u).disk a = u.disk a ∧ ∀ g, (t.part g u).disk a = u.disk a

variable {x : Setting} {lg : List Item} {S : Store → Prop} {w v : World} {t s s₀ : Store} {d : Device}
  {e : NvmeSqe} {a : Nat} {i : QId} {st : Stage} {sf : Nat} {ns : NvmeNamespace}
  {lba prp1 prp2 buf count id fuel : Nat} {write : Bool} {sg : Buf}

/-! ### One command -/

theorem Misses.parts (h : Misses d i e a) (hp : Parts d i e s₀ s) : s.disk a = s₀.disk a := by
  induction hp with
  | refl => rfl
  | step g _ ht ih => exact ((h _ _ ht _).2 g).trans ih

theorem Misses.ended (h : Misses d i e a) (he : Ended d i e s₀ sf s) : s.disk a = s₀.disk a := by
  by_cases h0 : sf = 0
  · subst h0
    obtain ⟨s₁, t, hp, ht, rfl⟩ := ended_zero.mp he
    exact ((h _ _ ht _).1).trans (h.parts hp)
  · exact h.parts ((ended_error h0).mp he)

theorem Misses.data (h : Misses d i e a) (hd : st.Data d i e s₀ s) : s.disk a = s₀.disk a := by
  cases st with
  | queued => rw [show s = s₀ from hd]
  | flying sf =>
    cases sf with
    | none => exact h.parts hd
    | some sf => exact h.ended hd
  | posted sf => exact h.ended hd

/-- A command changes the disk where it is to write, if it is to write. -/
theorem io_misses (h : e.opc = nvmeSqeOpcIoWrite →
    a < e.slba * d.blockSize ∨ e.slba * d.blockSize + e.blocks * d.blockSize ≤ a) : Misses d .io e a := by
  intro s t ht u
  simp only [transferOf] at ht
  split at ht
  · split at ht
    · obtain ⟨segs, _, rfl⟩ := Option.map_eq_some_iff.mp ht
      exact ⟨rfl, fun _ => rfl⟩
    · split at ht
      · rename_i hw
        obtain ⟨segs, _, rfl⟩ := Option.map_eq_some_iff.mp ht
        exact ⟨fill_out (h hw), fun _ => fill_out (h hw)⟩
      · cases ht
  · cases ht

/-- What is known of the record and of the range of a command. -/
structure Located (ns : NvmeNamespace) (d : Device) (lba count : Nat) : Prop where
  serves : Serves ns d
  pos : 1 ≤ count
  most : count ≤ 65535
  bits : lba + count ≤ 18446744073709551616

theorem Located.torn (h : Located ns d lba count) {tail : Nat}
    (hd : st.Data d .io (ioSqe ns lba prp1 prp2 count write tail) s₀ s) :
    TornDisk write s₀.disk (lba * ns.blockSize) (count * ns.blockSize) s.disk := by
  intro a ha
  refine (io_misses fun hopc => ?_).data hd
  have hpos := h.pos
  have hbits := h.bits
  have hslba : (ioSqe ns lba prp1 prp2 count write tail).slba = lba := by
    rw [ioSqe_slba, u64, Nat.mod_eq_of_lt (by omega)]
  have hblocks : (ioSqe ns lba prp1 prp2 count write tail).blocks = count := by
    rw [ioSqe_blocks _ _ _ _ _ _ h.most, cmdBlocks, if_neg (by omega)]
  rw [hslba, hblocks, ← h.serves.blockSize]
  refine ha ?_
  rw [ioSqe_opc] at hopc
  cases write with
  | true => rfl
  | false => cases hopc

theorem Located.less (h : Located ns d lba count) {n : Nat} (h1 : 1 ≤ n) (hn : n ≤ count) :
    Located ns d lba n :=
  ⟨h.serves, h1, hn.trans h.most, by have := h.bits; omega⟩

theorem Followable.located (h : Followable x ns lba buf count) : Located ns x.dev lba count :=
  ⟨h.serves, h.fits.pos, h.fits.most, h.bits⟩

/-- At any moment of its life the command is at some stage. -/
theorem Exchange.data {L C : Nat} {D : List NvmeCqe} {mayFail : Nat → Bool}
    (h : Exchange .io L C D e mayFail w v) (hc : Calm .io w) :
    ∃ st : Stage, st.Data w.dev .io e w.store v.store := by
  cases h with
  | prepared hp => exact ⟨.queued, (hp.calm hc).2⟩
  | waiting w₀ hs hw =>
    have hc₀ := hs.calmWorld hc
    have hstore := (hs.calm hc).2
    have hdev := hs.dev
    cases hw with
    | underway st hu =>
      have := (hu.calm hc₀).2
      rw [hstore, hdev] at this
      exact ⟨st, this⟩
    | taking sf ht =>
      obtain ⟨_, _, hf⟩ := ht
      have := (hf.calm hc₀).2
      rw [hstore, hdev] at this
      exact ⟨.posted sf, this⟩
    | took sf ht =>
      obtain ⟨_, _, _, _, hf⟩ := ht
      have := (hf.calm hc₀).2
      rw [hstore, hdev] at this
      exact ⟨.posted sf, this⟩
    | gaveUp hg =>
      obtain ⟨st, _, _, hu⟩ := hg
      have := (hu.calm hc₀).2
      rw [hstore, hdev] at this
      exact ⟨st, this⟩

/-- A resting queue, with nothing on the other, is left alone. -/
theorem Resting.still (h : Resting x lg S w) (hx : x.followed) (he : Env (Nvmec x.mayFail) w v) : v = w := by
  obtain ⟨D, hidle⟩ := h.idle
  exact (hidle.noWork.env he).calm (h.store hx).1

theorem Resting.anyMem (h : Resting x lg S w) (m : Mem) : Resting x lg (fun _ => True) (w.setMem m) :=
  h.setMem fun _ _ => trivial

/-- The disk as a command for `count` blocks at `lba` can leave it. -/
abbrev TornAt (ns : NvmeNamespace) (write : Bool) (lba count : Nat) (w v : World) : Prop :=
  TornDisk write w.store.disk (lba * ns.blockSize) (count * ns.blockSize) v.store.disk

theorem TornAt.from {u : World} (h : TornAt ns write lba count u v) (hdisk : u.store.disk = w.store.disk) :
    TornAt ns write lba count w v := by
  rw [TornAt, hdisk] at h
  exact h

theorem throughout_ioXfer (hx : x.followed) (hr : Located ns x.dev lba count) (h : Resting x lg S w) :
    Throughout (Nvmec x.mayFail) (TornAt ns write lba count w) (nvmeIoXfer ns lba prp1 prp2 count write) w := by
  unfold nvmeIoXfer
  split
  · refine wp_modify_bind fun v he => ?_
    obtain rfl := h.still hx he
    refine ⟨.refl _ _ _ _, wp_ret fun u hu => ⟨?_, trivial⟩⟩
    have hnote : Resting x lg S (v.note (.warn .internalerror)) := h.note rfl
    obtain rfl := hnote.still hx hu
    exact .refl _ _ _ _
  obtain ⟨D, hidle⟩ := h.idle
  have hI : ∀ v, Exchange .io x.L x.C D (ioSqe ns lba prp1 prp2 count write (D.length % x.L)) x.mayFail w v →
      TornAt ns write lba count w v := by
    intro v hv
    obtain ⟨st, hd⟩ := hv.data (h.store hx).1
    rw [h.dev] at hd
    exact hr.torn hd
  refine wp_command (e := ioSqe ns lba prp1 prp2 count write (D.length % x.L)) hidle (fun _ => rfl) rfl hI ?_
  rintro cqe v ⟨w₀, hs, hpost⟩
  have hlater : ∀ u, Env (Nvmec x.mayFail) v u → TornAt ns write lba count w u := by
    intro u hu
    rcases hpost with ⟨sf, _, ht⟩ | ⟨_, hg⟩
    · exact hI u (.waiting w₀ hs (.took sf (ht.env hu)))
    · exact hI u (.waiting w₀ hs (.gaveUp (hg.env hu)))
  split <;> exact wp_ret fun u hu => ⟨hlater u hu, trivial⟩

/-! ### One piece -/

theorem throughout_bounceXfer (hx : x.followed) (hB : GoodBlock ns.blockSize)
    (hr : Located ns x.dev lba count) (h : Resting x lg S w) :
    Throughout (Nvmec x.mayFail) (TornAt ns write lba (bounceBlocks ns count) w)
      (nvmeBounceXfer ns lba buf count write) w := by
  obtain ⟨h1, hle, _⟩ := bounceBlocks_bounds hB hr.pos
  have hr' := hr.less h1 hle
  -- from a world with the disk of `w`
  have htail : ∀ u, Resting x lg (fun _ => True) u → u.store.disk = w.store.disk →
      Throughout (Nvmec x.mayFail) (TornAt ns write lba (bounceBlocks ns count) w) (do
        let res ← nvmeIoXfer ns lba x.sys.nvmeDmaBuffer 0 (bounceBlocks ns count) write
        if write = false ∧ 0 ≤ res then
          memcpy buf x.sys.nvmeDmaBuffer (u32 (res.toNat * ns.blockSize))
        return res) u := by
    intro u hu hdisk
    have hmoments : Throughout (Nvmec x.mayFail) (TornAt ns write lba (bounceBlocks ns count) w)
        (nvmeIoXfer ns lba x.sys.nvmeDmaBuffer 0 (bounceBlocks ns count) write) u :=
      (throughout_ioXfer hx hr' hu).mono fun _ hy => hy.from hdisk
    have hal : ¬ misaligned x.sys.nvmeDmaBuffer 0 := by
      have hdma := x.dmaPage
      rw [misaligned_iff]
      omega
    have hend : Wp (Nvmec x.mayFail) (fun _ => True)
        (nvmeIoXfer ns lba x.sys.nvmeDmaBuffer 0 (bounceBlocks ns count) write)
        (IoEnd x lg (⟨ioOpc write, u64 lba, cmdBlocks (bounceBlocks ns count), ·⟩) (bounceBlocks ns count)
          (fun _ _ => True) fun _ => True) (fun _ _ => False) u :=
      wp_ioXfer hal hr'.most hu fun _ _ _ _ => ⟨fun _ _ _ => trivial, fun _ _ _ => trivial⟩
    refine hmoments.seq (wp_mono (wp_and hmoments.tail hend) (fun _ _ => trivial) (fun _ _ _ h => h)
      fun _ _ _ h => h.2) fun res z hz => ?_
    obtain ⟨hlater, hover⟩ := hz
    split
    · rename_i hcopy
      cases hover with
      | completed sf _ _ hz =>
        refine wp_modify_bind fun z' he' => ⟨hlater z' he', wp_ret fun y hy => ⟨?_, trivial⟩⟩
        obtain rfl := hz.still hx he'
        obtain rfl := (hz.anyMem _).still hx hy
        exact hlater z' .refl
      | timedOut hres _ => omega
    · exact wp_ret fun y hy => ⟨hlater y hy, trivial⟩
  have hw : Resting x lg (fun _ => True) w := h.mono fun _ _ _ => trivial
  unfold nvmeBounceXfer
  refine wp_get_bind fun v he => ?_
  obtain rfl := hw.still hx he
  refine ⟨.refl _ _ _ _, ?_⟩
  rw [hw.sys]
  cases write with
  | true =>
    refine wp_modify_bind fun u hu => ?_
    obtain rfl := hw.still hx hu
    exact ⟨.refl _ _ _ _, htail _ (hw.anyMem _) rfl⟩
  | false => exact htail v hw rfl

theorem throughout_prplXfer (hx : x.followed) (hB : GoodBlock ns.blockSize)
    (hf : Followable x ns lba buf count) (h : Resting x lg S w) :
    Throughout (Nvmec x.mayFail) (TornAt ns write lba (movedBlocks ns buf count) w)
      (nvmePrplXfer ns lba buf count write) w := by
  have hr := hf.located.less (clampCount_pos hf.request hf.fits.pos) (clampCount_le ns count)
  have hw : Resting x lg (fun _ => True) w := h.mono fun _ _ _ => trivial
  -- the list is written first
  have hlist : ∀ {k : Drv Int} (l : List Nat),
      (∀ u, Resting x lg (fun _ => True) u → u.store.disk = w.store.disk →
        Throughout (Nvmec x.mayFail) (TornAt ns write lba (movedBlocks ns buf count) w) k u) →
      Throughout (Nvmec x.mayFail) (TornAt ns write lba (movedBlocks ns buf count) w)
        (writePrpl x.sys.nvmeDmaBuffer l >>= fun _ => k) w := by
    intro k l hk
    refine wp_modify_bind fun u hu => ?_
    obtain rfl := hw.still hx hu
    exact ⟨.refl _ _ _ _, hk _ (hw.anyMem _) rfl⟩
  have hdirect : (prplPath ns buf (clampCount ns count)).Direct → ∀ prp2 u,
      Resting x lg (fun _ => True) u → u.store.disk = w.store.disk →
      Throughout (Nvmec x.mayFail) (TornAt ns write lba (movedBlocks ns buf count) w)
        (nvmeIoXfer ns lba buf prp2 (clampCount ns count) write) u := by
    intro hd prp2 u hu hdisk
    rw [movedBlocks_direct hd]
    exact (throughout_ioXfer hx hr hu).mono fun _ hy => hy.from hdisk
  unfold nvmePrplXfer
  dsimp only
  rcases hp : prplPath ns buf (clampCount ns count) with _ | _ | l | l <;> rw [hp] at hdirect
  · exact hdirect trivial _ w hw rfl
  · exact hdirect trivial _ w hw rfl
  · refine wp_get_bind fun v he => ?_
    obtain rfl := hw.still hx he
    refine ⟨.refl _ _ _ _, ?_⟩
    rw [hw.sys]
    exact hlist l fun u hu hdisk => hdirect trivial _ u hu hdisk
  · refine wp_get_bind fun v he => ?_
    obtain rfl := hw.still hx he
    refine ⟨.refl _ _ _ _, ?_⟩
    rw [hw.sys]
    refine hlist l fun u hu hdisk => ?_
    rw [movedBlocks_bounce hp]
    exact (throughout_bounceXfer hx hB hr hu).mono fun _ hy => hy.from hdisk

/-! ### The loops -/

/-- BLOCK LOOP: at every moment the buffer is broken off somewhere. -/
theorem throughout_xferBlocks (hx : x.followed) (hB : GoodBlock ns.blockSize)
    (hplaced : Placed x.dev x.sys.nvmeDmaBuffer ns sg) : ∀ (fuel id : Nat) (lg : List Item) (w : World),
    id ≤ sg.len / ns.blockSize →
    Resting x lg (EqOff (Page x.sys.nvmeDmaBuffer)
      (move write t (sg.block * ns.blockSize) sg.addr (id * ns.blockSize))) w →
    Throughout (Nvmec x.mayFail) (fun v => BrokenOff ns.blockSize maxCommand write t sg v.store.disk)
      (xferBlocks ns sg write (blockCount ns sg) fuel id) w := by
  have hcnt := hplaced.blockCount
  have hinside : ∀ id, id ≤ sg.len / ns.blockSize → id * ns.blockSize ≤ sg.len := fun id hid =>
    (Nat.mul_le_mul_right _ hid).trans (Nat.div_mul_le_self ..)
  -- between two pieces
  have hat : ∀ {id lg w}, id ≤ sg.len / ns.blockSize →
      Resting x lg (EqOff (Page x.sys.nvmeDmaBuffer)
        (move write t (sg.block * ns.blockSize) sg.addr (id * ns.blockSize))) w →
      ∀ v, Env (Nvmec x.mayFail) w v → BrokenOff ns.blockSize maxCommand write t sg v.store.disk := by
    intro id lg w hid h v he
    obtain rfl := h.still hx he
    refine ⟨id, 0, by rw [Nat.add_zero]; exact hinside id hid, by simp, fun a _ => ?_⟩
    rw [(h.store hx).2.1]
  intro fuel
  induction fuel with
  | zero =>
    intro id lg w hid h
    rw [xferBlocks]
    split
    · exact wp_halt fun v he => ⟨hat hid h v he, trivial⟩
    · exact wp_ret fun v he => ⟨hat hid h v he, trivial⟩
  | succ fuel ih =>
    intro id lg w hid h
    rw [xferBlocks]
    split
    · rename_i hlt
      have hfollow := hplaced.followable hB hlt
      have hend := stride_le hlt
      rw [hcnt] at hend
      have hstride : id + stride ns sg id ≤ sg.len / ns.blockSize := by exact_mod_cast hend
      have hmoments : Throughout (Nvmec x.mayFail)
          (fun v => BrokenOff ns.blockSize maxCommand write t sg v.store.disk)
          (nvmePrplXfer ns (sg.block + id) (opBuf ns sg id) (remaining ns sg id) write) w := by
        refine (throughout_prplXfer hx hB hfollow h).mono fun v hv => ?_
        refine ⟨id, stride ns sg id, hinside _ hstride, movedBlocks_size hB (remaining_le ns sg id) _, ?_⟩
        rw [(h.store hx).2.1]
        exact hv
      refine hmoments.seq (wp_mono (wp_and hmoments.tail (wp_prplXfer hB (remaining_le ns sg id)
        (fun _ => hfollow) h)) (fun _ _ => trivial) (fun _ _ _ h => h) fun _ _ _ h => h.2) ?_
      rintro res v ⟨hlater, hv⟩
      cases hv with
      | stray _ hres _ =>
        rw [if_pos (by omega)]
        exact wp_ret fun u hu => ⟨hlater u hu, trivial⟩
      | command _ hv =>
        cases hv with
        | timedOut hres _ =>
          rw [if_pos (by omega)]
          exact wp_ret fun u hu => ⟨hlater u hu, trivial⟩
        | completed sf hok hres hv =>
          by_cases hsf : sf % 256 = 0
          · rw [if_pos hsf] at hres
            rw [if_neg (by omega), hres, Int.toNat_natCast]
            refine ih (id + stride ns sg id) _ v hstride (hv.mono fun _ s hS => ?_)
            rw [MovedTo, if_pos (x.success hx hok hsf)] at hS
            rw [← move_piece (hplaced.opBuf_eq hB.pos (by omega))]
            exact hS
          · rw [if_neg hsf] at hres
            rw [if_pos (by omega)]
            exact wp_ret fun u hu => ⟨hlater u hu, trivial⟩
    · exact wp_ret fun v he => ⟨hat hid h v he, trivial⟩

/-- The pieces of a finished buffer are the buffer. -/
theorem Follows.whole {dma : Nat} {mayFail : Nat → Bool} {ps : List Piece} (h : Follows mayFail ns sg 0 ps 0)
    (hS : Sound d dma ns sg) (hB : GoodBlock ns.blockSize) :
    Nvme.allMoved write ns.blockSize t ps = move write t (sg.block * ns.blockSize) sg.addr sg.len := by
  have hlen : sg.len / ns.blockSize * ns.blockSize = sg.len := Nat.div_mul_cancel hS.whole
  have hall : Nvme.allMoved write ns.blockSize (move write t (sg.block * ns.blockSize) sg.addr
      (0 * ns.blockSize)) ps = move write t (sg.block * ns.blockSize) sg.addr
        (sg.len / ns.blockSize * ns.blockSize) :=
    h.allMoved hS.placed.blockCount (Nat.zero_le _) (by rw [hlen]; exact hS.top) hB.pos
  rwa [Nat.zero_mul, move_zero, hlen] at hall

/-- BUFFER LOOP: at every moment the request is cut short somewhere. -/
theorem throughout_xferBufs (hx : x.followed) (hB : GoodBlock ns.blockSize) : ∀ (bufs : List Buf)
    (t : Store) (lg : List Item) (w : World), (∀ sg ∈ bufs, Sound x.dev x.sys.nvmeDmaBuffer ns sg) →
    Resting x lg (EqOff (Page x.sys.nvmeDmaBuffer) t) w →
    Throughout (Nvmec x.mayFail) (fun v => CutShort ns.blockSize maxCommand write t bufs v.store.disk)
      (xferBufs ns write fuel bufs) w
  | [], t, lg, w, _, h => wp_ret fun v he => by
      obtain rfl := h.still hx he
      exact ⟨(h.store hx).2.1.symm, trivial⟩
  | sg :: bufs, t, lg, w, hS, h => by
    have hsg := hS sg (List.mem_cons_self ..)
    rw [xferBufs]
    refine wp_modify_bind fun v he => ?_
    obtain rfl := h.still hx he
    have hnote : Resting x (.buf sg [] :: lg) (EqOff (Page x.sys.nvmeDmaBuffer) t) (v.note (.sg sg)) :=
      { h with ledger := congrArg (Item.buf sg [] :: ·) h.ledger }
    refine ⟨by rw [← (h.store hx).2.1]; exact cutShort_start .., ?_⟩
    have hmoments : Throughout (Nvmec x.mayFail)
        (fun v => CutShort ns.blockSize maxCommand write t (sg :: bufs) v.store.disk)
        (xferBlocks ns sg write (blockCount ns sg) fuel 0) (v.note (.sg sg)) := by
      refine (throughout_xferBlocks hx hB hsg.placed fuel 0 (.buf sg [] :: lg) _ (Nat.zero_le _) ?_).mono
        fun _ h => .inl h
      rw [Nat.zero_mul, move_zero]
      exact hnote
    refine hmoments.seq (wp_mono (wp_and hmoments.tail (wp_xferBlocks hB (fun _ => hsg.placed) fuel 0 t _ _
      hnote)) (fun _ _ => trivial) (fun _ _ _ h => h) fun _ _ _ _ => trivial) ?_
    rintro rc u ⟨hlater, ps, hf, ho⟩
    rcases hf.result with rfl | rfl
    · rw [if_neg (by decide)]
      have hrest := (hf.resting ho).mono fun hx s hs => (effect_moved (hf.zero hx)).mp hs
      rw [hf.whole hsg hB] at hrest
      exact (throughout_xferBufs hx hB bufs _ _ u (fun b hb => hS b (List.mem_cons_of_mem _ hb)) hrest).mono
        fun _ h => .inr h
    · rw [if_pos (by decide)]
      exact wp_ret fun z hz => ⟨hlater z hz, trivial⟩

end Nvme
