import NvmeDisk.Requests.Entry

/-! A request on an I/O queue that still has a command outstanding: `nvme_get_next_sqe` returns `NULL`
    and `nvme_io_xfer` writes through it. Only what submits no command gets past. Together with the
    rule for a resting queue this says how a request ends from any state the queue can be left in. -/

namespace Nvme
open Ring Resume Bytes BlockDev

section
variable (x : Setting) (lg : List Item) (ns : NvmeNamespace) (req : BlkdevRequest) (write : Bool)

/-- A command is outstanding. -/
structure Jammed (w : World) : Prop where
  out : ∃ D e s, Outstanding .io x.L x.C D e s (w.q .io)
  sys : w.sys = x.sys
  ledger : ledger w.log = lg

/-- What the account says when a request is over: the buffers turned to with their commands, and the
    notification if the loops came to their end. -/
def Told (gs : List (Buf × List Piece)) (rc : Int) (w : World) : Prop :=
  FollowsBufs x.mayFail ns req.bufs gs rc ∧
    Nvme.ledger w.log = (if rc = 0 then [.done req.id .successful] else []) ++
      ((gs.map (itemOf write)).reverse ++ lg)

end

variable {x : Setting} {lg : List Item} {w v : World} {ns : NvmeNamespace} {sg : Buf} {write : Bool}
  {lba buf count prp1 prp2 fuel id : Nat} {rc : Int} {bufs : List Buf}

/-- A request that ended well without a command has no blocks. -/
theorem FollowsBufs.blockless {mayFail : Nat → Bool} {gs : List (Buf × List Piece)}
    (h : FollowsBufs mayFail ns bufs gs rc) (hrc : rc = 0) (hempty : ∀ g ∈ gs, g.2 = []) :
    ∀ sg ∈ bufs, blockCount ns sg ≤ 0 := by
  induction h with
  | nil => simp
  | stop _ => cases hrc
  | next hf _ ih =>
    obtain ⟨hps, hgs⟩ := List.forall_mem_cons.mp hempty
    refine List.forall_mem_cons.mpr ⟨?_, ih hrc hgs⟩
    dsimp only at hps
    rw [hps] at hf
    cases hf with
    | done hle => exact hle

theorem Jammed.env (h : Jammed x lg w) (he : Env (Nvmec x.mayFail) w v) : Jammed x lg v := by
  refine Stable.env (P := Jammed x lg) ?_ h he
  rintro w v ⟨⟨D, e, s, hout⟩, hsys, hlg⟩ ⟨m, hm⟩
  rcases hout.move hm with hel | ⟨s', hout', hp⟩
  · exact ⟨⟨D, e, s, by rw [hel.q]; exact hout⟩, hel.sys.trans hsys, hel.log.ledger.trans hlg⟩
  · exact ⟨⟨D, e, s', hout'⟩, hp.sys.trans hsys, hp.log.ledger.trans hlg⟩

/-- There is no entry to be had. -/
theorem Jammed.wp_ioXfer (h : Jammed x lg w) (hal : ¬ misaligned prp1 prp2) :
    Wp (Nvmec x.mayFail) (fun _ => True) (nvmeIoXfer ns lba prp1 prp2 count write)
      (fun _ _ => False) (fun _ _ => True) w := by
  rw [nvmeIoXfer, if_neg hal]
  refine wp_atom fun v he => ⟨trivial, ?_⟩
  obtain ⟨⟨D, e, s, hout⟩, _, _⟩ := h.env he
  simp only [hout.getNextSqe]
  change Wp _ _ (Prog.halt Halt.nullSqe : Drv Int) _ _ _
  exact wp_halt fun _ _ => ⟨trivial, trivial⟩

theorem Jammed.wp_bounceXfer (h : Jammed x lg w) :
    Wp (Nvmec x.mayFail) (fun _ => True) (nvmeBounceXfer ns lba buf count write)
      (fun _ _ => False) (fun _ _ => True) w := by
  have hal : ¬ misaligned x.sys.nvmeDmaBuffer 0 := by
    have hdma := x.dmaPage
    rw [misaligned_iff]
    omega
  unfold nvmeBounceXfer
  refine wp_get_bind fun v he => ⟨trivial, ?_⟩
  have hv := h.env he
  rw [hv.sys]
  have htail : ∀ {k : Int → Drv Int} {u}, Jammed x lg u → Wp (Nvmec x.mayFail) (fun _ => True)
      (nvmeIoXfer ns lba x.sys.nvmeDmaBuffer 0 (bounceBlocks ns count) write >>= k)
      (fun _ _ => False) (fun _ _ => True) u :=
    fun hu => wp_seq (hu.wp_ioXfer hal) (fun _ _ h => h) fun _ _ hf => hf.elim
  cases write with
  | true =>
    refine wp_modify_bind fun u hu => ⟨trivial, htail ?_⟩
    have := hv.env hu
    exact ⟨this.out, this.sys, this.ledger⟩
  | false => exact htail hv

/-- Only a stray buffer, for which no command is submitted, gets past. -/
theorem Jammed.wp_prplXfer (h : Jammed x lg w) (hB : GoodBlock ns.blockSize) (hcount : count ≤ 65535) :
    Wp (Nvmec x.mayFail) (fun _ => True) (nvmePrplXfer ns lba buf count write)
      (fun res v => Stray ns buf count ∧ res = -1 ∧ Jammed x lg v) (fun _ _ => True) w := by
  have hclamp : clampCount ns count ≤ 65535 := (clampCount_le ns count).trans hcount
  have hway := prplPath_way hB hclamp buf
  have hdirect : ∀ {v}, (prplPath ns buf (clampCount ns count)).Direct → ¬ Stray ns buf count →
      Jammed x lg v → Wp (Nvmec x.mayFail) (fun _ => True)
        (nvmeIoXfer ns lba buf ((prplPath ns buf (clampCount ns count)).prp2 x.sys.nvmeDmaBuffer buf)
          (clampCount ns count) write)
        (fun res v => Stray ns buf count ∧ res = -1 ∧ Jammed x lg v) (fun _ _ => True) v :=
    fun hd hs hv => wp_mono (hv.wp_ioXfer (hway.aligned hd hs x.dmaPage)) (fun _ h => h)
      (fun _ _ _ hf => hf.elim) fun _ _ _ h => h
  have hset : ∀ {v m}, Jammed x lg v → Jammed x lg (v.setMem m) := fun h => ⟨h.out, h.sys, h.ledger⟩
  have hother : ∀ p, p ≠ .single → prplPath ns buf (clampCount ns count) = p →
      ¬ Stray ns buf count := fun p hne hp hs => hne (hp.symm.trans hs.1)
  unfold nvmePrplXfer
  dsimp only
  rcases hp : prplPath ns buf (clampCount ns count) with _ | _ | l | l <;> rw [hp] at hdirect
  · by_cases hs : Stray ns buf count
    · rw [nvmeIoXfer, if_pos ((misaligned_iff _ _).mpr (.inl hs.2))]
      refine wp_modify_bind fun v he => ⟨trivial, wp_ret fun u hu => ⟨trivial, hs, rfl, ?_⟩⟩
      have hv := h.env he
      have hwarn : Jammed x lg (v.note (.warn .internalerror)) := ⟨hv.out, hv.sys, hv.ledger⟩
      exact hwarn.env hu
    · exact hdirect trivial hs h
  · exact hdirect trivial (hother _ (by simp) hp) h
  · refine wp_get_bind fun v he => ⟨trivial, wp_modify_bind fun u hu => ⟨trivial, ?_⟩⟩
    have hv := h.env he
    rw [hv.sys]
    exact hdirect trivial (hother _ (by simp) hp) (hset (hv.env hu))
  · refine wp_get_bind fun v he => ⟨trivial, wp_modify_bind fun u hu => ⟨trivial, ?_⟩⟩
    exact wp_mono (Jammed.wp_bounceXfer (hset ((h.env he).env hu))) (fun _ h => h)
      (fun _ _ _ hf => hf.elim) fun _ _ _ h => h

theorem Jammed.wp_xferBlocks (h : Jammed x lg w) (hB : GoodBlock ns.blockSize) :
    Wp (Nvmec x.mayFail) (fun _ => True) (xferBlocks ns sg write (blockCount ns sg) fuel 0)
      (fun rc v => Follows x.mayFail ns sg 0 [] rc ∧ Jammed x lg v)
      (fun _ _ => 0 < blockCount ns sg) w := by
  cases fuel with
  | zero =>
    rw [xferBlocks]
    split
    · rename_i hid
      exact wp_halt fun _ _ => ⟨trivial, hid⟩
    · rename_i hid
      exact wp_ret fun v he => ⟨trivial, .done (by omega), h.env he⟩
  | succ fuel =>
    rw [xferBlocks]
    split
    · rename_i hid
      refine wp_seq (h.wp_prplXfer hB (remaining_le ns sg 0)) (fun _ _ _ => hid) ?_
      rintro res v ⟨hs, rfl, hv⟩
      rw [if_pos (by decide)]
      exact wp_ret fun u hu => ⟨trivial, .stray hid hs, hv.env hu⟩
    · rename_i hid
      exact wp_ret fun v he => ⟨trivial, .done (by omega), h.env he⟩

theorem Jammed.wp_xferBufs (hB : GoodBlock ns.blockSize) : ∀ (bufs : List Buf) (lg : List Item)
    (w : World), Jammed x lg w → Wp (Nvmec x.mayFail) (fun _ => True) (xferBufs ns write fuel bufs)
      (fun rc v => ∃ gs, FollowsBufs x.mayFail ns bufs gs rc ∧ (∀ g ∈ gs, g.2 = []) ∧
        Jammed x ((gs.map (itemOf write)).reverse ++ lg) v)
      (fun _ _ => ∃ sg ∈ bufs, 0 < blockCount ns sg) w := by
  intro bufs
  induction bufs with
  | nil =>
    intro lg w h
    exact wp_ret fun v he => ⟨trivial, [], .nil, by simp, h.env he⟩
  | cons sg bufs ih =>
    intro lg w h
    rw [xferBufs]
    refine wp_modify_bind fun v he => ⟨trivial, ?_⟩
    have hv := h.env he
    have hnote : Jammed x (itemOf write (sg, []) :: lg) (v.note (.sg sg)) :=
      ⟨hv.out, hv.sys, congrArg (Item.buf sg [] :: ·) hv.ledger⟩
    refine wp_seq (hnote.wp_xferBlocks hB) (fun _ _ hpos => ⟨sg, List.mem_cons_self .., hpos⟩) ?_
    rintro rc u ⟨hf, hu⟩
    rcases hf.result with rfl | rfl
    · rw [if_neg (by decide)]
      refine wp_mono (ih _ u hu) (fun _ h => h) ?_ ?_
      · rintro rc z _ ⟨gs, hfs, hempty, hz⟩
        refine ⟨(sg, []) :: gs, .next hf hfs, List.forall_mem_cons.mpr ⟨rfl, hempty⟩, ?_⟩
        simpa using hz
      · rintro e z _ ⟨b, hb, hpos⟩
        exact ⟨b, List.mem_cons_of_mem _ hb, hpos⟩
    · rw [if_pos (by decide)]
      refine wp_ret fun z hz => ⟨trivial, [(sg, [])], .stop hf, by simp, ?_⟩
      simpa using hu.env hz

/-- JAMMED RULE: a request that ends has not submitted a command. -/
theorem Jammed.wp_nvmediskXfer (h : Jammed x lg w) (hB : GoodBlock ns.blockSize) (nvmed : Nvmedisk)
    (req : BlkdevRequest) :
    Wp (Nvmec x.mayFail) (fun _ => True) (nvmediskXfer ns write fuel nvmed req)
      (fun rc v => ∃ gs, Told x lg ns req write gs rc v ∧ ∀ g ∈ gs, g.2 = [])
      (fun _ _ => ∃ sg ∈ req.bufs, 0 < blockCount ns sg) w := by
  refine wp_seq (Jammed.wp_xferBufs hB req.bufs lg w h) (fun _ _ hf => hf) ?_
  rintro rc v ⟨gs, hf, hempty, hv⟩
  rcases hf.result with rfl | rfl
  · rw [if_neg (by decide)]
    refine wp_modify_bind fun u hu => ⟨trivial, wp_ret fun z hz => ⟨trivial, gs, ⟨hf, ?_⟩, hempty⟩⟩
    have hu' := hv.env hu
    have hnote : Jammed x (.done req.id .successful :: ((gs.map (itemOf write)).reverse ++ lg))
        (u.note (.done req.id .successful)) :=
      ⟨hu'.out, hu'.sys, congrArg (Item.done req.id .successful :: ·) hu'.ledger⟩
    exact (hnote.env hz).ledger
  · rw [if_pos (by decide)]
    exact wp_ret fun u hu => ⟨trivial, gs, ⟨hf, (hv.env hu).ledger⟩, hempty⟩

/-! ### From any state the queue can be left in -/

/-- The I/O queue between two uses: at rest, or with a command outstanding that was given up on. -/
inductive Between (L C : Nat) (w : World) : Prop where
  | rest {D} : Idle L C D (w.q .io) → Between L C w
  | jammed {D e s} : Outstanding .io L C D e s (w.q .io) → Between L C w

/-- Nothing is followed but the account. -/
def World.accountOnly (w : World) (mayFail : Nat → Bool) (L C : Nat) [Fact (Pow2 L)] [Fact (Pow2 C)]
    (hdma : w.sys.nvmeDmaBuffer % 4096 = 0) : Setting where
  mayFail := mayFail
  followed := False
  coded := False.elim
  L := L
  C := C
  sqPow := .ofFact
  cqPow := .ofFact
  sys := w.sys
  dmaPage := hdma
  dev := w.dev

theorem Outstanding.not_idle {L C : Nat} [hL : Fact (Pow2 L)] {D D' : List NvmeCqe} {e : NvmeSqe}
    {s : Stage} {q : QPair} (h : Outstanding .io L C D e s q) (hi : Idle L C D' q) : False := by
  have hhead : D'.length % L = D.length % L := hi.head.symm.trans h.head
  have htail : D'.length % L = (D.length + 1) % L := hi.tail.symm.trans h.tail
  exact hL.out.succ_mod_ne D.length (htail.symm.trans hhead)

/-- Commands can be submitted, or there is no block to submit one for. -/
def Passable (L C : Nat) (ns : NvmeNamespace) (bufs : List Buf) (w : World) : Prop :=
  (∃ D, Idle L C D (w.q .io)) ∨ ∀ sg ∈ bufs, blockCount ns sg ≤ 0

/-- ACCOUNT RULE: how `nvmedisk_read` and `nvmedisk_write` end, whatever the controller does. -/
theorem wp_account {mayFail : Nat → Bool} {L C : Nat} [Fact (Pow2 L)] [Fact (Pow2 C)]
    (hB : GoodBlock ns.blockSize) (hdma : w.sys.nvmeDmaBuffer % 4096 = 0) (h : Between L C w)
    (nvmed : Nvmedisk) (req : BlkdevRequest) :
    Wp (Nvmec mayFail) (fun _ => True) (nvmediskXfer ns write fuel nvmed req)
      (fun rc v => ∃ gs, Told (w.accountOnly mayFail L C hdma) (ledger w.log) ns req write gs rc v ∧
        (rc = 0 → Passable L C ns req.bufs w))
      (fun _ _ => ¬ (Passable L C ns req.bufs w ∧ ∀ sg ∈ req.bufs, Enough ns sg fuel 0)) w := by
  cases h with
  | @rest D h =>
    have hrest : Resting (w.accountOnly mayFail L C hdma) (ledger w.log)
        (EqOff (Page w.sys.nvmeDmaBuffer) w.store) w :=
      ⟨⟨D, h⟩, rfl, rfl, rfl, fun hf => False.elim hf⟩
    refine wp_mono (wp_nvmediskXfer hB nvmed req (fun hf => False.elim hf) hrest) (fun _ h => h) ?_ ?_
    · rintro rc v _ ⟨gs, hf, hover⟩
      exact ⟨gs, ⟨hf, hover.ledger⟩, fun _ => .inl ⟨D, h⟩⟩
    · rintro e v _ ⟨_, hshort⟩ ⟨_, henough⟩
      exact hshort henough
  | @jammed D e s h =>
    have hjam : Jammed (w.accountOnly mayFail L C hdma) (ledger w.log) w := ⟨⟨D, e, s, h⟩, rfl, rfl⟩
    refine wp_mono (hjam.wp_nvmediskXfer hB nvmed req) (fun _ h => h) ?_ ?_
    · rintro rc v _ ⟨gs, ht, hempty⟩
      refine ⟨gs, ht, fun hrc => .inr fun sg hsg => ?_⟩
      obtain ⟨hf, _⟩ := ht
      exact hf.blockless hrc hempty sg hsg
    · rintro e' v _ ⟨sg, hsg, hpos⟩ ⟨⟨D', hi⟩ | hno, _⟩
      · exact h.not_idle hi
      · have := hno sg hsg
        omega

end Nvme
