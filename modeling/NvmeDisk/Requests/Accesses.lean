import NvmeDisk.Setup.Cleanup
import NvmeDisk.Setup.Ranges
import NvmeDisk.Transfer.Plan

/-! The driver's accesses over a session: a controller is set up, and then transfers are made with the
    namespaces it accepted, for any buffer and any count. Nothing the device does takes an index out of
    its ring, a PRP list past its 15 entries, or a bounce past the page or the blocks asked for. -/

namespace Nvme
open Bytes BlockDev Resume Mheap

/-- What one action of a transfer may do to memory: write a PRP list into the bounce page, or copy
    between the page and the caller's `count` blocks at `buf`. -/
inductive Access (ns : NvmeNamespace) (buf count : Nat) (w v : World) : Prop where
  | aside : v.store.mem = w.store.mem → Access ns buf count w v
  | list (l : List Nat) : l.length ≤ 15 →
      v = w.setMem (storeWords w.store.mem w.sys.nvmeDmaBuffer l) → Access ns buf count w v
  | toPage (n : Nat) : n ≤ 4096 → n ≤ count * ns.blockSize →
      v = w.setMem (copy w.store.mem w.sys.nvmeDmaBuffer buf n) → Access ns buf count w v
  | fromPage (n : Nat) : n ≤ 4096 → n ≤ count * ns.blockSize →
      v = w.setMem (copy w.store.mem buf w.sys.nvmeDmaBuffer n) → Access ns buf count w v

/-- What a session has got to do: the set-up, or a transfer of `count` blocks at `buf`. -/
inductive Doing where
  | setup (p : Drv (Option Int))
  | transfer (ns : NvmeNamespace) (buf count : Nat) (p : Drv Int)

/-- It has been done. -/
def Doing.Over : Doing → Prop
  | .setup p => ∃ rc, p = .ret rc
  | .transfer _ _ _ p => ∃ res, p = .ret res

/-- Set-up: with the next action, too, every format read is one of the table and every divisor is
    positive. Transfer: no division by the block size is one by zero, the bounce page is there, and the
    next action does no more than it may. -/
def Doing.InRange : Doing → World → Prop
  | .setup p, v => ∀ f k, p = .atom f k → Nvme.InRange (f v).used
  | .transfer ns buf count p, v => 0 < ns.blockSize ∧
      v.sys.heap.Held v.sys.nvmeDmaBuffer .dma nvmePageSize ∧
      ∀ f k, p = .atom f k → Access ns buf (clampCount ns count) v (f v)

/-- Every state a session can reach: a set-up, then transfers on accepted namespaces. -/
inductive Session (nvmeBase : Nat) (w : World) : World → Doing → Prop where
  | setup {v p} : Steps Untrusted w (nvmeControllerSetup nvmeBase) v p →
      Session nvmeBase w v (.setup p)
  | transfer {v u x rec lba buf count write p} : Session nvmeBase w v x → x.Over →
      rec ∈ accepted v.log →
      Steps Untrusted v (nvmePrplXfer (v.sys.nsRec rec) lba buf count write) u p →
      Session nvmeBase w u (.transfer (v.sys.nsRec rec) buf count p)

variable {w v : World} {ns : NvmeNamespace} {a buf count lba prp1 prp2 nvmeBase : Nat} {write : Bool}
  {α : Type} {x : Doing}

/-! ### Transfers -/

/-- Code that keeps the page at `a` and accesses what a transfer may. -/
abbrev Accesses (a : Nat) (ns : NvmeNamespace) (buf count : Nat) (p : Drv α) (Q : α → Prop) : Prop :=
  p.Acts (PageAt a) (Access ns buf count) Q

/-- Queue operations access no memory but the rings. -/
theorem accesses_turns {p : Drv α} (hp : p.Does (Turns .io)) :
    Accesses a ns buf count p fun _ => True :=
  .of_does hp fun _ _ ht h =>
    ⟨.aside (congrArg Store.mem ht.store), ht.bringUp (by simp) h.1, by rw [ht.sys]; exact h.2⟩

theorem accesses_warn (x : Warn) : Accesses a ns buf count (warn x) fun _ => True :=
  .modify (fun w h => ⟨.aside rfl, h.tame (.note w rfl)⟩) trivial

theorem accesses_dma : Accesses a ns buf count dmaBuffer fun d => d = a :=
  .get (fun _ _ => .aside rfl) fun _ h => h.2

theorem accesses_ioXfer (n : Nat) : Accesses a ns buf count (nvmeIoXfer ns lba prp1 prp2 n write)
    fun res => res = n ∨ res = -1 := by
  rw [nvmeIoXfer]
  split
  · exact .bind (accesses_warn _) fun _ _ => .ret (.inr rfl)
  · refine .bind (accesses_turns (turns_getNextSqe ..)) fun slot _ => ?_
    cases slot with
    | none => exact .halt
    | some s =>
      refine .bind (accesses_turns (turns_fillIn ..)) fun _ _ => ?_
      refine .bind (accesses_turns (turns_commitSqe _)) fun _ _ => ?_
      refine .bind (accesses_turns (turns_wait _)) fun cqe _ => ?_
      split
      · exact .ret (.inl rfl)
      · exact .ret (.inr rfl)

theorem PageAt.setMem (h : PageAt a w) (m : Mem) : PageAt a (w.setMem m) :=
  h.tame { Tame.refl w with }

/-- A bounce moves no more than a page and no more than was asked for. -/
theorem bounce_size (ns : NvmeNamespace) (count : Nat) :
    u32 (bounceBlocks ns count * ns.blockSize) ≤ 4096 ∧
      u32 (bounceBlocks ns count * ns.blockSize) ≤ count * ns.blockSize := by
  have hmod : u32 (bounceBlocks ns count * ns.blockSize) ≤ bounceBlocks ns count * ns.blockSize :=
    Nat.mod_le ..
  rw [bounceBlocks_eq] at hmod ⊢
  constructor
  · calc _ ≤ min count (4096 / ns.blockSize) * ns.blockSize := hmod
      _ ≤ 4096 / ns.blockSize * ns.blockSize := Nat.mul_le_mul_right _ (Nat.min_le_right ..)
      _ ≤ 4096 := Nat.div_mul_le_self ..
  · exact hmod.trans (Nat.mul_le_mul_right _ (Nat.min_le_left ..))

theorem accesses_bounceXfer : Accesses a ns buf count (nvmeBounceXfer ns lba buf count write)
    fun _ => True := by
  obtain ⟨hpage, hcount⟩ := bounce_size ns count
  refine .bind accesses_dma fun d hd => ?_
  subst hd
  cases write with
  | true =>
    refine .bind (Q := fun _ => True)
      (.modify (fun w h => ⟨.toPage _ hpage hcount ?_, h.setMem _⟩) trivial) fun _ _ => ?_
    · rw [h.2]
    · exact .bind (accesses_ioXfer _) fun res _ => .ret trivial
  | false =>
    refine .bind (accesses_ioXfer _) fun res hres => ?_
    split
    · rename_i hok
      have hblocks : res.toNat = bounceBlocks ns count := by
        rcases hres with rfl | rfl
        · exact Int.toNat_natCast _
        · omega
      rw [hblocks]
      refine .bind (Q := fun _ => True)
        (.modify (fun w h => ⟨.fromPage _ hpage hcount ?_, h.setMem _⟩) trivial) fun _ _ => ?_
      · rw [h.2]
      · exact .ret trivial
    · exact .ret trivial

/-- The entries fit their room, whether or not the list is used in the end. -/
theorem prplPath_length (ns : NvmeNamespace) (buf count : Nat) {l : List Nat}
    (h : prplPath ns buf count = .list l ∨ prplPath ns buf count = .bounce l) : l.length ≤ 15 := by
  have hbound := (prplEntries_bound nvmeMaxPrplEntries (u32 (buf + nvmePageSize))
    (s32 (u32 (count * ns.blockSize)) - nvmePageSize) (Nat.mod_lt _ (by decide))).1
  simp only [prplPath] at h
  split at h
  · simp at h
  split at h
  · obtain rfl : [] = l := by simpa using h
    simp
  split at h
  · obtain rfl : [] = l := by simpa using h
    simp
  split at h
  · split at h
    · obtain rfl := by simpa using h
      exact hbound
    · obtain rfl := by simpa using h
      exact hbound
  · split at h <;> simp at h

theorem accesses_writePrpl {l : List Nat} (hl : l.length ≤ 15) :
    Accesses a ns buf count (writePrpl a l) fun _ => True :=
  .modify (fun w h => ⟨.list l hl (by rw [h.2]), h.setMem _⟩) trivial

/-- ACCESS RULE: a call of `nvme_prpl_xfer`. -/
theorem accesses_prplXfer :
    Accesses a ns buf (clampCount ns count) (nvmePrplXfer ns lba buf count write) fun _ => True := by
  simp only [nvmePrplXfer]
  rcases hp : prplPath ns buf (clampCount ns count) with _ | _ | l | l
  · exact (accesses_ioXfer _).mono fun _ _ => trivial
  · exact (accesses_ioXfer _).mono fun _ _ => trivial
  · refine .bind accesses_dma fun d hd => ?_
    subst hd
    refine .bind (accesses_writePrpl (prplPath_length ns buf _ (.inl hp))) fun _ _ => ?_
    exact (accesses_ioXfer _).mono fun _ _ => trivial
  · refine .bind accesses_dma fun d hd => ?_
    subst hd
    refine .bind (accesses_writePrpl (prplPath_length ns buf _ (.inr hp))) fun _ _ => ?_
    exact accesses_bounceXfer

/-! ### Sessions -/

/-- CORRECT: wherever a session has come to, whatever the device did, every index is in its ring, every LBA
    format that was read is below 16 and every divisor positive, and the access that comes next is in
    range. -/
theorem accesses_in_range (hboot : Booted w) (h : Session nvmeBase w v x) :
    Ranges v ∧ x.InRange v := by
  induction h with
  | @setup v p hrun =>
    refine ⟨(safe_setup hboot nvmeBase v p hrun).1, ?_⟩
    rintro f k rfl
    exact (safe_setup hboot nvmeBase _ _ hrun.act).1.used
  | @transfer v u x rec lba buf count write p _ _ hrec hrun ih =>
    obtain ⟨hranges, _⟩ := ih
    have hpage : PageAt v.sys.nvmeDmaBuffer v := ⟨⟨hranges, by simp⟩, rfl⟩
    obtain ⟨⟨hnow, hdma⟩, hacts⟩ := accesses_prplXfer.steps (fun _ _ h hr => h.tame hr.tame) hpage hrun
    have hnull : u.sys.nvmeDmaBuffer ≠ 0 := by
      rw [hdma]
      exact hranges.paged (List.ne_nil_of_mem hrec)
    refine ⟨hnow.toRanges, hranges.sized rec hrec, hnow.page hnull, ?_⟩
    rintro f k rfl
    cases hacts with
    | atom hf _ => exact (hf u ⟨hnow, hdma⟩).1

/-! ### A session -/

theorem sampleStart_booted : Booted sampleStart := ⟨fun r => by cases r <;> rfl, rfl, rfl, rfl⟩

/-- The record of the one namespace the sample set-up accepts. -/
abbrev sampleRec : Nat := sampleBlock 8

/-- A bounced write of ten blocks, with the copy into the page to come next. -/
def bouncedCall : World × Drv Int :=
  follow deviceAct (driverActs 3) sampleSetup.1
    (nvmePrplXfer (sampleSetup.1.sys.nsRec sampleRec) 0 0x100001 10 true)

theorem bouncedCall_session : Session 1 sampleStart bouncedCall.1
    (.transfer (sampleSetup.1.sys.nsRec sampleRec) 0x100001 10 bouncedCall.2) := by
  have hret : sampleSetup.2.value? = some (some 0) := by decide +kernel
  have hsetup : Steps Hostile sampleStart (nvmeControllerSetup 1) sampleSetup.1 (.ret (some 0)) :=
    follow_ret hret fun _ _ => deviceAct_hostile
  exact .transfer (.setup (hsetup.mono fun _ _ => hostile_untrusted)) ⟨_, rfl⟩ (by decide +kernel)
    ((follow_steps deviceAct (driverActs 3) _ _).mono fun _ _ h =>
      hostile_untrusted (deviceAct_hostile h))

theorem accesses_in_range_sample : Ranges bouncedCall.1 ∧
    Doing.InRange (.transfer (sampleSetup.1.sys.nsRec sampleRec) 0x100001 10 bouncedCall.2)
      bouncedCall.1 :=
  accesses_in_range sampleStart_booted bouncedCall_session

end Nvme
