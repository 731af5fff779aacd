import NvmeDisk.Model.Setup
import NvmeDisk.Queue.Matching

/-! What the controller may still do for a command after the call that submitted it has returned, or
    has freed the buffer. A wait that gave up leaves its command with the controller, and nothing in
    the driver takes it back; the last command of a queue is the only one that can be left so. -/

namespace Nvme
open Ring Resume Bytes BlockDev

/-- The calls that submit commands, and a caller freeing a buffer of its own. -/
inductive Call where
  | ioXfer (ns : NvmeNamespace) (lba prp1 prp2 count : Nat) (write : Bool)
  | bounceXfer (ns : NvmeNamespace) (lba buf count : Nat) (write : Bool)
  | prplXfer (ns : NvmeNamespace) (lba buf count : Nat) (write : Bool)
  | adminIdentify (cns nsid : Nat)
  | free (a : Nat)

def Call.run : Call → Drv Unit
  | .ioXfer ns lba prp1 prp2 count write => do
    let _ ← nvmeIoXfer ns lba prp1 prp2 count write
    note .returned
  | .bounceXfer ns lba buf count write => do
    let _ ← nvmeBounceXfer ns lba buf count write
    note .returned
  | .prplXfer ns lba buf count write => do
    let _ ← nvmePrplXfer ns lba buf count write
    note .returned
  | .adminIdentify cns nsid => do
    let _ ← nvmeAdminIdentify cns nsid
    note .returned
  | .free a => Nvme.free a

def runCalls : List Call → Drv Unit
  | [] => return ()
  | c :: cs => do
    c.run
    runCalls cs

/-- The controller has not completed command `n` of queue `i`: it is in flight or not yet fetched. -/
def Uncompleted (w : World) (i : QId) (n : Nat) : Prop :=
  (∃ f ∈ (w.q i).ctl.flight, f.serial = n) ∨ ((w.q i).ctl.taken ≤ n ∧ n < commits i w.log)

/-- Once buffers were handed back, the controller works for a command submitted before only if
    `Excused`, and only then has it such a command left. -/
def NoLateWork (Excused : QId → Nat → List Event → Prop) (w : World) : Prop :=
  ∀ i n post back pre, w.log = post ++ back :: pre → back.handsBack = true → n < commits i pre →
    .access i n ∈ post ∨ Uncompleted w i n → Excused i n pre

variable {mayFail : Nat → Bool} {w v : World} {i : QId} {L C n : Nat} {D : List NvmeCqe}
  {e : NvmeSqe} {stamp : List Event}

/-! ### The calls obey -/

theorem obeys_memcpy [Fact (Pow2 C)] (dst src k : Nat) : Obeys mayFail i L C (memcpy dst src k) :=
  .modify fun _ => .quiet rfl rfl

theorem obeys_dmaBuffer [Fact (Pow2 C)] : Obeys mayFail i L C dmaBuffer := .get _

theorem obeys_writePrpl [Fact (Pow2 C)] (dma : Nat) (prpl : List Nat) :
    Obeys mayFail i L C (writePrpl dma prpl) :=
  .modify fun _ => .quiet rfl rfl

theorem obeys_bounceXfer [Fact (Pow2 L)] [Fact (Pow2 C)] (ns : NvmeNamespace) (lba buf count : Nat)
    (write : Bool) :
    Obeys mayFail i L C (nvmeBounceXfer ns lba buf count write) := by
  refine .bind obeys_dmaBuffer fun dma => ?_
  have htail : Obeys mayFail i L C (do
      let res ← nvmeIoXfer ns lba dma 0 (bounceBlocks ns count) write
      if write = false ∧ 0 ≤ res then
        memcpy buf dma (u32 (res.toNat * ns.blockSize))
      return res) := by
    refine .bind (obeys_ioXfer _ _ _ _ _ _) fun res => ?_
    split
    · exact .bind (obeys_memcpy _ _ _) fun _ => .ret _
    · exact .ret _
  cases write with
  | false => exact htail
  | true => exact .bind (obeys_memcpy _ _ _) fun _ => htail

theorem obeys_prplXfer [Fact (Pow2 L)] [Fact (Pow2 C)] (ns : NvmeNamespace) (lba buf count : Nat)
    (write : Bool) :
    Obeys mayFail i L C (nvmePrplXfer ns lba buf count write) := by
  unfold nvmePrplXfer
  dsimp only
  split
  · exact obeys_ioXfer _ _ _ _ _ _
  · exact obeys_ioXfer _ _ _ _ _ _
  · exact .bind obeys_dmaBuffer fun _ => .bind (obeys_writePrpl _ _) fun _ => obeys_ioXfer _ _ _ _ _ _
  · exact .bind obeys_dmaBuffer fun _ => .bind (obeys_writePrpl _ _) fun _ =>
      obeys_bounceXfer _ _ _ _ _

theorem obeys_zalloc [Fact (Pow2 C)] (site : Site) (size : Nat) :
    Obeys mayFail i L C (zallocPageAligned site size) := by
  refine .of_does (.act fun w => .quiet ?_ ?_) <;>
  · dsimp only
    split <;> rfl

theorem obeys_free [Fact (Pow2 C)] (a : Nat) : Obeys mayFail i L C (free a) := by
  refine .modify_settled fun w hw => ?_
  rw [World.free]
  split
  · exact hw
  · exact hw.handBack rfl rfl (by simp [Event.queue?]) (by simp)

theorem obeys_adminIdentify [Fact (Pow2 L)] [Fact (Pow2 C)] (cns nsid : Nat) :
    Obeys mayFail i L C (nvmeAdminIdentify cns nsid) := by
  refine .bind (obeys_zalloc _ _) fun buf => ?_
  split
  · exact .bind (.warn _) fun _ => .ret _
  · refine obeys_command (fun _ => rfl) ?_ fun c => ?_
    · exact .bind (.warn _) fun _ => .bind (obeys_free buf) fun _ => .ret _
    · split
      · exact .ret _
      · exact .bind (obeys_free buf) fun _ => .ret _

theorem obeys_call [Fact (Pow2 L)] [Fact (Pow2 C)] (c : Call) : Obeys mayFail i L C c.run := by
  cases c with
  | ioXfer ns lba prp1 prp2 count write => exact .bind (obeys_ioXfer _ _ _ _ _ _) fun _ => .returned
  | bounceXfer ns lba buf count write => exact .bind (obeys_bounceXfer _ _ _ _ _) fun _ => .returned
  | prplXfer ns lba buf count write => exact .bind (obeys_prplXfer _ _ _ _ _) fun _ => .returned
  | adminIdentify cns nsid => exact .bind (obeys_adminIdentify _ _) fun _ => .returned
  | free a => exact obeys_free a

theorem obeys_runCalls [Fact (Pow2 L)] [Fact (Pow2 C)] (cs : List Call) :
    Obeys mayFail i L C (runCalls cs) := by
  induction cs with
  | nil => exact .ret _
  | cons c cs ih => exact .bind (obeys_call c) fun _ => ih

/-! ### What is left to do -/

/-- An idle controller has completed everything. -/
theorem Idle.not_uncompleted (h : Idle L C D (w.q i)) (hc : commits i w.log = D.length) :
    ¬ Uncompleted w i n := by
  rintro (⟨f, hf, _⟩ | ⟨hle, hlt⟩)
  · rw [h.flight] at hf
    cases hf
  · rw [h.taken] at hle
    omega

/-- With a command outstanding it is the only one left. -/
theorem Outstanding.uncompleted {s : Stage} (h : Outstanding i L C D e s (w.q i))
    (hc : commits i w.log = D.length + 1) (hu : Uncompleted w i n) : n = D.length := by
  have hstage := h.stage
  cases s with
  | queued =>
    rcases hu with ⟨f, hf, _⟩ | ⟨hle, hlt⟩
    · rw [hstage.2.1] at hf
      cases hf
    · rw [hstage.1] at hle
      omega
  | flying sf =>
    rcases hu with ⟨f, hf, hn⟩ | ⟨hle, hlt⟩
    · rw [hstage.2.1] at hf
      rw [← hn, List.mem_singleton.mp hf]
    · rw [hstage.1] at hle
      omega
  | posted sf =>
    rcases hu with ⟨f, hf, _⟩ | ⟨hle, hlt⟩
    · rw [hstage.2.1] at hf
      cases hf
    · rw [hstage.1] at hle
      omega

/-- Whatever the controller has worked for after a hand-back, or still has to, was abandoned. -/
theorem Control.noLateWork (h : ∀ i, ∃ L C, Control i L C w) : NoLateWork Abandoned w := by
  have hany : ∀ {i k}, Punctual i k w.log → (∀ n, Uncompleted w i n → n = k) →
      ∀ n post back pre, w.log = post ++ back :: pre → back.handsBack = true →
        n < commits i pre → .access i n ∈ post ∨ Uncompleted w i n → Abandoned i n pre := by
    intro i k hp hleft n post back pre hs hb hlt hwork
    rcases hwork with hacc | hunc
    · exact hp.past post back pre n hs hb hacc hlt
    · rw [hleft n hunc] at hlt ⊢
      exact hp.now post back pre hs hb hlt
  have hsent : ∀ {i L C D e stamp}, Sent i L C D e stamp w →
      (stamp ++ [committedOf i L D e]).countP Event.isCommit = 1 →
      ∀ n, Uncompleted w i n → n = D.length := by
    intro i L C D e stamp h hone n hu
    obtain ⟨⟨s, hout⟩, ⟨t, ht, hlog⟩, _⟩ := h
    refine hout.uncompleted ?_ hu
    rw [commits, hlog, ← List.singleton_append, ← List.append_assoc, List.countP_append, ht.commits]
    omega
  intro i
  obtain ⟨L, C, hi⟩ := h i
  cases hi with
  | settled hi =>
    cases hi with
    | rest D hi =>
      exact hany hi.punctual fun n hu => absurd hu (hi.idle.not_uncompleted hi.rounds.commits)
    | stuck D e hi => exact hany hi.punctual (hsent hi rfl)
  | busy D e hi => exact hany hi.punctual (hsent hi rfl)
  | half D e sf hi =>
    refine hany hi.punctual fun n hu => absurd hu (hi.idle.not_uncompleted ?_)
    obtain ⟨t, ht, hlog⟩ := hi.rounds
    rw [commits, hlog]
    simp [List.countP_cons, Event.isCommit, consumedOf, committedOf, ht.commits]

/-- A disk full of `0xAC`. -/
def slowWorld : World :=
  freshWorld sampleSqLen sampleCqLen ⟨fun _ => 0, fun _ => 0xAC⟩ sampleSys sampleDevice

/-- Read block 5 into the page at 1 MiB. -/
def slowCalls : List Call := [.ioXfer ⟨1, 1000, 512, 0, 8⟩ 5 0x100000 0 1 false]

/-- The driver submits, polls 500 times and returns. -/
def slowReturn : World × Drv Unit :=
  follow (nvmeMove noFail) (List.replicate 505 none) slowWorld (runCalls slowCalls)

/-- The controller then fetches and executes the command. -/
def slowAccess : World × Drv Unit :=
  follow (nvmeMove noFail) [some (.fetch .io), some (.exec .io 0)] slowReturn.1 slowReturn.2

/-- Rings of six entries, whose length the mask of the index arithmetic does not fit. -/
def oddLen : QId → Nat
  | .admin => 64
  | .io => 6

def oddWorld : World :=
  freshWorld oddLen oddLen ⟨fun _ => 0, fun _ => 0xAC⟩ sampleSys sampleDevice

/-- Read block 5, then block 6. -/
def oddCalls : List Call :=
  [.ioXfer ⟨1, 1000, 512, 0, 8⟩ 5 0x100000 0 1 false, .ioXfer ⟨1, 1000, 512, 0, 8⟩ 6 0x101000 0 1 false]

/-- The second doorbell write is 0, so that the controller fetches the empty slot after the second read
    too, and the driver takes the completion of that for the read's. -/
def oddReturn : World × Drv Unit :=
  follow (nvmeMove fun sf => sf = 2) (oneCommand .io ++ [none, none, none, none, some (.fetch .io),
    some (.fetch .io), some (.fail .io 1 2), some (.post .io 1), none, none, none, none]) oddWorld
    (runCalls oddCalls)

/-- The controller then executes the second read. -/
def oddAccess : World × Drv Unit :=
  follow (nvmeMove fun sf => sf = 2) [some (.exec .io 0)] oddReturn.1 oddReturn.2

theorem odd_read_late : Steps (Nvmec fun sf => sf = 2) oddWorld (runCalls oddCalls) oddReturn.1 (.ret ()) ∧
    .timeout .io ∉ oddReturn.1.log ∧ oddReturn.1.store.mem 0x101000 = 0 ∧
    Steps (Nvmec fun sf => sf = 2) oddWorld (runCalls oddCalls) oddAccess.1 oddAccess.2 ∧
    oddAccess.1.store.mem 0x101000 = 0xAC ∧ ¬ NoLateWork Abandoned oddAccess.1 := by
  have hret : oddReturn.2.value? = some () := by decide +kernel
  have hlog : oddAccess.1.log = [.access .io 1] ++ .returned :: oddReturn.1.log.tail := by decide +kernel
  have hcount : 1 < commits .io oddReturn.1.log.tail := by decide +kernel
  have hlast : (trail .io oddReturn.1.log.tail).head? ≠ some (.timeout .io) := by decide +kernel
  refine ⟨follow_ret hret fun _ _ h => h, by decide +kernel, by decide +kernel,
    (follow_steps ..).trans (follow_steps ..), by decide +kernel, fun h => ?_⟩
  obtain ⟨_, t, ht⟩ := h .io 1 _ _ _ hlog rfl hcount (.inl (List.mem_singleton.mpr rfl))
  exact hlast (by rw [ht]; rfl)

end Nvme
