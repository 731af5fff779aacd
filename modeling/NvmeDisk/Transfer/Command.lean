import NvmeDisk.Queue.Command
import NvmeDisk.Transfer.Effect
import NvmeDisk.Transfer.Ledger

/-! One read or write command of `nvme_io_xfer`: the entry it fills in, and how it ends. Between
    commands the I/O queue is `Resting`; a command ends with the queue resting again, or `Hung` when
    its wait gave up. What is known of memory and disk (`S`) is asked for, and kept, only under `c`:
    where the admin queue has work of its own nothing is known of them, and nothing is claimed. -/

namespace Nvme
open Ring Resume Bytes BlockDev

def ioOpc (write : Bool) : Nat := if write then nvmeSqeOpcIoWrite else nvmeSqeOpcIoRead

/-- The entry `nvme_io_xfer` commits. -/
def ioSqe (ns : NvmeNamespace) (lba prp1 prp2 count : Nat) (write : Bool) (tail : Nat) : NvmeSqe :=
  cmdSqe tail (ioOpc write) 0 prp1 prp2 ns.nsId (u32 lba) (u32 (lba >>> 32))
    (1 <<< 31 /- limited retry -/ ||| u32 (count + 4294967295))

/-- Blocks a command for `count` covers: the field holds `count - 1` in 16 bits. -/
def cmdBlocks (count : Nat) : Nat := if count = 0 then 65536 else count

section
variable (ns : NvmeNamespace) (lba prp1 prp2 : Nat) {count : Nat} (write : Bool) (tail : Nat)

theorem ioSqe_opc : (ioSqe ns lba prp1 prp2 count write tail).opc = ioOpc write := by
  have h : ∀ opc, opc < 256 → (ioSqe ns lba prp1 prp2 count write tail).cdw0 =
      (freshSqe tail opc 0 prp1 prp2).cdw0 → (ioSqe ns lba prp1 prp2 count write tail).opc = opc :=
    fun opc hlt hc => by rw [NvmeSqe.opc, hc]; exact freshSqe_opc _ _ _ _ hlt
  cases write with
  | true => exact h _ (by decide) rfl
  | false => exact h _ (by decide) rfl

theorem ioSqe_slba : (ioSqe ns lba prp1 prp2 count write tail).slba = u64 lba := by
  change lba % 4294967296 + lba >>> 32 % 4294967296 * 4294967296 = lba % 18446744073709551616
  rw [Nat.shiftRight_eq_div_pow]
  omega

theorem ioSqe_blocks (h : count ≤ 65535) :
    (ioSqe ns lba prp1 prp2 count write tail).blocks = cmdBlocks count := by
  have hor : 1 <<< 31 ||| u32 (count + 4294967295) =
      if count = 0 then 4294967295 else 2147483648 + (count - 1) := by
    split
    · subst_vars
      rfl
    · rw [u32, show (count + 4294967295) % 4294967296 = count - 1 by omega]
      exact (Nat.two_pow_add_eq_or_of_lt (i := 31) (by omega) 1).symm
  change (1 <<< 31 ||| u32 (count + 4294967295)) % 65536 + 1 = _
  rw [hor, cmdBlocks]
  split <;> omega

end

/-- The record of the driver is the namespace the device serves. -/
structure Serves (ns : NvmeNamespace) (d : Device) : Prop where
  nsId : ns.nsId = d.nsId
  blockSize : ns.blockSize = d.blockSize
  lbaCount : ns.lbaCount = d.lbaCount
  lbaBits : ns.lbaCount ≤ 18446744073709551616

/-- A command inside the namespace whose PRPs describe the `count` blocks at `a` moves those. -/
theorem ioSqe_targets {ns : NvmeNamespace} {d : Device} {lba prp1 prp2 count a : Nat} {write : Bool}
    {K : Mem → Prop} (tail : Nat) (hd : Serves ns d) (h1 : 1 ≤ count) (hcount : count ≤ 65535)
    (hlba : lba + count ≤ ns.lbaCount) (hp1 : prp1 < 4294967296) (hp2 : prp2 < 4294967296)
    (hsegs : ∀ m, K m → ∃ segs, dataSegs m prp1 prp2 (count * ns.blockSize) = some segs ∧
      Tiles a segs (count * ns.blockSize))
    (hkeep : write = false → ∀ m f, K m → K (fill m a (count * ns.blockSize) f)) :
    Targets d (ioSqe ns lba prp1 prp2 count write tail) K write (lba * ns.blockSize) a
      (count * ns.blockSize) where
  keep := hkeep
  transfer s hk := by
    obtain ⟨segs, hs, htiles⟩ := hsegs s.mem hk
    have hbits := hd.lbaBits
    have hslba : (ioSqe ns lba prp1 prp2 count write tail).slba = lba := by
      rw [ioSqe_slba, u64, Nat.mod_eq_of_lt (by omega)]
    have hblocks : (ioSqe ns lba prp1 prp2 count write tail).blocks = count := by
      rw [ioSqe_blocks _ _ _ _ _ _ hcount, cmdBlocks, if_neg (by omega)]
    have hprp1 : (ioSqe ns lba prp1 prp2 count write tail).dptrPrp1 = prp1 := Nat.mod_eq_of_lt hp1
    have hprp2 : (ioSqe ns lba prp1 prp2 count write tail).dptrPrp2 = prp2 := Nat.mod_eq_of_lt hp2
    have hrange : (ioSqe ns lba prp1 prp2 count write tail).nsid = d.nsId ∧ lba + count ≤ d.lbaCount :=
      ⟨hd.nsId, by rw [← hd.lbaCount]; exact hlba⟩
    refine ⟨segs, htiles, ?_⟩
    simp only [transferOf, hslba, hblocks, hprp1, hprp2, if_pos hrange, ← hd.blockSize, hs,
      ioSqe_opc, ioOpc]
    cases write <;> simp

/-- A command that reaches past the end of the namespace cannot succeed. -/
theorem ioSqe_refused {ns : NvmeNamespace} {d : Device} {lba prp1 prp2 count : Nat} {write : Bool}
    (tail : Nat) (hd : Serves ns d) (h1 : 1 ≤ count) (hcount : count ≤ 65535)
    (hbits : lba + count ≤ 18446744073709551616) (hlba : ¬ lba + count ≤ ns.lbaCount) :
    Refused d (ioSqe ns lba prp1 prp2 count write tail) := by
  intro s
  have hslba : (ioSqe ns lba prp1 prp2 count write tail).slba = lba := by
    rw [ioSqe_slba, u64, Nat.mod_eq_of_lt (by omega)]
  have hblocks : (ioSqe ns lba prp1 prp2 count write tail).blocks = count := by
    rw [ioSqe_blocks _ _ _ _ _ _ hcount, cmdBlocks, if_neg (by omega)]
  have hout : ¬ ((ioSqe ns lba prp1 prp2 count write tail).nsid = d.nsId ∧
      lba + count ≤ d.lbaCount) := fun h => hlba (by rw [hd.lbaCount]; exact h.2)
  simp only [transferOf, hslba, hblocks, if_neg hout]

/-! ### The queue between commands -/

/-- What a stretch of driver code takes as given: the statuses the controller may report, whether
    memory and disk are followed (then an error shows in the status byte the driver looks at), the
    ring lengths (powers of two), the driver's globals with their page-aligned bounce page, and the
    device. -/
structure Setting where
  mayFail : Nat → Bool
  followed : Prop
  coded : followed → ∀ sf, mayFail sf = true → sf % 256 ≠ 0
  L : Nat
  C : Nat
  sqPow : Pow2 L
  cqPow : Pow2 C
  sys : Sys
  dmaPage : sys.nvmeDmaBuffer % 4096 = 0
  dev : Device

instance (x : Setting) : Fact (Pow2 x.L) := ⟨x.sqPow⟩

instance (x : Setting) : Fact (Pow2 x.C) := ⟨x.cqPow⟩

section
variable (x : Setting) (lg : List Item) (S : Store → Prop)

/-- No command outstanding, account `lg`, memory and disk as `S` says. -/
structure Resting (w : World) : Prop where
  idle : ∃ D, Idle x.L x.C D (w.q .io)
  sys : w.sys = x.sys
  dev : w.dev = x.dev
  ledger : ledger w.log = lg
  store : x.followed → Calm .io w ∧ S w.store

/-- A command was given up on; whatever the controller still does for it, `S` holds. -/
structure Hung (w : World) : Prop where
  under : ∃ w₀ D e base st, Underway x.mayFail w₀ .io x.L x.C D e base st w ∧
    .timeout .io ∈ base ∧ (x.followed → Calm .io w₀ ∧ ∀ st s, Stage.Data x.dev .io e w₀.store st s → S s)
  sys : w.sys = x.sys
  dev : w.dev = x.dev
  ledger : ledger w.log = lg

end

variable {x : Setting} {lg : List Item} {S S' : Store → Prop} {w v : World}

/-- Where memory is followed, a status the driver takes for success is one. -/
theorem Setting.success {sf : Nat} (hx : x.followed) (hok : OkStatus x.mayFail sf)
    (hsf : sf % 256 = 0) : sf = 0 := by
  rcases hok with h | ⟨hm, _, _⟩
  · exact h
  · exact absurd hsf (x.coded hx sf hm)

theorem Resting.env (h : Resting x lg S w) (he : Env (Nvmec x.mayFail) w v) : Resting x lg S v := by
  obtain ⟨D, hidle⟩ := h.idle
  have ha := hidle.noWork.env he
  exact {
    idle := ⟨D, by rw [ha.q]; exact hidle⟩
    sys := ha.sys.trans h.sys
    dev := ha.dev.trans h.dev
    ledger := ha.log.ledger.trans h.ledger
    store := fun hx => by
      rw [ha.calm (h.store hx).1]
      exact h.store hx }

theorem Hung.env (h : Hung x lg S w) (he : Env (Nvmec x.mayFail) w v) : Hung x lg S v := by
  obtain ⟨w₀, D, e, base, st, hu, hrest⟩ := h.under
  obtain ⟨st', hu'⟩ := hu.env he
  refine ⟨⟨w₀, D, e, base, st', hu', hrest⟩, ?_, ?_, ?_⟩
  · rw [hu'.sys, ← hu.sys, h.sys]
  · rw [hu'.dev, ← hu.dev, h.dev]
  · rw [hu'.log.ledger, ← hu.log.ledger, h.ledger]

theorem Hung.timeout (h : Hung x lg S w) : .timeout .io ∈ w.log := by
  obtain ⟨w₀, D, e, base, st, hu, hmem, _⟩ := h.under
  obtain ⟨new, _, hlog⟩ := hu.log
  rw [hlog]
  exact List.mem_append_right _ hmem

/-- What the abandoned command has done so far is within `S`. -/
theorem Hung.store (h : Hung x lg S w) (hx : x.followed) : S w.store := by
  obtain ⟨w₀, D, e, base, st, hu, _, hdata⟩ := h.under
  obtain ⟨hcalm, hS⟩ := hdata hx
  refine hS st _ ?_
  rw [← h.dev, hu.dev]
  exact (hu.calm hcalm).2

theorem Resting.mono (h : Resting x lg S w) (hS : x.followed → ∀ s, S s → S' s) : Resting x lg S' w :=
  { h with store := fun hx => ⟨(h.store hx).1, hS hx _ (h.store hx).2⟩ }

theorem Hung.mono (h : Hung x lg S w) (hS : x.followed → ∀ s, S s → S' s) : Hung x lg S' w := by
  obtain ⟨w₀, D, e, base, st, hu, hmem, hdata⟩ := h.under
  exact { h with under := ⟨w₀, D, e, base, st, hu, hmem, fun hx =>
    ⟨(hdata hx).1, fun st s hs => hS hx s ((hdata hx).2 st s hs)⟩⟩ }

/-! ### The command -/

section
variable (x : Setting) (lg : List Item) (cmd : Option Nat → Cmd) (count : Nat)
  (After : Nat → Store → Prop) (Broken : Store → Prop)

/-- A command is over: `res` is what the transfer function returns for it. -/
inductive IoEnd (res : Int) (w : World) : Prop where
  | completed (sf : Nat) : OkStatus x.mayFail sf → res = (if sf % 256 = 0 then (count : Int) else -1) →
      Resting x (onTop (cmd (some sf) :: ·) lg) (After sf) w → IoEnd res w
  | timedOut : res = -1 → Hung x (onTop (cmd none :: ·) lg) Broken w → IoEnd res w

end

variable {cmd : Option Nat → Cmd} {count : Nat} {After : Nat → Store → Prop}
  {Broken : Store → Prop} {res : Int}

theorem IoEnd.env (h : IoEnd x lg cmd count After Broken res w) (he : Env (Nvmec x.mayFail) w v) :
    IoEnd x lg cmd count After Broken res v := by
  cases h with
  | completed sf hok hres h => exact .completed sf hok hres (h.env he)
  | timedOut hres h => exact .timedOut hres (h.env he)

section
variable {D : List NvmeCqe} {e : NvmeSqe} {w₀ : World} {sf : Nat}

theorem Submitted.ledger (h : Resting x lg S w) (hs : Submitted .io x.L x.C D e w w₀) :
    ledger w₀.log = onTop (e.cmd none :: ·) lg := by
  obtain ⟨l, hl, hlog⟩ := hs.log
  rw [hlog, ← h.ledger, ← hl.ledger]
  rfl

/-- The command's completion was taken. -/
theorem Took.resting (h : Resting x lg S w) (hs : Submitted .io x.L x.C D e w w₀)
    (ht : Took x.mayFail w₀ .io x.L x.C D e sf v)
    (hS : x.followed → ∀ s, Ended x.dev .io e w.store sf s → S' s) :
    Resting x (onTop (e.cmd (some sf) :: ·) lg) S' v := by
  obtain ⟨l, l', hl, hl', hf⟩ := ht
  have hconsumed : Nvme.ledger l' = onTop (e.cmd none :: ·) lg := by
    rw [hl'.ledger, ← hs.ledger h, ← hl.ledger]
    rfl
  refine ⟨⟨_, hf.idle⟩, ?_, ?_, ?_, fun hx => ?_⟩
  · rw [hf.sys, hs.sys, h.sys]
  · rw [hf.dev, hs.dev, h.dev]
  · rw [hf.log.ledger, Nvme.ledger, hconsumed, onTop_onTop, cqeOf_sf]
    rfl
  · have hcalm := hs.calmWorld (h.store hx).1
    obtain ⟨hq, hended⟩ := hf.calm hcalm
    rw [hs.dev, h.dev, (hs.calm (h.store hx).1).2] at hended
    exact ⟨calm_of_other hcalm hq, hS hx _ hended⟩

/-- The wait for the command gave up. -/
theorem GaveUp.hung (h : Resting x lg S w) (hs : Submitted .io x.L x.C D e w w₀)
    (hg : GaveUp x.mayFail w₀ .io x.L x.C D e v)
    (hS : x.followed → ∀ st s, Stage.Data x.dev .io e w.store st s → S' s) :
    Hung x (onTop (e.cmd none :: ·) lg) S' v := by
  obtain ⟨st, l, hl, hu⟩ := hg
  refine ⟨⟨w₀, D, e, _, st, hu, List.mem_cons_self .., fun hx => ?_⟩, ?_, ?_, ?_⟩
  · rw [(hs.calm (h.store hx).1).2]
    exact ⟨hs.calmWorld (h.store hx).1, hS hx⟩
  · rw [hu.sys, hs.sys, h.sys]
  · rw [hu.dev, hs.dev, h.dev]
  · rw [hu.log.ledger, ← hs.ledger h, ← hl.ledger]
    rfl

end

/-- COMMAND RULE: an aligned `nvme_io_xfer` on a resting queue submits one command; `After` and
    `Broken` bound what that command does to memory and disk. -/
theorem wp_ioXfer {ns : NvmeNamespace} {lba prp1 prp2 : Nat} {write : Bool}
    (hal : ¬ misaligned prp1 prp2) (hcount : count ≤ 65535) (h : Resting x lg S w)
    (hdata : x.followed → ∀ tail s₀, S s₀ →
      (∀ sf s, Ended x.dev .io (ioSqe ns lba prp1 prp2 count write tail) s₀ sf s → After sf s) ∧
      ∀ st s, Stage.Data x.dev .io (ioSqe ns lba prp1 prp2 count write tail) s₀ st s → Broken s) :
    Wp (Nvmec x.mayFail) (fun _ => True) (nvmeIoXfer ns lba prp1 prp2 count write)
      (IoEnd x lg (⟨ioOpc write, u64 lba, cmdBlocks count, ·⟩) count After Broken)
      (fun _ _ => False) w := by
  obtain ⟨D, hidle⟩ := h.idle
  let e := ioSqe ns lba prp1 prp2 count write (D.length % x.L)
  have hcmd : ∀ sf, e.cmd sf = ⟨ioOpc write, u64 lba, cmdBlocks count, sf⟩ := fun sf => by
    rw [NvmeSqe.cmd, ioSqe_opc, ioSqe_slba, ioSqe_blocks _ _ _ _ _ _ hcount]
  rw [nvmeIoXfer, if_neg hal]
  refine wp_command (e := e) hidle (fun _ => rfl) rfl (fun _ _ => trivial) fun cqe v hv => ?_
  obtain ⟨w₀, hs, ⟨sf, rfl, ht⟩ | ⟨rfl, hg⟩⟩ := hv
  · -- the driver looks at the low status byte only
    have hrest := ht.resting h hs fun hx s => (hdata hx _ _ (h.store hx).2).1 sf s
    have hok : OkStatus x.mayFail sf := by
      obtain ⟨_, _, _, _, hf⟩ := ht
      exact hf.status
    have hsuccess := nvmeIsCqeSuccess_iff (cqeOf .io x.L x.C D e sf)
    rw [cqeOf_sf] at hsuccess
    have hend : ∀ res, res = (if sf % 256 = 0 then (count : Int) else -1) →
        IoEnd x lg (⟨ioOpc write, u64 lba, cmdBlocks count, ·⟩) count After Broken res v :=
      fun res hres => .completed sf hok hres (by rw [← hcmd]; exact hrest)
    split
    · rename_i hc
      refine wp_ret fun u hu => ⟨trivial, (hend _ ?_).env hu⟩
      rw [if_pos (hsuccess.mp hc)]
    · rename_i hc
      refine wp_ret fun u hu => ⟨trivial, (hend _ ?_).env hu⟩
      rw [if_neg fun h0 => hc (hsuccess.mpr h0)]
  · have hhung := hg.hung h hs fun hx st s => (hdata hx _ _ (h.store hx).2).2 st s
    rw [if_neg (by simp)]
    refine wp_ret fun u hu => ⟨trivial, ?_⟩
    exact .timedOut rfl (by rw [← hcmd]; exact hhung.env hu)

end Nvme
