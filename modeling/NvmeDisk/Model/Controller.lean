import NvmeDisk.Model.Queue
import NvmeDisk.Schemes.Resume
import NvmeDisk.Schemes.Ring

/-! The device as NVMe has it, for the properties that assume a controller following the standard.
    It fetches entries in ring order, works on what it has fetched in any order and over any time,
    posts completion `n` into slot `n % cqLen` under the phase tag of `n`, reports its fetch index
    in `sq_head`, and never posts into a full completion ring. The driver does not see the steps:
    any number of them may fall between two of its own. -/

namespace Nvme
open Bytes BlockDev Resume

/-! ### Where a command's data lies -/

/-- Walk a PRP list at `addr` for `rest` more bytes: each entry names a page; the last slot of a
    list page, when more than one page is left, names the next list page instead. -/
def prpList (m : Mem) : Nat → Nat → Nat → Option (List Seg)
  | 0, _, rest => if rest = 0 then some [] else none
  | fuel + 1, addr, rest =>
    if rest = 0 then some []
    else if load m addr 8 % nvmePageSize ≠ 0 then none
    else if (addr + 8) % nvmePageSize = 0 ∧ nvmePageSize < rest then
      prpList m fuel (load m addr 8) rest
    else (prpList m fuel (addr + 8) (rest - nvmePageSize)).map
      ((load m addr 8, min rest nvmePageSize) :: ·)

/-- The segments PRP1 and PRP2 describe for `len` bytes: up to the end of PRP1's page, then nothing,
    one more page, or a PRP list, as the rest demands. `none`: the controller must refuse it. -/
def dataSegs (m : Mem) (prp1 prp2 len : Nat) : Option (List Seg) :=
  let first := min len (nvmePageSize - prp1 % nvmePageSize)
  let rest := len - first
  if prp1 % 4 ≠ 0 then none
  else if rest = 0 then some [(prp1, first)]
  else if rest ≤ nvmePageSize then
    if prp2 % nvmePageSize = 0 then some [(prp1, first), (prp2, rest)] else none
  else if prp2 % 8 = 0 then (prpList m (2 * len) prp2 rest).map ((prp1, first) :: ·)
  else none

/-- What a command moves. -/
inductive Transfer where
  | toHost (segs : List Seg) (data : Nat → UInt8)
  | toDisk (pos len : Nat) (segs : List Seg)
  | nothing

/-- Starting LBA and number of blocks of a read or write command. -/
def NvmeSqe.slba (e : NvmeSqe) : Nat := e.dword10 + e.dword11 * 4294967296

def NvmeSqe.blocks (e : NvmeSqe) : Nat := e.dword12 % 65536 + 1

/-- The transfer a well-formed command asks for; `none` for a command that cannot succeed. -/
def transferOf (d : Device) (s : Store) (i : QId) (e : NvmeSqe) : Option Transfer :=
  match i with
  | .admin =>
    if e.opc = nvmeSqeOpcAdminIdentify then
      (dataSegs s.mem e.dptrPrp1 e.dptrPrp2 nvmePageSize).map
        (.toHost · (d.identify (e.dword10 % 256) e.nsid))
    else if e.opc = nvmeSqeOpcAdminCreateIoCq ∨ e.opc = nvmeSqeOpcAdminCreateIoSq then some .nothing
    else none
  | .io =>
    if e.nsid = d.nsId ∧ e.slba + e.blocks ≤ d.lbaCount then
      let segs := dataSegs s.mem e.dptrPrp1 e.dptrPrp2 (e.blocks * d.blockSize)
      if e.opc = nvmeSqeOpcIoRead then
        segs.map (.toHost · fun o => s.disk (e.slba * d.blockSize + o))
      else if e.opc = nvmeSqeOpcIoWrite then
        segs.map (.toDisk (e.slba * d.blockSize) (e.blocks * d.blockSize))
      else none
    else none

/-- The whole transfer. -/
def Transfer.full : Transfer → Store → Store
  | .toHost segs data, s => { s with mem := scatter s.mem segs data }
  | .toDisk pos len segs, s => { s with disk := fill s.disk pos len (gather s.mem segs) }
  | .nothing, s => s

/-- A transfer under way or broken off: its target may hold any bytes `g`. -/
def Transfer.part (g : Nat → UInt8) : Transfer → Store → Store
  | .toHost segs _, s => { s with mem := scatter s.mem segs g }
  | .toDisk pos len _, s => { s with disk := fill s.disk pos len g }
  | .nothing, s => s

/-! ### The controller's moves -/

inductive Move where
  | fetch (i : QId)
  | part (i : QId) (k : Nat) (g : Nat → UInt8)
  | exec (i : QId) (k : Nat)
  | fail (i : QId) (k : Nat) (sf : Nat)
  | post (i : QId) (k : Nat)

def QId.sqId : QId → Nat
  | .admin => 0
  | .io => 1

/-- The completion entry of a command executed with status field `sf`. -/
def CtlQueue.completion (c : CtlQueue) (i : QId) (e : NvmeSqe) (sf : Nat) : NvmeCqe where
  cdw0 := 0
  res0 := 0
  sqHead := c.taken % c.sqLen
  sqId := i.sqId
  cid := e.cid
  status := 2 * sf + (Ring.phase c.cqLen c.done.length).toNat

/-- Fetch the next entry into flight. -/
def QPair.fetch (q : QPair) : QPair :=
  { q with ctl := { q.ctl with
      taken := q.ctl.taken + 1
      flight := q.ctl.flight ++ [⟨q.sqes (q.ctl.taken % q.ctl.sqLen), q.ctl.taken, none⟩] } }

/-- Mark command `k` in flight as executed with `sf`. -/
def QPair.settle (q : QPair) (k : Nat) (f : Flight) (sf : Nat) : QPair :=
  { q with ctl := { q.ctl with flight := q.ctl.flight.set k { f with status := some sf } } }

/-- Post the completion of command `k` in flight. -/
def QPair.post (q : QPair) (i : QId) (k : Nat) (f : Flight) (sf : Nat) : QPair :=
  let c := q.ctl.completion i f.sqe sf
  { q with
    cqes := Function.update q.cqes (q.ctl.done.length % q.ctl.cqLen) c
    ctl := { q.ctl with flight := q.ctl.flight.eraseIdx k, done := q.ctl.done ++ [c] } }

/-- One move of the controller, where it is possible. `mayFail sf` says whether a command may be
    completed with the error status field `sf`. -/
def nvmeMove (mayFail : Nat → Bool) : Move → World → Option World
  | .fetch i, w =>
    if (w.q i).ctl.taken % (w.q i).ctl.sqLen = (w.q i).ctl.tail then none
    else some (w.setQ i (w.q i).fetch)
  | .part i k g, w =>
    match (w.q i).ctl.flight[k]? with
    | some ⟨e, n, none⟩ => (transferOf w.dev w.store i e).map fun t =>
        { w with store := t.part g w.store }.note (.access i n)
    | _ => none
  | .exec i k, w =>
    match (w.q i).ctl.flight[k]? with
    | some ⟨e, n, none⟩ => (transferOf w.dev w.store i e).map fun t =>
        ({ w with store := t.full w.store }.setQ i ((w.q i).settle k ⟨e, n, none⟩ 0)).note
          (.access i n)
    | _ => none
  | .fail i k sf, w =>
    match (w.q i).ctl.flight[k]? with
    | some ⟨e, n, none⟩ =>
      if mayFail sf = true ∧ sf ≠ 0 ∧ sf < 32768 then
        some (w.setQ i ((w.q i).settle k ⟨e, n, none⟩ sf))
      else none
    | _ => none
  | .post i k, w =>
    match (w.q i).ctl.flight[k]? with
    | some ⟨e, n, some sf⟩ =>
      if ((w.q i).ctl.done.length + 1) % (w.q i).ctl.cqLen = (w.q i).ctl.head then none
      else some (w.setQ i ((w.q i).post i k ⟨e, n, some sf⟩ sf))
    | _ => none

/-- The environment of the driver: a controller that follows NVMe. -/
abbrev Nvmec (mayFail : Nat → Bool) : World → World → Prop := Moves (nvmeMove mayFail)

/-- The controllers that complete every command successfully. -/
def noFail : Nat → Bool := fun _ => false

/-- Everything a controller move can be. -/
theorem nvmeMove_cases {mayFail : Nat → Bool} {m : Move} {w v : World}
    (h : nvmeMove mayFail m w = some v) :
    (∃ i, (w.q i).ctl.taken % (w.q i).ctl.sqLen ≠ (w.q i).ctl.tail ∧
      v = w.setQ i (w.q i).fetch) ∨
    (∃ i, ∃ k : Nat, ∃ g e n t, (w.q i).ctl.flight[k]? = some ⟨e, n, none⟩ ∧
      transferOf w.dev w.store i e = some t ∧
      v = { w with store := t.part g w.store }.note (.access i n)) ∨
    (∃ i, ∃ k : Nat, ∃ e n t, (w.q i).ctl.flight[k]? = some ⟨e, n, none⟩ ∧
      transferOf w.dev w.store i e = some t ∧
      v = ({ w with store := t.full w.store }.setQ i ((w.q i).settle k ⟨e, n, none⟩ 0)).note
        (.access i n)) ∨
    (∃ i, ∃ k : Nat, ∃ e n sf, (w.q i).ctl.flight[k]? = some ⟨e, n, none⟩ ∧
      (mayFail sf = true ∧ sf ≠ 0 ∧ sf < 32768) ∧
      v = w.setQ i ((w.q i).settle k ⟨e, n, none⟩ sf)) ∨
    (∃ i, ∃ k : Nat, ∃ e n sf, (w.q i).ctl.flight[k]? = some ⟨e, n, some sf⟩ ∧
      v = w.setQ i ((w.q i).post i k ⟨e, n, some sf⟩ sf)) := by
  cases m with
  | fetch i =>
    simp only [nvmeMove] at h
    split at h
    · cases h
    · rename_i hne
      exact .inl ⟨i, hne, (Option.some.inj h).symm⟩
  | part i k g =>
    simp only [nvmeMove] at h
    split at h
    · rename_i e n hf
      obtain ⟨t, ht, hv⟩ := Option.map_eq_some_iff.mp h
      exact .inr (.inl ⟨i, k, g, e, n, t, hf, ht, hv.symm⟩)
    · cases h
  | exec i k =>
    simp only [nvmeMove] at h
    split at h
    · rename_i e n hf
      obtain ⟨t, ht, hv⟩ := Option.map_eq_some_iff.mp h
      exact .inr (.inr (.inl ⟨i, k, e, n, t, hf, ht, hv.symm⟩))
    · cases h
  | fail i k sf =>
    simp only [nvmeMove] at h
    split at h
    · rename_i e n hf
      split at h
      · rename_i hsf
        exact .inr (.inr (.inr (.inl ⟨i, k, e, n, sf, hf, hsf, (Option.some.inj h).symm⟩)))
      · cases h
    · cases h
  | post i k =>
    simp only [nvmeMove] at h
    split at h
    · rename_i e n sf hf
      split at h
      · cases h
      · exact .inr (.inr (.inr (.inr ⟨i, k, e, n, sf, hf, (Option.some.inj h).symm⟩)))
    · cases h

/-- Nothing to fetch and nothing in flight on a queue. -/
structure CtlQueue.NoWork (c : CtlQueue) : Prop where
  fetched : c.taken % c.sqLen = c.tail
  flight : c.flight = []

/-- With no work on either queue the controller has no move. -/
theorem quiet_of_noWork {mayFail : Nat → Bool} {w : World} (h : ∀ i, (w.q i).ctl.NoWork) :
    Quiet (Nvmec mayFail) w := by
  rintro v ⟨m, hm⟩
  rcases nvmeMove_cases hm with ⟨i, hne, _⟩ | ⟨i, k, g, e, n, t, hf, _⟩ | ⟨i, k, e, n, t, hf, _⟩ |
    ⟨i, k, e, n, sf, hf, _⟩ | ⟨i, k, e, n, sf, hf, _⟩
  · exact hne (h i).fetched
  all_goals rw [(h i).flight] at hf; cases hf

/-- Nothing to do for the controller. -/
def Rested (w : World) : Prop := ∀ i, (w.q i).ctl.NoWork

theorem Rested.quiet {mayFail : Nat → Bool} {w : World} (h : Rested w) : Quiet (Nvmec mayFail) w :=
  quiet_of_noWork h

end Nvme
