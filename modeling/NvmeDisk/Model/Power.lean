import NvmeDisk.Model.Controller
import NvmeDisk.Model.Setup

/-! The controller from power-on. CC.EN turns it on and off, CSTS.RDY says what it is, and its queues go
    with it: the admin pair comes with the lengths in AQA, the two halves of the I/O pair with the
    commands that create them. While it is ready it makes the moves of `Controller`. -/

namespace Nvme
open Bytes BlockDev Resume

def NvmeReg.enabled (r : NvmeReg) : Bool := r.cc % 2 == 1

def NvmeReg.ready (r : NvmeReg) : Bool := r.csts % 2 == 1

/-- The lengths of the admin rings (AQA holds each length less one). -/
def NvmeReg.asqLen (r : NvmeReg) : Nat := r.aqa % 4096 + 1

def NvmeReg.acqLen (r : NvmeReg) : Nat := r.aqa / 65536 % 4096 + 1

/-- The controller's side of a pair that does not exist. -/
def noQueue : CtlQueue := ⟨0, 0, 0, 0, 0, [], []⟩

/-- Turned off: no queues, and whatever was in flight is dropped. -/
def World.reset (w : World) : World :=
  { w with
    q := fun i => { w.q i with ctl := noQueue }
    reg := { w.reg with csts := 0 } }

/-- Turned on: the admin pair is there. -/
def World.start (w : World) : World :=
  (w.setQ .admin { w.q .admin with ctl := { noQueue with sqLen := w.reg.asqLen, cqLen := w.reg.acqLen } }).setReg
    { w.reg with csts := nvmeCstsRdy }

/-- The length a create command declares. -/
def NvmeSqe.qsize (e : NvmeSqe) : Nat := e.dword10 / 65536 + 1

/-- What a create command adds to the I/O pair; other commands add nothing. -/
def QPair.create (q : QPair) (e : NvmeSqe) : QPair :=
  if e.opc = nvmeSqeOpcAdminCreateIoCq then
    { q with ctl := { q.ctl with cqLen := e.qsize, head := 0, done := [] } }
  else if e.opc = nvmeSqeOpcAdminCreateIoSq then
    { q with ctl := { q.ctl with sqLen := e.qsize, tail := 0, taken := 0, flight := [] } }
  else q

def World.create (w : World) (e : NvmeSqe) : World := w.setQ .io ((w.q .io).create e)

/-- The admin command a move executes with success. -/
def executed : Move → World → Option NvmeSqe
  | .exec .admin k, w => (w.q .admin).ctl.flight[k]?.map (·.sqe)
  | _, _ => none

inductive PowerMove where
  | reset
  | start
  | work (m : Move)

/-- One move of a controller that may be off, where it is possible. -/
def powerMove (mayFail : Nat → Bool) : PowerMove → World → Option World
  | .reset, w => if w.reg.enabled = false ∧ w.reg.ready = true then some w.reset else none
  | .start, w => if w.reg.enabled = true ∧ w.reg.ready = false then some w.start else none
  | .work m, w =>
    if w.reg.ready = true then (nvmeMove mayFail m w).map fun v => (executed m w).elim v v.create
    else none

/-- The environment of the driver, from power-on. -/
abbrev Powered (mayFail : Nat → Bool) : World → World → Prop := Moves (powerMove mayFail)

/-- A controller that is neither starting nor stopping; off, it has no queues. -/
structure PoweredOn (w : World) : Prop where
  settled : w.reg.enabled = w.reg.ready
  off : w.reg.ready = false → ∀ i, (w.q i).ctl = noQueue

variable {mayFail : Nat → Bool} {w v u : World} {m : Move} {e : NvmeSqe}

@[simp] theorem create_sys (w : World) (e : NvmeSqe) : (w.create e).sys = w.sys := rfl
@[simp] theorem create_reg (w : World) (e : NvmeSqe) : (w.create e).reg = w.reg := rfl
@[simp] theorem create_dev (w : World) (e : NvmeSqe) : (w.create e).dev = w.dev := rfl
@[simp] theorem create_log (w : World) (e : NvmeSqe) : (w.create e).log = w.log := rfl
@[simp] theorem create_store (w : World) (e : NvmeSqe) : (w.create e).store = w.store := rfl
@[simp] theorem create_io (w : World) (e : NvmeSqe) : (w.create e).q .io = (w.q .io).create e :=
  World.setQ_q_same ..
@[simp] theorem create_admin (w : World) (e : NvmeSqe) : (w.create e).q .admin = w.q .admin :=
  World.setQ_q_ne _ _ (by decide)

/-- Everything a move can be. -/
theorem powerMove_cases {b : PowerMove} (h : powerMove mayFail b w = some v) :
    (w.reg.enabled = false ∧ w.reg.ready = true ∧ v = w.reset) ∨
    (w.reg.enabled = true ∧ w.reg.ready = false ∧ v = w.start) ∨
    ∃ m u, w.reg.ready = true ∧ nvmeMove mayFail m w = some u ∧ v = (executed m w).elim u u.create := by
  cases b with
  | reset =>
    simp only [powerMove] at h
    split at h
    · rename_i hr
      exact .inl ⟨hr.1, hr.2, (Option.some.inj h).symm⟩
    · cases h
  | start =>
    simp only [powerMove] at h
    split at h
    · rename_i hr
      exact .inr (.inl ⟨hr.1, hr.2, (Option.some.inj h).symm⟩)
    · cases h
  | work m =>
    simp only [powerMove] at h
    split at h
    · rename_i hr
      obtain ⟨u, hu, hv⟩ := Option.map_eq_some_iff.mp h
      exact .inr (.inr ⟨m, u, hr, hu, hv.symm⟩)
    · cases h

/-- What no move of a working controller touches. -/
structure Framed (w v : World) : Prop where
  sys : v.sys = w.sys
  reg : v.reg = w.reg
  dev : v.dev = w.dev
  log : ∃ l : List (QId × Nat), v.log = l.map (fun a => .access a.1 a.2) ++ w.log

theorem nvmeMove_framed (h : nvmeMove mayFail m w = some v) : Framed w v := by
  rcases nvmeMove_cases h with ⟨i, _, rfl⟩ | ⟨i, k, g, e, n, t, _, _, rfl⟩ |
    ⟨i, k, e, n, t, _, _, rfl⟩ | ⟨i, k, e, n, sf, _, _, rfl⟩ | ⟨i, k, e, n, sf, _, rfl⟩
  · exact ⟨rfl, rfl, rfl, [], rfl⟩
  · exact ⟨rfl, rfl, rfl, [(i, n)], rfl⟩
  · exact ⟨rfl, rfl, rfl, [(i, n)], rfl⟩
  · exact ⟨rfl, rfl, rfl, [], rfl⟩
  · exact ⟨rfl, rfl, rfl, [], rfl⟩

theorem executed_framed (h : nvmeMove mayFail m w = some u) :
    Framed w ((executed m w).elim u u.create) := by
  have hf := nvmeMove_framed h
  cases executed m w with
  | none => exact hf
  | some e => exact ⟨hf.sys, hf.reg, hf.dev, hf.log⟩

/-- Any move: the driver's data, the device and the registers but CSTS are kept. -/
theorem powered_kept (h : Powered mayFail w v) : v.sys = w.sys ∧ v.dev = w.dev ∧
    v.reg = { w.reg with csts := v.reg.csts } ∧
    ∃ l : List (QId × Nat), v.log = l.map (fun a => .access a.1 a.2) ++ w.log := by
  obtain ⟨b, hb⟩ := h
  rcases powerMove_cases hb with ⟨_, _, rfl⟩ | ⟨_, _, rfl⟩ | ⟨m, u, _, hu, rfl⟩
  · exact ⟨rfl, rfl, rfl, [], rfl⟩
  · exact ⟨rfl, rfl, rfl, [], rfl⟩
  · have hf := executed_framed hu
    exact ⟨hf.sys, hf.dev, by rw [hf.reg], hf.log⟩

end Nvme
