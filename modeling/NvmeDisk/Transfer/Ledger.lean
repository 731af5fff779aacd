import NvmeDisk.Queue.Rounds

/-! The account of block requests in the log: for each buffer turned to, the commands submitted for it
    and how they were completed, and between the buffers the notifications. This is what the results
    about requests speak of; nothing else of the log matters to them. -/

namespace Nvme

/-- A command as submitted, and the status field it was completed with in time, if it was. -/
structure Cmd where
  opc : Nat
  slba : Nat
  blocks : Nat
  sf : Option Nat
  deriving DecidableEq, Repr

def NvmeSqe.cmd (e : NvmeSqe) (sf : Option Nat) : Cmd := ⟨e.opc, e.slba, e.blocks, sf⟩

inductive Item where
  | buf (b : BlockDev.Buf) (cmds : List Cmd)
  | done (req : Nat) (sc : RtemsStatusCode)
  deriving DecidableEq

/-- Change the commands of the current buffer. -/
def onTop (f : List Cmd → List Cmd) : List Item → List Item
  | .buf b cmds :: l => .buf b (f cmds) :: l
  | l => l

/-- The last command is completed. -/
def setSf (sf : Nat) : List Cmd → List Cmd
  | c :: cs => { c with sf := some sf } :: cs
  | [] => []

/-- Newest first, the commands of a buffer too. -/
def ledger : List Event → List Item
  | [] => []
  | .sg b :: log => .buf b [] :: ledger log
  | .commit .io _ e _ :: log => onTop (e.cmd none :: ·) (ledger log)
  | .copied .io c :: log => onTop (setSf c.sf) (ledger log)
  | .done req sc :: log => .done req sc :: ledger log
  | _ :: log => ledger log

variable {a b : List Event} {i : QId} {n : Option Nat}

theorem onTop_onTop (f g : List Cmd → List Cmd) (l : List Item) :
    onTop f (onTop g l) = onTop (fun cs => f (g cs)) l := by
  cases l with
  | nil => rfl
  | cons it l => cases it <;> rfl

theorem onTop_nil (l : List Item) : onTop ([] ++ ·) l = l := by
  cases l with
  | nil => rfl
  | cons it l => cases it <;> rfl

/-- Controller accesses are not accounted for. -/
theorem Logged.ledger (h : Logged i n a b) : ledger b = ledger a := by
  obtain ⟨new, hnew, rfl⟩ := h
  induction new with
  | nil => rfl
  | cons ev new ih =>
    obtain ⟨j, m, rfl, _⟩ := hnew ev (List.mem_cons_self ..)
    exact ih fun ev hev => hnew ev (List.mem_cons_of_mem _ hev)

end Nvme
