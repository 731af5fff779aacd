import NvmeDisk.Schemes.Bytes

/-! The abstract block device: a byte-addressed host memory beside a byte-addressed disk, and
    requests that move whole buffers between them. This says what a disk driver is for; nothing
    here knows of commands, rings or bounce pages. -/

namespace BlockDev
open Bytes

/-- Host memory and disk content. -/
structure Store where
  mem : Mem
  disk : Mem

/-- Move `len` bytes between disk position `pos` and host address `addr`. -/
def move (write : Bool) (s : Store) (pos addr len : Nat) : Store :=
  if write then { s with disk := fill s.disk pos len fun o => s.mem (addr + o) }
  else { s with mem := fill s.mem addr len fun o => s.disk (pos + o) }

/-- A scatter/gather buffer: `len` bytes at `addr`, for the disk blocks from `block` on. -/
structure Buf where
  block : Nat
  addr : Nat
  len : Nat
  deriving DecidableEq, Repr

/-- A request of block size `B`: its buffers, moved in order. -/
def serve (B : Nat) (write : Bool) (s : Store) (bufs : List Buf) : Store :=
  bufs.foldl (fun s b => move write s (b.block * B) b.addr b.len) s

theorem move_zero (write : Bool) (s : Store) (pos addr : Nat) : move write s pos addr 0 = s := by
  cases write <;> simp [move]

/-- A move may be cut in two anywhere. -/
theorem move_append (write : Bool) (s : Store) (pos addr n k : Nat) :
    move write (move write s pos addr n) (pos + n) (addr + n) k = move write s pos addr (n + k) := by
  cases write
  · simp only [move, Bool.false_eq_true, if_false, Nat.add_assoc, fill_append s.mem addr n k]
  · simp only [move, if_true, Nat.add_assoc, fill_append s.disk pos n k]

@[simp] theorem move_write_mem (s : Store) (pos addr len : Nat) :
    (move true s pos addr len).mem = s.mem := rfl

@[simp] theorem move_write_disk (s : Store) (pos addr len : Nat) :
    (move true s pos addr len).disk = fill s.disk pos len fun o => s.mem (addr + o) := rfl

@[simp] theorem move_read_mem (s : Store) (pos addr len : Nat) :
    (move false s pos addr len).mem = fill s.mem addr len fun o => s.disk (pos + o) := rfl

@[simp] theorem move_read_disk (s : Store) (pos addr len : Nat) :
    (move false s pos addr len).disk = s.disk := rfl

theorem serve_cons (B : Nat) (write : Bool) (s : Store) (b : Buf) (bufs : List Buf) :
    serve B write s (b :: bufs) = serve B write (move write s (b.block * B) b.addr b.len) bufs := rfl

/-! ### Stores equal up to a scratch region -/

/-- Same disk, and same memory off `P`. -/
def EqOff (P : Nat → Prop) (s t : Store) : Prop := s.disk = t.disk ∧ ∀ x, ¬ P x → s.mem x = t.mem x

theorem EqOff.refl (P : Nat → Prop) (s : Store) : EqOff P s s := ⟨rfl, fun _ _ => rfl⟩

theorem EqOff.trans {P : Nat → Prop} {s t u : Store} (h : EqOff P s t) (h' : EqOff P t u) :
    EqOff P s u :=
  ⟨h.1.trans h'.1, fun x hx => (h.2 x hx).trans (h'.2 x hx)⟩

theorem EqOff.symm {P : Nat → Prop} {s t : Store} (h : EqOff P s t) : EqOff P t s :=
  ⟨h.1.symm, fun x hx => (h.2 x hx).symm⟩

/-- Overwriting scratch bytes. -/
theorem EqOff.scratch {P : Nat → Prop} {s t : Store} (h : EqOff P s t) {a n : Nat} {f : Nat → UInt8}
    (hP : ∀ o < n, P (a + o)) : EqOff P s { t with mem := fill t.mem a n f } := by
  refine ⟨h.1, fun x hx => (h.2 x hx).trans (fill_out ?_).symm⟩
  by_contra hin
  rw [not_or] at hin
  have := hP (x - a) (by omega)
  rw [show a + (x - a) = x by omega] at this
  exact hx this

/-- A move through a buffer outside the scratch region respects equality up to the region. -/
theorem EqOff.move {P : Nat → Prop} {s t : Store} (h : EqOff P s t) (write : Bool)
    {pos addr len : Nat} (hP : ∀ o < len, ¬ P (addr + o)) :
    EqOff P (move write s pos addr len) (move write t pos addr len) := by
  obtain ⟨hd, hm⟩ := h
  cases write
  · refine ⟨hd, fun x hx => ?_⟩
    simp only [BlockDev.move, Bool.false_eq_true, if_false, fill, hd]
    split
    · rfl
    · exact hm x hx
  · refine ⟨?_, hm⟩
    simp only [BlockDev.move, if_true, hd]
    exact fill_congr fun o ho => hm _ (hP o ho)

theorem EqOff.serve {P : Nat → Prop} (B : Nat) (write : Bool) : ∀ (bufs : List Buf) {s t : Store},
    EqOff P s t → (∀ b ∈ bufs, ∀ o < b.len, ¬ P (b.addr + o)) →
    EqOff P (serve B write s bufs) (serve B write t bufs)
  | [], _, _, h, _ => h
  | b :: bufs, _, _, h, hP =>
    EqOff.serve B write bufs (h.move write (hP b (List.mem_cons_self ..)))
      fun b' hb' => hP b' (List.mem_cons_of_mem _ hb')

/-! ### Moves broken off -/

/-- From `s` on, nothing but the target of a move was changed: its disk bytes for a write, its memory
    bytes for a read. -/
def Torn (write : Bool) (s : Store) (pos addr len : Nat) (t : Store) : Prop :=
  if write then t.mem = s.mem ∧ ∀ x, x < pos ∨ pos + len ≤ x → t.disk x = s.disk x
  else t.disk = s.disk ∧ ∀ x, x < addr ∨ addr + len ≤ x → t.mem x = s.mem x

theorem torn_write {s t : Store} {pos addr len : Nat} : Torn true s pos addr len t ↔
    t.mem = s.mem ∧ ∀ x, x < pos ∨ pos + len ≤ x → t.disk x = s.disk x := by
  rw [Torn, if_pos rfl]

theorem torn_read {s t : Store} {pos addr len : Nat} : Torn false s pos addr len t ↔
    t.disk = s.disk ∧ ∀ x, x < addr ∨ addr + len ≤ x → t.mem x = s.mem x := by
  rw [Torn, if_neg (by decide)]

theorem Torn.refl (write : Bool) (s : Store) (pos addr len : Nat) : Torn write s pos addr len s := by
  cases write with
  | true => exact torn_write.mpr ⟨rfl, fun _ _ => rfl⟩
  | false => exact torn_read.mpr ⟨rfl, fun _ _ => rfl⟩

theorem Torn.trans {write : Bool} {s t u : Store} {pos addr len : Nat}
    (h : Torn write s pos addr len t) (h' : Torn write t pos addr len u) :
    Torn write s pos addr len u := by
  cases write with
  | true =>
    obtain ⟨hm, hd⟩ := torn_write.mp h
    obtain ⟨hm', hd'⟩ := torn_write.mp h'
    exact torn_write.mpr ⟨hm'.trans hm, fun x hx => (hd' x hx).trans (hd x hx)⟩
  | false =>
    obtain ⟨hd, hm⟩ := torn_read.mp h
    obtain ⟨hd', hm'⟩ := torn_read.mp h'
    exact torn_read.mpr ⟨hd'.trans hd, fun x hx => (hm' x hx).trans (hm x hx)⟩

/-- The whole move is one way to change its target. -/
theorem torn_move (write : Bool) (s : Store) (pos addr len : Nat) :
    Torn write s pos addr len (move write s pos addr len) := by
  cases write with
  | true => exact torn_write.mpr ⟨rfl, fun _ hx => by rw [move_write_disk, fill_out hx]⟩
  | false => exact torn_read.mpr ⟨rfl, fun _ hx => by rw [move_read_mem, fill_out hx]⟩

/-- A move done again after being broken off leaves no trace of that. -/
theorem Torn.move {write : Bool} {s t : Store} {pos addr len : Nat}
    (h : Torn write s pos addr len t) :
    BlockDev.move write t pos addr len = BlockDev.move write s pos addr len := by
  cases write with
  | true =>
    obtain ⟨hm, hd⟩ := torn_write.mp h
    simp only [BlockDev.move, if_true, hm, fill_agree hd]
  | false =>
    obtain ⟨hd, hm⟩ := torn_read.mp h
    simp only [BlockDev.move, Bool.false_eq_true, if_false, hd, fill_agree hm]

/-- Torn, and any bytes in the scratch region. -/
def TornOff (P : Nat → Prop) (write : Bool) (s : Store) (pos addr len : Nat) (t : Store) : Prop :=
  ∃ u, EqOff P s u ∧ Torn write u pos addr len t

theorem EqOff.torn {P : Nat → Prop} {s t : Store} (h : EqOff P s t) (write : Bool)
    (pos addr len : Nat) : TornOff P write s pos addr len t := ⟨t, h, .refl ..⟩

/-! ### Moves that do not meet -/

/-- The `n` bytes at `a` and the `k` bytes at `b` have none in common. -/
def Clear (a n b k : Nat) : Prop := ∀ o < n, ∀ o' < k, a + o ≠ b + o'

theorem Clear.symm {a n b k : Nat} (h : Clear a n b k) : Clear b k a n :=
  fun o ho o' ho' heq => h o' ho' o ho heq.symm

theorem Clear.part {a n b k a' n' b' k' : Nat} (h : Clear a n b k) (ha : a ≤ a')
    (hn : a' + n' ≤ a + n) (hb : b ≤ b') (hk : b' + k' ≤ b + k) : Clear a' n' b' k' := by
  intro o ho o' ho' heq
  exact h (a' - a + o) (by omega) (b' - b + o') (by omega) (by omega)

/-- A byte of one range is not changed by overwriting the other. -/
theorem Clear.out {a n b k : Nat} (h : Clear a n b k) (m : Mem) (f : Nat → UInt8) :
    ∀ o < n, fill m b k f (a + o) = m (a + o) := by
  intro o ho
  refine fill_out ?_
  by_contra hin
  exact h o ho (a + o - b) (by omega) (by omega)

theorem fill_comm {a n b k : Nat} (h : Clear a n b k) (m : Mem) (f g : Nat → UInt8) :
    fill (fill m b k g) a n f = fill (fill m a n f) b k g := by
  funext x
  by_cases ha : a ≤ x ∧ x < a + n
  · have hb : ¬ (b ≤ x ∧ x < b + k) := fun hb => h (x - a) (by omega) (x - b) (by omega) (by omega)
    simp only [fill, if_pos ha, if_neg hb]
  · simp only [fill, if_neg ha]

/-- Neither of two moves changes what the other reads or changes. -/
structure Unmet (write : Bool) (pos addr len : Nat) (write' : Bool) (pos' addr' len' : Nat) : Prop where
  disk : write = true ∨ write' = true → Clear pos len pos' len'
  mem : write = false ∨ write' = false → Clear addr len addr' len'

theorem Unmet.symm {write write' : Bool} {pos addr len pos' addr' len' : Nat}
    (h : Unmet write pos addr len write' pos' addr' len') :
    Unmet write' pos' addr' len' write pos addr len :=
  ⟨fun hw => (h.disk hw.symm).symm, fun hw => (h.mem hw.symm).symm⟩

theorem move_comm {write write' : Bool} {pos addr len pos' addr' len' : Nat}
    (h : Unmet write pos addr len write' pos' addr' len') (s : Store) :
    move write (move write' s pos' addr' len') pos addr len =
      move write' (move write s pos addr len) pos' addr' len' := by
  cases write <;> cases write'
  · have hmem := h.mem (.inl rfl)
    simp only [move, Bool.false_eq_true, if_false, fill_comm hmem]
  · have hdisk := (h.disk (.inr rfl)).out s.disk fun o => s.mem (addr' + o)
    have hmem := (h.mem (.inl rfl)).symm.out s.mem fun o => s.disk (pos + o)
    simp only [move, Bool.false_eq_true, if_false, if_true]
    rw [fill_congr hdisk, fill_congr hmem]
  · have hdisk := (h.disk (.inl rfl)).symm.out s.disk fun o => s.mem (addr + o)
    have hmem := (h.mem (.inr rfl)).out s.mem fun o => s.disk (pos' + o)
    simp only [move, Bool.false_eq_true, if_false, if_true]
    rw [fill_congr hdisk, fill_congr hmem]
  · have hdisk := h.disk (.inl rfl)
    simp only [move, if_true, fill_comm hdisk]

/-! ### What a request does -/

/-- A write request changes only the disk bytes its buffers name. -/
theorem serve_write_frame (B : Nat) : ∀ (bufs : List Buf) (s : Store) (x : Nat),
    (∀ b ∈ bufs, x < b.block * B ∨ b.block * B + b.len ≤ x) →
    (serve B true s bufs).disk x = s.disk x
  | [], _, _, _ => rfl
  | b :: bufs, s, x, h => by
    rw [serve_cons, serve_write_frame B bufs _ x fun b' hb' => h b' (List.mem_cons_of_mem _ hb'),
      move_write_disk, fill_out (h b (List.mem_cons_self ..))]

theorem serve_write_mem (B : Nat) : ∀ (bufs : List Buf) (s : Store),
    (serve B true s bufs).mem = s.mem
  | [], _ => rfl
  | _ :: bufs, _ => serve_write_mem B bufs _

theorem serve_read_disk (B : Nat) : ∀ (bufs : List Buf) (s : Store),
    (serve B false s bufs).disk = s.disk
  | [], _ => rfl
  | _ :: bufs, _ => serve_read_disk B bufs _

theorem serve_append (B : Nat) (write : Bool) (s : Store) (bufs bufs' : List Buf) :
    serve B write s (bufs ++ bufs') = serve B write (serve B write s bufs) bufs' :=
  List.foldl_append ..

/-- A write request leaves on the disk what the last buffer that names a byte has for it. -/
theorem serve_write_last (B : Nat) (s : Store) (l r : List Buf) (b : Buf) {o : Nat} (ho : o < b.len)
    (hr : ∀ c ∈ r, b.block * B + o < c.block * B ∨ c.block * B + c.len ≤ b.block * B + o) :
    (serve B true s (l ++ b :: r)).disk (b.block * B + o) = s.mem (b.addr + o) := by
  rw [serve_append, serve_cons, serve_write_frame B r _ _ hr, move_write_disk, fill_in ho,
    serve_write_mem]

/-- A read request changes only the memory bytes of its buffers. -/
theorem serve_read_frame (B : Nat) : ∀ (bufs : List Buf) (s : Store) (x : Nat),
    (∀ b ∈ bufs, x < b.addr ∨ b.addr + b.len ≤ x) → (serve B false s bufs).mem x = s.mem x
  | [], _, _, _ => rfl
  | b :: bufs, s, x, h => by
    rw [serve_cons, serve_read_frame B bufs _ x fun b' hb' => h b' (List.mem_cons_of_mem _ hb'),
      move_read_mem, fill_out (h b (List.mem_cons_self ..))]

/-- The buffers of a request do not overlap in memory. -/
def Disjoint (bufs : List Buf) : Prop :=
  bufs.Pairwise fun b c => b.addr + b.len ≤ c.addr ∨ c.addr + c.len ≤ b.addr

instance (bufs : List Buf) : Decidable (Disjoint bufs) := inferInstanceAs (Decidable (bufs.Pairwise _))

/-- A read request fills each of its buffers with the disk bytes the buffer names. -/
theorem serve_read_fills (B : Nat) : ∀ (bufs : List Buf) (s : Store), Disjoint bufs →
    ∀ b ∈ bufs, ∀ o < b.len, (serve B false s bufs).mem (b.addr + o) = s.disk (b.block * B + o)
  | [], _, _, _, hb, _, _ => absurd hb (by simp)
  | c :: bufs, s, hd, b, hb, o, ho => by
    obtain ⟨hc, hd'⟩ := List.pairwise_cons.mp hd
    rcases List.mem_cons.mp hb with rfl | hb'
    · rw [serve_cons, serve_read_frame B bufs _ _ fun b' hb' => by have := hc b' hb'; omega,
        move_read_mem, fill_in ho]
    · rw [serve_cons, serve_read_fills B bufs _ hd' b hb' o ho, move_read_disk]

/-! ### Where each byte comes from -/

/-- Of buffers that carry `len` bytes each from `src` to `dst`, moved in order: where the byte at `x`
    came from, if one of them reached it. -/
def pick (dst src : Buf → Nat) : List Buf → Nat → Option Nat
  | [], _ => none
  | b :: bufs, x => (pick dst src bufs x).or
      (if dst b ≤ x ∧ x < dst b + b.len then some (src b + (x - dst b)) else none)

theorem pick_some {dst src : Buf → Nat} : ∀ {bufs : List Buf} {x y : Nat},
    pick dst src bufs x = some y →
    ∃ b ∈ bufs, dst b ≤ x ∧ x < dst b + b.len ∧ y = src b + (x - dst b)
  | b :: bufs, x, y, h => by
    rcases Option.or_eq_some_iff.mp h with h | ⟨_, h⟩
    · obtain ⟨c, hc, hin⟩ := pick_some h
      exact ⟨c, List.mem_cons_of_mem _ hc, hin⟩
    · obtain ⟨hin, hy⟩ := Option.ite_none_right_eq_some.mp h
      exact ⟨b, List.mem_cons_self .., hin.1, hin.2, (Option.some.inj hy).symm⟩

/-- A read request leaves each byte of memory as the last buffer that reaches it does. -/
theorem serve_read_pick (B : Nat) : ∀ (bufs : List Buf) (s : Store) (a : Nat),
    (serve B false s bufs).mem a = ((pick Buf.addr (·.block * B) bufs a).map s.disk).getD (s.mem a)
  | [], _, _ => rfl
  | b :: bufs, s, a => by
    rw [serve_cons, serve_read_pick B bufs, move_read_disk, move_read_mem, pick]
    cases pick Buf.addr (·.block * B) bufs a with
    | some p => rfl
    | none =>
      simp only [fill, Option.none_or, Option.map_none, Option.getD_none]
      split <;> rfl

/-- A write request leaves each byte of the disk as the last buffer that reaches it does. -/
theorem serve_write_pick (B : Nat) : ∀ (bufs : List Buf) (s : Store) (p : Nat),
    (serve B true s bufs).disk p = ((pick (·.block * B) Buf.addr bufs p).map s.mem).getD (s.disk p)
  | [], _, _ => rfl
  | b :: bufs, s, p => by
    rw [serve_cons, serve_write_pick B bufs, move_write_mem, move_write_disk, pick]
    cases pick (·.block * B) Buf.addr bufs p with
    | some a => rfl
    | none =>
      simp only [fill, Option.none_or, Option.map_none, Option.getD_none]
      split <;> rfl

/-! ### Requests broken off -/

/-- Of a move between `pos` and memory, only the disk: it is as `d` but for the target of a write. -/
def TornDisk (write : Bool) (d : Mem) (pos len : Nat) (d' : Mem) : Prop :=
  ∀ a, (write = true → a < pos ∨ pos + len ≤ a) → d' a = d a

theorem TornDisk.refl (write : Bool) (d : Mem) (pos len : Nat) : TornDisk write d pos len d :=
  fun _ _ => rfl

theorem TornDisk.trans {write : Bool} {d d' d'' : Mem} {pos len : Nat} (h : TornDisk write d pos len d')
    (h' : TornDisk write d' pos len d'') : TornDisk write d pos len d'' :=
  fun a ha => (h' a ha).trans (h a ha)

section
variable (B most : Nat) (write : Bool)

/-- Buffer `b` is moved up to some block; the `n` blocks from there on, `most` bytes at most, may hold
    anything, and the rest is as in `s`. -/
def BrokenOff (s : Store) (b : Buf) (d : Mem) : Prop :=
  ∃ id n, (id + n) * B ≤ b.len ∧ n * B ≤ most ∧
    TornDisk write (move write s (b.block * B) b.addr (id * B)).disk ((b.block + id) * B) (n * B) d

/-- The buffers are moved in order, up to one that is broken off, or all. -/
def CutShort : Store → List Buf → Mem → Prop
  | s, [], d => d = s.disk
  | s, b :: bufs, d =>
    BrokenOff B most write s b d ∨ CutShort (move write s (b.block * B) b.addr b.len) bufs d

end

variable {B most : Nat} {write : Bool} {s : Store} {d : Mem}

theorem cutShort_start : ∀ (bufs : List Buf) (s : Store), CutShort B most write s bufs s.disk
  | [], _ => rfl
  | b :: _, s => .inl ⟨0, 0, by simp, by simp, by rw [Nat.zero_mul, move_zero]; exact .refl _ _ _ _⟩

theorem cutShort_end : ∀ (bufs : List Buf) (s : Store), CutShort B most write s bufs (serve B write s bufs).disk
  | [], _ => rfl
  | _ :: bufs, _ => .inr (cutShort_end bufs _)

/-- What no buffer of a write names is left alone, wherever it is cut. -/
theorem CutShort.frame {a : Nat} : ∀ {bufs : List Buf} {s : Store}, CutShort B most write s bufs d →
    (write = true → ∀ b ∈ bufs, a < b.block * B ∨ b.block * B + b.len ≤ a) → d a = s.disk a
  | [], _, h, _ => congrFun h a
  | b :: bufs, s, .inl ⟨id, n, hlen, _, htorn⟩, ha => by
    rw [Nat.add_mul] at hlen
    have hout : write = true → a < b.block * B ∨ b.block * B + b.len ≤ a :=
      fun hw => ha hw b (List.mem_cons_self ..)
    rw [htorn a fun hw => by have := hout hw; rw [Nat.add_mul]; omega]
    cases write with
    | true =>
      have := hout rfl
      rw [move_write_disk]
      exact fill_out (by omega)
    | false => rfl
  | b :: bufs, s, .inr h, ha => by
    rw [CutShort.frame h fun hw c hc => ha hw c (List.mem_cons_of_mem _ hc)]
    cases write with
    | true =>
      rw [move_write_disk]
      exact fill_out (ha rfl b (List.mem_cons_self ..))
    | false => rfl

end BlockDev
