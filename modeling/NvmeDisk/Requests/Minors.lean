import Mathlib.Data.List.Induction
import NvmeDisk.Requests.Serving
import NvmeDisk.Transfer.Carried

/-! Several disks. `nvmedisk_initialize` registers one for each entry of a table, each with driver data
    of its own; `nvmedisk_read` and `nvmedisk_write` take these data and go by the one namespace
    pointer `ns` instead, so that all disks are the same array of blocks. What a READ on one minor
    returns is the work of the last WRITE before it that reaches the byte, on whichever minor: which
    that is, and what it wrote, can be read off the requests. -/

namespace Nvme
open Ring Resume Bytes BlockDev

/-! ### Registration -/

/-- `rtems_nvmedisk_config`. -/
structure RtemsNvmediskConfig where
  blockSize : Nat
  blockNum : Nat
  deriving DecidableEq, Repr

/-- The driver data for one entry of the table. -/
def RtemsNvmediskConfig.disk (c : RtemsNvmediskConfig) : Nvmedisk := ⟨c.blockSize, c.blockNum⟩

/-- The loop of `nvmedisk_initialize` from minor `i` on: the driver data of the disks it registers. -/
def registerDisks (rtemsDiskCreatePhys : Nat → Nat → Nat → Nvmedisk → RtemsStatusCode) :
    Nat → List RtemsNvmediskConfig → Except RtemsStatusCode (List Nvmedisk)
  | _, [] => .ok []
  | i, c :: cs =>
    match rtemsDiskCreatePhys i c.blockSize c.blockNum c.disk with
    | .successful => (registerDisks rtemsDiskCreatePhys (i + 1) cs).map (c.disk :: ·)
    | rc => .error rc

/-- `nvmedisk_initialize` up to its scan for the device, `calloc` having found memory. -/
def nvmediskInitialize (rtemsDiskIoInitialize : RtemsStatusCode)
    (rtemsDiskCreatePhys : Nat → Nat → Nat → Nvmedisk → RtemsStatusCode)
    (rtemsNvmediskConfiguration : List RtemsNvmediskConfig) :
    Except RtemsStatusCode (List Nvmedisk) :=
  if rtemsDiskIoInitialize ≠ .successful then .error rtemsDiskIoInitialize
  else registerDisks rtemsDiskCreatePhys 0 rtemsNvmediskConfiguration

theorem registerDisks_ok {create : Nat → Nat → Nat → Nvmedisk → RtemsStatusCode} :
    ∀ {conf : List RtemsNvmediskConfig} {i : Nat} {disks : List Nvmedisk},
      registerDisks create i conf = .ok disks → disks = conf.map (·.disk)
  | [], _, _, h => by cases h; rfl
  | c :: conf, i, disks, h => by
    rw [registerDisks] at h
    split at h
    · cases hrest : registerDisks create (i + 1) conf with
      | error e => rw [hrest] at h; cases h
      | ok rest =>
        rw [hrest] at h
        obtain rfl : c.disk :: rest = disks := Except.ok.inj h
        rw [registerDisks_ok hrest, List.map_cons]
    · cases h

/-- Every entry has its disk, with its own geometry. -/
theorem nvmediskInitialize_ok {io : RtemsStatusCode}
    {create : Nat → Nat → Nat → Nvmedisk → RtemsStatusCode} {conf : List RtemsNvmediskConfig}
    {disks : List Nvmedisk} (h : nvmediskInitialize io create conf = .ok disks) :
    disks = conf.map (·.disk) := by
  rw [nvmediskInitialize] at h
  split at h
  · cases h
  · exact registerDisks_ok h

/-! ### Requests to several disks -/

/-- The addresses of the buffers' bytes, in order. -/
def addrsOf (bufs : List Buf) : List Nat := bytesOf (bufs.map fun b => (b.addr, b.len))

/-- A request to disk `minor`, handed in with the content `poke` of its buffers. -/
structure MinorJob (n : Nat) where
  minor : Fin n
  job : Job
  content : ∀ a ∈ addrsOf job.bufs, (job.poke a).isSome

/-- What the caller has once a request is answered. -/
structure Reply (n : Nat) where
  minor : Fin n
  write : Bool
  rc : Int
  data : List UInt8
  deriving DecidableEq, Repr

/-- The requests go to the disks one after another. -/
def runMinors (ns : NvmeNamespace) (ioctl : Nat → Drv Int) (fuel : Nat) (disks : List Nvmedisk) :
    List (MinorJob disks.length) → Drv (List (Reply disks.length))
  | [] => return []
  | j :: js => do
    Prog.modify fun w => w.setMem (pokeMem w.store.mem j.job.poke)
    let rc ← nvmediskIoctl ns ioctl fuel (disks.get j.minor) (.blkioRequest j.job.request)
    let data ← Prog.get fun w => (addrsOf j.job.bufs).map w.store.mem
    let replies ← runMinors ns ioctl fuel disks js
    return ⟨j.minor, j.job.write, rc, data⟩ :: replies

section
variable {n : Nat} (ns : NvmeNamespace) (m : Fin n)

/-- A READ on disk `m`. -/
def MinorJob.readsFrom (j : MinorJob n) : Bool := decide (j.minor = m) && !j.job.write

/-- Not a WRITE to a disk other than `m`. -/
def MinorJob.kept (j : MinorJob n) : Bool := decide (j.minor = m) || !j.job.write

/-- The reply to a READ on disk `m`. -/
def Reply.readsFrom (r : Reply n) : Bool := decide (r.minor = m) && !r.write

/-- The data of the READs on disk `m`. -/
def readData (replies : List (Reply n)) : List (List UInt8) :=
  (replies.filter (Reply.readsFrom m)).map Reply.data

/-- The byte a WRITE has for position `p` of the namespace, if it reaches it: what its buffer held when it
    was handed in. -/
def MinorJob.leaves (j : MinorJob n) (p : Nat) : Option UInt8 :=
  if j.job.write then
    (pick (·.block * ns.blockSize) Buf.addr (carried ns j.job.bufs).1 p).map fun a => (j.job.poke a).getD 0
  else none

/-- Position `p` of the namespace is one that a request takes to some byte of its buffers. -/
def MinorJob.Takes (j : MinorJob n) (p : Nat) : Prop :=
  ∃ a, pick Buf.addr (·.block * ns.blockSize) (carried ns j.job.bufs).1 a = some p

/-- What the last WRITE among `js` that reaches position `p` has for it, on whichever disk. -/
def lastWrite (js : List (MinorJob n)) (p : Nat) : Option UInt8 := js.reverse.findSome? (·.leaves ns p)

/-- The last request among `js` that reaches position `p`. -/
def lastWriter (js : List (MinorJob n)) (p : Nat) : Option (MinorJob n) :=
  js.reverse.find? fun j => (j.leaves ns p).isSome

/-- The READs on disk `m`, each with all requests before it. -/
def readsOf : List (MinorJob n) → List (MinorJob n) → List (MinorJob n × List (MinorJob n))
  | _, [] => []
  | pre, j :: js => if j.readsFrom m then (j, pre) :: readsOf (pre ++ [j]) js else readsOf (pre ++ [j]) js

/-- For each position that a READ on disk `m` takes, the last WRITEs before it that reach the position have
    the same byte in both sequences; where there is none, the initial content `d` counts. -/
def SameSources (d : Mem) (js js' : List (MinorJob n)) : Prop :=
  List.Forall₂ (fun x y => ∀ p, x.1.Takes ns p →
      (lastWrite ns x.2 p).getD (d p) = (lastWrite ns y.2 p).getD (d p))
    (readsOf m [] js) (readsOf m [] js')

/-- No READ on disk `m` takes a byte that a WRITE to another disk was the last to reach. -/
def Undisturbed (js : List (MinorJob n)) : Prop :=
  ∀ x ∈ readsOf m [] js, ∀ p, x.1.Takes ns p → ∀ j ∈ lastWriter ns x.2 p, j.minor = m

/-- The request with other data, byte for byte, if it is a WRITE to a disk other than `m`. -/
def MinorJob.altered (j : MinorJob n) : MinorJob n :=
  if j.kept m then j
  else ⟨j.minor, { j.job with poke := fun a => (j.job.poke a).map (· + 1) }, fun a ha => by
    rw [Option.isSome_map]
    exact j.content a ha⟩

/-- The array of blocks after the request, `d` being its content before. -/
def MinorJob.step (d : Mem) (j : MinorJob n) : Mem := fun p => (j.leaves ns p).getD (d p)

/-- What the buffers of a READ hold when it is done. -/
def MinorJob.result (d : Mem) (j : MinorJob n) : Mem := fun a =>
  ((pick Buf.addr (·.block * ns.blockSize) (carried ns j.job.bufs).1 a).map d).getD
    ((j.job.poke a).getD 0)

/-- The READs on disk `m`, each with what the array of blocks holds when its turn comes. -/
def readsAt : Mem → List (MinorJob n) → List (MinorJob n × Mem)
  | _, [] => []
  | d, j :: js =>
    if j.readsFrom m then (j, d) :: readsAt (j.step ns d) js else readsAt (j.step ns d) js

end

variable {n L C fuel dma : Nat} {w v v' : World} {ns : NvmeNamespace} {m : Fin n} {d d' : Mem}
  {j : MinorJob n} {js js' : List (MinorJob n)} {bufs : List Buf} {write : Bool} {s : Store}
  {device : Device}

theorem mem_addrsOf {a : Nat} :
    a ∈ addrsOf bufs ↔ ∃ b ∈ bufs, b.addr ≤ a ∧ a < b.addr + b.len := by
  simp [addrsOf, bytesOf, List.mem_range'_1]

/-! ### What one request makes of the array -/

/-- What is moved to or from memory is within the buffers of the request. -/
theorem carried_mem (hB : GoodBlock ns.blockSize) (hbufs : ∀ b ∈ bufs, Placed device dma ns b)
    {b : Buf} (hb : b ∈ (carried ns bufs).1) {a : Nat} (ha : b.addr ≤ a ∧ a < b.addr + b.len) :
    a ∈ addrsOf bufs := by
  obtain ⟨g, hg, hin⟩ := carried_within hB bufs hbufs b hb
  have hlo := hin.addr
  have hhi := hin.addrEnd
  exact mem_addrsOf.mpr ⟨g, hg, by omega⟩

theorem addrsOf_apart (hbufs : ∀ b ∈ bufs, Placed device dma ns b) {a : Nat} (ha : a ∈ addrsOf bufs) :
    ¬ Page dma a := by
  obtain ⟨b, hb, hin⟩ := mem_addrsOf.mp ha
  have := (hbufs b hb).apart (a - b.addr) (by omega)
  rwa [show b.addr + (a - b.addr) = a by omega] at this

/-- A byte of the request's buffers once the caller has put its content there. -/
theorem MinorJob.poked (j : MinorJob n) {a : Nat} (ha : a ∈ addrsOf j.job.bufs) (mem : Mem) :
    pokeMem mem j.job.poke a = (j.job.poke a).getD 0 := by
  obtain ⟨x, hx⟩ := Option.isSome_iff_exists.mp (j.content a ha)
  rw [pokeMem, hx]
  rfl

theorem MinorJob.serve_disk (j : MinorJob n) (hB : GoodBlock ns.blockSize)
    (hbufs : ∀ b ∈ j.job.bufs, Placed device dma ns b) (s : Store) :
    (serve ns.blockSize j.job.write (pokeStore s j.job.poke) (carried ns j.job.bufs).1).disk =
      j.step ns s.disk := by
  funext p
  rw [MinorJob.step, MinorJob.leaves]
  split
  · rename_i hw
    rw [hw, serve_write_pick]
    cases hp : pick (·.block * ns.blockSize) Buf.addr (carried ns j.job.bufs).1 p with
    | none => rfl
    | some a =>
      obtain ⟨b, hb, _, _, ha⟩ := pick_some hp
      exact j.poked (carried_mem hB hbufs hb (by omega)) s.mem
  · rename_i hw
    rw [Bool.not_eq_true] at hw
    rw [hw, serve_read_disk]
    rfl

theorem MinorJob.serve_mem (j : MinorJob n) (hr : j.job.write = false) (s : Store) {a : Nat}
    (ha : a ∈ addrsOf j.job.bufs) :
    (serve ns.blockSize j.job.write (pokeStore s j.job.poke) (carried ns j.job.bufs).1).mem a =
      j.result ns s.disk a := by
  rw [hr, serve_read_pick, MinorJob.result, ← j.poked ha s.mem]
  rfl

/-- A request is carried out: the driver is at ease again, and memory and disk are as its pieces
    leave them. -/
structure CarriedOut (L C : Nat) (w v : World) (s : Store) : Prop where
  ease : AtEase L C v
  sys : v.sys = w.sys
  dev : v.dev = w.dev
  store : EqOff (Page w.sys.nvmeDmaBuffer) s v.store

/-- REQUEST: of any request that ends, just the pieces `carried` names are moved. -/
theorem AtEase.wp_carried [Fact (Pow2 L)] [Fact (Pow2 C)] (h : AtEase L C w)
    (hB : GoodBlock ns.blockSize) (hbufs : ∀ b ∈ bufs, Placed w.dev w.sys.nvmeDmaBuffer ns b)
    (hfuel : 65535 ≤ fuel) (ioctl : Nat → Drv Int) (nvmed : Nvmedisk) (id : Nat) :
    Wp (Nvmec noFail) (fun _ => True)
      (nvmediskIoctl ns ioctl fuel nvmed (.blkioRequest ⟨id, reqOp write, bufs⟩))
      (fun _ v => .timeout .io ∈ v.log ∨
        CarriedOut L C w v (serve ns.blockSize write w.store (carried ns bufs).1))
      (fun _ _ => False) w := by
  refine wp_mono (h.wp_ioctl coded_noFail hB hbufs hfuel ioctl nvmed id) (fun _ h => h) ?_
    fun _ _ _ h => h
  rintro rc v _ ⟨gs, hf, hover⟩
  cases hover with
  | hung _ hh => exact .inl hh.timeout
  | resting hps hr =>
    have hmoved : ∀ p ∈ pieces gs, p.sf = some 0 := pieces_moved hf.okStatus noFail_ok hps
    have heff := (effect_moved hmoved).mp (hr.store trivial).2
    rw [allMoved_eq] at heff
    refine .inr ⟨hr.atEase h coded_noFail, hr.sys, hr.dev, ?_⟩
    rw [hf.carried hmoved hB hbufs]
    exact heff

/-! ### Sequences of requests -/

theorem readData_cons (m : Fin n) (r : Reply n) (rs : List (Reply n)) : readData m (r :: rs) =
    if r.readsFrom m then r.data :: readData m rs else readData m rs := by
  rw [readData, List.filter_cons]
  split <;> rfl

theorem bounded_runMinors (ns : NvmeNamespace) (ioctl : Nat → Drv Int) (fuel : Nat)
    (disks : List Nvmedisk) : ∀ js, ∃ n, Bounded n (runMinors ns ioctl fuel disks js) := by
  intro js
  induction js with
  | nil => exact ⟨0, .ret⟩
  | cons j js ih =>
    obtain ⟨n, hn⟩ := ih
    exact ⟨_, .bind (.modify fun _ => .quiet rfl) fun _ =>
      .bind (bounded_request ioctl (disks.get j.minor) j.job) fun rc =>
        .bind (.get (fun _ => .quiet rfl) _) fun data => .bind (m := 0) hn fun rest => .ret⟩

/-- RUN: the READs on disk `m` return what the array of blocks holds when their turns come. -/
theorem AtEase.wp_runMinors [Fact (Pow2 L)] [Fact (Pow2 C)] (hB : GoodBlock ns.blockSize)
    (hfuel : 65535 ≤ fuel) (ioctl : Nat → Drv Int) (disks : List Nvmedisk) (m : Fin disks.length) :
    ∀ (js : List (MinorJob disks.length)) (w : World), AtEase L C w →
    (∀ j ∈ js, ∀ b ∈ j.job.bufs, Placed w.dev w.sys.nvmeDmaBuffer ns b) →
    Wp (Nvmec noFail) (fun _ => True) (runMinors ns ioctl fuel disks js)
      (fun replies v => .timeout .io ∈ v.log ∨ readData m replies =
        (readsAt ns m w.store.disk js).map fun x => (addrsOf x.1.job.bufs).map (x.1.result ns x.2))
      (fun _ v => .timeout .io ∈ v.log) w := by
  intro js
  induction js with
  | nil =>
    intro w _ _
    exact wp_ret fun v he => ⟨trivial, .inr rfl⟩
  | cons j js ih =>
    intro w h hjobs
    refine wp_modify_bind fun v he => ⟨trivial, ?_⟩
    obtain rfl : v = w := h.env he
    have hbufs := hjobs j (List.mem_cons_self ..)
    refine wp_seq ((h.setMem (pokeMem v.store.mem j.job.poke)).wp_carried hB
      hbufs hfuel ioctl (disks.get j.minor) j.job.id) (fun _ _ hf => hf.elim) ?_
    rintro rc u (hlate | hu)
    · obtain ⟨k, hk⟩ := bounded_runMinors ns ioctl fuel disks js
      exact wp_mono (wp_late (.bind (n := 1) (m := k) (.get (fun _ => .quiet rfl) _) fun data =>
        hk.bind (m := 0) fun rest => .ret) hlate) (fun _ h => h) (fun _ _ _ h => .inl h)
        fun _ _ _ h => h
    · refine wp_get_bind fun u' he' => ⟨trivial, ?_⟩
      obtain rfl : u' = u := hu.ease.env he'
      have hdisk : u'.store.disk = j.step ns v.store.disk :=
        hu.store.1.symm.trans (j.serve_disk hB hbufs v.store)
      refine wp_seq (ih u' hu.ease fun j' hj' b hb => ?_) (fun _ _ h => h) ?_
      · rw [hu.dev, hu.sys]
        exact hjobs j' (List.mem_cons_of_mem _ hj') b hb
      rintro replies z (hlate | hz)
      · exact wp_ret fun z' hz' => ⟨trivial, .inl ((grows_env hz').mem hlate)⟩
      refine wp_ret fun z' hz' => ⟨trivial, .inr ?_⟩
      rw [hdisk] at hz
      rw [readsAt, readData_cons]
      by_cases hread : j.readsFrom m = true
      · have hwrite : j.job.write = false := by
          have := (Bool.and_eq_true_iff.mp hread).2
          simpa using this
        rw [if_pos (show Reply.readsFrom m ⟨j.minor, _, _, _⟩ = true from hread), if_pos hread,
          List.map_cons, hz]
        congr 1
        exact List.map_congr_left fun a ha =>
          (hu.store.2 a (addrsOf_apart hbufs ha)).symm.trans (j.serve_mem hwrite v.store ha)
      · rw [if_neg (show ¬ Reply.readsFrom m ⟨j.minor, _, _, _⟩ = true from hread), if_neg hread, hz]

/-! ### Two sequences -/

theorem lastWrite_append (ns : NvmeNamespace) (js : List (MinorJob n)) (j : MinorJob n) (p : Nat) :
    lastWrite ns (js ++ [j]) p = (j.leaves ns p).or (lastWrite ns js p) := by
  rw [lastWrite, List.reverse_append, List.reverse_singleton, List.singleton_append, List.findSome?_cons]
  cases j.leaves ns p <;> rfl

/-- What the array holds after some requests is what the last of them to reach the position wrote. -/
theorem lastWrite_concat (ns : NvmeNamespace) (pre : List (MinorJob n)) (j : MinorJob n) (d : Mem) :
    (fun p => (lastWrite ns (pre ++ [j]) p).getD (d p)) =
      j.step ns fun p => (lastWrite ns pre p).getD (d p) := by
  funext p
  rw [lastWrite_append, MinorJob.step]
  cases j.leaves ns p <;> rfl

theorem readsAt_eq (ns : NvmeNamespace) (m : Fin n) (d : Mem) : ∀ (js pre : List (MinorJob n)),
    readsAt ns m (fun p => (lastWrite ns pre p).getD (d p)) js =
      (readsOf m pre js).map fun x => (x.1, fun p => (lastWrite ns x.2 p).getD (d p))
  | [], _ => rfl
  | j :: js, pre => by
    rw [readsAt, readsOf, ← lastWrite_concat, readsAt_eq ns m d js (pre ++ [j])]
    split <;> rfl

/-- The last WRITEs agree just if the array holds the same wherever the READs take their bytes from. -/
theorem sameSources_arrays (d : Mem) (js js' : List (MinorJob n)) : SameSources ns m d js js' ↔
    List.Forall₂ (fun x y => ∀ p, x.1.Takes ns p → x.2 p = y.2 p) (readsAt ns m d js)
      (readsAt ns m d js') := by
  have hall : ∀ js, readsAt ns m d js =
      (readsOf m [] js).map fun x => (x.1, fun p => (lastWrite ns x.2 p).getD (d p)) :=
    fun js => readsAt_eq ns m d js []
  rw [hall, hall, List.forall₂_map_left_iff, List.forall₂_map_right_iff, SameSources]

theorem readsAt_fst (ns : NvmeNamespace) (m : Fin n) : ∀ (js : List (MinorJob n)) (d : Mem),
    (readsAt ns m d js).map Prod.fst = js.filter (MinorJob.readsFrom m)
  | [], _ => rfl
  | j :: js, d => by
    rw [readsAt, List.filter_cons]
    split
    · rw [List.map_cons, readsAt_fst ns m js]
    · exact readsAt_fst ns m js _

/-- The READs on disk `m` are among the requests kept. -/
theorem reads_kept (js : List (MinorJob n)) :
    (js.filter (MinorJob.kept m)).filter (MinorJob.readsFrom m) =
      js.filter (MinorJob.readsFrom m) := by
  rw [List.filter_filter]
  refine List.filter_congr fun j _ => ?_
  rw [MinorJob.readsFrom, MinorJob.kept]
  cases decide (j.minor = m) <;> simp

/-- A READ returns the same from two arrays just if these agree where it takes its bytes from. -/
theorem MinorJob.result_eq_iff (j : MinorJob n) (hB : GoodBlock ns.blockSize)
    (hbufs : ∀ b ∈ j.job.bufs, Placed device dma ns b) :
    (addrsOf j.job.bufs).map (j.result ns d) = (addrsOf j.job.bufs).map (j.result ns d') ↔
      ∀ p, j.Takes ns p → d p = d' p := by
  rw [List.map_inj_left]
  constructor
  · rintro h p ⟨a, hp⟩
    obtain ⟨b, hb, hlo, hhi, _⟩ := pick_some hp
    have heq := h a (carried_mem hB hbufs hb ⟨hlo, hhi⟩)
    rw [MinorJob.result, MinorJob.result, hp] at heq
    exact heq
  · intro h a _
    rw [MinorJob.result, MinorJob.result]
    cases hp : pick Buf.addr (·.block * ns.blockSize) (carried ns j.job.bufs).1 a with
    | none => rfl
    | some p => exact h p ⟨a, hp⟩

theorem related_congr {α β : Type} {S P Q : α → β → Prop} {xs : List α} {ys : List β}
    (h : List.Forall₂ S xs ys) (hPQ : ∀ x ∈ xs, ∀ y, S x y → (P x y ↔ Q x y)) :
    List.Forall₂ P xs ys ↔ List.Forall₂ Q xs ys := by
  induction h with
  | nil => simp
  | cons hs _ ih =>
    rw [List.forall₂_cons, List.forall₂_cons, hPQ _ (List.mem_cons_self ..) _ hs,
      ih fun x hx => hPQ x (List.mem_cons_of_mem _ hx)]

theorem map_eq_iff_related {α β γ : Type} {f : α → γ} {g : β → γ} {xs : List α} {ys : List β} :
    xs.map f = ys.map g ↔ List.Forall₂ (fun x y => f x = g y) xs ys := by
  rw [← List.forall₂_eq_eq_eq, List.forall₂_map_left_iff, List.forall₂_map_right_iff]

theorem related_meet {α β γ : Type} {R : α → γ → Prop} {S : β → γ → Prop} {Q : α → β → Prop}
    (hQ : ∀ x y z, R x z → S y z → Q x y) : ∀ {xs : List α} {ys : List β} {zs : List γ},
      List.Forall₂ R xs zs → List.Forall₂ S ys zs → List.Forall₂ Q xs ys
  | _, _, _, .nil, .nil => .nil
  | _, _, _, .cons hx hxs, .cons hy hys => .cons (hQ _ _ _ hx hy) (related_meet hQ hxs hys)

/-- The data the array of blocks has for the READs of two sequences. -/
theorem sameSources_iff (hB : GoodBlock ns.blockSize)
    (hbufs : ∀ j ∈ js, ∀ b ∈ j.job.bufs, Placed device dma ns b)
    (hagree : js.filter (MinorJob.kept m) = js'.filter (MinorJob.kept m)) (d : Mem) :
    ((readsAt ns m d js).map fun x => (addrsOf x.1.job.bufs).map (x.1.result ns x.2)) =
        ((readsAt ns m d js').map fun x => (addrsOf x.1.job.bufs).map (x.1.result ns x.2)) ↔
      SameSources ns m d js js' := by
  have hfst : (readsAt ns m d js).map Prod.fst = (readsAt ns m d js').map Prod.fst := by
    rw [readsAt_fst, readsAt_fst, ← reads_kept, hagree, reads_kept]
  rw [map_eq_iff_related, sameSources_arrays]
  refine related_congr (map_eq_iff_related.mp hfst) fun x hx y hxy => ?_
  have hmem : x.1 ∈ js := by
    have := List.mem_map_of_mem (f := Prod.fst) hx
    rw [readsAt_fst] at this
    exact (List.mem_filter.mp this).1
  rw [← hxy]
  exact x.1.result_eq_iff hB (hbufs _ hmem)

/-! ### Whatever the other WRITEs carry -/

theorem lastWriter_append (ns : NvmeNamespace) (js : List (MinorJob n)) (j : MinorJob n) (p : Nat) :
    lastWriter ns (js ++ [j]) p = if (j.leaves ns p).isSome then some j else lastWriter ns js p := by
  rw [lastWriter, List.reverse_append, List.reverse_singleton, List.singleton_append, List.find?_cons]
  cases j.leaves ns p <;> rfl

theorem lastWrite_writer (ns : NvmeNamespace) (js : List (MinorJob n)) (p : Nat) :
    lastWrite ns js p = (lastWriter ns js p).bind (·.leaves ns p) := by
  induction js using List.reverseRecOn with
  | nil => rfl
  | append_singleton js j ih =>
    rw [lastWrite_append, lastWriter_append]
    cases hj : j.leaves ns p with
    | none => exact ih
    | some x => exact hj.symm

/-- Only a WRITE reaches anything. -/
theorem MinorJob.kept_iff {p : Nat} (h : (j.leaves ns p).isSome) : j.kept m = true ↔ j.minor = m := by
  have hwrite : j.job.write = true := by
    by_contra hnot
    rw [MinorJob.leaves, if_neg hnot] at h
    cases h
  rw [MinorJob.kept, hwrite, Bool.not_true, Bool.or_false, decide_eq_true_iff]

theorem lastWriter_leaves {p : Nat} (h : lastWriter ns js p = some j) : (j.leaves ns p).isSome :=
  List.find?_some (p := fun j : MinorJob n => (j.leaves ns p).isSome) h

/-- If the last WRITE there was to disk `m`, the others do not matter. -/
theorem lastWrite_kept {p : Nat} (h : ∀ j ∈ lastWriter ns js p, j.minor = m) :
    lastWrite ns js p = lastWrite ns (js.filter (MinorJob.kept m)) p := by
  induction js using List.reverseRecOn with
  | nil => rfl
  | append_singleton js j ih =>
    rw [lastWriter_append] at h
    rw [List.filter_append, lastWrite_append]
    cases hj : j.leaves ns p with
    | none =>
      rw [hj] at h
      rw [List.filter_cons, List.filter_nil]
      split
      · rw [lastWrite_append, hj]
        exact ih h
      · rw [List.append_nil]
        exact ih h
    | some x =>
      have hsome : (j.leaves ns p).isSome := by rw [hj]; rfl
      rw [if_pos hsome] at h
      have hkept : j.kept m = true := (j.kept_iff hsome).mpr (h j rfl)
      rw [List.filter_cons, if_pos hkept, List.filter_nil, lastWrite_append, hj]
      rfl

theorem MinorJob.kept_of_reads (h : j.readsFrom m = true) : j.kept m = true := by
  rw [MinorJob.kept, (Bool.and_eq_true_iff.mp h).1, Bool.true_or]

theorem mem_readsOf : ∀ {js pre : List (MinorJob n)} {x}, x ∈ readsOf m pre js → ∀ i ∈ x.2, i ∈ pre ++ js
  | j :: js, pre, x, h, i, hi => by
    have hrest : x ∈ readsOf m (pre ++ [j]) js → i ∈ pre ++ j :: js := fun hx => by
      have := mem_readsOf hx i hi
      rwa [List.append_assoc] at this
    rw [readsOf] at h
    split at h
    · rcases List.mem_cons.mp h with rfl | h
      · exact List.mem_append_left _ hi
      · exact hrest h
    · exact hrest h

theorem readsOf_kept (m : Fin n) : ∀ (js pre : List (MinorJob n)),
    List.Forall₂ (fun x y => x.1 = y.1 ∧ x.2.filter (MinorJob.kept m) = y.2) (readsOf m pre js)
      (readsOf m (pre.filter (MinorJob.kept m)) (js.filter (MinorJob.kept m)))
  | [], _ => .nil
  | j :: js, pre => by
    have hrest := readsOf_kept m js (pre ++ [j])
    rw [List.filter_append, List.filter_cons, List.filter_nil] at hrest
    rw [readsOf, List.filter_cons]
    by_cases hkept : j.kept m = true
    · rw [if_pos hkept] at hrest
      rw [if_pos hkept, readsOf]
      split
      · exact .cons ⟨rfl, rfl⟩ hrest
      · exact hrest
    · rw [if_neg hkept, List.append_nil] at hrest
      rwa [if_neg hkept, if_neg fun hread => hkept (MinorJob.kept_of_reads hread)]

/-- Undisturbed READs take the same bytes from two sequences, whatever the other WRITEs carry. -/
theorem sameSources_of_undisturbed (hagree : js.filter (MinorJob.kept m) = js'.filter (MinorJob.kept m))
    (h : Undisturbed ns m js) (h' : Undisturbed ns m js') (d : Mem) : SameSources ns m d js js' := by
  have hleft := readsOf_kept m js []
  have hright := readsOf_kept m js' []
  rw [hagree] at hleft
  have hboth := related_meet (fun x y z (hx : x.1 = z.1 ∧ x.2.filter (MinorJob.kept m) = z.2)
    (hy : y.1 = z.1 ∧ y.2.filter (MinorJob.kept m) = z.2) => (⟨hx.1.trans hy.1.symm, hx.2.trans hy.2.symm⟩ :
      x.1 = y.1 ∧ x.2.filter (MinorJob.kept m) = y.2.filter (MinorJob.kept m))) hleft hright
  refine List.forall₂_iff_get.mpr ⟨hboth.length_eq, fun i hi hi' p hp => ?_⟩
  obtain ⟨hjob, hpre⟩ := hboth.get hi hi'
  rw [lastWrite_kept (h _ (List.get_mem ..) p hp), hpre,
    ← lastWrite_kept (h' _ (List.get_mem ..) p (hjob ▸ hp))]

theorem MinorJob.altered_kept (h : j.kept m = true) : j.altered m = j := by rw [altered, if_pos h]

/-- What is altered is the data, and all of them. -/
theorem MinorJob.leaves_altered (hB : GoodBlock ns.blockSize) (hbufs : ∀ b ∈ j.job.bufs, Placed device dma ns b)
    (hkept : ¬ j.kept m = true) (p : Nat) :
    (j.altered m).leaves ns p = (j.leaves ns p).map (· + 1) := by
  rw [altered, if_neg hkept, leaves, leaves]
  split
  · cases hp : pick (·.block * ns.blockSize) Buf.addr (carried ns j.job.bufs).1 p with
    | none => rfl
    | some a =>
      obtain ⟨b, hb, _, _, ha⟩ := pick_some hp
      obtain ⟨x, hx⟩ := Option.isSome_iff_exists.mp (j.content a (carried_mem hB hbufs hb (by omega)))
      simp [hx]
  · rfl

theorem MinorJob.isSome_altered (hB : GoodBlock ns.blockSize)
    (hbufs : ∀ b ∈ j.job.bufs, Placed device dma ns b) (p : Nat) :
    ((j.altered m).leaves ns p).isSome = (j.leaves ns p).isSome := by
  by_cases hkept : j.kept m = true
  · rw [altered_kept hkept]
  · rw [leaves_altered hB hbufs hkept, Option.isSome_map]

theorem lastWriter_altered (hB : GoodBlock ns.blockSize)
    (hbufs : ∀ j ∈ js, ∀ b ∈ j.job.bufs, Placed device dma ns b) (p : Nat) :
    lastWriter ns (js.map (MinorJob.altered m)) p = (lastWriter ns js p).map (MinorJob.altered m) := by
  induction js using List.reverseRecOn with
  | nil => rfl
  | append_singleton js j ih =>
    have hj := hbufs j (List.mem_append_right _ (List.mem_singleton_self j))
    rw [List.map_append, List.map_singleton, lastWriter_append, lastWriter_append,
      MinorJob.isSome_altered hB hj]
    split
    · rfl
    · exact ih fun j hj => hbufs j (List.mem_append_left _ hj)

theorem readsOf_altered (m : Fin n) : ∀ (js pre : List (MinorJob n)),
    readsOf m (pre.map (MinorJob.altered m)) (js.map (MinorJob.altered m)) =
      (readsOf m pre js).map fun x => (x.1, x.2.map (MinorJob.altered m))
  | [], _ => rfl
  | j :: js, pre => by
    have hrest := readsOf_altered m js (pre ++ [j])
    rw [List.map_append, List.map_singleton] at hrest
    rw [List.map_cons, readsOf, readsOf, hrest]
    by_cases hkept : j.kept m = true
    · rw [MinorJob.altered_kept hkept]
      split <;> rfl
    · have halt : ¬ (j.altered m).kept m = true := by
        rw [MinorJob.altered, if_neg hkept]
        exact hkept
      rw [if_neg fun hread => halt (MinorJob.kept_of_reads hread),
        if_neg fun hread => hkept (MinorJob.kept_of_reads hread)]

/-- A WRITE to another disk that a READ gets a byte from shows as soon as it carries other data. -/
theorem undisturbed_of_altered (hB : GoodBlock ns.blockSize)
    (hbufs : ∀ j ∈ js, ∀ b ∈ j.job.bufs, Placed device dma ns b)
    (h : SameSources ns m d js (js.map (MinorJob.altered m))) : Undisturbed ns m js := by
  have hmap := readsOf_altered m js []
  rw [List.map_nil] at hmap
  rw [SameSources, hmap, List.forall₂_map_right_iff, List.forall₂_same] at h
  intro x hx p hp j hj
  have hsub : ∀ i ∈ x.2, ∀ b ∈ i.job.bufs, Placed device dma ns b := fun i hi =>
    hbufs i (mem_readsOf hx i hi)
  have hin : j ∈ x.2 := List.mem_reverse.mp (List.mem_of_find?_eq_some hj)
  by_contra hother
  have hsome := lastWriter_leaves hj
  have hkept : ¬ j.kept m = true := fun hk => hother ((j.kept_iff hsome).mp hk)
  obtain ⟨v, hv⟩ := Option.isSome_iff_exists.mp hsome
  have heq := h x hx p hp
  rw [lastWrite_writer, lastWrite_writer, lastWriter_altered hB hsub, hj] at heq
  simp only [Option.map_some, Option.bind_some] at heq
  rw [MinorJob.leaves_altered hB (hsub j hin) hkept, hv] at heq
  simp at heq

/-- Other data do not make the READs less undisturbed. -/
theorem undisturbed_altered (hB : GoodBlock ns.blockSize)
    (hbufs : ∀ j ∈ js, ∀ b ∈ j.job.bufs, Placed device dma ns b) (h : Undisturbed ns m js) :
    Undisturbed ns m (js.map (MinorJob.altered m)) := by
  have hmap := readsOf_altered m js []
  rw [List.map_nil] at hmap
  intro x hx p hp j hj
  rw [hmap] at hx
  obtain ⟨y, hy, rfl⟩ := List.mem_map.mp hx
  rw [lastWriter_altered hB fun i hi => hbufs i (mem_readsOf hy i hi)] at hj
  obtain ⟨i, hi, rfl⟩ := Option.mem_map.mp hj
  rw [← h y hy p hp i hi, MinorJob.altered]
  split <;> rfl

/-- EXACT: two sequences of requests that differ only in the WRITEs to other disks than `m`, both
    begun with no command outstanding and with no wait giving up, return the same from disk `m` just
    if the last WRITEs before its READs that reach the bytes these take have the same for them. That
    is so whatever the WRITEs to other disks carry just if none of these is such a last WRITE. -/
theorem minors_isolated_iff (hL : Pow2 L) (hC : Pow2 C) {io : RtemsStatusCode}
    {create : Nat → Nat → Nat → Nvmedisk → RtemsStatusCode} {conf : List RtemsNvmediskConfig}
    {disks : List Nvmedisk} {m : Fin disks.length} {js js' : List (MinorJob disks.length)}
    {ioctl : Nat → Drv Int} {replies replies' : List (Reply disks.length)}
    (hreg : nvmediskInitialize io create conf = .ok disks) (h : AtEase L C w)
    (hB : GoodBlock ns.blockSize) (_hmeta : ns.metadataSize = 0) (hfuel : 65535 ≤ fuel)
    (hbufs : ∀ j ∈ js ++ js', ∀ b ∈ j.job.bufs, Placed w.dev w.sys.nvmeDmaBuffer ns b)
    (hagree : js.filter (MinorJob.kept m) = js'.filter (MinorJob.kept m))
    (hrun : Steps (Nvmec noFail) w (runMinors ns ioctl fuel disks js) v (.ret replies))
    (hrun' : Steps (Nvmec noFail) w (runMinors ns ioctl fuel disks js') v' (.ret replies'))
    (hlate : .timeout .io ∉ v.log) (hlate' : .timeout .io ∉ v'.log) :
    disks = conf.map (·.disk) ∧
      (readData m replies = readData m replies' ↔ SameSources ns m w.store.disk js js') ∧
      (Undisturbed ns m js → Undisturbed ns m js' → readData m replies = readData m replies') ∧
      (js' = js.map (MinorJob.altered m) →
        (readData m replies = readData m replies' ↔ Undisturbed ns m js)) := by
  have : Fact (Pow2 L) := ⟨hL⟩
  have : Fact (Pow2 C) := ⟨hC⟩
  obtain ⟨hjs, hjs'⟩ := List.forall_mem_append.mp hbufs
  have hdata := (h.wp_runMinors hB hfuel ioctl disks m js w hjs _ _ hrun).2.resolve_left hlate
  have hdata' := (h.wp_runMinors hB hfuel ioctl disks m js' w hjs' _ _ hrun').2.resolve_left hlate'
  have hsame : readData m replies = readData m replies' ↔ SameSources ns m w.store.disk js js' := by
    rw [hdata, hdata']
    exact sameSources_iff hB hjs hagree w.store.disk
  refine ⟨nvmediskInitialize_ok hreg, hsame, fun hu hu' => hsame.mpr
    (sameSources_of_undisturbed hagree hu hu' _), ?_⟩
  rintro rfl
  exact hsame.trans ⟨undisturbed_of_altered hB hjs, fun hu => sameSources_of_undisturbed hagree hu
    (undisturbed_altered hB hjs hu) _⟩

/-! ### Two disks of one namespace -/

def twoEntries : List RtemsNvmediskConfig := [⟨512, 1048576⟩, ⟨512, 1048576⟩]

def twoDisks : List Nvmedisk := [⟨512, 1048576⟩, ⟨512, 1048576⟩]

/-- Block 5 of the second disk, read. -/
def readSecond : MinorJob 2 := ⟨1, ⟨fun _ => some 0, 7, false, [sampleBuf 5 0]⟩, fun _ _ => rfl⟩

/-- Block 5 of the first disk, filled with `0xAB`. -/
def writeFirst : MinorJob 2 := ⟨0, ⟨fun _ => some 0xAB, 8, true, [sampleBuf 5 1]⟩, fun _ _ => rfl⟩

def minorsRun (js : List (MinorJob 2)) : World × Drv (List (Reply 2)) :=
  follow (nvmeMove noFail) (js.flatMap fun _ => none :: none :: oneCommand .io ++ [none, none])
    sampleWorld (runMinors sampleNs (fun _ => return 0) 65535 twoDisks js)

/-- What is replied without the WRITE, and with it. -/
def secondOnly : List (Reply 2) := [⟨1, false, 0, List.replicate 512 0⟩]

def firstThenSecond : List (Reply 2) :=
  [⟨0, true, 0, List.replicate 512 0xAB⟩, ⟨1, false, 0, List.replicate 512 0xAB⟩]

theorem readSecond_run : Steps (Nvmec noFail) sampleWorld
    (runMinors sampleNs (fun _ => return 0) 65535 twoDisks [readSecond])
    (minorsRun [readSecond]).1 (.ret secondOnly) :=
  follow_ret (by decide +kernel) fun _ _ h => h

theorem writeFirst_run : Steps (Nvmec noFail) sampleWorld
    (runMinors sampleNs (fun _ => return 0) 65535 twoDisks [writeFirst, readSecond])
    (minorsRun [writeFirst, readSecond]).1 (.ret firstThenSecond) :=
  follow_ret (by decide +kernel) fun _ _ h => h

/-- A WRITE to the first disk shows on the second. -/
theorem write_crosses :
    nvmediskInitialize .successful (fun _ _ _ _ => .successful) twoEntries = .ok twoDisks ∧
    [readSecond].filter (MinorJob.kept (1 : Fin 2)) =
        [writeFirst, readSecond].filter (MinorJob.kept (1 : Fin 2)) ∧
    ∃ v v' replies replies',
      Steps (Nvmec noFail) sampleWorld
        (runMinors sampleNs (fun _ => return 0) 65535 twoDisks [readSecond])
        v (.ret replies) ∧
      Steps (Nvmec noFail) sampleWorld
        (runMinors sampleNs (fun _ => return 0) 65535 twoDisks [writeFirst, readSecond])
        v' (.ret replies') ∧
      .timeout .io ∉ v.log ∧ .timeout .io ∉ v'.log ∧
      readData (1 : Fin 2) replies ≠ readData (1 : Fin 2) replies' :=
  ⟨rfl, rfl, (minorsRun [readSecond]).1, (minorsRun [writeFirst, readSecond]).1, _, _, readSecond_run,
    writeFirst_run, by decide +kernel, by decide +kernel, by decide +kernel⟩

theorem minors_isolated_iff_sample :
    twoDisks = twoEntries.map (·.disk) ∧
      (readData (1 : Fin 2) secondOnly = readData (1 : Fin 2) firstThenSecond ↔
        SameSources sampleNs (1 : Fin 2) sampleWorld.store.disk [readSecond] [writeFirst, readSecond]) ∧
      (Undisturbed sampleNs (1 : Fin 2) [readSecond] →
        Undisturbed sampleNs (1 : Fin 2) [writeFirst, readSecond] →
        readData (1 : Fin 2) secondOnly = readData (1 : Fin 2) firstThenSecond) ∧
      ([writeFirst, readSecond] = [readSecond].map (MinorJob.altered (1 : Fin 2)) →
        (readData (1 : Fin 2) secondOnly = readData (1 : Fin 2) firstThenSecond ↔
          Undisturbed sampleNs (1 : Fin 2) [readSecond])) := by
  have hplaced : ∀ j ∈ [readSecond] ++ [writeFirst, readSecond], ∀ b ∈ j.job.bufs,
      Placed sampleDevice sampleSys.nvmeDmaBuffer sampleNs b := by
    have hread : Placed sampleDevice sampleSys.nvmeDmaBuffer sampleNs (sampleBuf 5 0) :=
      (sampleBuf_sound (by decide) (by decide)).placed
    have hwrite : Placed sampleDevice sampleSys.nvmeDmaBuffer sampleNs (sampleBuf 5 1) :=
      (sampleBuf_sound (by decide) (by decide)).placed
    simp [readSecond, writeFirst, hread, hwrite]
  have hreg : nvmediskInitialize .successful (fun _ _ _ _ => .successful) twoEntries = .ok twoDisks :=
    rfl
  exact minors_isolated_iff pow2_two pow2_four hreg
    (freshWorld_atEase sampleSqLen_pow sampleCqLen_pow rfl _ _) sampleNs_goodBlock rfl (le_refl _)
    hplaced rfl readSecond_run writeFirst_run (by decide +kernel) (by decide +kernel)

end Nvme
