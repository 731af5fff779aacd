import NvmeDisk.Queue.Full
import NvmeDisk.Setup.Probing

/-! The global namespace pointer over the iterations of the probe loop. Each iteration that comes to
    allocate a record overwrites the pointer before the last check is made: with null if there is no
    room, and with the address of a record that is freed again if the block size is too large. -/

namespace Nvme
open Ring Resume Bytes BlockDev Mheap

/-- One iteration: the namespace, the world in which Identify has returned with its buffer (0: none),
    and the world at the end. -/
structure Iter where
  nsId : Nat
  found : World
  id : Nat
  after : World

namespace Iter

variable (i : Iter)

/-- The Identify data seen. -/
def data : NvmeIdentifyNs := identifyNsAt i.found.store.mem i.id

/-- The iteration comes to allocate a record. -/
structure Tried : Prop where
  buffer : i.id ≠ 0
  formatted : i.data.Formatted
  page : (afterPage i.found).sys.nvmeDmaBuffer ≠ 0

/-- The namespace passed every check, and its record could be allocated. -/
structure Recorded : Prop extends Tried i where
  fits : i.data.blockSize ≤ nvmePageSize
  room : recordAt i.found ≠ 0

/-- Where a record is tried for, it fits if there is room, and if there is none then no namespace was
    accepted before. -/
def Sane (earlier : List Iter) : Prop :=
  i.Tried → if recordAt i.found = 0 then ∀ e ∈ earlier, ¬ e.Recorded
    else i.data.blockSize ≤ nvmePageSize

end Iter

/-- `ns` is null, or points to a record that is live, complete, and of a namespace seen in `its` that
    passed every check; and it is not null if one passed whose record could be allocated. -/
structure Selected (mdts : Nat) (its : List Iter) (w : World) : Prop where
  live : w.sys.ns ≠ 0 → ∃ b ∈ w.sys.heap.live, b.addr = w.sys.ns ∧ b.site = .ns
  record : w.sys.ns ≠ 0 → ∃ i ∈ its, i.id ≠ 0 ∧ i.data.Passes ∧
    w.sys.nsRec w.sys.ns = i.data.record i.nsId mdts
  chosen : (∃ i ∈ its, i.Recorded) → w.sys.ns ≠ 0

/-- What follows Identify in `nvme_probe_ns`. -/
def probeRest (id nsId mdts : Nat) : Drv Unit :=
  if id = 0 then return ()
  else do
    probeIdentified id nsId mdts
    free id

/-- A run of the loop from index `k` on, taken apart into its iterations. -/
inductive Iterations (mayFail : Nat → Bool) (mdts : Nat) : Nat → World → List Iter → World → Prop where
  | done {k w v} : Env (Nvmec mayFail) w v → Iterations mayFail mdts k w [] v
  | next {k w i its v} : i.nsId = u32 (k + 1) →
      Steps (Nvmec mayFail) w (nvmeAdminIdentifyNs i.nsId) i.found (.ret i.id) →
      Steps (Nvmec mayFail) i.found (probeRest i.id i.nsId mdts) i.after (.ret ()) →
      Iterations mayFail mdts (k + 1) i.after its v → Iterations mayFail mdts k w (i :: its) v

variable {mayFail : Nat → Bool} {L C mdts : Nat} {w v u : World} {i : Iter} {its earlier : List Iter}

/-- Every run of the loop is a chain of iterations. -/
theorem iterations_of_run : ∀ (n k : Nat) (w v : World),
    Steps (Nvmec mayFail) w (probeLoop mdts n k) v (.ret ()) →
    ∃ its, its.length = n ∧ Iterations mayFail mdts k w its v := by
  intro n
  induction n with
  | zero =>
    intro k w v hrun
    exact ⟨[], rfl, .done (steps_final (p := probeLoop mdts 0 k) trivial hrun).2⟩
  | succ n ih =>
    intro k w v hrun
    have hsplit : ∀ {p : Drv Unit} {g : Unit → Drv Unit} {w v},
        Steps (Nvmec mayFail) w (p.bind g) v (.ret ()) →
        ∃ u, Steps (Nvmec mayFail) w p u (.ret ()) ∧ Steps (Nvmec mayFail) u (g ()) v (.ret ()) := by
      intro p g w v h
      rcases steps_bind h with ⟨p', hp, hq⟩ | ⟨_, u, hp, hg⟩
      · cases p' with
        | ret _ => exact ⟨v, hp, by rw [hq]; exact .refl⟩
        | halt _ => cases hq
        | atom _ _ => cases hq
      · exact ⟨u, hp, hg⟩
    obtain ⟨u, hprobe, hloop⟩ := hsplit hrun
    obtain ⟨its, hlen, hits⟩ := ih (k + 1) u v hloop
    rcases steps_bind hprobe with ⟨p', hp, hq⟩ | ⟨id, x, hp, hrest⟩
    · cases p' with
      | ret id =>
        refine ⟨⟨u32 (k + 1), u, id, u⟩ :: its, by simp [hlen], .next rfl hp ?_ hits⟩
        change Steps _ u (probeRest id (u32 (k + 1)) mdts) u (.ret ())
        rw [show probeRest id (u32 (k + 1)) mdts = .ret () from hq.symm]
        exact .refl
      | halt _ => cases hq
      | atom _ _ => cases hq
    · exact ⟨⟨u32 (k + 1), x, id, u⟩ :: its, by simp [hlen], .next rfl hp hrest hits⟩

/-! ### One iteration -/

/-- Neither program touches the queues. -/
def SameQ (w v : World) : Prop := v.q = w.q

theorem SameQ.refl (w : World) : SameQ w w := rfl

theorem sameQ_get {α : Type} (g : World → α) : (Prog.get g : Drv α).Does SameQ := .get SameQ.refl g

theorem sameQ_modify {f : World → World} (h : ∀ w, (f w).q = w.q) :
    (Prog.modify f : Drv Unit).Does SameQ := .modify h

theorem sameQ_free (a : Nat) : (free a).Does SameQ := sameQ_modify fun w => (free_kept a w).q

theorem sameQ_recordNs (id nsId mdts fmt : Nat) : (recordNs id nsId mdts fmt).Does SameQ := by
  refine .bind (.act fun _ => rfl) fun rec => .bind (sameQ_modify fun _ => rfl) fun _ => ?_
  split
  · exact sameQ_modify fun _ => rfl
  · refine .bind (sameQ_get _) fun _ => .bind (.act fun _ => rfl) fun _ => .bind (.act fun _ => rfl) fun _ => ?_
    dsimp only
    split
    · exact .bind (sameQ_modify fun _ => rfl) fun _ => .bind (sameQ_modify fun _ => rfl) fun _ =>
        sameQ_free _
    · exact sameQ_modify fun _ => rfl

theorem sameQ_ensureDma : ensureDmaBuffer.Does SameQ := by
  refine .bind (sameQ_get _) fun dma => ?_
  split
  · exact .ret
  · refine .bind (.act fun w => ?_) fun a => .bind (sameQ_modify fun _ => rfl) fun _ => ?_
    · dsimp only
      rw [SameQ]
      split <;> rfl
    · split
      · exact .bind (sameQ_modify fun _ => rfl) fun _ => .ret
      · exact .ret

theorem sameQ_rest (id nsId mdts : Nat) :
    (do probeIdentified id nsId mdts; free id : Drv Unit).Does SameQ := by
  refine .bind ?_ fun _ => sameQ_free id
  refine .bind (sameQ_get _) fun _ => .bind (sameQ_get _) fun _ => ?_
  split
  · exact .ret
  · refine .bind (sameQ_get _) fun _ => ?_
    split
    · exact .ret
    · refine .bind sameQ_ensureDma fun _ => ?_
      split
      · exact .ret
      · exact sameQ_recordNs _ _ _ _

/-- The pointer, its record and the live blocks are kept by an iteration that records nothing. -/
theorem Selected.keep (h : Selected mdts its w) (hns : v.sys.ns = w.sys.ns)
    (hrec : v.sys.nsRec = w.sys.nsRec) (hlive : ∀ b ∈ w.sys.heap.live, b ∈ v.sys.heap.live)
    (hi : ¬ i.Recorded) : Selected mdts (its ++ [i]) v where
  live h0 := by
    rw [hns] at h0 ⊢
    obtain ⟨b, hb, hrest⟩ := h.live h0
    exact ⟨b, hlive b hb, hrest⟩
  record h0 := by
    rw [hns] at h0
    rw [hns, hrec]
    obtain ⟨j, hj, hrest⟩ := h.record h0
    exact ⟨j, List.mem_append_left _ hj, hrest⟩
  chosen := by
    rintro ⟨j, hj, hjr⟩
    rw [hns]
    rcases List.mem_append.mp hj with hj | hj
    · exact h.chosen ⟨j, hj, hjr⟩
    · rw [List.mem_singleton.mp hj] at hjr
      exact absurd hjr hi

/-- An iteration that comes to no record keeps what was selected. -/
theorem Selected.untried (h : Selected mdts earlier w) (hns : v.sys.ns = w.sys.ns)
    (hrec : v.sys.nsRec = w.sys.nsRec) (hlive : ∀ b ∈ w.sys.heap.live, b ∈ v.sys.heap.live)
    (hi : ¬ i.Tried) : Selected mdts (earlier ++ [i]) v ↔ i.Sane earlier :=
  iff_of_true (h.keep hns hrec hlive fun hr => hi hr.toTried) fun ht => absurd ht hi

/-- ITERATION RULE: what was selected stays so exactly if the iteration is sane. -/
theorem selected_step [Fact (Pow2 L)] [Fact (Pow2 C)] (hw : Probeable L C w)
    (h : Selected mdts earlier w)
    (hfound : Steps (Nvmec mayFail) w (nvmeAdminIdentifyNs i.nsId) i.found (.ret i.id))
    (hafter : Steps (Nvmec mayFail) i.found (probeRest i.id i.nsId mdts) i.after (.ret ())) :
    Probeable L C i.after ∧ (Selected mdts (earlier ++ [i]) i.after ↔ i.Sane earlier) := by
  have hid : Identified L C w i.id i.found := (wp_adminIdentify _ _ hw _ _ hfound).2
  by_cases h0 : i.id = 0
  · rw [probeRest, if_pos h0] at hafter
    obtain ⟨hready, hsys⟩ := hid.ready.env (steps_final (p := .ret ()) trivial hafter).2
    refine ⟨hready, h.untried ?_ ?_ ?_ fun ht => ht.buffer h0⟩
    · rw [hsys, hid.ns]
    · rw [hsys, hid.nsRec]
    · rw [hsys, hid.none h0]
      exact fun _ hb => hb
  · rw [probeRest, if_neg h0] at hafter
    obtain ⟨hrested, b, hb, hsize, hlive⟩ := hid.buffer h0
    have hmem : b ∈ i.found.sys.heap.live := by rw [hlive]; exact List.mem_cons_self ..
    -- no block that was live before lies where the buffer is
    have hbefore : ∀ c ∈ w.sys.heap.live, c ∈ i.found.sys.heap.live ∧ c.addr ≠ i.id := by
      intro c hc
      refine ⟨by rw [hlive]; exact List.mem_cons_of_mem _ hc, fun heq => ?_⟩
      have hnodup := i.found.sys.heap.addrs
      rw [hlive, List.map_cons, List.nodup_cons, hb, ← heq] at hnodup
      exact hnodup.1 (List.mem_map_of_mem hc)
    have hdata : i.data = identifyNsAt i.found.store.mem b.addr := by rw [Iter.data, hb]
    obtain ⟨z, hexec, hrest⟩ := exec_rest hmem hsize hdata i.nsId mdts
    rw [hb] at hexec hrest
    have hkeeps : (do probeIdentified i.id i.nsId mdts; free i.id : Drv Unit).Keeps Rested :=
      (sameQ_rest i.id i.nsId mdts).keeps fun w v hq hr j => by
        rw [show v.q = w.q from hq]
        exact hr j
    have hend := (wp_exec (fun _ hr => hr.quiet) hkeeps hrested i.after _ hafter).2
    obtain rfl : z = i.after := congrArg Prod.snd (hexec.symm.trans hend)
    have hkept : NsKept i.id i.found i.after → ¬ i.Tried →
        (Selected mdts (earlier ++ [i]) i.after ↔ i.Sane earlier) := fun hk hi =>
      h.untried (hk.ns.trans hid.ns) (hk.nsRec.trans hid.nsRec)
        (fun c hc => hk.live c (hbefore c hc).1 (hbefore c hc).2) hi
    cases hrest with
    | rejected hf hk => exact ⟨hid.ready.same hk.q, hkept hk fun ht => hf ht.formatted⟩
    | noPage hp hk => exact ⟨hid.ready.same hk.q, hkept hk fun ht => ht.page hp⟩
    | noRecord hf hp hr hq hns =>
      refine ⟨hid.ready.same hq, fun hs ht => ?_, fun hs => ?_⟩
      · rw [if_pos hr]
        exact fun e he hrec => hs.chosen ⟨e, List.mem_append_left _ he, hrec⟩ hns
      · have hnone := hs ⟨h0, hf, hp⟩
        rw [if_pos hr] at hnone
        refine ⟨fun h => absurd hns h, fun h => absurd hns h, ?_⟩
        rintro ⟨e, he, hrec⟩
        rcases List.mem_append.mp he with he | he
        · exact absurd hrec (hnone e he)
        · rw [List.mem_singleton.mp he] at hrec
          exact absurd hr hrec.room
    | tooLarge hf hp hr hlarge hq hns hdead =>
      refine ⟨hid.ready.same hq, iff_of_false (fun hs => ?_) fun hs => ?_⟩
      · obtain ⟨c, hc, haddr, _⟩ := hs.live (by rw [hns]; exact hr)
        exact hdead c hc (haddr.trans hns)
      · have hfits := hs ⟨h0, hf, hp⟩
        rw [if_neg hr] at hfits
        exact hlarge hfits
    | accepted hpass hp hr hq hns hrec hlive' =>
      refine ⟨hid.ready.same hq, iff_of_true ⟨fun _ => ?_, fun _ => ?_, fun _ => ?_⟩ fun _ => ?_⟩
      · rw [hns]
        exact hlive'
      · rw [hns]
        exact ⟨i, by simp, h0, hpass, hrec⟩
      · rw [hns]
        exact hr
      · rw [if_neg hr]
        exact hpass.fits

/-! ### The loop -/

/-- `P` of every iteration, given those before it. -/
def EachAfter (P : List Iter → Iter → Prop) (its : List Iter) : Prop :=
  ∀ pre i suf, its = pre ++ i :: suf → P pre i

theorem eachAfter_cons (P : List Iter → Iter → Prop) (i : Iter) (its : List Iter) :
    EachAfter P (i :: its) ↔ P [] i ∧ EachAfter (fun pre => P (i :: pre)) its := by
  constructor
  · exact fun h => ⟨h [] i its rfl, fun pre j suf hs => h (i :: pre) j suf (by rw [hs]; rfl)⟩
  · rintro ⟨hi, hits⟩ pre j suf hs
    cases pre with
    | nil =>
      obtain ⟨rfl, _⟩ := List.cons.inj hs
      exact hi
    | cons k pre =>
      obtain ⟨rfl, hs'⟩ := List.cons.inj hs
      exact hits pre j suf hs'

theorem selected_iterations [Fact (Pow2 L)] [Fact (Pow2 C)] {k : Nat}
    (hits : Iterations mayFail mdts k w its v) :
    ∀ earlier, Probeable L C w → Selected mdts earlier w →
      (EachAfter (fun pre i => Selected mdts (earlier ++ pre ++ [i]) i.after) its ↔
        EachAfter (fun pre i => i.Sane (earlier ++ pre)) its) := by
  induction hits with
  | done _ =>
    intro earlier _ _
    exact iff_of_true (fun pre i suf hs => by simp at hs) fun pre i suf hs => by simp at hs
  | @next k w i its v _ hfound hafter _ ih =>
    intro earlier hw h
    obtain ⟨hready, hiff⟩ := selected_step hw h hfound hafter
    rw [eachAfter_cons, eachAfter_cons, List.append_nil, hiff]
    refine and_congr_right fun hsane => ?_
    have hrest := ih (earlier ++ [i]) hready (hiff.mpr hsane)
    simpa only [List.append_assoc, List.singleton_append] using hrest

/-- With every iteration sane the pointer is right when the loop is over. -/
theorem selected_end [Fact (Pow2 L)] [Fact (Pow2 C)] {k : Nat}
    (hits : Iterations mayFail mdts k w its v) :
    ∀ earlier, Probeable L C w → Selected mdts earlier w →
      EachAfter (fun pre i => i.Sane (earlier ++ pre)) its → Selected mdts (earlier ++ its) v := by
  induction hits with
  | @done k w v he =>
    intro earlier hw h _
    have hsys := (hw.env he).2
    rw [List.append_nil]
    exact ⟨by rw [hsys]; exact h.live, by rw [hsys]; exact h.record, by rw [hsys]; exact h.chosen⟩
  | @next k w i its v _ hfound hafter _ ih =>
    intro earlier hw h hsane
    obtain ⟨hready, hiff⟩ := selected_step hw h hfound hafter
    rw [eachAfter_cons, List.append_nil] at hsane
    have hrest := ih (earlier ++ [i]) hready (hiff.mpr hsane.1)
    simp only [List.append_assoc, List.singleton_append] at hrest
    exact hrest hsane.2

/-- CORRECT: from a null pointer on, the pointer is right after every iteration of the loop if and only
    if every iteration is sane; it then is right at the end too. -/
theorem selected_iff {n : Nat} (hL : Pow2 L) (hC : Pow2 C) (hw : Probeable L C w) (hns : w.sys.ns = 0)
    (hrun : Steps (Nvmec mayFail) w (probeLoop mdts n 0) v (.ret ())) :
    ∃ its, its.length = n ∧ Iterations mayFail mdts 0 w its v ∧
      (EachAfter (fun pre i => Selected mdts (pre ++ [i]) i.after) its ↔
        EachAfter (fun pre i => i.Sane pre) its) ∧
      (EachAfter (fun pre i => i.Sane pre) its → Selected mdts its v) := by
  have : Fact (Pow2 L) := ⟨hL⟩
  have : Fact (Pow2 C) := ⟨hC⟩
  obtain ⟨its, hlen, hits⟩ := iterations_of_run n 0 w v hrun
  have hstart : Selected mdts [] w :=
    ⟨fun h => absurd hns h, fun h => absurd hns h, fun ⟨i, hi, _⟩ => by cases hi⟩
  exact ⟨its, hlen, hits, selected_iterations hits [] hw hstart, selected_end hits [] hw hstart⟩

/-! ### A second namespace with large blocks -/

/-- Identify data of a namespace of 1000 blocks in one format. -/
def identifyBytes (lbads : UInt8) (o : Nat) : UInt8 :=
  if o = 0 then 0xE8 else if o = 1 then 3 else if o = 130 then lbads else 0

/-- Namespace 1 has blocks of 512 bytes, namespace 2 of 8192 bytes. -/
def twoDevice : Device :=
  ⟨1, 512, 1000, fun _ nsid => identifyBytes (if nsid = 1 then 9 else 13)⟩

def twoStart : World :=
  { bareWorld 255 fun n => some (sampleBlock n) with
    q := fun i => freshPair i 64 256
    dev := twoDevice }

/-- The controller answers an Identify, and the driver goes on to the next. -/
def identifyScript : List (Option Move) :=
  List.replicate 4 none ++ [some (.fetch .admin), some (.exec .admin 0), some (.post .admin 0)]

/-- Both namespaces are probed. -/
def twoProbes : World × Drv Unit :=
  follow (nvmeMove noFail)
    (identifyScript ++ List.replicate 18 none ++ identifyScript ++ List.replicate 20 none) twoStart
    (probeLoop 0 2 0)

theorem twoStart_probeable : Probeable 64 256 twoStart := by
  have hidle : ∀ i, Idle 64 256 [] (twoStart.q i) := fun i =>
    (freshPair_initialised i 64 256).idle ⟨6, by decide, rfl⟩ ⟨8, by decide, rfl⟩ (by decide) (by decide)
  exact ⟨(hidle .io).noWork, .inl ⟨[], hidle .admin⟩⟩

theorem twoProbes_run : Steps (Nvmec noFail) twoStart (probeLoop 0 2 0) twoProbes.1 (.ret ()) :=
  follow_ret (by decide +kernel) fun _ _ h => h

/-- After an accepted namespace and one with too large blocks, `ns` points to a freed record. -/
theorem dangling_ns : Steps (Nvmec noFail) twoStart (probeLoop 0 2 0) twoProbes.1 (.ret ()) ∧
    accepted twoProbes.1.log ≠ [] ∧ twoProbes.1.sys.ns ≠ 0 ∧ .freed twoProbes.1.sys.ns ∈ twoProbes.1.log ∧
    ∀ its, ¬ Selected 0 its twoProbes.1 := by
  have hns : twoProbes.1.sys.ns ≠ 0 := by decide +kernel
  have hdead : twoProbes.1.sys.ns ∉ twoProbes.1.sys.heap.live.map (·.addr) := by decide +kernel
  refine ⟨twoProbes_run, by decide +kernel, hns, by decide +kernel, fun its h => ?_⟩
  obtain ⟨b, hb, haddr, _⟩ := h.live hns
  exact hdead (haddr ▸ List.mem_map_of_mem hb)

theorem selected_iff_sample : twoStart.sys.ns = 0 ∧
    ∃ its, its.length = 2 ∧ Iterations noFail 0 0 twoStart its twoProbes.1 ∧
      (EachAfter (fun pre i => Selected 0 (pre ++ [i]) i.after) its ↔
        EachAfter (fun pre i => i.Sane pre) its) ∧
      (EachAfter (fun pre i => i.Sane pre) its → Selected 0 its twoProbes.1) :=
  ⟨rfl, selected_iff ⟨6, by decide, rfl⟩ ⟨8, by decide, rfl⟩ twoStart_probeable rfl twoProbes_run⟩

end Nvme
