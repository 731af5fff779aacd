import NvmeDisk.Queue.Late
import NvmeDisk.Requests.Answered
import NvmeDisk.Setup.Cleanup

/-! What a reported success says about the completions. Of a call that reports success the log shows
    that no wait gave up and that the status code was 0 in every entry taken (`News`), whatever the
    device does; on rings that are powers of two the entry taken for a command is the command's own
    (`Settled.own`). Of the status code type beside the code the driver takes no notice. -/

namespace Nvme
open Ring Resume Bytes BlockDev

/-! ### Statuses -/

def statusCode (sf : Nat) : Nat := sf % 256

def statusCodeType (sf : Nat) : Nat := sf / 256 % 8

/-- The status of a successful command. -/
def Clean (sf : Nat) : Prop := statusCodeType sf = 0 ∧ statusCode sf = 0

/-- An error whose status code is 0. -/
def Misread (sf : Nat) : Prop := statusCodeType sf ≠ 0 ∧ statusCode sf = 0

instance (sf : Nat) : Decidable (Clean sf) := by unfold Clean; infer_instance

/-- What the code takes for success is clean or misread. -/
theorem clean_iff_not_misread {sf : Nat} (h : statusCode sf = 0) : Clean sf ↔ ¬ Misread sf := by
  simp [Clean, Misread, h]

theorem statusCode_of_success {c : NvmeCqe} (h : nvmeIsCqeSuccess c = true) : statusCode c.sf = 0 :=
  (nvmeIsCqeSuccess_iff c).mp h

/-! ### A command and its own completion -/

/-- Command `e`, number `n` on queue `i`, was submitted since `w`. -/
def SubmittedSince (i : QId) (w v : World) (n : Nat) (e : NvmeSqe) : Prop :=
  ∃ post slot tail pre, v.log = post ++ .commit i slot e tail :: pre ∧ w.log <:+ pre ∧ commits i pre = n

/-- What the controller posted in the place of command `n`, with its command id. -/
def OwnCompletion (v : World) (i : QId) (n : Nat) (e : NvmeSqe) (c : NvmeCqe) : Prop :=
  (v.q i).ctl.done[n]? = some c ∧ c.cid = e.cid

/-- Every command since `w` was completed, and with a clean status. -/
def CleanSince (i : QId) (w v : World) : Prop :=
  ∀ n e, SubmittedSince i w v n e → ∃ c, OwnCompletion v i n e c ∧ Clean c.sf

/-- No command since `w` was completed with an error whose status code is 0. -/
def NoneMisread (i : QId) (w v : World) : Prop :=
  ∀ n e c, SubmittedSince i w v n e → OwnCompletion v i n e c → ¬ Misread c.sf

section
variable {i : QId} {L C : Nat} {D : List NvmeCqe} {a b t post pre : List Event} {v : World} {slot tail : Nat}
  {e : NvmeSqe}

theorem Rounds.own (h : Rounds i L C D t) (hs : t = a ++ .commit i slot e tail :: b) :
    ∃ c, .copied i c ∈ a ∧ D[b.countP Event.isCommit]? = some c ∧ c.cid = e.cid := by
  induction h generalizing a with
  | nil => cases a <;> cases hs
  | @round D t e' sf hr ih =>
    cases a with
    | nil => cases hs
    | cons x a =>
    cases a with
    | nil => cases (List.cons.inj (List.cons.inj hs).2).1
    | cons y a =>
    obtain ⟨hx, hs⟩ := List.cons.inj hs
    obtain ⟨_, hs⟩ := List.cons.inj hs
    cases a with
    | nil =>
      -- the commit of this round
      obtain ⟨hcommit, rfl⟩ := List.cons.inj hs
      obtain ⟨_, _, rfl, _⟩ := Event.commit.inj hcommit
      exact ⟨cqeOf i L C D e' sf, hx ▸ List.mem_cons_self .., by simp [hr.commits], rfl⟩
    | cons z a =>
      obtain ⟨c, hc, hD, hcid⟩ := ih (List.cons.inj hs).2
      refine ⟨c, by simp [hc], ?_, hcid⟩
      rw [List.getElem?_append_left (List.getElem?_eq_some_iff.mp hD).1]
      exact hD

/-- Each command has its own completion, and that is what was taken for it, unless a wait gave up. -/
theorem Settled.own (h : Settled i L C v) (hs : v.log = post ++ .commit i slot e tail :: pre) :
    (∃ c, .copied i c ∈ post ∧ OwnCompletion v i (commits i pre) e c) ∨ .timeout i ∈ post := by
  have htrail : trail i v.log = trail i post ++ .commit i slot e tail :: trail i pre := by
    rw [hs, trail_append, trail_cons_same rfl]
  have hback : ∀ {ev}, ev ∈ trail i post → ev ∈ post := fun h => (List.mem_filter.mp h).1
  cases h with
  | rest D h =>
    obtain ⟨c, hc, hD, hcid⟩ := h.rounds.own htrail
    refine .inl ⟨c, hback hc, ?_, hcid⟩
    rw [h.idle.done]
    exact hD
  | stuck D e' h =>
    obtain ⟨t, _, ht⟩ := h.rounds
    rw [ht] at htrail
    cases hpost : trail i post with
    | nil =>
      rw [hpost] at htrail
      cases htrail
    | cons ev l =>
      rw [hpost] at htrail
      obtain ⟨rfl, _⟩ := List.cons.inj htrail
      exact .inr (hback (hpost ▸ List.mem_cons_self ..))

end

/-! ### Code by what it logs -/

/-- What a call adds to the doings: no notification; and if it is to report success, every wait for queue
    `i` ended with an entry of status code 0. -/
def News (i : QId) (ok : Prop) (x y : List Event) : Prop :=
  ∃ new, y = new ++ x ∧ (∀ id sc, .done id sc ∉ new) ∧
    (ok → .timeout i ∉ new ∧ ∀ c, .copied i c ∈ new → statusCode c.sf = 0)

section
variable {i : QId} {ok ok' : Prop} {x y z : List Event}

theorem News.refl (i : QId) (ok : Prop) (x : List Event) : News i ok x x := ⟨[], rfl, by simp, by simp⟩

theorem News.trans (h : News i ok x y) (h' : News i ok' y z) (hok : ok' → ok) : News i ok' x z := by
  obtain ⟨new, rfl, hdone, hnew⟩ := h
  obtain ⟨new', rfl, hdone', hnew'⟩ := h'
  refine ⟨new' ++ new, (List.append_assoc ..).symm, ?_, fun hk => ?_⟩
  · simp [hdone, hdone']
  · obtain ⟨hlate, hcode⟩ := hnew (hok hk)
    obtain ⟨hlate', hcode'⟩ := hnew' hk
    refine ⟨by simp [hlate, hlate'], fun c hc => ?_⟩
    rcases List.mem_append.mp hc with hc | hc
    · exact hcode' c hc
    · exact hcode c hc

theorem News.mono (h : News i ok x y) (hok : ok' → ok) : News i ok' x y := by
  obtain ⟨new, hy, hdone, hnew⟩ := h
  exact ⟨new, hy, hdone, fun hk => hnew (hok hk)⟩

/-- One event that is no notification, no timeout and no copy. -/
theorem News.event {ev : Event} (h : News i ok x y) (hdone : ∀ id sc, ev ≠ .done id sc)
    (hlate : ev ≠ .timeout i) (hcopy : ∀ c, ev ≠ .copied i c) : News i ok x (ev :: y) :=
  h.trans ⟨[ev], rfl, fun id sc hm => hdone id sc (List.mem_singleton.mp hm).symm, fun _ =>
    ⟨fun hm => hlate (List.mem_singleton.mp hm).symm, fun c hm =>
      absurd (List.mem_singleton.mp hm).symm (hcopy c)⟩⟩ id

end

/-- Begun with the doings `x`, the code returns, if it does, with a result and doings as `Φ` says. -/
abbrev Records {α : Type} (x : List Event) (p : Drv α) (Φ : α → List Event → Prop) : Prop :=
  Leads Outside (fun x w => doings w.log = x) x p Φ fun _ _ => True

def SameLog (w v : World) : Prop := v.log = w.log

theorem SameLog.refl (w : World) : SameLog w w := rfl

/-- Code that logs nothing. -/
abbrev Silent {α : Type} (p : Drv α) : Prop := p.Does SameLog

section
variable {α β : Type} {x y : List Event} {p : Drv α} {k : α → Drv β} {Φ Φ' : α → List Event → Prop}
  {Ψ : β → List Event → Prop} {i : QId}

theorem doings_stable (x : List Event) : Stable Outside fun w => doings w.log = x :=
  fun _ _ h hr => hr.doings.trans h

theorem records_ret {a : α} (h : Φ a x) : Records x (.ret a) Φ := leads_ret doings_stable h

theorem Records.bind (hp : Records x p Φ) (hk : ∀ a y, Φ a y → Records y (k a) Ψ) : Records x (p >>= k) Ψ :=
  Leads.seq hp (fun _ _ h => h) hk

/-- Whatever it logs. -/
theorem records_any (x : List Event) (p : Drv α) : Records x p fun _ _ => True := by
  intro w _ v q _
  refine ⟨trivial, ?_⟩
  cases q with
  | ret a => exact ⟨_, trivial, rfl⟩
  | halt e => exact ⟨_, trivial, rfl⟩
  | atom f k => trivial

/-- Silent code first. -/
theorem Records.after {q : Drv β} {k : β → Drv α} (hq : Silent q) (hk : ∀ b, Records x (k b) Φ) :
    Records x (q >>= k) Φ :=
  Leads.after doings_stable (hq.keeps fun _ _ h hw => (congrArg doings h).trans hw) hk

/-- One event is logged. -/
theorem records_event (ev : World → Event) {f : World → World} {k : World → Drv α}
    (hf : ∀ w, (f w).log = ev w :: w.log) (hev : ∀ w, (ev w).isAccess = false)
    (hk : ∀ w, Records (ev w :: x) (k w) Φ) : Records x (.atom f k) Φ :=
  leads_atom doings_stable fun w hw => ⟨_, by rw [hf, doings_cons (hev w), hw], hk w⟩

theorem records_note {ev : Event} (h : ev.isAccess = false) : Records x (note ev) fun _ y => y = ev :: x :=
  records_event (fun _ => ev) (fun _ => rfl) (fun _ => h) fun _ => records_ret rfl

theorem silent_get (g : World → α) : Silent (.get g : Drv α) := .get SameLog.refl g

theorem silent_modify {f : World → World} (h : ∀ w, (f w).log = w.log) : Silent (.modify f : Drv Unit) :=
  .modify h

theorem silent_getNextSqe (i : QId) (opc metadata data data2 : Nat) :
    Silent (getNextSqe i opc metadata data data2) := .act fun _ => rfl

/-- The end of a wait: no success, or the entry logged just before. -/
def Waited (i : QId) (x : List Event) (c : NvmeCqe) (y : List Event) : Prop :=
  News i (nvmeIsCqeSuccess c = true) x y

theorem records_consume (i : QId) : Records x (nvmeConsumeCqe i) (Waited i x) := by
  have hcopy : ∀ (slot head : Nat) (polled : NvmeCqe),
      Records (.consumed i head polled :: x) (copyCqe i slot) (Waited i x) := fun slot head polled => by
    refine records_event (fun w => .copied i ((w.q i).cqes slot)) (fun _ => rfl) (fun _ => rfl)
      fun w => records_ret ⟨[_, _], rfl, by simp, fun hok => ⟨by simp, fun c hc => ?_⟩⟩
    obtain rfl : c = (w.q i).cqes slot := by simpa using hc
    exact statusCode_of_success hok
  refine leads_atom doings_stable fun w hw => ?_
  dsimp only
  split
  · refine ⟨_, ?_, hcopy _ (nvmeAdvanceCq (w.q i)).cq.head ((w.q i).cqes (w.q i).cq.head)⟩
    exact (doings_cons rfl _).trans (congrArg _ hw)
  · exact ⟨x, hw, records_ret (.refl i _ x)⟩

theorem records_wait (i : QId) : Records x (nvmeWait i) (Waited i x) := by
  have hloop : ∀ n, Records x (nvmeWaitLoop i n) (Waited i x) := by
    intro n
    induction n with
    | zero =>
      refine (records_note rfl).bind fun _ y hy => records_ret ⟨[.timeout i], hy, by simp, fun hok => ?_⟩
      rw [nvmeErrorCqe_not_success] at hok
      cases hok
    | succ n ih =>
      refine Records.after (silent_get _) fun b => ?_
      cases b with
      | false => exact ih
      | true => exact records_consume i
  exact hloop 500

/-- An entry that was found is filled in, committed and waited for. -/
theorem records_submitted {nsid dword10 dword11 dword12 slot : Nat} {k : NvmeCqe → Drv α}
    (hk : ∀ c y, News i (nvmeIsCqeSuccess c = true) x y → Records y (k c) Φ) :
    Records x (do
      fillIn i (some slot) nsid dword10 dword11 dword12
      commitSqe i
      let cqe ← nvmeWait i
      k cqe) Φ := by
  refine Records.after (silent_modify fun _ => rfl) fun _ => ?_
  refine Records.bind (Φ := fun _ y => News i True x y) ?_ fun _ y hy => ?_
  · exact records_event (fun w => .commit i (w.q i).sq.tail ((w.q i).sqes (w.q i).sq.tail)
      (nvmeCommitSqe (w.q i)).sq.tail) (fun _ => rfl) (fun _ => rfl) fun _ =>
      records_ret ((News.refl i True x).event (by simp) (by simp) (by simp))
  · exact (records_wait i).bind fun c z hz => hk c z (hy.trans hz fun _ => trivial)

end

/-! ### Requests -/

section
variable {x y z : List Event} {ns : NvmeNamespace} {sg : Buf} {write : Bool}

theorem News.warned {ok : Prop} {i : QId} (c : Warn) (x : List Event) : News i ok x (.warn c :: x) :=
  (News.refl i ok x).event (by simp) (by simp) (by simp)

theorem records_ioXfer (lba prp1 prp2 count : Nat) :
    Records x (nvmeIoXfer ns lba prp1 prp2 count write) fun res y => News .io (0 ≤ res) x y := by
  unfold nvmeIoXfer
  split
  · refine (records_note rfl).bind fun _ y hy => records_ret ?_
    rw [hy]
    exact .warned _ x
  · refine Records.after (silent_getNextSqe ..) fun slot => ?_
    cases slot with
    | none => exact leads_halt doings_stable trivial
    | some slot =>
      refine records_submitted fun c y hy => ?_
      split
      · rename_i hok
        exact records_ret (hy.mono fun _ => hok)
      · exact records_ret (hy.mono fun h => absurd h (by decide))

theorem silent_memcpy (dst src n : Nat) : Silent (memcpy dst src n) := silent_modify fun _ => rfl

theorem records_bounceXfer (lba buf count : Nat) :
    Records x (nvmeBounceXfer ns lba buf count write) fun res y => News .io (0 ≤ res) x y := by
  unfold nvmeBounceXfer
  refine Records.after (silent_get _) fun dma => ?_
  have htail : Records x (do
      let res ← nvmeIoXfer ns lba dma 0 (bounceBlocks ns count) write
      if write = false ∧ 0 ≤ res then
        memcpy buf dma (u32 (res.toNat * ns.blockSize))
      return res) fun res y => News .io (0 ≤ res) x y := by
    refine (records_ioXfer _ _ _ _).bind fun res y hy => ?_
    split
    · exact Records.after (silent_memcpy ..) fun _ => records_ret hy
    · exact records_ret hy
  cases write with
  | false => exact htail
  | true => exact Records.after (silent_memcpy ..) fun _ => htail

theorem records_prplXfer (lba buf count : Nat) :
    Records x (nvmePrplXfer ns lba buf count write) fun res y => News .io (0 ≤ res) x y := by
  have hwrite : ∀ dma prpl, Silent (writePrpl dma prpl) := fun _ _ => silent_modify fun _ => rfl
  unfold nvmePrplXfer
  dsimp only
  split
  · exact records_ioXfer _ _ _ _
  · exact records_ioXfer _ _ _ _
  · exact Records.after (silent_get _) fun _ => Records.after (hwrite ..) fun _ => records_ioXfer _ _ _ _
  · exact Records.after (silent_get _) fun _ => Records.after (hwrite ..) fun _ =>
      records_bounceXfer _ _ _

theorem records_xferBlocks (cnt : Int) : ∀ (fuel id : Nat) (x : List Event),
    Records x (xferBlocks ns sg write cnt fuel id) fun rc y => News .io (0 ≤ rc) x y := by
  intro fuel
  induction fuel with
  | zero =>
    intro id x
    rw [xferBlocks]
    split
    · exact leads_halt doings_stable trivial
    · exact records_ret (.refl ..)
  | succ fuel ih =>
    intro id x
    rw [xferBlocks]
    split
    · refine (records_prplXfer _ _ _).bind fun res y hy => ?_
      split
      · exact records_ret (hy.mono fun h => absurd h (by decide))
      · rename_i hres
        exact (ih _ y).mono (fun rc z hz => hy.trans hz fun _ => by omega) fun _ _ h => h
    · exact records_ret (.refl ..)

theorem records_xferBufs {fuel : Nat} (bufs : List Buf) : ∀ x : List Event,
    Records x (xferBufs ns write fuel bufs) fun rc y => News .io (0 ≤ rc) x y := by
  induction bufs with
  | nil => exact fun x => records_ret (.refl ..)
  | cons sg bufs ih =>
    intro x
    rw [xferBufs]
    refine (records_note rfl).bind ?_
    rintro _ _ rfl
    have hsg : News .io True x (.sg sg :: x) := (News.refl ..).event (by simp) (by simp) (by simp)
    refine (records_xferBlocks _ _ _ _).bind fun rc y hy => ?_
    have hy' := hsg.trans hy fun _ => trivial
    split
    · exact records_ret (hy'.mono fun h => absurd h (by decide))
    · rename_i hrc
      exact (ih y).mono (fun rc' z hz => hy'.trans hz fun _ => by omega) fun _ _ h => h

/-- A call of `nvmedisk_read` or `nvmedisk_write`: the news of its commands and then, after success only,
    the notification. -/
theorem records_nvmediskXfer {fuel : Nat} {nvmed : Nvmedisk} (r : BlkdevRequest) :
    Records x (nvmediskXfer ns write fuel nvmed r) fun _ y => (∃ ok, News .io ok x y) ∨
      ∃ z, News .io True x z ∧ y = .done r.id .successful :: z := by
  refine (records_xferBufs r.bufs x).bind fun rc y hy => ?_
  split
  · exact records_ret (.inl ⟨_, hy⟩)
  · rename_i hrc
    exact (records_note rfl).bind fun _ z hz => records_ret (.inr ⟨y, hy.mono fun _ => by omega, hz⟩)

end

/-! ### Admin commands -/

section
variable {x y : List Event} {α : Type}

/-- A command on the admin queue. Only what follows a success matters. -/
theorem records_command {opc metadata data data2 nsid dword10 dword11 dword12 : Nat}
    {f : Option Nat → Drv α} {good bad full : Drv α} {Φ : α → List Event → Prop}
    (hnone : f none = full)
    (hf : ∀ slot, f (some slot) = do
      fillIn .admin (some slot) nsid dword10 dword11 dword12
      commitSqe .admin
      let cqe ← nvmeWait .admin
      if nvmeIsCqeSuccess cqe then good else bad)
    (hfull : Records x full Φ) (hbad : ∀ y, Records y bad Φ)
    (hgood : ∀ y, News .admin True x y → Records y good Φ) :
    Records x (getNextSqe .admin opc metadata data data2 >>= f) Φ := by
  refine Records.after (silent_getNextSqe _ _ _ _ _) fun slot => ?_
  cases slot with
  | none => rw [hnone]; exact hfull
  | some slot =>
    rw [hf]
    refine records_submitted fun c y hy => ?_
    split
    · rename_i hok
      exact hgood _ (hy.mono fun _ => hok)
    · exact hbad _

theorem silent_zalloc (site : Site) (size : Nat) : Silent (zallocPageAligned site size) := by
  refine .act fun w => ?_
  dsimp only
  rw [SameLog]
  split <;> rfl

/-- Whatever a failure path does, it does not report success. -/
theorem records_fails {p : Drv Unit} {Φ : Int → List Event → Prop}
    (hΦ : ∀ y, Φ (-1) y) (x : List Event) : Records x (do p; return -1) Φ :=
  (records_any x p).bind fun _ _ _ => records_ret (hΦ _)

/-- A queue initialised: nothing submitted. -/
theorem records_initCq (i : QId) (qIdx length : Nat) :
    Records x (nvmeInitCq i qIdx length) fun rc y => rc = 0 → y = x := by
  refine Records.after (silent_modify fun _ => rfl) fun _ => Records.after (silent_zalloc _ _)
    fun cqe => Records.after (silent_modify fun _ => rfl) fun _ => ?_
  split
  · exact (records_any _ _).bind fun _ _ _ => records_ret fun h => by cases h
  · exact Records.after (silent_modify fun _ => rfl) fun _ => records_ret fun _ => rfl

theorem records_initSq (i : QId) (qIdx length : Nat) :
    Records x (nvmeInitSq i qIdx length) fun rc y => rc = 0 → y = x := by
  refine Records.after (silent_modify fun _ => rfl) fun _ => Records.after (silent_zalloc _ _)
    fun sqe => Records.after (silent_modify fun _ => rfl) fun _ => ?_
  split
  · exact (records_any _ _).bind fun _ _ _ => records_ret fun h => by cases h
  · exact Records.after (silent_modify fun _ => rfl) fun _ => records_ret fun _ => rfl

/-- What the create functions have in common once the ring is there. -/
theorem records_create {opc a nsid dword10 dword11 dword12 : Nat} {destroy : Drv Unit}
    {f : Option Nat → Drv Int} (hnone : f none = do destroy; return -1)
    (hf : ∀ slot, f (some slot) = do
      fillIn .admin (some slot) nsid dword10 dword11 dword12
      commitSqe .admin
      let cqe ← nvmeWait .admin
      if nvmeIsCqeSuccess cqe then return 0 else do destroy; return -1) :
    Records x (getNextSqe .admin opc 0 a 0 >>= f) fun rc y => rc = 0 → News .admin True x y := by
  have hfail : ∀ y, Records y (do destroy; return -1) fun (rc : Int) y => rc = 0 → News .admin True x y :=
    fun y => records_fails (fun _ h => by cases h) y
  exact records_command hnone hf (hfail _) hfail fun y hy => records_ret fun _ => hy

theorem records_createIoCq (qIdx : Nat) :
    Records x (nvmeCreateIoCq qIdx) fun rc y => rc = 0 → News .admin True x y := by
  refine Records.after (silent_get _) fun cap => (records_initCq _ _ _).bind fun rc y hy => ?_
  split
  · exact records_ret fun h => by cases h
  · rename_i hrc
    rw [hy (not_not.mp hrc)]
    exact Records.after (silent_get _) fun cq => records_create rfl fun _ => rfl

theorem records_createIoSq (qIdx : Nat) :
    Records x (nvmeCreateIoSq qIdx) fun rc y => rc = 0 → News .admin True x y := by
  refine Records.after (silent_get _) fun cap => (records_initSq _ _ _).bind fun rc y hy => ?_
  split
  · exact records_ret fun h => by cases h
  · rename_i hrc
    rw [hy (not_not.mp hrc)]
    exact Records.after (silent_get _) fun sq => records_create rfl fun _ => rfl

theorem records_adminIdentify (cns nsid : Nat) :
    Records x (nvmeAdminIdentify cns nsid) fun buf y => buf ≠ 0 → News .admin True x y := by
  refine Records.after (silent_zalloc _ _) fun buf => ?_
  have hfail : ∀ (p : Drv Unit) y,
      Records y (do p; return 0) fun buf y => buf ≠ 0 → News .admin True x y :=
    fun p y => (records_any y p).bind fun _ _ _ => records_ret fun h => absurd rfl h
  split
  · exact hfail _ x
  · refine records_command rfl (fun _ => rfl) ?_ (hfail _) fun y hy => records_ret fun _ => hy
    exact (records_any _ _).bind fun _ y _ => hfail _ y

end

/-! ### The calls obey -/

section
variable {mayFail : Nat → Bool} {i : QId} {L C : Nat} [Fact (Pow2 C)]

theorem obeys_xferBlocks [Fact (Pow2 L)] (ns : NvmeNamespace) (sg : Buf) (write : Bool) (cnt : Int) :
    ∀ fuel id : Nat, Obeys mayFail i L C (xferBlocks ns sg write cnt fuel id) := by
  intro fuel
  induction fuel with
  | zero =>
    intro id
    rw [xferBlocks]
    split
    · exact .halt _
    · exact .ret _
  | succ fuel ih =>
    intro id
    rw [xferBlocks]
    split
    · refine .bind (obeys_prplXfer _ _ _ _ _) fun res => ?_
      split
      · exact .ret _
      · exact ih _
    · exact .ret _

theorem obeys_nvmediskXfer [Fact (Pow2 L)] (ns : NvmeNamespace) (write : Bool) (fuel : Nat) (nvmed : Nvmedisk)
    (r : BlkdevRequest) : Obeys mayFail i L C (nvmediskXfer ns write fuel nvmed r) := by
  have hnote : ∀ {ev : Event}, ev.queue? = none → ev.handsBack = false → (∀ m, ev ≠ .access i m) →
      Obeys mayFail i L C (note ev) := fun hq hb ha => .note ⟨by rw [hq]; simp, hb, ha⟩
  have hbufs : ∀ bufs, Obeys mayFail i L C (xferBufs ns write fuel bufs) := by
    intro bufs
    induction bufs with
    | nil => exact .ret _
    | cons sg bufs ih =>
      refine .bind (hnote rfl rfl (by simp)) fun _ => .bind (obeys_xferBlocks _ _ _ _ _ _) fun rc => ?_
      split
      · exact .ret _
      · exact ih
  refine .bind (hbufs r.bufs) fun rc => ?_
  split
  · exact .ret _
  · exact .bind (hnote rfl rfl (by simp)) fun _ => .ret _

theorem obeys_initCq (qIdx length : Nat) : Obeys mayFail .admin L C (nvmeInitCq .io qIdx length) := by
  refine .bind (Obeys.modify fun _ => .quiet rfl rfl) fun _ => .bind (obeys_zalloc _ _) fun cqe =>
    .bind (Obeys.modify fun _ => .quiet rfl rfl) fun _ => ?_
  split
  · exact .bind (.warn _) fun _ => .ret _
  · exact .bind (Obeys.modify fun _ => .quiet rfl rfl) fun _ => .ret _

theorem obeys_initSq (qIdx length : Nat) : Obeys mayFail .admin L C (nvmeInitSq .io qIdx length) := by
  refine .bind (Obeys.modify fun _ => .quiet rfl rfl) fun _ => .bind (obeys_zalloc _ _) fun sqe =>
    .bind (Obeys.modify fun _ => .quiet rfl rfl) fun _ => ?_
  split
  · exact .bind (.warn _) fun _ => .ret _
  · exact .bind (Obeys.modify fun _ => .quiet rfl rfl) fun _ => .ret _

theorem obeys_destroyCq : Obeys mayFail .admin L C (nvmeDestroyCq .io) :=
  .bind (.get _) fun a => .bind (obeys_free a) fun _ => .modify fun _ => .quiet rfl rfl

theorem obeys_destroySq : Obeys mayFail .admin L C (nvmeDestroySq .io) :=
  .bind (.get _) fun a => .bind (obeys_free a) fun _ => .modify fun _ => .quiet rfl rfl

theorem obeys_createIoCq [Fact (Pow2 L)] (qIdx : Nat) : Obeys mayFail .admin L C (nvmeCreateIoCq qIdx) := by
  refine .bind (.get _) fun cap => .bind (obeys_initCq _ _) fun rc => ?_
  split
  · exact .ret _
  · refine .bind (.get _) fun cq => obeys_command (fun _ => rfl) (.bind obeys_destroyCq fun _ => .ret _)
      fun c => ?_
    split
    · exact .ret _
    · exact .bind obeys_destroyCq fun _ => .ret _

theorem obeys_createIoSq [Fact (Pow2 L)] (qIdx : Nat) : Obeys mayFail .admin L C (nvmeCreateIoSq qIdx) := by
  refine .bind (.get _) fun cap => .bind (obeys_initSq _ _) fun rc => ?_
  split
  · exact .ret _
  · refine .bind (.get _) fun sq => obeys_command (fun _ => rfl) (.bind obeys_destroySq fun _ => .ret _)
      fun c => ?_
    split
    · exact .ret _
    · exact .bind obeys_destroySq fun _ => .ret _

end

/-! ### Success -/

/-- Request `id` was notified since `w`, with success. -/
def SucceededSince (id : Nat) (w v : World) : Prop :=
  ∃ post pre, v.log = post ++ .done id .successful :: pre ∧ w.log <:+ pre

section
variable {i : QId} {L C : Nat} {w v : World} {new : List Event}

theorem mem_news {post : List Event} {ev : Event} (mid : List Event) (hs : v.log = post ++ (mid ++ w.log))
    (hnew : doings v.log = new ++ doings w.log) (hev : ev ∈ post ++ mid) (hacc : ev.isAccess = false) :
    ev ∈ new := by
  rw [hs, ← List.append_assoc, doings, List.filter_append] at hnew
  rw [← List.append_cancel_right hnew, List.mem_filter]
  exact ⟨hev, by simp [hacc]⟩

/-- A call that reported success: every wait took an entry with status code 0. -/
theorem clean_iff (new : List Event) (hnew : doings v.log = new ++ doings w.log) (hlate : .timeout i ∉ new)
    (hcode : ∀ c, .copied i c ∈ new → statusCode c.sf = 0) (hv : Settled i L C v) :
    CleanSince i w v ↔ NoneMisread i w v := by
  have hown : ∀ n e, SubmittedSince i w v n e → ∃ c, OwnCompletion v i n e c ∧ statusCode c.sf = 0 := by
    rintro n e ⟨post, slot, tail, pre, hs, ⟨mid, rfl⟩, rfl⟩
    have hpost : ∀ ev : Event, ev ∈ post → ev.isAccess = false → ev ∈ new := fun ev hev hacc =>
      mem_news (.commit i slot e tail :: mid) hs hnew (List.mem_append_left _ hev) hacc
    rcases hv.own hs with ⟨c, hc, hc'⟩ | htimeout
    · exact ⟨c, hc', hcode c (hpost _ hc rfl)⟩
    · exact absurd (hpost _ htimeout rfl) hlate
  constructor
  · intro hclean n e c hsub hc
    obtain ⟨c', ⟨hdone, _⟩, hclean'⟩ := hclean n e hsub
    rw [hc.1] at hdone
    obtain rfl := Option.some.inj hdone
    exact (clean_iff_not_misread hclean'.2).mp hclean'
  · intro hnone n e hsub
    obtain ⟨c, hc, hcode⟩ := hown n e hsub
    exact ⟨c, hc, (clean_iff_not_misread hcode).mpr (hnone n e c hsub hc)⟩

theorem News.clean_iff (h : News i True (doings w.log) (doings v.log)) (hv : Settled i L C v) :
    CleanSince i w v ↔ NoneMisread i w v := by
  obtain ⟨new, hnew, _, hok⟩ := h
  obtain ⟨hlate, hcode⟩ := hok trivial
  exact Nvme.clean_iff new hnew hlate hcode hv

end

/-- An initialised admin pair, and MQES 255. -/
def statusStart : World :=
  { bareWorld 255 fun n => some (sampleBlock n) with q := fun _ => freshPair .admin 64 256 }

/-- The controller refuses to create the submission queue: status code type 1, status code 0
    (Completion Queue Invalid). -/
def refusedSq : World × Drv Int :=
  follow (nvmeMove fun sf => sf = 256) (List.replicate 9 none ++
    [some (.fetch .admin), some (.fail .admin 0 256), some (.post .admin 0)] ++ List.replicate 3 none)
    statusStart (nvmeCreateIoSq 2)

theorem refusedSq_run : Steps (Nvmec fun sf => sf = 256) statusStart (nvmeCreateIoSq 2) refusedSq.1 (.ret 0) :=
  follow_ret (by decide +kernel) fun _ _ h => h

/-- The command, and what the controller posted for it. -/
def refusedSqe : NvmeSqe := ⟨1, 0, 0, 0x10000, 0, 0xFF0001, 0x10001, 0⟩

theorem refusedSq_submitted : SubmittedSince .admin statusStart refusedSq.1 0 refusedSqe :=
  ⟨refusedSq.1.log.take 2, 0, 1, [], by decide +kernel, List.nil_suffix, rfl⟩

end Nvme
