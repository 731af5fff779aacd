import NvmeDisk.Model.Power
import NvmeDisk.Requests.Carriage
import NvmeDisk.Requests.Failing
import NvmeDisk.Transfer.Moments

/-! Requests stopped at any moment, as they are when the power fails. The requests answered by then are on
    the disk in full; of the one being served some first blocks are, with the blocks of one command in
    doubt; of those after it nothing is. -/

namespace Nvme
open Ring Resume Bytes BlockDev

/-- The answers so far, newest first. -/
def answers (w : World) : List (Nat × RtemsStatusCode) := notices (ledger w.log)

/-- The disk when requests are stopped on which there were the answers `as`. -/
inductive Stopped (B : Nat) : Store → List Job → List (Nat × RtemsStatusCode) → Mem → Prop where
  | between {s js} : Stopped B s js [] s.disk
  | amid {s j js d} : CutShort B maxCommand j.write (pokeStore s j.poke) j.bufs d → Stopped B s (j :: js) [] d
  | answered {s j js as d} : Stopped B (serve B j.write (pokeStore s j.poke) j.bufs) js as d →
      Stopped B s (j :: js) (as ++ [(j.id, .successful)]) d

variable {mayFail : Nat → Bool} {L C fuel B : Nat} {w v : World} {ns : NvmeNamespace} {t s : Store}
  {j : Job} {js : List Job} {as : List (Nat × RtemsStatusCode)} {d : Mem} {a : Nat}

/-! ### What the array of blocks has then -/

theorem Stopped.length (h : Stopped B s js as d) : as.length ≤ js.length := by
  induction h with
  | between => exact Nat.zero_le _
  | amid _ => exact Nat.zero_le _
  | answered _ ih =>
    rw [List.length_append, List.length_cons]
    exact Nat.succ_le_succ ih

/-- Once all are answered nothing is in doubt. -/
theorem Stopped.all (h : Stopped B s js as d) (hall : as.length = js.length) : d = (serveJobs B s js).disk := by
  induction h with
  | between => rw [List.length_eq_zero_iff.mp hall.symm, serveJobs, List.foldl_nil]
  | amid _ => cases hall
  | answered _ ih =>
    rw [List.length_append] at hall
    exact ih (Nat.succ.inj hall)

/-- A byte that no buffer of a write request names. -/
def Unnamed (B : Nat) (js : List Job) (a : Nat) : Prop :=
  ∀ j ∈ js, j.write = true → ∀ b ∈ j.bufs, a < b.block * B ∨ b.block * B + b.len ≤ a

theorem Stopped.frame (h : Stopped B s js as d) (ha : Unnamed B js a) : d a = s.disk a := by
  induction h with
  | between => rfl
  | amid h => exact h.frame (ha _ (List.mem_cons_self ..))
  | @answered s j js as d _ ih =>
    rw [ih fun k hk => ha k (List.mem_cons_of_mem _ hk)]
    have hj := ha j (List.mem_cons_self ..)
    cases hw : j.write with
    | true => exact serve_write_frame B _ _ _ (hj hw)
    | false => rw [serve_read_disk]; rfl

/-! ### The answers -/

theorem answers_note (w : World) {ev : Event} (h : ev.isDone = false) : answers (w.note ev) = answers w := by
  have htop : ∀ f l, notices (onTop f l) = notices l := by
    intro f l
    cases l with
    | nil => rfl
    | cons it l => cases it <;> rfl
  rw [answers, World.note_log]
  cases ev with
  | done req sc => cases h
  | commit i slot e tail =>
    cases i with
    | admin => rfl
    | io => exact htop _ _
  | copied i c =>
    cases i with
    | admin => rfl
    | io => exact htop _ _
  | _ => rfl

theorem answers_done (w : World) (req : Nat) (sc : RtemsStatusCode) :
    answers (w.note (.done req sc)) = (req, sc) :: answers w := rfl

/-- No request is answered. -/
def Mute (w v : World) : Prop := answers v = answers w

theorem mute_carries : Carries Mute where
  refl _ := rfl
  onQueue {c w v} h := by
    rcases h.log with hl | ⟨ev, hq, _, hl⟩
    · exact congrArg (fun l => notices (ledger l)) hl
    · have hv : answers v = answers (w.note ev) := congrArg (fun l => notices (ledger l)) hl
      have hev : ev.isDone = false := by
        cases ev <;> first | rfl | cases hq
      rw [Mute, hv, answers_note w hev]
  setMem _ _ := rfl
  note w _ h := answers_note w h

theorem answers_stable (as : List (Nat × RtemsStatusCode)) : Stable (Nvmec mayFail) fun v => answers v = as := by
  rintro w v rfl ⟨m, hm⟩
  obtain ⟨l, hl⟩ := (nvmeMove_framed hm).log
  rw [answers, hl]
  have : ∀ l : List (QId × Nat), ledger (l.map (fun a => .access a.1 a.2) ++ w.log) = ledger w.log := by
    intro l
    induction l with
    | nil => rfl
    | cons a l ih => exact ih
  rw [this]
  rfl

/-! ### One request -/

/-- A request is being served from `t` on, or has been. -/
inductive Serving (B : Nat) (j : Job) (t : Store) (w v : World) : Prop where
  | amid : answers v = answers w → CutShort B maxCommand j.write t j.bufs v.store.disk → Serving B j t w v
  | answered : answers v = (j.id, .successful) :: answers w →
      v.store.disk = (serve B j.write t j.bufs).disk → Serving B j t w v

/-- REQUEST: at every moment of it, whatever commands fail or are given up on. -/
theorem AtEase.throughout_request [Fact (Pow2 L)] [Fact (Pow2 C)] (h : AtEase L C w)
    (hm : Coded mayFail)
    (ht : EqOff (Page w.sys.nvmeDmaBuffer) t w.store) (hB : GoodBlock ns.blockSize)
    (hbufs : ∀ sg ∈ j.bufs, Sound w.dev w.sys.nvmeDmaBuffer ns sg) (ioctl : Nat → Drv Int) (nvmed : Nvmedisk) :
    Throughout (Nvmec mayFail) (Serving ns.blockSize j t w)
      (nvmediskIoctl ns ioctl fuel nvmed (.blkioRequest j.request)) w := by
  have hrest := (h.resting hm).mono fun _ _ hs => ht.trans hs
  have hioctl : nvmediskIoctl ns ioctl fuel nvmed (.blkioRequest j.request) =
      nvmediskXfer ns j.write fuel nvmed j.request := nvmediskIoctl_xfer ioctl nvmed rfl
  rw [hioctl]
  have hmoments : Throughout (Nvmec mayFail) (Serving ns.blockSize j t w) (xferBufs ns j.write fuel j.bufs) w := by
    have hcut : Throughout (Nvmec mayFail)
        (fun v => CutShort ns.blockSize maxCommand j.write t j.bufs v.store.disk)
        (xferBufs ns j.write fuel j.bufs) w :=
      throughout_xferBufs trivial hB j.bufs t _ w hbufs hrest
    have hacts : (xferBufs ns j.write fuel j.bufs).Acts (fun _ => True) Mute fun _ => True :=
      mute_carries.xferBufs ns j.bufs
    have hmute := wp_acts (R := Nvmec mayFail) (answers_stable (answers w))
      (hacts.under (fun _ _ => trivial) fun _ _ hv hw => hv.trans hw) rfl
    exact wp_mono (wp_and hcut hmute) (fun _ hv => .amid hv.2 hv.1) (fun _ _ _ _ => trivial) fun _ _ _ _ => trivial
  have hend : Wp (Nvmec mayFail) (fun _ => True) (xferBufs ns j.write fuel j.bufs)
      (BufsEnd (h.setting hm) _ t ns j.bufs j.write)
      (fun e _ => e = .fuel ∧ ¬ ∀ sg ∈ j.bufs, Enough ns sg fuel 0) w :=
    wp_xferBufs hB j.bufs t _ w (fun _ sg hsg => (hbufs sg hsg).placed) hrest
  refine hmoments.seq (wp_mono (wp_and hmoments.tail hend) (fun _ _ => trivial) (fun _ _ _ h => h)
    fun _ _ _ _ => trivial) ?_
  rintro rc v ⟨hlater, gs, hf, ho⟩
  rcases hf.result with rfl | rfl
  · rw [if_neg (by decide)]
    refine wp_modify_bind fun u hu => ⟨hlater u hu, wp_ret fun z hz => ⟨?_, trivial⟩⟩
    cases ho.env hu with
    | resting _ hr =>
      have hnote : Resting (h.setting hm) (.done j.id .successful :: _) _ (u.note (.done j.id .successful)) :=
        { hr with ledger := congrArg (Item.done j.id .successful :: ·) hr.ledger }
      obtain rfl := hnote.still trivial hz
      have hmoved : ∀ p ∈ pieces gs, p.sf = some 0 := (hf.allButLast hm).all rfl
      have hstore := (effect_moved hmoved).mp (hr.store trivial).2
      rw [hf.allMoved rfl hB hbufs] at hstore
      refine .answered ?_ hstore.1.symm
      have hquiet : answers u = answers w := by
        rw [answers, hr.ledger]
        exact notices_bufs gs _
      exact (answers_done u _ _).trans (by rw [hquiet])
    | hung hps _ =>
      obtain ⟨p, hp, hsf⟩ := hps
      exact absurd hsf (hf.completed p hp)
  · rw [if_pos (by decide)]
    exact wp_ret fun u hu => ⟨hlater u hu, trivial⟩

/-! ### Any number of them -/

theorem throughout_late {α : Type} {n : Nat} {p : Drv α} (hp : Bounded n p) (h : .timeout .io ∈ w.log) :
    Throughout (Nvmec mayFail) (fun v => .timeout .io ∈ v.log) p w :=
  wp_mono (wp_within (fun _ _ hw hr => (grows_env (.single hr)).mem hw) (fun _ _ hg hw => hg.mem hw) hp h)
    (fun _ h => h) (fun _ _ _ _ => trivial) fun _ _ _ _ => trivial

/-- A wait was given up, or the requests are stopped like this. -/
def StoppedIn (B : Nat) (t : Store) (js : List Job) (w v : World) : Prop :=
  .timeout .io ∈ v.log ∨ ∃ as, answers v = as ++ answers w ∧ Stopped B t js as v.store.disk

theorem AtEase.throughout_runJobs [Fact (Pow2 L)] [Fact (Pow2 C)] (hB : GoodBlock ns.blockSize)
    (hfuel : 65535 ≤ fuel)
    (ioctl : Nat → Drv Int) (nvmed : Nvmedisk) : ∀ (js : List Job) (t : Store) (w : World),
    AtEase L C w → EqOff (Page w.sys.nvmeDmaBuffer) t w.store →
    (∀ j ∈ js, ∀ sg ∈ j.bufs, Sound w.dev w.sys.nvmeDmaBuffer ns sg) →
    Throughout (Nvmec noFail) (StoppedIn ns.blockSize t js w) (runJobs ns ioctl fuel nvmed js) w
  | [], t, w, h, ht, _ => wp_ret fun v he => by
      obtain rfl : v = w := h.env he
      exact ⟨.inr ⟨[], rfl, by rw [← ht.1]; exact .between⟩, trivial⟩
  | j :: js, t, w, h, ht, hjobs => by
    refine wp_modify_bind fun v he => ?_
    obtain rfl : v = w := h.env he
    refine ⟨.inr ⟨[], rfl, by rw [← ht.1]; exact .between⟩, ?_⟩
    have hease := h.setMem (pokeMem v.store.mem j.poke)
    have hpoke := eqOff_poke ht j.poke
    have hj := hjobs j (List.mem_cons_self ..)
    have hmoments : Throughout (Nvmec noFail) (StoppedIn ns.blockSize t (j :: js) v)
        (nvmediskIoctl ns ioctl fuel nvmed (.blkioRequest j.request))
        (v.setMem (pokeMem v.store.mem j.poke)) := by
      refine (hease.throughout_request coded_noFail hpoke hB hj ioctl nvmed).mono fun u hu => .inr ?_
      cases hu with
      | amid hans hcut => exact ⟨[], hans, .amid hcut⟩
      | answered hans hd => exact ⟨[] ++ [_], hans, .answered (by rw [hd]; exact .between)⟩
    refine hmoments.seq (wp_mono (hease.wp_serve hpoke hB hj hfuel ioctl nvmed) (fun _ _ => trivial)
      (fun _ _ _ h => h) fun _ _ _ _ => trivial) ?_
    rintro rc u (hlate | ⟨rfl, hu⟩)
    · obtain ⟨n, hn⟩ := bounded_runJobs ns ioctl fuel nvmed js
      exact (throughout_late (hn.bind (m := 0) fun _ => .ret) hlate).mono fun _ h => .inl h
    · have hsys : u.sys = v.sys := hu.sys
      have hdev : u.dev = v.dev := hu.dev
      have hrest := AtEase.throughout_runJobs hB hfuel ioctl nvmed js
        (serve ns.blockSize j.write (pokeStore t j.poke) j.bufs) u hu.ease (by rw [hsys]; exact hu.store)
        fun j' hj' sg hsg => by
          rw [hdev, hsys]
          exact hjobs j' (List.mem_cons_of_mem _ hj') sg hsg
      have hnext : Throughout (Nvmec noFail) (StoppedIn ns.blockSize t (j :: js) v)
          (runJobs ns ioctl fuel nvmed js) u := by
        refine hrest.mono fun z hz => hz.imp_right ?_
        rintro ⟨as, hans, hstop⟩
        refine ⟨as ++ [(j.id, .successful)], ?_, .answered hstop⟩
        have hone : answers u = (j.id, .successful) :: answers v := hu.notice
        rw [hans, hone, List.append_assoc]
        rfl
      refine hnext.seq (wp_mono hnext.tail (fun _ _ => trivial) (fun _ _ _ h => h) fun _ _ _ _ => trivial) ?_
      exact fun rcs z hz => wp_ret fun y hy => ⟨hz y hy, trivial⟩

/-- CORRECT: whenever the requests are stopped, those answered are on the disk in full, the next one is cut
    short, and nothing of those after it has begun; unless a wait had been given up. -/
theorem stopped_anywhere (hL : Pow2 L) (hC : Pow2 C) (h : AtEase L C w) (hB : GoodBlock ns.blockSize)
    (_hmeta : ns.metadataSize = 0)
    (hjobs : ∀ j ∈ js, ∀ sg ∈ j.bufs, Sound w.dev w.sys.nvmeDmaBuffer ns sg) (hfuel : 65535 ≤ fuel)
    (ioctl : Nat → Drv Int) (nvmed : Nvmedisk) {p : Drv (List Int)}
    (hrun : Steps (Nvmec noFail) w (runJobs ns ioctl fuel nvmed js) v p) (hlate : .timeout .io ∉ v.log) :
    ∃ as, answers v = as ++ answers w ∧ Stopped ns.blockSize w.store js as v.store.disk := by
  have : Fact (Pow2 L) := ⟨hL⟩
  have : Fact (Pow2 C) := ⟨hC⟩
  exact (h.throughout_runJobs hB hfuel ioctl nvmed js _ w (.refl ..) hjobs v p hrun).1.resolve_left hlate

/-! ### A write stopped half way -/

/-- Write a block of `0xAB` to block 5, and then to block 6. -/
def twoWrites : List Job :=
  [⟨fun a => if 0x100000 ≤ a ∧ a < 0x100200 then some 0xAB else none, 1, true, [sampleBuf 5 0]⟩,
    ⟨fun _ => none, 2, true, [sampleBuf 6 0]⟩]

/-- The second command has left something else on the disk so far. -/
def stoppedRun : World × Drv (List Int) :=
  follow (nvmeMove noFail) (none :: none :: oneCommand .io ++
      [none, none, none, none, none, none, some (.fetch .io), some (.part .io 0 fun _ => 0xFF)]) sampleWorld
    (runJobs sampleNs (fun _ => return 0) 65535 ⟨512, 1000⟩ twoWrites)

theorem stopped_anywhere_sample : stoppedRun.1.store.disk 2560 = 0xAB ∧ stoppedRun.1.store.disk 3072 = 0xFF ∧
    ∃ as, answers stoppedRun.1 = as ++ answers sampleWorld ∧
      Stopped 512 sampleWorld.store twoWrites as stoppedRun.1.store.disk := by
  have hease : AtEase 2 4 sampleWorld := freshWorld_atEase sampleSqLen_pow sampleCqLen_pow rfl _ _
  have hsound : ∀ block < 1000, ∀ sg ∈ [sampleBuf block 0],
      Sound sampleDevice sampleSys.nvmeDmaBuffer sampleNs sg := fun block hb =>
    List.forall_mem_singleton.mpr (sampleBuf_sound hb (by decide))
  have hjobs : ∀ j ∈ twoWrites, ∀ sg ∈ j.bufs, Sound sampleDevice sampleSys.nvmeDmaBuffer sampleNs sg :=
    List.forall_mem_cons.mpr ⟨hsound 5 (by decide), List.forall_mem_singleton.mpr (hsound 6 (by decide))⟩
  refine ⟨by decide +kernel, by decide +kernel, ?_⟩
  exact stopped_anywhere pow2_two pow2_four hease sampleNs_goodBlock rfl hjobs (le_refl _) _ _
    (follow_steps _ _ _ _) (by decide +kernel)

end Nvme
