import NvmeDisk.Schemes.Resume

/-! Two resumable programs over one world. `Duo` is every interleaving of their actions with each other
    and with the environment. A `Chain` is a program cut into parts, and `ByParts` the interleavings
    that run each part to its end before the other program acts again. If the parts of either chain do
    to an abstract state what commutes with the other's, but for the two last, then the two chains
    leave what they leave one after the other, in one of the two orders. -/

namespace Resume

variable {W E α β γ δ M S F : Type} {R : W → W → Prop} {w v u : W}

/-! ### Interleavings of two programs -/

/-- Every configuration two programs can reach while the environment moves by `R`. -/
inductive Duo (R : W → W → Prop) (w : W) (p : Prog W E α) (q : Prog W E β) :
    W → Prog W E α → Prog W E β → Prop where
  | refl : Duo R w p q w p q
  | env {v u p' q'} : Duo R w p q v p' q' → R v u → Duo R w p q u p' q'
  | left {v f k q'} : Duo R w p q v (.atom f k) q' → Duo R w p q (f v) (k v) q'
  | right {v f k p'} : Duo R w p q v p' (.atom f k) → Duo R w p q (f v) p' (k v)

section Duo

variable {p p' p'' : Prog W E α} {q q' q'' : Prog W E β}

theorem Duo.leftSteps (h : Duo R w p q v p' q') (hs : Steps R v p' u p'') : Duo R w p q u p'' q' := by
  induction hs with
  | refl => exact h
  | env _ hr ih => exact .env ih hr
  | act _ ih => exact .left ih

theorem Duo.rightSteps (h : Duo R w p q v p' q') (hs : Steps R v q' u q'') : Duo R w p q u p' q'' := by
  induction hs with
  | refl => exact h
  | env _ hr ih => exact .env ih hr
  | act _ ih => exact .right ih

end Duo

/-- A turn of a schedule for two programs and their environment. -/
inductive Turn (M : Type) where
  | left
  | right
  | env (m : M)

/-- One turn; a program that has ended lets its turn pass. -/
def turn (move : M → W → Option W) : Turn M → W × Prog W E α × Prog W E β → W × Prog W E α × Prog W E β
  | .left, (w, .atom f k, q) => (f w, k w, q)
  | .right, (w, p, .atom f k) => (f w, p, k w)
  | .env m, (w, p, q) => ((move m w).getD w, p, q)
  | _, x => x

/-- Follow a schedule. -/
def followDuo (move : M → W → Option W) (s : List (Turn M)) (w : W) (p : Prog W E α) (q : Prog W E β) :
    W × Prog W E α × Prog W E β :=
  s.foldl (fun x t => turn move t x) (w, p, q)

theorem turn_duo (move : M → W → Option W) (t : Turn M) {p p' : Prog W E α} {q q' : Prog W E β}
    (h : Duo (Moves move) w p q v p' q') : Duo (Moves move) w p q (turn move t (v, p', q')).1
      (turn move t (v, p', q')).2.1 (turn move t (v, p', q')).2.2 := by
  cases t with
  | left =>
    cases p' with
    | atom f k => exact .left h
    | ret a => exact h
    | halt e => exact h
  | right =>
    cases q' with
    | atom f k => exact .right h
    | ret a => exact h
    | halt e => exact h
  | env m =>
    change Duo _ _ _ _ ((move m v).getD v) _ _
    cases hm : move m v with
    | none => exact h
    | some u => exact .env h ⟨m, hm⟩

theorem followDuo_duo (move : M → W → Option W) (s : List (Turn M)) (w : W) (p : Prog W E α)
    (q : Prog W E β) : Duo (Moves move) w p q (followDuo move s w p q).1 (followDuo move s w p q).2.1
      (followDuo move s w p q).2.2 := by
  suffices h : ∀ v p' q', Duo (Moves move) w p q v p' q' →
      Duo (Moves move) w p q (s.foldl (fun x t => turn move t x) (v, p', q')).1
        (s.foldl (fun x t => turn move t x) (v, p', q')).2.1
        (s.foldl (fun x t => turn move t x) (v, p', q')).2.2 from h w p q .refl
  induction s with
  | nil => exact fun _ _ _ h => h
  | cons t s ih => exact fun v p' q' h => ih _ _ _ (turn_duo move t h)

/-! ### Programs in parts -/

/-- A program in parts, the result of each choosing the next. -/
inductive Chain (W E β α : Type) where
  | ret (a : α)
  | part (p : Prog W E β) (k : β → Chain W E β α)

namespace Chain

def bind : Chain W E β α → (α → Chain W E β γ) → Chain W E β γ
  | .ret a, g => g a
  | .part p k, g => .part p fun b => (k b).bind g

/-- The program. -/
def prog : Chain W E β α → Prog W E α
  | .ret a => .ret a
  | .part p k => p >>= fun b => (k b).prog

/-- The value of a chain that has ended. -/
def value? : Chain W E β α → Option α
  | .ret a => some a
  | .part _ _ => none

theorem eq_ret_of_value? {c : Chain W E β α} {a : α} (h : c.value? = some a) : c = .ret a := by
  cases c with
  | ret b => rw [Option.some.inj h]
  | part p k => cases h

theorem prog_bind (c : Chain W E β α) (g : α → Chain W E β γ) :
    (c.bind g).prog = c.prog >>= fun a => (g a).prog := by
  induction c with
  | ret a => rfl
  | part p k ih =>
    simp only [bind, prog, Prog.bind_eq, Prog.bind_assoc]
    congr 1
    funext b
    exact ih b

end Chain

/-- The interleavings of two chains that change sides between parts only. -/
inductive ByParts (R : W → W → Prop) (w : W) (c : Chain W E β α) (d : Chain W E β γ) :
    W → Chain W E β α → Chain W E β γ → Prop where
  | refl : ByParts R w c d w c d
  | env {v u c' d'} : ByParts R w c d v c' d' → R v u → ByParts R w c d u c' d'
  | left {v u p k b d'} : ByParts R w c d v (.part p k) d' → Steps R v p u (.ret b) →
      ByParts R w c d u (k b) d'
  | right {v u p k b c'} : ByParts R w c d v c' (.part p k) → Steps R v p u (.ret b) →
      ByParts R w c d u c' (k b)

section ByParts

variable {c c' : Chain W E β α} {d d' : Chain W E β γ}

theorem ByParts.duo (h : ByParts R w c d v c' d') : Duo R w c.prog d.prog v c'.prog d'.prog := by
  induction h with
  | refl => exact .refl
  | env _ hr ih => exact .env ih hr
  | left _ hs ih => exact ih.leftSteps (hs.bind _)
  | right _ hs ih => exact ih.rightSteps (hs.bind _)

end ByParts

/-- Parts to run to their ends, each with its side and a schedule for it; one that does not end is left
    out. -/
def followParts (move : M → W → Option W) : List (Bool × List (Option M)) → W → Chain W E β α →
    Chain W E β γ → W × Chain W E β α × Chain W E β γ
  | [], w, c, d => (w, c, d)
  | (true, s) :: l, w, .part p k, d =>
    match (follow move s w p).2.value? with
    | some b => followParts move l (follow move s w p).1 (k b) d
    | none => followParts move l w (.part p k) d
  | (false, s) :: l, w, c, .part p k =>
    match (follow move s w p).2.value? with
    | some b => followParts move l (follow move s w p).1 c (k b)
    | none => followParts move l w c (.part p k)
  | _ :: l, w, c, d => followParts move l w c d

theorem followParts_byParts (move : M → W → Option W) (l : List (Bool × List (Option M))) (w : W)
    (c : Chain W E β α) (d : Chain W E β γ) : ByParts (Moves move) w c d (followParts move l w c d).1
      (followParts move l w c d).2.1 (followParts move l w c d).2.2 := by
  suffices h : ∀ v c' d', ByParts (Moves move) w c d v c' d' →
      ByParts (Moves move) w c d (followParts move l v c' d').1 (followParts move l v c' d').2.1
        (followParts move l v c' d').2.2 from h w c d .refl
  induction l with
  | nil => exact fun _ _ _ h => h
  | cons x l ih =>
    intro v c' d' h
    rcases x with ⟨_ | _, s⟩
    · cases d' with
      | ret b => cases c' <;> exact ih _ _ _ h
      | part p k =>
        rw [followParts]
        split
        · rename_i b hb
          exact ih _ _ _ (h.right (follow_ret hb fun _ _ hm => hm))
        · exact ih _ _ _ h
    · cases c' with
      | ret a => cases d' <;> exact ih _ _ _ h
      | part p k =>
        rw [followParts]
        split
        · rename_i b hb
          exact ih _ _ _ (h.left (follow_ret hb fun _ _ hm => hm))
        · exact ih _ _ _ h

/-! ### What the parts do -/

section Plays

variable (R) (Shows : S → W → Prop) (Off : W → Prop) (on : F → S → S)

/-- Each part does to the abstract state what the next of `fs` says, and the result is `a`; unless the
    run goes off the track. -/
inductive Plays : Chain W E β α → α → List F → Prop where
  | ret {a} : Plays (.ret a) a []
  | part {p k r f a fs} : (∀ s w, Shows s w →
      Wp R (fun _ => True) p (fun b v => Off v ∨ b = r ∧ Shows (on f s) v) (fun _ _ => True) w) →
      Plays (k r) a fs → Plays (.part p k) a (f :: fs)

/-- Off the track every part stays off. -/
inductive Lasts : Chain W E β α → Prop where
  | ret {a} : Lasts (.ret a)
  | part {p k} : (∀ w, Off w → Wp R (fun _ => True) p (fun _ => Off) (fun _ _ => True) w) →
      (∀ b, Lasts (k b)) → Lasts (.part p k)

end Plays

variable {Shows : S → W → Prop} {Off : W → Prop} {on : F → S → S}

theorem Plays.bind {c : Chain W E β α} {g : α → Chain W E β γ} {a : α} {b : γ} {fs gs : List F}
    (hc : Plays R Shows Off on c a fs) (hg : Plays R Shows Off on (g a) b gs) :
    Plays R Shows Off on (c.bind g) b (fs ++ gs) := by
  induction hc with
  | ret => exact hg
  | part hp _ ih => exact .part hp (ih hg)

theorem Lasts.bind {c : Chain W E β α} {g : α → Chain W E β γ} (hc : Lasts R Off c)
    (hg : ∀ a, Lasts R Off (g a)) : Lasts R Off (c.bind g) := by
  induction hc with
  | ret => exact hg _
  | part hp _ ih => exact .part hp ih

/-- The parts' work, one after the other. -/
def after (on : F → S → S) (fs : List F) (s : S) : S := fs.foldl (fun s f => on f s) s

@[simp] theorem after_nil (s : S) : after on [] s = s := rfl

@[simp] theorem after_cons (f : F) (fs : List F) (s : S) : after on (f :: fs) s = after on fs (on f s) := rfl

theorem after_append (fs gs : List F) (s : S) : after on (fs ++ gs) s = after on gs (after on fs s) :=
  List.foldl_append ..

theorem Lasts.wp {c : Chain W E β α} (hR : Stable R Off) (h : Lasts R Off c) (hw : Off w) :
    Wp R (fun _ => True) c.prog (fun _ => Off) (fun _ _ => True) w := by
  induction h generalizing w with
  | ret => exact wp_ret fun _ he => ⟨trivial, hR.env hw he⟩
  | part hp _ ih => exact wp_seq (hp w hw) (fun _ _ _ => trivial) fun b v hv => ih b hv

/-- A chain on its own does the work of its parts. -/
theorem Plays.wp {c : Chain W E β α} {a : α} {fs : List F} {s : S} (hR : ∀ s, Stable R (Shows s))
    (hRoff : Stable R Off) (h : Plays R Shows Off on c a fs) (hl : Lasts R Off c) (hw : Shows s w) :
    Wp R (fun _ => True) c.prog (fun b v => Off v ∨ b = a ∧ Shows (after on fs s) v)
      (fun _ _ => True) w := by
  induction h generalizing s w with
  | ret => exact wp_ret fun _ he => ⟨trivial, .inr ⟨rfl, (hR s).env hw he⟩⟩
  | part hp _ ih =>
    cases hl with
    | part _ hk =>
      refine wp_seq (hp s w hw) (fun _ _ _ => trivial) ?_
      rintro b v (hoff | ⟨rfl, hv⟩)
      · exact wp_mono ((hk b).wp hRoff hoff) (fun _ h => h) (fun _ _ _ h => .inl h) fun _ _ _ h => h
      · exact ih (hk _) hv

/-- Either order leaves the same. -/
def Swaps (on : F → S → S) (f g : F) : Prop := ∀ s, on f (on g s) = on g (on f s)

theorem Swaps.after {f : F} {gs : List F} (h : ∀ g ∈ gs, Swaps on f g) (s : S) :
    on f (Resume.after on gs s) = Resume.after on gs (on f s) := by
  induction gs generalizing s with
  | nil => rfl
  | cons g gs ih =>
    rw [after_cons, after_cons, ih fun g' hg' => h g' (List.mem_cons_of_mem _ hg'),
      h g (List.mem_cons_self ..)]

/-- On the track: what either chain has done and has yet to do, and what the world shows. Until a chain
    is through, its work so far may be taken to come after all of the other's. -/
structure OnTrack (R : W → W → Prop) (Shows : S → W → Prop) (Off : W → Prop) (on : F → S → S) (s : S)
    (a : α) (b : γ) (fs gs fs' gs' : List F) (c : Chain W E β α) (d : Chain W E β γ) (w : W) : Prop where
  left : Plays R Shows Off on c a fs'
  right : Plays R Shows Off on d b gs'
  leftLast : fs' ≠ [] → Shows (after on fs (after on gs s)) w
  rightLast : gs' ≠ [] → Shows (after on gs (after on fs s)) w
  through : fs' = [] → gs' = [] →
    Shows (after on fs (after on gs s)) w ∨ Shows (after on gs (after on fs s)) w

variable {c c' : Chain W E β α} {d d' : Chain W E β γ} {s : S} {a : α} {b : γ}
  {fs gs fs' gs' : List F} {f : F}

theorem OnTrack.symm (h : OnTrack R Shows Off on s a b fs gs fs' gs' c d w) :
    OnTrack R Shows Off on s b a gs fs gs' fs' d c w :=
  ⟨h.right, h.left, h.rightLast, h.leftLast, fun hg hf => (h.through hf hg).symm⟩

/-- A part of the left chain. -/
theorem OnTrack.step {p : Prog W E β} {k : β → Chain W E β α} {r : β}
    (h : OnTrack R Shows Off on s a b fs gs fs' gs' (.part p k) d w)
    (hswap : gs' ≠ [] → ∀ f ∈ fs', ∀ g ∈ gs, Swaps on f g) (hs : Steps R w p v (.ret r)) :
    Off v ∨ ∃ f fs'', fs' = f :: fs'' ∧ OnTrack R Shows Off on s a b (fs ++ [f]) gs fs'' gs' (k r) d v := by
  cases h.left with
  | @part _ _ r' f _ fs'' hp hk =>
    have hmove : ∀ {t}, Shows t w → Off v ∨ r = r' ∧ Shows (on f t) v := fun ht => (hp _ w ht v _ hs).2
    rcases hmove (h.leftLast (by simp)) with hoff | ⟨rfl, hlast⟩
    · exact .inl hoff
    by_cases hoff : Off v
    · exact .inl hoff
    have hleft : Shows (after on (fs ++ [f]) (after on gs s)) v := by
      rw [after_append]
      exact hlast
    refine .inr ⟨f, fs'', rfl, hk, h.right, fun _ => hleft, fun hgs => ?_, fun _ _ => .inl hleft⟩
    obtain ⟨_, hright⟩ := (hmove (h.rightLast hgs)).resolve_left hoff
    rw [Swaps.after (hswap hgs f (List.mem_cons_self ..))] at hright
    rw [after_append]
    exact hright

/-- What a chain with its last part yet to come has done commutes with the other chain. -/
theorem swaps_done (h : ∀ f ∈ fs, ∀ g ∈ (gs ++ gs').dropLast, Swaps on f g) (hne : gs' ≠ []) :
    ∀ f ∈ fs, ∀ g ∈ gs, Swaps on f g := fun f hf g hg =>
  h f hf g (by rw [List.dropLast_append_of_ne_nil hne]; exact List.mem_append_left _ hg)

theorem Lasts.off {p : Prog W E β} {k : β → Chain W E β α} {r : β} (h : Lasts R Off (.part p k))
    (hoff : Off w) (hs : Steps R w p v (.ret r)) : Off v := by
  cases h with
  | part hp _ => exact (hp w hoff v _ hs).2

theorem Lasts.rest {p : Prog W E β} {k : β → Chain W E β α} (h : Lasts R Off (.part p k)) (r : β) :
    Lasts R Off (k r) := by
  cases h with
  | part _ hk => exact hk r

/-- On the track in some way, or off it. -/
def Tracked (R : W → W → Prop) (Shows : S → W → Prop) (Off : W → Prop) (on : F → S → S) (s : S)
    (a : α) (b : γ) (fs gs : List F) (c : Chain W E β α) (d : Chain W E β γ) (w : W) : Prop :=
  Off w ∨ ∃ fs₁ fs₂ gs₁ gs₂, fs₁ ++ fs₂ = fs ∧ gs₁ ++ gs₂ = gs ∧
    OnTrack R Shows Off on s a b fs₁ gs₁ fs₂ gs₂ c d w

theorem Tracked.symm (h : Tracked R Shows Off on s a b fs gs c d w) :
    Tracked R Shows Off on s b a gs fs d c w := by
  rcases h with hoff | ⟨fs₁, fs₂, gs₁, gs₂, hf, hg, ht⟩
  · exact .inl hoff
  · exact .inr ⟨gs₁, gs₂, fs₁, fs₂, hg, hf, ht.symm⟩

theorem Tracked.step {p : Prog W E β} {k : β → Chain W E β α} {r : β}
    (h : Tracked R Shows Off on s a b fs gs (.part p k) d w)
    (hswap : ∀ f ∈ fs, ∀ g ∈ gs.dropLast, Swaps on f g) (hlasts : Lasts R Off (.part p k))
    (hs : Steps R w p v (.ret r)) : Tracked R Shows Off on s a b fs gs (k r) d v := by
  rcases h with hoff | ⟨fs₁, fs₂, gs₁, gs₂, rfl, rfl, ht⟩
  · exact .inl (hlasts.off hoff hs)
  have hdone : gs₂ ≠ [] → ∀ f ∈ fs₂, ∀ g ∈ gs₁, Swaps on f g := fun hne =>
    swaps_done (fun f hf => hswap f (List.mem_append_right _ hf)) hne
  rcases ht.step hdone hs with hoff | ⟨f, fs₂, rfl, ht'⟩
  · exact .inl hoff
  · exact .inr ⟨fs₁ ++ [f], fs₂, gs₁, gs₂, (List.append_cons ..).symm, rfl, ht'⟩

/-- Two chains by parts, where all but the last part of either commute with the other's. -/
theorem ByParts.serial (hR : ∀ s, Stable R (Shows s)) (hRoff : Stable R Off)
    (hc : Plays R Shows Off on c a fs) (hd : Plays R Shows Off on d b gs) (hcl : Lasts R Off c)
    (hdl : Lasts R Off d) (hfs : ∀ f ∈ fs, ∀ g ∈ gs.dropLast, Swaps on f g)
    (hgs : ∀ g ∈ gs, ∀ f ∈ fs.dropLast, Swaps on g f) (hs : Shows s w) {a' : α} {b' : γ}
    (h : ByParts R w c d v (.ret a') (.ret b')) : Off v ∨ a' = a ∧ b' = b ∧
      (Shows (after on gs (after on fs s)) v ∨ Shows (after on fs (after on gs s)) v) := by
  have hrun : ∀ {v c' d'}, ByParts R w c d v c' d' →
      Lasts R Off c' ∧ Lasts R Off d' ∧ Tracked R Shows Off on s a b fs gs c' d' v := by
    intro v c' d' h
    induction h with
    | refl => exact ⟨hcl, hdl, .inr ⟨[], fs, [], gs, rfl, rfl, hc, hd, fun _ => hs, fun _ => hs,
        fun _ _ => .inl hs⟩⟩
    | env _ hr ih =>
      obtain ⟨hcl', hdl', hoff | ⟨fs₁, fs₂, gs₁, gs₂, hf, hg, ht⟩⟩ := ih
      · exact ⟨hcl', hdl', .inl (hRoff _ _ hoff hr)⟩
      · exact ⟨hcl', hdl', .inr ⟨fs₁, fs₂, gs₁, gs₂, hf, hg, ht.left, ht.right,
          fun h => hR _ _ _ (ht.leftLast h) hr, fun h => hR _ _ _ (ht.rightLast h) hr,
          fun h h' => (ht.through h h').imp (fun h => hR _ _ _ h hr) fun h => hR _ _ _ h hr⟩⟩
    | left _ hsteps ih => exact ⟨ih.1.rest _, ih.2.1, ih.2.2.step hfs ih.1 hsteps⟩
    | right _ hsteps ih => exact ⟨ih.1, ih.2.1.rest _, (ih.2.2.symm.step hgs ih.2.1 hsteps).symm⟩
  obtain ⟨_, _, hoff | ⟨fs₁, fs₂, gs₁, gs₂, rfl, rfl, ht⟩⟩ := hrun h
  · exact .inl hoff
  cases ht.left
  cases ht.right
  rw [List.append_nil, List.append_nil]
  exact .inr ⟨rfl, rfl, (ht.through rfl rfl).symm⟩

end Resume
