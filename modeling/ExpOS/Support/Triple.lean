import ExpOS.Support.Outcome

/-!
# What a call ensures, however it ends

A triple of a call names three ends: the state after a return, after a
reported error and after a halt.  The last one is what a program finds that
starts again after a crash, so a crash invariant is a condition on halts that
every part of a program shares.
-/

namespace ExpOS

universe u v w

namespace Effect

variable {σ : Type u} {ε α β ι : Type v}

/-- From a state with `pre` the call returns into `done`, reports an error
into `failed` or halts in `halted`. -/
def Ensures (pre : σ → Prop) (x : Effect σ ε α) (done : α → σ → Prop)
    (failed : ε → σ → Prop) (halted : σ → Prop) : Prop :=
  ∀ s, pre s →
    match x.run s with
    | (.done a, t) => done a t
    | (.fail e, t) => failed e t
    | (.halt, t) => halted t

/-- The call does not halt, and any error is reported into `failed`. -/
abbrev Returns (pre : σ → Prop) (x : Effect σ ε α) (done : α → σ → Prop)
    (failed : σ → Prop) : Prop :=
  Ensures pre x done (fun _ => failed) fun _ => False

/-- The call keeps `P`, whether it returns or reports an error, and does not
halt. -/
abbrev Maintains (P : σ → Prop) (x : Effect σ ε α) : Prop :=
  Returns P x (fun _ => P) P

variable {pre pre' halted halted' : σ → Prop}
variable {done done' : α → σ → Prop} {failed failed' : ε → σ → Prop}
variable {x : Effect σ ε α}

theorem ensures_pure {a : α} (h : ∀ s, pre s → done a s) :
    Ensures pre (pure a) done failed halted :=
  h

theorem ensures_fail {e : ε} (h : ∀ s, pre s → failed e s) :
    Ensures pre (Effect.fail e : Effect σ ε α) done failed halted :=
  h

theorem Ensures.mono (h : Ensures pre x done failed halted)
    (hpre : ∀ s, pre' s → pre s) (hdone : ∀ a s, done a s → done' a s)
    (hfailed : ∀ e s, failed e s → failed' e s) (hhalted : ∀ s, halted s → halted' s) :
    Ensures pre' x done' failed' halted' := by
  intro s hs
  have hrun := h s (hpre s hs)
  revert hrun
  rcases x.run s with ⟨a | e | _, t⟩
  · exact hdone a t
  · exact hfailed e t
  · exact hhalted t

theorem Ensures.before (h : Ensures pre x done failed halted)
    (hpre : ∀ s, pre' s → pre s) : Ensures pre' x done failed halted :=
  h.mono hpre (fun _ _ => id) (fun _ _ => id) fun _ => id

theorem Ensures.after (h : Ensures pre x done failed halted) (hdone : ∀ a s, done a s → done' a s) :
    Ensures pre x done' failed halted :=
  h.mono (fun _ => id) hdone (fun _ _ => id) fun _ => id

theorem Ensures.bind {f : α → Effect σ ε β} {last : β → σ → Prop}
    (hx : Ensures pre x done failed halted) (hf : ∀ a, Ensures (done a) (f a) last failed halted) :
    Ensures pre (x >>= f) last failed halted := by
  intro s hs
  have hrun := hx s hs
  rw [run_bind]
  revert hrun
  rcases x.run s with ⟨a | e | _, t⟩
  · exact hf a t
  · exact id
  · exact id

variable {post : σ → Prop}

/-- An attempt whose two ends meet the same condition. -/
theorem Ensures.attempt
    (hx : Ensures pre x (fun _ => post) (fun _ => post) halted) :
    Ensures pre x.attempt (fun _ => post) failed' halted := by
  intro s hs
  have hrun := hx s hs
  rw [run_attempt]
  revert hrun
  rcases x.run s with ⟨a | e | _, t⟩
  · exact id
  · exact id
  · exact id

/-- A call that first looks at the state. -/
theorem ensures_get_bind {τ ε' α' : Type v} {pre halted : τ → Prop}
    {done : α' → τ → Prop} {failed : ε' → τ → Prop}
    {f : τ → Effect τ ε' α'} (h : ∀ s, Ensures (fun t => t = s ∧ pre t) (f s) done failed halted) :
    Ensures pre (Effect.get >>= f) done failed halted :=
  fun s hs => h s s ⟨rfl, hs⟩

theorem ensures_modify {f : σ → σ} (h : ∀ s, pre s → post (f s)) :
    Ensures pre (Effect.modify f : Effect σ ε PUnit) (fun _ => post) failed
      halted :=
  h

theorem ensures_forM {f : ι → Effect σ ε PUnit} (inv : List ι → σ → Prop) (items : List ι)
    (h : ∀ item rest, item :: rest <:+ items →
      Ensures (inv (item :: rest)) (f item) (fun _ => inv rest) failed halted) :
    Ensures (inv items) (items.forM f) (fun _ => inv []) failed halted := by
  induction items with
  | nil => exact ensures_pure fun s hs => hs
  | cons item rest ih =>
    refine (h item rest (List.suffix_refl _)).bind fun _ => ?_
    exact ih fun item' rest' hsuffix => h item' rest' (hsuffix.trans (List.suffix_cons item rest))

/-- What holds before and after every part of a call holds however it
ends. -/
theorem Ensures.keeps {P : σ → Prop} (h : Ensures P x (fun _ => P) (fun _ => P) P) : Keeps P x := by
  intro s hs
  have hrun := h s hs
  revert hrun
  rcases x.run s with ⟨a | e | _, t⟩
  · exact id
  · exact id
  · exact id

end Effect

end ExpOS
