import Mathlib

/-!
# Weakest preconditions for state over exceptions

A program logic for computations in `StateT σ (Except ε)`: `wp x Q E s` says that
run from `s`, `x` either returns `a` in a state satisfying `Q a`, or fails with an
error satisfying `E`. With `E` always true it is partial correctness, where a failure
proves anything; with `E e := e ≠ e₀` it rules out one kind of failure. The rules
push `wp` through `pure`, `bind`, `get`, `set`, `modify`, `throw` and conditionals,
so that `simp` computes the precondition of a `do` block.
-/

namespace StateExcept

variable {σ ε α β : Type}

theorem bind_eq_ok {x : StateT σ (Except ε) α} {f : α → StateT σ (Except ε) β} {s s'' : σ} {b : β}
    (h : (x >>= f).run s = .ok (b, s'')) :
    ∃ a s', x.run s = .ok (a, s') ∧ (f a).run s' = .ok (b, s'') := by
  rw [StateT.run_bind] at h
  cases hx : x.run s with
  | error e => rw [hx] at h; cases h
  | ok p => rw [hx] at h; exact ⟨p.1, p.2, rfl, h⟩

theorem run_bind_ok {x : StateT σ (Except ε) α} {f : α → StateT σ (Except ε) β} {s s' : σ} {a : α}
    (h : x.run s = .ok (a, s')) : (x >>= f).run s = (f a).run s' := by
  rw [StateT.run_bind, h]; rfl

theorem except_bind_eq_ok {x : Except ε α} {f : α → Except ε β} {b : β} :
    x >>= f = .ok b ↔ ∃ a, x = .ok a ∧ f a = .ok b := by
  cases x <;> simp [bind, Except.bind]

theorem foldlM_eq_ok {f : σ → α → Except ε σ} {g : σ → α → σ} :
    ∀ {l : List α} (init : σ), (∀ acc, ∀ x ∈ l, f acc x = .ok (g acc x)) → l.foldlM f init = .ok (l.foldl g init)
  | [], _, _ => rfl
  | x :: l, init, h => by
    rw [List.foldlM_cons, h init x List.mem_cons_self, List.foldl_cons]
    exact foldlM_eq_ok (g init x) fun acc y hy => h acc y (List.mem_cons_of_mem x hy)

theorem eq_ok_of_map {x : Except ε α} {f : α → β} {b : β} (h : x.map f = .ok b) : ∃ a, x = .ok a ∧ f a = b := by
  cases x with
  | error e => cases h
  | ok a => cases h; exact ⟨a, rfl, rfl⟩

theorem eq_error_of_map {x : Except ε α} {f : α → β} {e : ε} (h : x.map f = .error e) : x = .error e := by
  cases x with
  | error e' => cases h; rfl
  | ok a => cases h

theorem mapM_eq_ok_iff {f : α → Except ε β} {l : List α} {bs : List β} :
    l.mapM f = .ok bs ↔ List.Forall₂ (fun a b => f a = .ok b) l bs := by
  induction l generalizing bs with
  | nil => cases bs <;> simp [pure, Except.pure]
  | cons a l ih =>
    have hstep : (a :: l).mapM f = .ok bs ↔
        ∃ b bs', f a = .ok b ∧ l.mapM f = .ok bs' ∧ bs = b :: bs' := by
      rw [List.mapM_cons]
      cases f a <;> cases l.mapM f <;> simp [bind, Except.bind, pure, Except.pure, eq_comm]
    rw [hstep]
    cases bs with
    | nil => simp
    | cons b bs => simp [ih]

/-- What `x` guarantees from `s`: a result satisfying `Q`, or an error satisfying `E`. -/
def wp (x : StateT σ (Except ε) α) (Q : α → σ → Prop) (E : ε → Prop) (s : σ) : Prop :=
  match x.run s with
  | .ok (a, s') => Q a s'
  | .error e => E e

section Rules

variable {Q Q' : α → σ → Prop} {E E' : ε → Prop} {s : σ}

theorem wp_of_run_ok {x : StateT σ (Except ε) α} {a : α} {s' : σ} (h : x.run s = .ok (a, s')) :
    wp x Q E s ↔ Q a s' := by
  unfold wp; rw [h]

theorem wp_of_run_error {x : StateT σ (Except ε) α} {e : ε} (h : x.run s = .error e) :
    wp x Q E s ↔ E e := by
  unfold wp; rw [h]

theorem wp_mono {x : StateT σ (Except ε) α} (hQ : ∀ a s, Q a s → Q' a s) (hE : ∀ e, E e → E' e)
    (h : wp x Q E s) : wp x Q' E' s := by
  unfold wp at *
  cases hx : x.run s with
  | ok p => rw [hx] at h; exact hQ _ _ h
  | error e => rw [hx] at h; exact hE _ h

theorem wp_trivial {x : StateT σ (Except ε) α} (hQ : ∀ a s, Q a s) (hE : ∀ e, E e) : wp x Q E s := by
  unfold wp; split
  · exact hQ _ _
  · exact hE _

theorem wp_run_ok {x : StateT σ (Except ε) α} {a : α} {s' : σ} (h : wp x Q E s)
    (hrun : x.run s = .ok (a, s')) : Q a s' :=
  (wp_of_run_ok hrun).mp h

theorem exists_of_wp {x : StateT σ (Except ε) α} (h : wp x Q (fun _ => False) s) :
    ∃ a s', x.run s = .ok (a, s') ∧ Q a s' := by
  unfold wp at h
  cases hx : x.run s with
  | ok p => rw [hx] at h; exact ⟨p.1, p.2, rfl, h⟩
  | error e => rw [hx] at h; exact h.elim

theorem error_of_wp {x : StateT σ (Except ε) α} (h : wp x (fun _ _ => False) E s) :
    ∃ e, x.run s = .error e ∧ E e := by
  unfold wp at h
  cases hx : x.run s with
  | ok p => rw [hx] at h; exact h.elim
  | error e => rw [hx] at h; exact ⟨e, rfl, h⟩

@[simp] theorem wp_pure (a : α) : wp (pure a : StateT σ (Except ε) α) Q E s ↔ Q a s := Iff.rfl

@[simp] theorem wp_bind (x : StateT σ (Except ε) α) (f : α → StateT σ (Except ε) β)
    (Q : β → σ → Prop) : wp (x >>= f) Q E s ↔ wp x (fun a s' => wp (f a) Q E s') E s := by
  unfold wp
  rw [StateT.run_bind]
  cases x.run s with
  | error e => rfl
  | ok p => rfl

@[simp] theorem wp_map {Q : β → σ → Prop} (f : α → β) (x : StateT σ (Except ε) α) :
    wp (f <$> x) Q E s ↔ wp x (fun a s => Q (f a) s) E s := by
  unfold wp
  rw [StateT.run_map]
  cases x.run s <;> rfl

@[simp] theorem wp_get {Q : σ → σ → Prop} :
    wp (get : StateT σ (Except ε) σ) Q E s ↔ Q s s := Iff.rfl

@[simp] theorem wp_set {Q : PUnit → σ → Prop} (s' : σ) :
    wp (set s' : StateT σ (Except ε) PUnit) Q E s ↔ Q ⟨⟩ s' := Iff.rfl

@[simp] theorem wp_modify {Q : PUnit → σ → Prop} (f : σ → σ) :
    wp (modify f : StateT σ (Except ε) PUnit) Q E s ↔ Q ⟨⟩ (f s) := Iff.rfl

@[simp] theorem wp_throw (e : ε) : wp (throw e : StateT σ (Except ε) α) Q E s ↔ E e := Iff.rfl

@[simp] theorem wp_lift (x : Except ε α) :
    wp (StateT.lift x : StateT σ (Except ε) α) Q E s ↔
      match x with
      | .ok a => Q a s
      | .error e => E e := by
  cases x <;> rfl

theorem wp_ite (c : Prop) [Decidable c] (x y : StateT σ (Except ε) α) :
    wp (if c then x else y) Q E s ↔ (c → wp x Q E s) ∧ (¬c → wp y Q E s) := by
  by_cases h : c <;> simp [h]

theorem wp_bind_of_forall {x : StateT σ (Except ε) β} {f : β → StateT σ (Except ε) α}
    (h : ∀ b s', wp (f b) Q (fun _ => True) s') : wp (x >>= f) Q (fun _ => True) s := by
  rw [wp_bind]
  exact wp_trivial (fun b s' => h b s') fun _ => trivial

end Rules

/-! ### Results from every state

For facts about what a computation returns that hold whatever state it starts in,
such as a bound on the gas a call hands back. Failures are not constrained. -/

/-- Every result `x` returns, from any state, satisfies `P`. -/
def Always (x : StateT σ (Except ε) α) (P : α → Prop) : Prop :=
  ∀ s a s', x.run s = .ok (a, s') → P a

namespace Always

variable {P Q : α → Prop}

theorem run {x : StateT σ (Except ε) α} (h : Always x P) {s : σ} {a : α} {s' : σ}
    (hrun : x.run s = .ok (a, s')) : P a := h s a s' hrun

theorem mono {x : StateT σ (Except ε) α} (h : Always x P) (hPQ : ∀ a, P a → Q a) : Always x Q :=
  fun s a s' hrun => hPQ a (h s a s' hrun)

theorem pure {a : α} (h : P a) : Always (Pure.pure a : StateT σ (Except ε) α) P := by
  intro s b s' hrun
  cases hrun
  exact h

theorem throw {e : ε} : Always (MonadExcept.throw e : StateT σ (Except ε) α) P := by
  intro s b s' hrun
  cases hrun

theorem bind {x : StateT σ (Except ε) β} {f : β → StateT σ (Except ε) α}
    (h : ∀ b, Always (f b) P) : Always (x >>= f) P := by
  intro s a s' hrun
  obtain ⟨b, s₁, -, hf⟩ := bind_eq_ok hrun
  exact h b s₁ a s' hf

theorem bind_of {x : StateT σ (Except ε) β} {f : β → StateT σ (Except ε) α} {R : β → Prop}
    (hx : Always x R) (h : ∀ b, R b → Always (f b) P) : Always (x >>= f) P := by
  intro s a s' hrun
  obtain ⟨b, s₁, hx', hf⟩ := bind_eq_ok hrun
  exact h b (hx s b s₁ hx') s₁ a s' hf

theorem map {x : StateT σ (Except ε) β} {f : β → α} (h : Always x (fun b => P (f b))) :
    Always (f <$> x) P := by
  rw [← bind_pure_comp]
  exact bind_of h fun b hb => Always.pure hb

theorem ite {c : Prop} [Decidable c] {x y : StateT σ (Except ε) α} (hx : c → Always x P)
    (hy : ¬c → Always y P) : Always (if c then x else y) P := by
  by_cases hc : c
  · rw [if_pos hc]; exact hx hc
  · rw [if_neg hc]; exact hy hc

theorem lift {x : Except ε α} (h : ∀ a, x = .ok a → P a) :
    Always (StateT.lift x : StateT σ (Except ε) α) P := by
  intro s a s' hrun
  cases hx : x with
  | error e => rw [hx] at hrun; cases hrun
  | ok b => rw [hx] at hrun; cases hrun; exact h a hx

theorem of_wp {x : StateT σ (Except ε) α} (h : ∀ s, wp x (fun a _ => P a) (fun _ => True) s) :
    Always x P :=
  fun s _ _ hrun => wp_run_ok (h s) hrun

theorem bind_wp {x : StateT σ (Except ε) β} {f : β → StateT σ (Except ε) α} {R : β → σ → Prop}
    (hx : ∀ s, wp x R (fun _ => True) s)
    (h : ∀ b s, R b s → wp (f b) (fun a _ => P a) (fun _ => True) s) : Always (x >>= f) P := by
  refine of_wp fun s => ?_
  rw [wp_bind]
  exact wp_mono (fun b s' hb => h b s' hb) (fun _ _ => trivial) (hx s)

end Always

theorem wp_of_always {x : StateT σ (Except ε) α} {P : α → Prop} (h : Always x P) (s : σ) :
    wp x (fun a _ => P a) (fun _ => True) s := by
  unfold wp
  cases hx : x.run s with
  | ok p => exact h.run hx
  | error e => trivial


/-! ### Returned errors

A computation of `ExceptT ε' (StateT σ (Except ε))` has two ways to fail: it may
return an error of `ε'`, keeping the state it reached, or fail in the monad
underneath, losing it. `ewp x Q E s` is what it guarantees from `s`: a result
satisfying `Q` or a returned error satisfying `E`, each with the state it leaves.
A failure underneath satisfies anything, as in `wp` with no error condition. -/

section Returned

variable {ε' : Type}

/-- The precondition of a computation with returned errors. -/
def ewp (x : ExceptT ε' (StateT σ (Except ε)) α) (Q : α → σ → Prop) (E : ε' → σ → Prop) (s : σ) : Prop :=
  wp x.run (fun r s' => match r with | .ok a => Q a s' | .error e => E e s') (fun _ => True) s

variable {Q Q' : α → σ → Prop} {E E' : ε' → σ → Prop} {s : σ}

@[simp] theorem ewp_pure (a : α) : ewp (pure a : ExceptT ε' (StateT σ (Except ε)) α) Q E s ↔ Q a s :=
  Iff.rfl

@[simp] theorem ewp_bind (x : ExceptT ε' (StateT σ (Except ε)) β) (f : β → ExceptT ε' (StateT σ (Except ε)) α) :
    ewp (x >>= f) Q E s ↔ ewp x (fun b s' => ewp (f b) Q E s') E s := by
  unfold ewp
  rw [ExceptT.run_bind, wp_bind]
  constructor <;> exact wp_mono (fun r s' h => by cases r <;> exact h) (fun _ h => h)

@[simp] theorem ewp_map (f : β → α) (x : ExceptT ε' (StateT σ (Except ε)) β) :
    ewp (f <$> x) Q E s ↔ ewp x (fun b s' => Q (f b) s') E s := by
  rw [← bind_pure_comp, ewp_bind]
  rfl

@[simp] theorem ewp_discard {Q : PUnit → σ → Prop} (x : ExceptT ε' (StateT σ (Except ε)) β) :
    ewp (Functor.discard x) Q E s ↔ ewp x (fun _ s' => Q PUnit.unit s') E s := by
  rw [Functor.discard, Functor.mapConst]
  exact ewp_map _ _

@[simp] theorem ewp_throw (e : ε') : ewp (throw e : ExceptT ε' (StateT σ (Except ε)) α) Q E s ↔ E e s :=
  Iff.rfl

@[simp] theorem ewp_get {Q : σ → σ → Prop} : ewp (get : ExceptT ε' (StateT σ (Except ε)) σ) Q E s ↔ Q s s :=
  Iff.rfl

@[simp] theorem ewp_modify {Q : PUnit → σ → Prop} (f : σ → σ) :
    ewp (modify f : ExceptT ε' (StateT σ (Except ε)) PUnit) Q E s ↔ Q ⟨⟩ (f s) :=
  Iff.rfl

@[simp] theorem ewp_lift (x : Except ε α) :
    ewp (ExceptT.lift (StateT.lift x) : ExceptT ε' (StateT σ (Except ε)) α) Q E s ↔ ∀ a, x = .ok a → Q a s := by
  cases x <;> simp [ewp, wp, ExceptT.lift, ExceptT.run, ExceptT.mk]

@[simp] theorem ewp_mk_lift (x : Except ε (Except ε' α)) :
    ewp (ExceptT.mk (StateT.lift x) : ExceptT ε' (StateT σ (Except ε)) α) Q E s ↔
      ∀ r, x = .ok r → match r with | .ok a => Q a s | .error e => E e s := by
  cases x <;> simp [ewp, wp, ExceptT.run, ExceptT.mk]

@[simp] theorem ewp_tryCatch (x : ExceptT ε' (StateT σ (Except ε)) α) (h : ε' → ExceptT ε' (StateT σ (Except ε)) α) :
    ewp (tryCatch x h) Q E s ↔ ewp x Q (fun e s' => ewp (h e) Q E s') s := by
  unfold ewp
  change wp (ExceptT.tryCatch x h).run _ _ s ↔ _
  unfold ExceptT.tryCatch
  rw [ExceptT.run_mk, wp_bind]
  constructor <;> exact wp_mono (fun r s' h => by cases r <;> exact h) (fun _ h => h)

theorem ewp_ite (c : Prop) [Decidable c] (x y : ExceptT ε' (StateT σ (Except ε)) α) :
    ewp (if c then x else y) Q E s ↔ (c → ewp x Q E s) ∧ (¬c → ewp y Q E s) := by
  by_cases h : c <;> simp [h]

theorem ewp_mono {x : ExceptT ε' (StateT σ (Except ε)) α} (h : ewp x Q E s) (hQ : ∀ a s', Q a s' → Q' a s')
    (hE : ∀ e s', E e s' → E' e s') : ewp x Q' E' s :=
  wp_mono (fun r s' h => by cases r with
    | ok a => exact hQ a s' h
    | error e => exact hE e s' h) (fun _ h => h) h

theorem ewp_bind_of {R : β → σ → Prop} {E₁ : ε' → σ → Prop} {x : ExceptT ε' (StateT σ (Except ε)) β}
    {f : β → ExceptT ε' (StateT σ (Except ε)) α} (hx : ewp x R E₁ s) (hf : ∀ b s', R b s' → ewp (f b) Q E s')
    (hE : ∀ e s', E₁ e s' → E e s') : ewp (x >>= f) Q E s := by
  rw [ewp_bind]
  exact ewp_mono hx hf hE

theorem ewp_run_ok {x : ExceptT ε' (StateT σ (Except ε)) α} (h : ewp x Q E s) {a : α} {s' : σ}
    (hrun : x.run.run s = .ok (.ok a, s')) : Q a s' := by
  unfold ewp at h
  exact (wp_of_run_ok hrun).mp h

theorem ewp_run_error {x : ExceptT ε' (StateT σ (Except ε)) α} (h : ewp x Q E s) {e : ε'} {s' : σ}
    (hrun : x.run.run s = .ok (.error e, s')) : E e s' := by
  unfold ewp at h
  exact (wp_of_run_ok hrun).mp h

theorem ewp_forM {I : σ → Prop} (l : List β) (f : β → ExceptT ε' (StateT σ (Except ε)) PUnit)
    (hf : ∀ b ∈ l, ∀ s, I s → ewp (f b) (fun _ => I) (fun _ => I) s) (hs : I s) :
    ewp (l.forM f) (fun _ => I) (fun _ => I) s := by
  induction l generalizing s with
  | nil => exact hs
  | cons b l ih =>
    change ewp (f b >>= fun _ => l.forM f) _ _ s
    rw [ewp_bind]
    exact ewp_mono (hf b List.mem_cons_self s hs)
      (fun _ s' hs' => ih (fun b' hb' => hf b' (List.mem_cons_of_mem b hb')) hs') (fun _ _ h => h)

theorem ewp_foldlM {γ : Type} {I : σ → Prop} (f : γ → β → ExceptT ε' (StateT σ (Except ε)) γ) (l : List β)
    (init : γ) (hf : ∀ b ∈ l, ∀ c s, I s → ewp (f c b) (fun _ => I) (fun _ => I) s) (hs : I s) :
    ewp (l.foldlM f init) (fun _ => I) (fun _ => I) s := by
  induction l generalizing init s with
  | nil => exact hs
  | cons b l ih =>
    rw [List.foldlM_cons, ewp_bind]
    exact ewp_mono (hf b List.mem_cons_self init s hs)
      (fun c s' hs' => ih c (fun b' hb' => hf b' (List.mem_cons_of_mem b hb')) hs') (fun _ _ h => h)

/-! ### Invariants

`Preserves I x`: from a state satisfying `I`, whatever `x` returns, result or error,
the state it leaves satisfies `I` too. The rules below build it along the structure
of a program. -/

/-- `x` keeps `I`, whatever it returns. -/
def Preserves (I : σ → Prop) (x : ExceptT ε' (StateT σ (Except ε)) α) : Prop :=
  ∀ s, I s → ewp x (fun _ => I) (fun _ => I) s

namespace Preserves

variable {I : σ → Prop}

theorem pure (a : α) : Preserves I (Pure.pure a : ExceptT ε' (StateT σ (Except ε)) α) :=
  fun _ hs => hs

theorem throw (e : ε') : Preserves I (MonadExcept.throw e : ExceptT ε' (StateT σ (Except ε)) α) :=
  fun _ hs => hs

theorem bind {x : ExceptT ε' (StateT σ (Except ε)) β} {f : β → ExceptT ε' (StateT σ (Except ε)) α}
    (hx : Preserves I x) (hf : ∀ b, Preserves I (f b)) : Preserves I (x >>= f) :=
  fun s hs => ewp_bind_of (hx s hs) (fun b s' hs' => hf b s' hs') (fun _ _ h => h)

theorem ite {c : Prop} [Decidable c] {x y : ExceptT ε' (StateT σ (Except ε)) α} (hx : Preserves I x)
    (hy : Preserves I y) : Preserves I (if c then x else y) := by
  by_cases hc : c
  · rw [if_pos hc]; exact hx
  · rw [if_neg hc]; exact hy

theorem get_bind {f : σ → ExceptT ε' (StateT σ (Except ε)) α} (hf : ∀ s, Preserves I (f s)) :
    Preserves I (get >>= f) := by
  intro s hs
  rw [ewp_bind, ewp_get]
  exact hf s s hs

theorem tryCatch {x : ExceptT ε' (StateT σ (Except ε)) α} {h : ε' → ExceptT ε' (StateT σ (Except ε)) α}
    (hx : Preserves I x) (hh : ∀ e, Preserves I (h e)) : Preserves I (MonadExcept.tryCatch x h) := by
  intro s hs
  rw [ewp_tryCatch]
  exact ewp_mono (hx s hs) (fun _ _ h => h) (fun e s' hs' => hh e s' hs')

theorem forM {l : List β} {f : β → ExceptT ε' (StateT σ (Except ε)) PUnit} (hf : ∀ b ∈ l, Preserves I (f b)) :
    Preserves I (l.forM f) :=
  fun _ hs => ewp_forM l f (fun b hb s hs => hf b hb s hs) hs

theorem foldlM {γ : Type} {l : List β} {f : γ → β → ExceptT ε' (StateT σ (Except ε)) γ} {init : γ}
    (hf : ∀ b ∈ l, ∀ c, Preserves I (f c b)) : Preserves I (l.foldlM f init) :=
  fun _ hs => ewp_foldlM f l init (fun b hb c s hs => hf b hb c s hs) hs

theorem run {x : ExceptT ε' (StateT σ (Except ε)) α} (hx : Preserves I x) {s s' : σ} (hs : I s)
    (h : (x.run.run s).map (·.2) = .ok s') : I s' := by
  obtain ⟨⟨r, s''⟩, hrun, rfl⟩ := eq_ok_of_map h
  cases r with
  | ok a => exact ewp_run_ok (hx s hs) hrun
  | error e => exact ewp_run_error (hx s hs) hrun

end Preserves

end Returned

end StateExcept
