import Dipper.Staking.Keeper

/-!
# The protocol of the distribution hooks

What the keeper guarantees the distribution module around the hooks it calls: a validator is
created at an address no validator has, a delegation's hooks find it under its own key, a
validator is removed once no delegation to it is left, and otherwise validators and delegations
are only added. A log of calls keeps the protocol when each call keeps it after the view the
call before it left.
-/

namespace Dipper

namespace Staking

namespace View

/-- Every validator and every delegation of `v` is still in `w`. -/
structure Le (v w : View) : Prop where
  validators : ∀ a ∈ v.validators, a ∈ w.validators
  delegations : ∀ k ∈ v.delegations, k ∈ w.delegations

theorem Le.refl (v : View) : v.Le v := ⟨fun _ h => h, fun _ h => h⟩

theorem Le.trans {u v w : View} (h₁ : u.Le v) (h₂ : v.Le w) : u.Le w :=
  ⟨fun a h => h₂.validators a (h₁.validators a h), fun k h => h₂.delegations k (h₁.delegations k h)⟩

/-- The delegation stored under `(d, a)`, if any, is the one of `d` to `a`. -/
def KeyedAt (v : View) (d a : Address) : Prop :=
  ∀ del, v.delegations.lookup (d, a) = some del → del.DelegatorAddress = d ∧ del.ValidatorAddress = a

end View

namespace HookCall

/-- The view the distribution module reads last in the call. -/
def after : HookCall → View
  | AfterValidatorCreated _ view | AfterValidatorRemoved _ view | BeforeValidatorSlashed _ _ view => view
  | Delegated _ _ _ after | Unbonded _ _ _ after => after

/-- The call keeps the protocol after the view `u` that the call before it left. -/
def Made : HookCall → View → Prop
  | AfterValidatorCreated a view, u => a ∉ u.validators ∧ u.Le view
  | Delegated d a before after, u => u.Le before ∧ before.KeyedAt d a ∧ before.Le after
  | Unbonded d a before after, u =>
    u.Le before ∧ (∀ b ∈ before.validators, b ∈ after.validators) ∧
      ∀ k ∈ before.delegations, k ≠ (d, a) → k ∈ after.delegations
  | AfterValidatorRemoved a view, u =>
    (∀ b ∈ u.validators, b ≠ a → b ∈ view.validators) ∧ (∀ k ∈ u.delegations, k ∈ view.delegations) ∧
      ∀ k ∈ view.delegations, k.2 ≠ a
  | BeforeValidatorSlashed _ _ view, u => u.Le view

theorem Made.mono {c : HookCall} {u v : View} (h : c.Made v) (huv : u.Le v) : c.Made u := by
  cases c with
  | AfterValidatorCreated a view => exact ⟨fun ha => h.1 (huv.validators a ha), huv.trans h.2⟩
  | Delegated d a before after => exact ⟨huv.trans h.1, h.2⟩
  | Unbonded d a before after => exact ⟨huv.trans h.1, h.2⟩
  | AfterValidatorRemoved a view =>
    exact ⟨fun b hb hba => h.1 b (huv.validators b hb) hba, fun k hk => h.2.1 k (huv.delegations k hk), h.2.2⟩
  | BeforeValidatorSlashed a fraction view => exact huv.trans h

end HookCall

/-- The calls `cs`, made by the protocol from the view `v`, the last of them leaving at most `w`. -/
def HookLog : View → List HookCall → View → Prop
  | v, [], w => v.Le w
  | v, c :: cs, w => c.Made v ∧ HookLog c.after cs w

namespace HookLog

theorem mono_left {u v w : View} {cs : List HookCall} (h : HookLog v cs w) (huv : u.Le v) : HookLog u cs w := by
  cases cs with
  | nil => exact huv.trans h
  | cons c cs => exact ⟨h.1.mono huv, h.2⟩

/-- Two logs, the second made from where the first left, are one log. -/
theorem append {v m w : View} {cs₁ cs₂ : List HookCall} (h₁ : HookLog v cs₁ m) (h₂ : HookLog m cs₂ w) :
    HookLog v (cs₁ ++ cs₂) w := by
  induction cs₁ generalizing v with
  | nil => exact h₂.mono_left h₁
  | cons c cs ih => exact ⟨h₁.1, ih h₁.2⟩

end HookLog

/-- From `s` to `s'` validators and delegations were only added, and no hook was called. -/
structure Grows (s s' : State) : Prop where
  le : s.view.Le s'.view
  hooks : s'.hooks = s.hooks

theorem Grows.refl (s : State) : Grows s s := ⟨View.Le.refl _, rfl⟩

theorem Grows.trans {s₁ s₂ s₃ : State} (h₁ : Grows s₁ s₂) (h₂ : Grows s₂ s₃) : Grows s₁ s₃ :=
  ⟨h₁.le.trans h₂.le, h₂.hooks.trans h₁.hooks⟩

/-- From `s` to `s'` the keeper called the hooks by the protocol. -/
def LogsFrom (s s' : State) : Prop :=
  ∃ calls, s'.hooks = s.hooks ++ calls ∧ HookLog s.view calls s'.view

theorem Grows.logsFrom {s s' : State} (h : Grows s s') : LogsFrom s s' := ⟨[], by simp [h.hooks], h.le⟩

namespace LogsFrom

theorem refl (s : State) : LogsFrom s s := (Grows.refl s).logsFrom

theorem trans {s₁ s₂ s₃ : State} (h₁ : LogsFrom s₁ s₂) (h₂ : LogsFrom s₂ s₃) : LogsFrom s₁ s₃ := by
  obtain ⟨cs₁, hh₁, hl₁⟩ := h₁
  obtain ⟨cs₂, hh₂, hl₂⟩ := h₂
  exact ⟨cs₁ ++ cs₂, by rw [hh₂, hh₁, List.append_assoc], hl₁.append hl₂⟩

/-- A call to the hooks that keeps the protocol after `s`, made from a later store that no call
has yet changed. -/
theorem callHook {s s' : State} {call : View → HookCall} (hh : s'.hooks = s.hooks)
    (hmade : (call s'.view).Made s.view) (hafter : (call s'.view).after.Le s'.view) :
    LogsFrom s { s' with hooks := s'.hooks ++ [call s'.view] } :=
  ⟨[call s'.view], by rw [hh], hmade, hafter⟩

variable {s t : State} {d a : Address}

/-- `handleMsgCreateValidator`: the validator is written at an address no validator had. -/
theorem created (ha : a ∉ s.validators) (hg : Grows s t) :
    LogsFrom s { t with hooks := t.hooks ++ [.AfterValidatorCreated a t.view] } :=
  callHook hg.hooks ⟨ha, hg.le⟩ (View.Le.refl _)

/-- `Delegate`: the hooks read the store as it was at `s`, and after the delegation's write. -/
theorem delegated (hkey : s.view.KeyedAt d a) (hg : Grows s t) :
    LogsFrom s { t with hooks := t.hooks ++ [.Delegated d a s.view t.view] } :=
  callHook hg.hooks ⟨View.Le.refl _, hkey, hg.le⟩ (View.Le.refl _)

/-- `unbond`: the delegation unbonded from may go; nothing else does. -/
theorem unbonded (hv : ∀ b ∈ s.validators, b ∈ t.validators)
    (hd : ∀ k ∈ s.delegations, k ≠ (d, a) → k ∈ t.delegations) (hh : t.hooks = s.hooks) :
    LogsFrom s { t with hooks := t.hooks ++ [.Unbonded d a s.view t.view] } :=
  callHook hh ⟨View.Le.refl _, hv, hd⟩ (View.Le.refl _)

/-- `RemoveValidator`: only the validator goes, and no delegation to it is left. -/
theorem removed (hv : ∀ b ∈ s.validators, b ≠ a → b ∈ t.validators) (hd : t.delegations = s.delegations)
    (hno : ∀ k ∈ s.delegations, k.2 ≠ a) (hh : t.hooks = s.hooks) :
    LogsFrom s { t with hooks := t.hooks ++ [.AfterValidatorRemoved a t.view] } := by
  refine callHook hh ⟨hv, fun k hk => ?_, fun k hk => hno k ?_⟩ (View.Le.refl _)
  · show k ∈ t.delegations
    rwa [hd]
  · show k ∈ s.delegations
    rwa [← hd]

/-- `Slash`: the hook reads the store before the tokens are burned. -/
theorem slashed {fraction : Dec} (hg : Grows s t) :
    LogsFrom s { t with hooks := t.hooks ++ [.BeforeValidatorSlashed a fraction t.view] } :=
  callHook hg.hooks hg.le (View.Le.refl _)

end LogsFrom

end Staking

end Dipper
