import Dipper.Vm.GasBound

/-!
# What the entry points write before their snapshot

`Call`, `CallCode`, `DelegateCall` and `StaticCall` advance the nonce of a caller
that has code before they take the snapshot they revert to, as `create` does. So a
failed call still leaves the caller's nonce advanced, and a static frame that calls
out, with no value, advances its own contract's nonce, a write that the
interpreter's write protection does not see.
-/

namespace Dipper

open CommitStateDB StateExcept

namespace EVM

/-- `bumpCallerNonce` reads the caller's code hash; for a caller with code it then reads the
nonce and leaves it one higher, wrapping as a `uint64`. -/
theorem bumpCallerNonce_eq_ok {caller : Address} {st st' : EVMState}
    (h : (bumpCallerNonce caller).run st = .ok ((), st')) :
    ∃ hash st₁, (sdb (GetCodeHash caller)).run st = .ok (hash, st₁) ∧
      (hash = Hash.zero ∧ st' = st₁ ∨
        hash ≠ Hash.zero ∧ ∃ n st₂, (sdb (GetNonce caller)).run st₁ = .ok (n, st₂) ∧
          (sdb (GetNonce caller)).run st' = .ok (u64 (n + 1), st')) := by
  unfold bumpCallerNonce at h
  obtain ⟨hash, st₁, hcode, hrest⟩ := bind_eq_ok h
  refine ⟨hash, st₁, hcode, ?_⟩
  by_cases hz : hash = Hash.zero
  · rw [if_neg (not_not.mpr hz)] at hrest
    cases hrest
    exact .inl ⟨hz, rfl⟩
  · rw [if_pos hz] at hrest
    obtain ⟨n, st₂, hn, hset⟩ := bind_eq_ok hrest
    obtain ⟨hset', hst'⟩ := sdb_eq_ok hset
    refine .inr ⟨hz, n, st₂, hn, ?_⟩
    rw [sdb_of_run_ok (GetNonce_SetNonce hset')]

section Snapshot

variable (env : Env) (run : RunFn) {caller : ContractRef} {addr : Address} {input : Bytes} {gas : Nat}
  {st st₁ st₂ : EVMState}

theorem run_depthChecks {α : Type} {a b : α} {m : EVMState → VM α}
    (hrec : ¬ (env.cfg.NoRecursion = true ∧ st.depth > 0)) (hdepth : ¬ st.depth > env.cfg.MaxCallCreateDepth) :
    (get >>= fun st' => if (env.cfg.NoRecursion && decide (st'.depth > 0)) = true then pure a
      else if st'.depth > env.cfg.MaxCallCreateDepth then pure b else m st').run st = (m st).run st := by
  rw [run_bind_ok rfl, if_neg (by simpa using hrec), if_neg hdepth]

theorem Call_CallCode_snapshot_after_bump {value : Int}
    (hrec : ¬ (env.cfg.NoRecursion = true ∧ st.depth > 0)) (hdepth : ¬ st.depth > env.cfg.MaxCallCreateDepth)
    (hbal : (CanTransfer caller.Address value).run st = .ok (true, st₁))
    (hbump : (bumpCallerNonce caller.Address).run st₁ = .ok ((), st₂)) :
    (∃ k, (Call env run caller addr input gas value).run st = (sdb Snapshot >>= k).run st₂) ∧
      ∃ k, (CallCode env run caller addr input gas value).run st = (sdb Snapshot >>= k).run st₂ := by
  constructor
  · unfold Call
    rw [run_depthChecks env hrec hdepth, run_bind_ok hbal, if_neg (by decide), run_bind_ok hbump]
    exact ⟨_, rfl⟩
  · unfold CallCode
    rw [run_depthChecks env hrec hdepth, run_bind_ok hbal, if_neg (by decide), run_bind_ok hbump]
    exact ⟨_, rfl⟩

theorem DelegateCall_StaticCall_snapshot_after_bump
    (hrec : ¬ (env.cfg.NoRecursion = true ∧ st.depth > 0)) (hdepth : ¬ st.depth > env.cfg.MaxCallCreateDepth)
    (hbump : (bumpCallerNonce caller.Address).run st = .ok ((), st₂)) :
    (∃ k, (DelegateCall env run caller addr input gas).run st = (sdb Snapshot >>= k).run st₂) ∧
      ∃ k, (StaticCall env run caller addr input gas).run st = (sdb Snapshot >>= k).run st₂ := by
  constructor
  · unfold DelegateCall
    rw [run_depthChecks env hrec hdepth, run_bind_ok hbump]
    exact ⟨_, rfl⟩
  · unfold StaticCall
    rw [run_depthChecks env hrec hdepth, run_bind_ok hbump]
    exact ⟨_, rfl⟩

end Snapshot

end EVM

/-- A static call from the account \[1\] to \[0xbb\] succeeds, and the nested call
\[0xbb\] makes, from its read-only frame, has advanced the nonce of \[0xbb\]. -/
theorem StaticCall_advances_nonce :
    (GetNonce [0xbb]).run' (new callingStore) = .ok 0 ∧
      ((EVM.StaticCall defaultEnv (runWith defaultEnv 20) (.account [1]) [0xbb] [] 100000).run
          ⟨new callingStore, 0, 0, false⟩).map (fun p => (p.1.2.2, (GetNonce [0xbb]).run' p.2.db)) =
        .ok (none, .ok 1) :=
  ⟨by decide +kernel, by decide +kernel⟩

/-- The contract \[0xcc\], with code `STOP`, and \[0xbb\], with code `INVALID`. -/
def failingStore : Store :=
  { auth := (Store.empty.auth.SetAccount ⟨⟨[0xbb], [], 0, 0, [8]⟩, true⟩).SetAccount
      ⟨⟨[0xcc], [], 1, 0, [7]⟩, true⟩,
    vm := { Store.empty.vm with codes := (Store.empty.vm.codes.insert [7] [0x00]).insert [8] [0xfe] } }

theorem Call_error_advances_caller_nonce :
    (GetNonce [0xcc]).run' (new failingStore) = .ok 0 ∧
      ((EVM.Call defaultEnv (runWith defaultEnv 20) (.contract [0xcc] [1] 0) [0xbb] [] 100000 0).run
          ⟨new failingStore, 0, 0, false⟩).map (fun p => (p.1.2.2, (GetNonce [0xcc]).run' p.2.db)) =
        .ok (some (.Internal "invalid opcode 0xfe"), .ok 1) :=
  ⟨by decide +kernel, by decide +kernel⟩

end Dipper
