import Mathlib.Logic.Function.Basic
import Mathlib.Data.List.Basic

/-!
# Ring buffers over a stream

A buffer of `W` slots receives a stream one entry at a time, the `k`-th entry going to slot
`k % W`. It then holds the sliding window of the stream, its last `W` entries: each of them sits
at its slot, and a slot that no entry has reached yet still holds the initial value. Writing the
next entry overwrites the one `W` places back, so a count kept beside the buffer that moves by
what was overwritten and what came in stays the count of the window.
-/

namespace RingWindow

variable {α : Type*}

/-- The sliding window of width `W`: the last `W` entries of the stream. -/
def window (W : ℕ) (hist : List α) : List α := hist.drop (hist.length - W)

/-- The buffer `buf` of width `W`, initially `d` everywhere, holds the stream `hist`. -/
structure Holds (W : ℕ) (d : α) (hist : List α) (buf : ℕ → α) : Prop where
  recent : ∀ k (hk : k < hist.length), hist.length ≤ k + W → buf (k % W) = hist[k]
  unused : ∀ j, hist.length ≤ j → j < W → buf j = d

theorem holds_nil (W : ℕ) (d : α) : Holds W d [] (fun _ => d) :=
  ⟨fun k hk => absurd hk (Nat.not_lt_zero k), fun _ _ _ => rfl⟩

theorem Holds.congr {W : ℕ} {d : α} {hist : List α} {buf buf' : ℕ → α} (h : Holds W d hist buf)
    (hbuf : ∀ j < W, buf' j = buf j) : Holds W d hist buf' where
  recent k hk hkW := by
    rw [hbuf _ (Nat.mod_lt _ (by omega))]
    exact h.recent k hk hkW
  unused j hj hjW := by rw [hbuf j hjW]; exact h.unused j hj hjW

section Push

variable {W : ℕ} {d : α} {hist : List α} {buf : ℕ → α}

theorem mod_ne_of_lt {k n : ℕ} (hkn : k < n) (hnk : n < k + W) : k % W ≠ n % W := by
  intro h
  have hdvd : W ∣ n - k := Nat.dvd_of_mod_eq_zero (Nat.sub_mod_eq_zero_of_mod_eq h.symm)
  have := Nat.le_of_dvd (Nat.sub_pos_of_lt hkn) hdvd
  omega

theorem Holds.evicted (h : Holds W d hist buf) (hW : 0 < W) :
    buf (hist.length % W) = if hw : W ≤ hist.length then hist[hist.length - W] else d := by
  split_ifs with hw
  · have hk : hist.length - W < hist.length := by omega
    rw [← h.recent _ hk (by omega), ← Nat.mod_eq_sub_mod hw]
  · rw [Nat.mod_eq_of_lt (by omega)]
    exact h.unused _ (Nat.le_refl _) (by omega)

theorem Holds.push [DecidableEq α] (h : Holds W d hist buf) (a : α) :
    Holds W d (hist ++ [a]) (Function.update buf (hist.length % W) a) where
  recent k hk hkW := by
    rw [List.length_append, List.length_singleton] at hk hkW
    rcases Nat.lt_succ_iff_lt_or_eq.mp hk with hk | rfl
    · -- an older entry of the window keeps its slot, which is not the one written
      rw [Function.update_of_ne (mod_ne_of_lt hk (by omega)), List.getElem_append_left hk]
      exact h.recent k hk (by omega)
    · simp
  unused j hj hjW := by
    rw [List.length_append, List.length_singleton] at hj
    have hne : j ≠ hist.length % W := by
      have := Nat.mod_le hist.length W
      omega
    rw [Function.update_of_ne hne]
    exact h.unused j (by omega) hjW

/-- The window after one more entry: it loses its oldest entry once the stream fills the buffer. -/
theorem window_push (hW : 0 < W) (hist : List α) (a : α) :
    window W (hist ++ [a]) = (if W ≤ hist.length then (window W hist).tail else window W hist) ++ [a] := by
  unfold window
  rw [List.length_append, List.length_singleton,
    List.drop_append_of_le_length (by omega : hist.length + 1 - W ≤ hist.length)]
  split_ifs with hw
  · rw [List.tail_drop, show hist.length + 1 - W = hist.length - W + 1 by omega]
  · rw [show hist.length + 1 - W = hist.length - W by omega]

theorem Holds.count_push [DecidableEq α] (h : Holds W d hist buf) (hW : 0 < W) {b : α} (hd : d ≠ b)
    (a : α) :
    (window W (hist ++ [a])).count b + (if buf (hist.length % W) = b then 1 else 0) =
      (window W hist).count b + (if a = b then 1 else 0) := by
  rw [h.evicted hW, window_push hW, List.count_append, List.count_singleton]
  by_cases hw : W ≤ hist.length
  · -- a full buffer: the window starts with the overwritten entry
    have hdrop : window W hist = hist[hist.length - W] :: (window W hist).tail := by
      unfold window
      rw [List.drop_eq_getElem_cons (by omega)]
      rfl
    rw [dif_pos hw, if_pos hw]
    conv_rhs => rw [hdrop, List.count_cons]
    simp only [beq_iff_eq]
    split_ifs <;> omega
  · rw [dif_neg hw, if_neg hw, if_neg hd]
    simp only [beq_iff_eq]
    split_ifs <;> omega

end Push

end RingWindow
