import Dipper.Distribution.Keeper
import Dipper.Distribution.Events

/-!
# Reference counts of historical rewards

`ReferenceCountInvariant` of `keeper/invariants.go`. The historical record of a validator's
period is read by three kinds of objects: the validator's running period (which reads the record
of the period before it), each delegation that started after that period, and each slash event
that ended it. The record counts them, and `decrementReferenceCount` deletes it when the last
one goes.
-/

namespace Dipper

namespace Distribution

open StateExcept

variable {σ : Type}

/-! ### Counting the references -/

abbrev HistStore := AList (fun _ : Address × Nat => ValidatorHistoricalRewards)
abbrev CurrentStore := AList (fun _ : Address => ValidatorCurrentRewards)
abbrev StartingStore := AList (fun _ : Address × Address => DelegatorStartingInfo)
abbrev SlashStore := AList (fun _ : Address × Nat × Nat => ValidatorSlashEvent)

/-- The running period references the period before it. -/
def runningRefs (cur : CurrentStore) (val : Address) (period : Nat) : ℕ :=
  if (cur.lookup val).map (·.Period) = some (period + 1) then 1 else 0

/-- The delegations to `val` that started after `period`. -/
def delegationRefs (infos : StartingStore) (val : Address) (period : Nat) : ℕ :=
  infos.sumBy fun k info => if k.1 = val ∧ info.PreviousPeriod = period then 1 else 0

/-- The slash events of `val` that ended `period`. -/
def slashRefs (events : SlashStore) (val : Address) (period : Nat) : ℕ :=
  events.sumBy fun k event => if k.1 = val ∧ event.ValidatorPeriod = period then 1 else 0

def references (s : State σ) (val : Address) (period : Nat) : ℕ :=
  runningRefs s.currentRewards val period + delegationRefs s.startingInfos val period +
    slashRefs s.slashEvents val period

/-- The count stored for a period, if its record exists. -/
def storedCount (hist : HistStore) (val : Address) (period : Nat) : Option ℕ :=
  (hist.lookup (val, period)).map (·.ReferenceCount)

/-- What a store of counts holds for `n` references: nothing for none. -/
def countOpt (n : ℕ) : Option ℕ := if n = 0 then none else some n

/-- The reference-count invariant. -/
structure Counted (s : State σ) : Prop where
  count : ∀ val period, storedCount s.historicalRewards val period = countOpt (references s val period)
  bounded : ∀ val period, references s val period ≤ 2
  running : ∀ val c, s.currentRewards.lookup val = some c → 0 < c.Period
  delegation : ∀ val del info, s.startingInfos.lookup (val, del) = some info →
    ∃ c, s.currentRewards.lookup val = some c ∧ info.PreviousPeriod < c.Period
  slash : ∀ val height period event, s.slashEvents.lookup (val, height, period) = some event →
    event.ValidatorPeriod = period ∧ ∃ c, s.currentRewards.lookup val = some c ∧ period < c.Period

/-- The period that `val` ended last has no reference but the running period: what an increment
of the period leaves, and what the increment of `initializeDelegation` and of
`updateValidatorSlashFraction` relies on. -/
def JustEnded (s : State σ) (val : Address) : Prop :=
  ∃ c, s.currentRewards.lookup val = some c ∧ references s val (c.Period - 1) = 1

/-- The parts of the store the counts depend on are unchanged: the historical rewards, the
periods of the current rewards, the starting infos and the slash events. -/
structure SameRefs (s s' : State σ) : Prop where
  hist : s'.historicalRewards = s.historicalRewards
  period : ∀ val, (s'.currentRewards.lookup val).map (·.Period) = (s.currentRewards.lookup val).map (·.Period)
  starting : s'.startingInfos = s.startingInfos
  slash : s'.slashEvents = s.slashEvents

/-! ### The views under the store's writes -/

section Views

variable {val v : Address} {period p : Nat}

@[simp] theorem countOpt_zero : countOpt 0 = none := rfl

theorem countOpt_pos {n : ℕ} (h : 0 < n) : countOpt n = some n := if_neg (Nat.pos_iff_ne_zero.mp h)

theorem storedCount_insert (hist : HistStore) (r : ValidatorHistoricalRewards) :
    storedCount (hist.insert (val, period) r) v p =
      if v = val ∧ p = period then some r.ReferenceCount else storedCount hist v p := by
  unfold storedCount
  split
  · next h => rw [h.1, h.2, AList.lookup_insert]; rfl
  · next h =>
    have hk : (v, p) ≠ (val, period) := fun hk => h (Prod.ext_iff.mp hk)
    rw [AList.lookup_insert_ne hk]

theorem storedCount_erase (hist : HistStore) :
    storedCount (hist.erase (val, period)) v p = if v = val ∧ p = period then none else storedCount hist v p := by
  unfold storedCount
  split
  · next h => rw [h.1, h.2, AList.lookup_erase]; rfl
  · next h =>
    have hk : (v, p) ≠ (val, period) := fun hk => h (Prod.ext_iff.mp hk)
    rw [AList.lookup_erase_ne hk]

theorem storedCount_filterKeys (hist : HistStore) :
    storedCount (hist.filterKeys fun k => k.1 ≠ val) v p = if v = val then none else storedCount hist v p := by
  unfold storedCount
  rw [AList.lookup_filterKeys]
  by_cases h : v = val <;> simp [h]

theorem runningRefs_insert (cur : CurrentStore) (c : ValidatorCurrentRewards) :
    runningRefs (cur.insert val c) v p = if v = val then (if c.Period = p + 1 then 1 else 0) else runningRefs cur v p := by
  unfold runningRefs
  by_cases h : v = val
  · subst h
    simp
  · rw [if_neg h, AList.lookup_insert_ne h]

theorem runningRefs_erase (cur : CurrentStore) :
    runningRefs (cur.erase val) v p = if v = val then 0 else runningRefs cur v p := by
  unfold runningRefs
  by_cases h : v = val
  · subst h
    simp
  · rw [if_neg h, AList.lookup_erase_ne h]

theorem runningRefs_of_lookup {cur : CurrentStore} {c : ValidatorCurrentRewards} (h : cur.lookup val = some c) :
    runningRefs cur val p = if c.Period = p + 1 then 1 else 0 := by
  simp [runningRefs, h]

theorem runningRefs_of_lookup_none {cur : CurrentStore} (h : cur.lookup val = none) : runningRefs cur val p = 0 := by
  simp [runningRefs, h]

theorem delegationRefs_insert {infos : StartingStore} {k : Address × Address} (hk : infos.lookup k = none)
    (info : DelegatorStartingInfo) :
    delegationRefs (infos.insert k info) v p =
      delegationRefs infos v p + if k.1 = v ∧ info.PreviousPeriod = p then 1 else 0 := by
  unfold delegationRefs
  rw [AList.sumBy_insert, AList.sumBy_eq_erase_add _ infos k, AList.valueAt_of_lookup_none _ hk, add_zero]

theorem delegationRefs_erase {infos : StartingStore} {k : Address × Address} {info : DelegatorStartingInfo}
    (hk : infos.lookup k = some info) :
    delegationRefs (infos.erase k) v p + (if k.1 = v ∧ info.PreviousPeriod = p then 1 else 0) =
      delegationRefs infos v p := by
  unfold delegationRefs
  rw [AList.sumBy_eq_erase_add _ infos k, AList.valueAt_of_lookup _ hk]

theorem slashRefs_insert {events : SlashStore} {k : Address × Nat × Nat} (hk : events.lookup k = none)
    (event : ValidatorSlashEvent) :
    slashRefs (events.insert k event) v p =
      slashRefs events v p + if k.1 = v ∧ event.ValidatorPeriod = p then 1 else 0 := by
  unfold slashRefs
  rw [AList.sumBy_insert, AList.sumBy_eq_erase_add _ events k, AList.valueAt_of_lookup_none _ hk, add_zero]

theorem slashRefs_filterKeys (events : SlashStore) :
    slashRefs (events.filterKeys fun k => k.1 ≠ val) v p = if v = val then 0 else slashRefs events v p := by
  unfold slashRefs
  rw [AList.sumBy_filterKeys]
  split
  · next h =>
    subst h
    exact AList.sumBy_eq_zero _ fun k e _ => by by_cases hk : k.1 = v <;> simp [hk]
  · next h =>
    congr 1
    funext k e
    by_cases hk : k.1 = v
    · subst hk
      simp [h]
    · simp [hk]

theorem delegationRefs_eq_zero {infos : StartingStore} (h : delegationRefs infos val period = 0) {del : Address}
    {info : DelegatorStartingInfo} (hinfo : infos.lookup (val, del) = some info) : info.PreviousPeriod ≠ period := by
  intro hp
  have hle := AList.le_sumBy (fun _ _ _ => Nat.zero_le _) hinfo
    (f := fun k info => if k.1 = val ∧ info.PreviousPeriod = period then 1 else 0)
  simp only [hp, and_self, if_true] at hle
  unfold delegationRefs at h
  omega

theorem slashRefs_eq_zero {events : SlashStore} (h : slashRefs events val period = 0) {height p : Nat}
    {event : ValidatorSlashEvent} (hevent : events.lookup (val, height, p) = some event) :
    event.ValidatorPeriod ≠ period := by
  intro hp
  have hle := AList.le_sumBy (fun _ _ _ => Nat.zero_le _) hevent
    (f := fun k event => if k.1 = val ∧ event.ValidatorPeriod = period then 1 else 0)
  simp only [hp, and_self, if_true] at hle
  unfold slashRefs at h
  omega

end Views

/-! ### The invariant -/

section Invariant

variable {s s' : State σ} {val v : Address} {period p : Nat}

theorem countOpt_eq_some {n m : ℕ} : countOpt n = some m ↔ n = m ∧ 0 < n := by
  unfold countOpt
  split <;> simp_all [eq_comm, Nat.pos_iff_ne_zero]

theorem Counted.stored (hI : Counted s) {h : ValidatorHistoricalRewards}
    (hh : s.historicalRewards.lookup (val, period) = some h) :
    references s val period = h.ReferenceCount ∧ 0 < references s val period := by
  have hc := hI.count val period
  rw [storedCount, hh, Option.map_some, eq_comm, countOpt_eq_some] at hc
  exact hc

theorem Counted.exists_stored (hI : Counted s) (hpos : 0 < references s val period) :
    ∃ h, s.historicalRewards.lookup (val, period) = some h ∧ h.ReferenceCount = references s val period := by
  have hc := hI.count val period
  rw [countOpt_pos hpos, storedCount] at hc
  obtain ⟨h, hh, hrc⟩ := Option.map_eq_some_iff.mp hc
  exact ⟨h, hh, hrc⟩

/-- The starting infos of a validator all name periods it has ended, so none names its running one. -/
theorem Counted.delegationRefs_running (hI : Counted s) {c : ValidatorCurrentRewards}
    (hc : s.currentRewards.lookup val = some c) : delegationRefs s.startingInfos val c.Period = 0 := by
  refine AList.sumBy_eq_zero _ fun k info hk => if_neg fun ⟨hv, hp⟩ => ?_
  obtain ⟨c', hc', hlt⟩ := hI.delegation k.1 k.2 info hk
  rw [hv, hc, Option.some.injEq] at hc'
  subst hc'
  omega

theorem Counted.slashRefs_running (hI : Counted s) {c : ValidatorCurrentRewards}
    (hc : s.currentRewards.lookup val = some c) : slashRefs s.slashEvents val c.Period = 0 := by
  refine AList.sumBy_eq_zero _ fun k event hk => if_neg fun ⟨hv, hp⟩ => ?_
  obtain ⟨hvp, c', hc', hlt⟩ := hI.slash k.1 k.2.1 k.2.2 event hk
  rw [hv, hc, Option.some.injEq] at hc'
  subst hc'
  omega

theorem Counted.references_of_none (hI : Counted s) (hc : s.currentRewards.lookup val = none) (period : Nat) :
    references s val period = 0 := by
  have hd : delegationRefs s.startingInfos val period = 0 :=
    AList.sumBy_eq_zero _ fun k info hk => if_neg fun ⟨hv, _⟩ => by
      obtain ⟨c, hc', -⟩ := hI.delegation k.1 k.2 info hk
      rw [hv, hc] at hc'
      cases hc'
  have hs : slashRefs s.slashEvents val period = 0 :=
    AList.sumBy_eq_zero _ fun k event hk => if_neg fun ⟨hv, _⟩ => by
      obtain ⟨-, c, hc', -⟩ := hI.slash k.1 k.2.1 k.2.2 event hk
      rw [hv, hc] at hc'
      cases hc'
  rw [references, runningRefs_of_lookup_none hc, hd, hs]

namespace SameRefs

theorem refl (s : State σ) : SameRefs s s := ⟨rfl, fun _ => rfl, rfl, rfl⟩

theorem trans {s₁ s₂ s₃ : State σ} (h₁ : SameRefs s₁ s₂) (h₂ : SameRefs s₂ s₃) : SameRefs s₁ s₃ :=
  ⟨h₂.hist.trans h₁.hist, fun v => (h₂.period v).trans (h₁.period v), h₂.starting.trans h₁.starting,
    h₂.slash.trans h₁.slash⟩

theorem frame {s₀ : State σ} (h : SameRefs s₀ s) (h₁ : s'.historicalRewards = s.historicalRewards)
    (h₂ : s'.currentRewards = s.currentRewards) (h₃ : s'.startingInfos = s.startingInfos)
    (h₄ : s'.slashEvents = s.slashEvents) : SameRefs s₀ s' :=
  h.trans ⟨h₁, fun v => by rw [h₂], h₃, h₄⟩

theorem references_eq (h : SameRefs s s') (val : Address) (period : Nat) :
    references s' val period = references s val period := by
  unfold references runningRefs
  rw [h.period, h.starting, h.slash]

theorem lookup {c : ValidatorCurrentRewards} (h : SameRefs s s') (hc : s.currentRewards.lookup val = some c) :
    ∃ c', s'.currentRewards.lookup val = some c' ∧ c'.Period = c.Period := by
  have hp := h.period val
  rw [hc, Option.map_some] at hp
  obtain ⟨c', hc', hpp⟩ := Option.map_eq_some_iff.mp hp
  exact ⟨c', hc', hpp⟩

theorem symm (h : SameRefs s s') : SameRefs s' s :=
  ⟨h.hist.symm, fun v => (h.period v).symm, h.starting.symm, h.slash.symm⟩

end SameRefs

theorem Counted.of_sameRefs (hI : Counted s) (h : SameRefs s s') : Counted s' where
  count val period := by rw [h.hist, h.references_eq]; exact hI.count val period
  bounded val period := by rw [h.references_eq]; exact hI.bounded val period
  running val c hc := by
    obtain ⟨c', hc', hp⟩ := h.symm.lookup hc
    rw [← hp]
    exact hI.running val c' hc'
  delegation val del info hinfo := by
    rw [h.starting] at hinfo
    obtain ⟨c, hc, hlt⟩ := hI.delegation val del info hinfo
    obtain ⟨c', hc', hp⟩ := h.lookup hc
    exact ⟨c', hc', hp ▸ hlt⟩
  slash val height period event hevent := by
    rw [h.slash] at hevent
    obtain ⟨hvp, c, hc, hlt⟩ := hI.slash val height period event hevent
    obtain ⟨c', hc', hp⟩ := h.lookup hc
    exact ⟨hvp, c', hc', hp ▸ hlt⟩

theorem JustEnded.of_sameRefs (hJ : JustEnded s val) (h : SameRefs s s') : JustEnded s' val := by
  obtain ⟨c, hc, hr⟩ := hJ
  obtain ⟨c', hc', hp⟩ := h.lookup hc
  exact ⟨c', hc', by rw [h.references_eq, hp, hr]⟩

end Invariant

/-! ### Ending a period -/

section Period

variable {E : Err → State σ → Prop} {s : State σ} {val v : Address} {period p : Nat}

/-- The historical rewards `decrementReferenceCount` leaves: the count one lower, the record gone
at zero. -/
def decremented (hist : HistStore) (key : Address × Nat) (h : ValidatorHistoricalRewards) : HistStore :=
  if h.ReferenceCount - 1 = 0 then hist.erase key
  else hist.insert key { h with ReferenceCount := h.ReferenceCount - 1 }

theorem storedCount_decremented (hist : HistStore) (h : ValidatorHistoricalRewards) :
    storedCount (decremented hist (val, period) h) v p =
      if v = val ∧ p = period then countOpt (h.ReferenceCount - 1) else storedCount hist v p := by
  unfold decremented countOpt
  split
  · next h0 => rw [storedCount_erase]
  · next h0 => rw [storedCount_insert]

theorem ewp_decrementReferenceCount {Q : Unit → State σ → Prop} :
    ewp (decrementReferenceCount val period) Q E s ↔
      ∀ h, s.historicalRewards.lookup (val, period) = some h → 0 < h.ReferenceCount →
        Q () { s with historicalRewards := decremented s.historicalRewards (val, period) h } := by
  unfold decrementReferenceCount
  simp only [ewp_bind, ewp_GetValidatorHistoricalRewards, ewp_ite, ewp_panicD,
    ewp_DeleteValidatorHistoricalReward, ewp_SetValidatorHistoricalRewards]
  refine forall_congr' fun h => forall_congr' fun _ => ?_
  unfold decremented
  by_cases h0 : h.ReferenceCount - 1 = 0 <;> simp [h0, Nat.pos_iff_ne_zero]

theorem ewp_incrementReferenceCount {Q : Unit → State σ → Prop} :
    ewp (incrementReferenceCount val period) Q E s ↔
      ∀ h, s.historicalRewards.lookup (val, period) = some h → h.ReferenceCount ≤ 2 →
        Q () { s with historicalRewards :=
          s.historicalRewards.insert (val, period) { h with ReferenceCount := h.ReferenceCount + 1 } } := by
  unfold incrementReferenceCount
  simp only [ewp_bind, ewp_GetValidatorHistoricalRewards, ewp_ite, ewp_panicD,
    ewp_SetValidatorHistoricalRewards]
  simp

/-- What ending a period guarantees its caller. -/
structure PeriodEnded (s s' : State σ) (val : Address) (P : Nat) : Prop where
  counted : Counted s'
  current : s'.currentRewards.lookup val = some (NewValidatorCurrentRewards [] (P + 1))
  fresh : references s' val P = 1
  starting : s'.startingInfos = s.startingInfos
  slash : s'.slashEvents = s.slashEvents

theorem PeriodEnded.justEnded {s' : State σ} {P : Nat} (h : PeriodEnded s s' val P) : JustEnded s' val :=
  ⟨_, h.current, h.fresh⟩

/-- The store `incrementValidatorPeriod` leaves once it has the ratio of the ended period `P`: the
reference of the running period moved from the record of `P - 1` to the new record of `P`, and
`P + 1` running. -/
theorem Counted.periodEnded (hI : Counted s) {c : ValidatorCurrentRewards} (hc : s.currentRewards.lookup val = some c)
    {h : ValidatorHistoricalRewards} (hh : s.historicalRewards.lookup (val, c.Period - 1) = some h)
    {s' : State σ} {ratio : DecCoins}
    (hhist : s'.historicalRewards = (decremented s.historicalRewards (val, c.Period - 1) h).insert (val, c.Period)
      (NewValidatorHistoricalRewards ratio 1))
    (hcur : s'.currentRewards = s.currentRewards.insert val (NewValidatorCurrentRewards [] (c.Period + 1)))
    (hstart : s'.startingInfos = s.startingInfos) (hslash : s'.slashEvents = s.slashEvents) :
    PeriodEnded s s' val c.Period := by
  have hP := hI.running val c hc
  obtain ⟨hrc, hpos⟩ := hI.stored hh
  have hrun : runningRefs s.currentRewards val (c.Period - 1) = 1 := by
    rw [runningRefs_of_lookup hc, if_pos (by omega)]
  -- what the store holds and counts at each period after the move
  have hst : ∀ v p, storedCount s'.historicalRewards v p =
      if v = val ∧ p = c.Period then some 1
      else if v = val ∧ p = c.Period - 1 then countOpt (h.ReferenceCount - 1)
      else storedCount s.historicalRewards v p := by
    intro v p
    rw [hhist, storedCount_insert, storedCount_decremented]
    rfl
  have hrefs : ∀ v p, references s' v p =
      (if v = val then (if c.Period + 1 = p + 1 then 1 else 0) else runningRefs s.currentRewards v p) +
        delegationRefs s.startingInfos v p + slashRefs s.slashEvents v p := by
    intro v p
    rw [references, hcur, hstart, hslash, runningRefs_insert]
    rfl
  have hfresh : references s' val c.Period = 1 := by
    rw [hrefs, if_pos rfl, if_pos rfl, hI.delegationRefs_running hc, hI.slashRefs_running hc]
  have hcur' : s'.currentRewards.lookup val = some (NewValidatorCurrentRewards [] (c.Period + 1)) := by
    rw [hcur, AList.lookup_insert]
  -- a later running period of `val`, the same one of any other validator
  have hlater : ∀ v c', s.currentRewards.lookup v = some c' →
      ∃ c'', s'.currentRewards.lookup v = some c'' ∧ c'.Period ≤ c''.Period := by
    intro v c' hc'
    by_cases hv : v = val
    · subst hv
      rw [hc, Option.some.injEq] at hc'
      subst hc'
      exact ⟨_, hcur', Nat.le_succ _⟩
    · exact ⟨c', by rw [hcur, AList.lookup_insert_ne hv, hc'], le_rfl⟩
  refine ⟨⟨fun v p => ?_, fun v p => ?_, fun v c' hc' => ?_, fun v del info hinfo => ?_,
    fun v height p event hevent => ?_⟩, hcur', hfresh, hstart, hslash⟩
  · rw [hst]
    by_cases hv : v = val
    · subst hv
      by_cases hp : p = c.Period
      · subst hp
        rw [if_pos ⟨rfl, rfl⟩, hfresh]
        rfl
      · rw [if_neg fun h => hp h.2]
        by_cases hp' : p = c.Period - 1
        · -- the record of the period before loses the running period's reference
          subst hp'
          rw [if_pos ⟨rfl, rfl⟩, hrefs, if_pos rfl, if_neg (by omega)]
          unfold references at hrc
          congr 1
          omega
        · rw [if_neg fun h => hp' h.2, hI.count, hrefs, if_pos rfl, if_neg (by omega), references,
            runningRefs_of_lookup hc, if_neg (by omega)]
    · rw [if_neg fun h => hv h.1, if_neg fun h => hv h.1, hI.count, hrefs, if_neg hv, references]
  · -- only the ended period gains a reference, and it has no other
    have hb := hI.bounded v p
    rw [hrefs]
    by_cases hv : v = val
    · subst hv
      rw [if_pos rfl]
      by_cases hp : p = c.Period
      · subst hp
        rw [if_pos rfl, hI.delegationRefs_running hc, hI.slashRefs_running hc]
        decide
      · rw [if_neg (by omega)]
        unfold references at hb
        omega
    · rw [if_neg hv]
      exact hb
  · rw [hcur] at hc'
    obtain ⟨rfl, rfl⟩ | ⟨-, hc''⟩ := AList.lookup_insert_eq_some hc'
    · exact Nat.succ_pos _
    · exact hI.running v c' hc''
  · rw [hstart] at hinfo
    obtain ⟨c', hc', hlt⟩ := hI.delegation v del info hinfo
    obtain ⟨c'', hc'', hle⟩ := hlater v c' hc'
    exact ⟨c'', hc'', by omega⟩
  · rw [hslash] at hevent
    obtain ⟨hvp, c', hc', hlt⟩ := hI.slash v height p event hevent
    obtain ⟨c'', hc'', hle⟩ := hlater v c' hc'
    exact ⟨hvp, c'', hc'', by omega⟩

/-- `incrementValidatorPeriod` returns the running period, and ends it keeping the counts; it
returns no error. -/
theorem incrementValidatorPeriod_spec (hI : Counted s) {val : ValidatorI} {c : ValidatorCurrentRewards}
    (hc : s.currentRewards.lookup val.GetOperator = some c) :
    ewp (incrementValidatorPeriod val) (fun n s' => n = c.Period ∧ PeriodEnded s s' val.GetOperator c.Period)
      (fun _ _ => False) s := by
  unfold incrementValidatorPeriod
  simp only [ewp_bind, ewp_GetValidatorCurrentRewards, ewp_ite, ewp_GetFeePool, ewp_GetValidatorOutstandingRewards,
    ewp_liftPanic, ewp_SetFeePool, ewp_SetValidatorOutstandingRewards, ewp_pure, ewp_GetValidatorHistoricalRewards,
    ewp_decrementReferenceCount, ewp_SetValidatorHistoricalRewards, ewp_SetValidatorCurrentRewards]
  intro c' hc'
  rw [hc, Option.some.injEq] at hc'
  subst hc'
  -- the zero-token branch moves the rewards to the community pool, which the counts do not read
  refine ⟨fun _ _ _ _ _ _ _ _ _ h hh _ => ⟨rfl, hI.periodEnded hc hh rfl rfl rfl rfl⟩,
    fun _ _ _ _ _ h hh _ => ⟨rfl, hI.periodEnded hc hh rfl rfl rfl rfl⟩⟩

end Period

/-! ### Adding a reference -/

section Added

variable {s s' : State σ} {val v : Address} {P p : Nat} {h : ValidatorHistoricalRewards}

/-- A reference added to a period that only the running period referenced: its count goes from one
to two. -/
theorem Counted.count_of_added (hI : Counted s) (hJ : references s val P = 1)
    (hh : s.historicalRewards.lookup (val, P) = some h)
    (hhist : s'.historicalRewards = s.historicalRewards.insert (val, P) { h with ReferenceCount := h.ReferenceCount + 1 })
    (hrefs : ∀ v p, references s' v p = references s v p + if val = v ∧ P = p then 1 else 0) :
    (∀ v p, storedCount s'.historicalRewards v p = countOpt (references s' v p)) ∧
      ∀ v p, references s' v p ≤ 2 := by
  obtain ⟨hrc, -⟩ := hI.stored hh
  refine ⟨fun v p => ?_, fun v p => ?_⟩
  · rw [hhist, storedCount_insert, hrefs]
    by_cases hk : v = val ∧ p = P
    · obtain ⟨rfl, rfl⟩ := hk
      rw [if_pos ⟨rfl, rfl⟩, if_pos ⟨rfl, rfl⟩, ← hrc, hJ]
      rfl
    · rw [if_neg hk, if_neg fun h => hk ⟨h.1.symm, h.2.symm⟩, add_zero]
      exact hI.count v p
  · rw [hrefs]
    by_cases hk : val = v ∧ P = p
    · obtain ⟨rfl, rfl⟩ := hk
      rw [hJ]
      simp
    · rw [if_neg hk, add_zero]
      exact hI.bounded v p

/-- `initializeDelegation`'s store: the period just ended gains the new starting info's reference. -/
theorem Counted.delegationStarted (hI : Counted s) {c : ValidatorCurrentRewards}
    (hc : s.currentRewards.lookup val = some c) (hJ : references s val (c.Period - 1) = 1)
    (hh : s.historicalRewards.lookup (val, c.Period - 1) = some h) {del : Address}
    (hnone : s.startingInfos.lookup (val, del) = none) {info : DelegatorStartingInfo}
    (hinfo : info.PreviousPeriod = c.Period - 1)
    (hhist : s'.historicalRewards =
      s.historicalRewards.insert (val, c.Period - 1) { h with ReferenceCount := h.ReferenceCount + 1 })
    (hcur : s'.currentRewards = s.currentRewards) (hstart : s'.startingInfos = s.startingInfos.insert (val, del) info)
    (hslash : s'.slashEvents = s.slashEvents) : Counted s' := by
  have hrefs : ∀ v p, references s' v p = references s v p + if val = v ∧ c.Period - 1 = p then 1 else 0 := by
    intro v p
    rw [references, hcur, hstart, hslash, delegationRefs_insert hnone, hinfo, references]
    dsimp only
    omega
  obtain ⟨hcount, hbounded⟩ := hI.count_of_added hJ hh hhist hrefs
  have hP := hI.running val c hc
  refine ⟨hcount, hbounded, fun v c' hc' => ?_, fun v d i hi => ?_, fun v height p event hevent => ?_⟩
  · rw [hcur] at hc'
    exact hI.running v c' hc'
  · rw [hstart] at hi
    rw [hcur]
    obtain ⟨⟨rfl, rfl⟩, rfl⟩ | ⟨-, hi'⟩ := AList.lookup_insert_eq_some hi
    · exact ⟨c, hc, by omega⟩
    · exact hI.delegation v d i hi'
  · rw [hslash] at hevent
    rw [hcur]
    exact hI.slash v height p event hevent

/-- `updateValidatorSlashFraction`'s store: the period just ended gains the slash event's reference,
under a key no event had, since none ended that period. -/
theorem Counted.slashRecorded (hI : Counted s) {c : ValidatorCurrentRewards}
    (hc : s.currentRewards.lookup val = some c) (hJ : references s val (c.Period - 1) = 1)
    (hh : s.historicalRewards.lookup (val, c.Period - 1) = some h) {height : Nat} {event : ValidatorSlashEvent}
    (hevent : event.ValidatorPeriod = c.Period - 1)
    (hhist : s'.historicalRewards =
      s.historicalRewards.insert (val, c.Period - 1) { h with ReferenceCount := h.ReferenceCount + 1 })
    (hcur : s'.currentRewards = s.currentRewards) (hstart : s'.startingInfos = s.startingInfos)
    (hslash : s'.slashEvents = s.slashEvents.insert (val, height, c.Period - 1) event) : Counted s' := by
  have hfree : s.slashEvents.lookup (val, height, c.Period - 1) = none := by
    cases he : s.slashEvents.lookup (val, height, c.Period - 1) with
    | none => rfl
    | some e =>
      have h0 : slashRefs s.slashEvents val (c.Period - 1) = 0 := by
        unfold references at hJ
        rw [runningRefs_of_lookup hc, if_pos (by have := hI.running val c hc; omega)] at hJ
        omega
      exact absurd (hI.slash val height _ e he).1 (slashRefs_eq_zero h0 he)
  have hrefs : ∀ v p, references s' v p = references s v p + if val = v ∧ c.Period - 1 = p then 1 else 0 := by
    intro v p
    rw [references, hcur, hstart, hslash, slashRefs_insert hfree, hevent, references]
    dsimp only
    omega
  obtain ⟨hcount, hbounded⟩ := hI.count_of_added hJ hh hhist hrefs
  have hP := hI.running val c hc
  refine ⟨hcount, hbounded, fun v c' hc' => ?_, fun v d i hi => ?_, fun v height' p e he => ?_⟩
  · rw [hcur] at hc'
    exact hI.running v c' hc'
  · rw [hstart] at hi
    rw [hcur]
    exact hI.delegation v d i hi
  · rw [hslash] at he
    rw [hcur]
    obtain ⟨⟨rfl, rfl, rfl⟩, rfl⟩ | ⟨-, he'⟩ := AList.lookup_insert_eq_some he
    · exact ⟨hevent, c, hc, by omega⟩
    · exact hI.slash v height' p e he'


/-- `withdrawDelegationRewards`'s store: the starting info goes, and with it its reference. The
period a validator ended last keeps only its running reference, since the starting info named an
earlier one. -/
theorem Counted.delegationEnded (hI : Counted s) {del : Address} {info : DelegatorStartingInfo}
    (hinfo : s.startingInfos.lookup (val, del) = some info)
    (hh : s.historicalRewards.lookup (val, info.PreviousPeriod) = some h)
    (hhist : s'.historicalRewards = decremented s.historicalRewards (val, info.PreviousPeriod) h)
    (hcur : s'.currentRewards = s.currentRewards) (hstart : s'.startingInfos = s.startingInfos.erase (val, del))
    (hslash : s'.slashEvents = s.slashEvents) : Counted s' ∧ (JustEnded s val → JustEnded s' val) := by
  obtain ⟨hrc, -⟩ := hI.stored hh
  have hrefs : ∀ v p, references s' v p + (if val = v ∧ info.PreviousPeriod = p then 1 else 0) = references s v p := by
    intro v p
    have he := delegationRefs_erase (v := v) (p := p) hinfo
    rw [references, hcur, hstart, hslash, references, ← he]
    dsimp only
    omega
  refine ⟨⟨fun v p => ?_, fun v p => ?_, fun v c hc => ?_, fun v d i hi => ?_, fun v height p e he => ?_⟩, ?_⟩
  · rw [hhist, storedCount_decremented]
    have hr := hrefs v p
    by_cases hk : v = val ∧ p = info.PreviousPeriod
    · obtain ⟨rfl, rfl⟩ := hk
      rw [if_pos ⟨rfl, rfl⟩]
      rw [if_pos ⟨rfl, rfl⟩] at hr
      congr 1
      omega
    · rw [if_neg hk, hI.count, ← hr, if_neg fun h => hk ⟨h.1.symm, h.2.symm⟩, add_zero]
  · exact le_trans (by have := hrefs v p; omega) (hI.bounded v p)
  · rw [hcur] at hc
    exact hI.running v c hc
  · rw [hstart] at hi
    rw [hcur]
    exact hI.delegation v d i (AList.lookup_erase_eq_some hi).2
  · rw [hslash] at he
    rw [hcur]
    exact hI.slash v height p e he
  · rintro ⟨c, hc, hJ⟩
    -- the starting info named an earlier period than the one just ended
    have h0 : delegationRefs s.startingInfos val (c.Period - 1) = 0 := by
      unfold references at hJ
      rw [runningRefs_of_lookup hc, if_pos (by have := hI.running val c hc; omega)] at hJ
      omega
    have hne := delegationRefs_eq_zero h0 hinfo
    refine ⟨c, by rw [hcur]; exact hc, ?_⟩
    have hr := hrefs val (c.Period - 1)
    rw [if_neg fun h => hne h.2] at hr
    omega


/-- `initializeValidator`'s store: a validator without current rewards has no references, and gets
the record of period 0, referenced by its running period 1. -/
theorem Counted.validatorCreated (hI : Counted s) (hnone : s.currentRewards.lookup val = none)
    (hhist : s'.historicalRewards = s.historicalRewards.insert (val, 0) (NewValidatorHistoricalRewards [] 1))
    (hcur : s'.currentRewards = s.currentRewards.insert val (NewValidatorCurrentRewards [] 1))
    (hstart : s'.startingInfos = s.startingInfos) (hslash : s'.slashEvents = s.slashEvents) : Counted s' := by
  have hzero := hI.references_of_none hnone
  have hrefs : ∀ v p, references s' v p =
      (if v = val then (if 1 = p + 1 then 1 else 0) else runningRefs s.currentRewards v p) +
        delegationRefs s.startingInfos v p + slashRefs s.slashEvents v p := by
    intro v p
    rw [references, hcur, hstart, hslash, runningRefs_insert]
    rfl
  -- another validator's lookups are the old ones
  have hother : ∀ v c, s.currentRewards.lookup v = some c → s'.currentRewards.lookup v = some c := by
    intro v c hc
    have hv : v ≠ val := fun hv => by rw [hv, hnone] at hc; cases hc
    rw [hcur, AList.lookup_insert_ne hv, hc]
  refine ⟨fun v p => ?_, fun v p => ?_, fun v c hc => ?_, fun v d i hi => ?_, fun v height p e he => ?_⟩
  · rw [hhist, storedCount_insert, hrefs]
    by_cases hv : v = val
    · subst hv
      have h0 := hzero p
      have hc0 := hI.count v p
      rw [h0, countOpt_zero] at hc0
      unfold references at h0
      by_cases hp : p = 0
      · subst hp
        rw [if_pos ⟨rfl, rfl⟩, if_pos rfl, if_pos rfl]
        have : delegationRefs s.startingInfos v 0 + slashRefs s.slashEvents v 0 = 0 := by omega
        rw [add_assoc, this]
        rfl
      · rw [if_neg fun h => hp h.2, if_pos rfl, if_neg (by omega), hc0]
        have : delegationRefs s.startingInfos v p + slashRefs s.slashEvents v p = 0 := by omega
        rw [zero_add, this]
        rfl
    · rw [if_neg fun h => hv h.1, if_neg hv, hI.count, references]
  · rw [hrefs]
    by_cases hv : v = val
    · subst hv
      have h0 := hzero p
      unfold references at h0
      rw [if_pos rfl]
      split <;> omega
    · rw [if_neg hv]
      exact hI.bounded v p
  · rw [hcur] at hc
    obtain ⟨rfl, rfl⟩ | ⟨-, hc'⟩ := AList.lookup_insert_eq_some hc
    · exact Nat.one_pos
    · exact hI.running v c hc'
  · rw [hstart] at hi
    obtain ⟨c, hc, hlt⟩ := hI.delegation v d i hi
    exact ⟨c, hother v c hc, hlt⟩
  · rw [hslash] at he
    obtain ⟨hvp, c, hc, hlt⟩ := hI.slash v height p e he
    exact ⟨hvp, c, hother v c hc, hlt⟩

/-- `AfterValidatorRemoved`'s store: once no delegation of the validator is left, deleting its
records, its running period and its slash events leaves it no reference and no record. -/
theorem Counted.validatorRemoved (hI : Counted s) (hno : ∀ del, s.startingInfos.lookup (val, del) = none)
    (hhist : s'.historicalRewards = s.historicalRewards.filterKeys fun k => k.1 ≠ val)
    (hcur : s'.currentRewards = s.currentRewards.erase val) (hstart : s'.startingInfos = s.startingInfos)
    (hslash : s'.slashEvents = s.slashEvents.filterKeys fun k => k.1 ≠ val) : Counted s' := by
  have hd : ∀ p, delegationRefs s.startingInfos val p = 0 := fun p =>
    AList.sumBy_eq_zero _ fun k info hk => if_neg fun ⟨hv, _⟩ => by
      have hk' : s.startingInfos.lookup (val, k.2) = some info := by rw [← hv]; exact hk
      rw [hno] at hk'
      cases hk'
  have hrefs : ∀ v p, references s' v p = if v = val then 0 else references s v p := by
    intro v p
    rw [references, hcur, hstart, hslash, runningRefs_erase, slashRefs_filterKeys]
    by_cases hv : v = val
    · subst hv
      rw [if_pos rfl, if_pos rfl, if_pos rfl, hd]
    · rw [if_neg hv, if_neg hv, if_neg hv, references]
  refine ⟨fun v p => ?_, fun v p => ?_, fun v c hc => ?_, fun v d i hi => ?_, fun v height p e he => ?_⟩
  · rw [hhist, storedCount_filterKeys, hrefs]
    split
    · rfl
    · exact hI.count v p
  · rw [hrefs]
    split
    · exact Nat.zero_le _
    · exact hI.bounded v p
  · rw [hcur] at hc
    exact hI.running v c (AList.lookup_erase_eq_some hc).2
  · rw [hstart] at hi
    have hv : v ≠ val := fun hv => by rw [hv, hno] at hi; cases hi
    obtain ⟨c, hc, hlt⟩ := hI.delegation v d i hi
    exact ⟨c, by rw [hcur, AList.lookup_erase_ne hv, hc], hlt⟩
  · rw [hslash, AList.lookup_filterKeys] at he
    by_cases hv : v = val
    · simp [hv] at he
    · rw [if_pos (by simpa using hv)] at he
      obtain ⟨hvp, c, hc, hlt⟩ := hI.slash v height p e he
      exact ⟨hvp, c, by rw [hcur, AList.lookup_erase_ne hv, hc], hlt⟩

end Added

/-! ### The keeper's methods -/

section Methods

variable {sk : StakingKeeper σ} {k : Keeper} {ctx : Ctx} {s : State σ} {α : Type}

/-- A method that leaves the store as it is, whatever it returns. -/
def ReadOnly (x : DM σ α) : Prop := ∀ s₀, Preserves (fun s => s = s₀) x

/-- A method that leaves the parts the counts read as they are, whatever it returns. -/
def KeepsRefs (x : DM σ α) : Prop := ∀ s₀, Preserves (SameRefs s₀) x

theorem KeepsRefs.counted {x : DM σ α} (h : KeepsRefs x) (hI : Counted s) :
    ewp x (fun _ => Counted) (fun _ => Counted) s :=
  ewp_mono (h s s (SameRefs.refl s)) (fun _ _ h => hI.of_sameRefs h) (fun _ _ h => hI.of_sameRefs h)

theorem incrementValidatorPeriod_of_none {val : ValidatorI} (hc : s.currentRewards.lookup val.GetOperator = none)
    {Q : Nat → State σ → Prop} {E : Err → State σ → Prop} : ewp (incrementValidatorPeriod val) Q E s := by
  unfold incrementValidatorPeriod
  rw [ewp_bind, ewp_GetValidatorCurrentRewards]
  intro c hc'
  rw [hc] at hc'
  cases hc'

theorem initializeDelegation_spec {val del : Address} (hI : Counted s) (hJ : JustEnded s val)
    (hnone : s.startingInfos.lookup (val, del) = none) :
    ewp (initializeDelegation sk ctx val del) (fun _ => Counted) (fun _ _ => False) s := by
  obtain ⟨c, hc, hJ⟩ := hJ
  unfold initializeDelegation
  simp only [ewp_bind, ewp_GetValidatorCurrentRewards, ewp_incrementReferenceCount, ewp_get, ewp_mustBePresent,
    ewp_liftPanic, ewp_SetDelegatorStartingInfo]
  intro c' hc' h hh _ _ _ _ _ _ _
  rw [hc, Option.some.injEq] at hc'
  subst hc'
  exact hI.delegationStarted hc hJ hh hnone rfl rfl rfl rfl rfl

theorem updateValidatorSlashFraction_spec (hK : sk.Keyed) (hI : Counted s) {valAddr : Address} {fraction : Dec} :
    ewp (updateValidatorSlashFraction sk ctx valAddr fraction) (fun _ => Counted) (fun _ _ => False) s := by
  unfold updateValidatorSlashFraction
  simp only [ewp_bind, ewp_ite, ewp_panicD, ewp_get, ewp_mustBePresent]
  refine ⟨fun _ => trivial, fun _ val hval => ?_⟩
  obtain rfl := hK.validator _ _ _ hval
  cases hc : s.currentRewards.lookup val.GetOperator with
  | none => exact incrementValidatorPeriod_of_none hc
  | some c =>
    refine ewp_mono (incrementValidatorPeriod_spec hI hc) (fun n s₁ h₁ => ?_) (fun _ _ h => h.elim)
    obtain ⟨rfl, hend⟩ := h₁
    simp only [ewp_incrementReferenceCount, ewp_SetValidatorSlashEvent]
    intro h hh _
    exact hend.counted.slashRecorded hend.current hend.fresh hh rfl rfl rfl rfl rfl

theorem calculateDelegationRewardsBetween_readOnly {val : ValidatorI} {startingPeriod endingPeriod : Nat} {stake : Dec} :
    ReadOnly (calculateDelegationRewardsBetween val startingPeriod endingPeriod stake : DM σ DecCoins) := by
  intro s₀ s hs
  subst hs
  simp only [calculateDelegationRewardsBetween, ewp_bind, ewp_ite, ewp_panicD, ewp_GetValidatorHistoricalRewards,
    ewp_liftPanic]
  simp

theorem slashStep_readOnly {val : ValidatorI} (acc : DecCoins × Nat × Dec) (event : Nat × ValidatorSlashEvent) :
    ReadOnly (slashStep val acc event : DM σ _) := by
  obtain ⟨rewards, startingPeriod, stake⟩ := acc
  intro s₀
  exact Preserves.ite (Preserves.bind (calculateDelegationRewardsBetween_readOnly s₀) fun _ => Preserves.pure _)
    (Preserves.pure _)

theorem IterateValidatorSlashEventsBetween_readOnly {val : Address} {startingHeight endingHeight : Nat} :
    ReadOnly (IterateValidatorSlashEventsBetween val startingHeight endingHeight : DM σ _) :=
  fun _ => Preserves.get_bind fun _ => Preserves.pure _

theorem calculateDelegationRewards_readOnly {val : ValidatorI} {del : Staking.Delegation} {endingPeriod : Nat} :
    ReadOnly (calculateDelegationRewards ctx val del endingPeriod : DM σ DecCoins) := by
  intro s₀ s hs
  subst hs
  have hbetween : ∀ {a b c}, ewp (calculateDelegationRewardsBetween val a b c : DM σ _) (fun _ s' => s' = s)
      (fun _ s' => s' = s) s :=
    calculateDelegationRewardsBetween_readOnly s s rfl
  have hloop : ∀ (events : List (Nat × ValidatorSlashEvent)) init,
      ewp (events.foldlM (slashStep val) init : DM σ _) (fun _ s' => s' = s) (fun _ s' => s' = s) s :=
    fun _ _ => Preserves.foldlM (fun b _ c => slashStep_readOnly c b s) s rfl
  simp only [calculateDelegationRewards, ewp_bind, ewp_ite, ewp_panicD, ewp_GetDelegatorStartingInfo,
    ewp_liftPanic, ewp_pure]
  intro info _
  refine ⟨fun _ => trivial, fun _ => ⟨fun _ => ?_, fun _ a _ => ⟨fun _ => ⟨fun _ => hbetween, fun _ => trivial⟩,
    fun _ => hbetween⟩⟩⟩
  -- the slash events are read and folded over without a write
  refine ewp_mono (IterateValidatorSlashEventsBetween_readOnly s s rfl) (fun events s' hs' => ?_) (fun _ _ h => h)
  subst hs'
  refine ewp_mono (hloop events _) (fun acc s' hs' => ?_) (fun _ _ h => h)
  subst hs'
  exact fun a _ => ⟨fun _ => ⟨fun _ => hbetween, fun _ => trivial⟩, fun _ => hbetween⟩

theorem withdrawDelegationRewards_spec (hI : Counted s) {val : ValidatorI} {del : Staking.Delegation}
    (hop : val.GetOperator = del.ValidatorAddress) :
    ewp (withdrawDelegationRewards k ctx val del)
      (fun _ s' => Counted s' ∧ JustEnded s' del.ValidatorAddress ∧
        s'.startingInfos.lookup (del.ValidatorAddress, del.DelegatorAddress) = none) (fun _ _ => True) s := by
  unfold withdrawDelegationRewards
  simp only [ewp_bind, ewp_HasDelegatorStartingInfo, ewp_ite, ewp_throw, ewp_pure]
  refine ⟨fun _ => trivial, fun _ => ?_⟩
  cases hc : s.currentRewards.lookup val.GetOperator with
  | none => exact incrementValidatorPeriod_of_none hc
  | some c =>
  refine ewp_mono (incrementValidatorPeriod_spec hI hc) (fun _ s₁ h₁ => ?_) (fun _ _ h => h.elim)
  obtain ⟨-, hend⟩ := h₁
  refine ewp_mono (calculateDelegationRewards_readOnly s₁ s₁ rfl) (fun _ s₂ h₂ => ?_) (fun _ _ _ => trivial)
  subst s₂
  rw [hop] at hend
  -- the payout touches the bank, the outstanding rewards and the pool; the counts see the deletion
  have post : ∀ info h, s₁.startingInfos.lookup (del.ValidatorAddress, del.DelegatorAddress) = some info →
      s₁.historicalRewards.lookup (del.ValidatorAddress, info.PreviousPeriod) = some h → ∀ {s' : State σ},
      s'.historicalRewards = decremented s₁.historicalRewards (del.ValidatorAddress, info.PreviousPeriod) h →
      s'.currentRewards = s₁.currentRewards →
      s'.startingInfos = s₁.startingInfos.erase (del.ValidatorAddress, del.DelegatorAddress) →
      s'.slashEvents = s₁.slashEvents →
      Counted s' ∧ JustEnded s' del.ValidatorAddress ∧
        s'.startingInfos.lookup (del.ValidatorAddress, del.DelegatorAddress) = none := by
    intro info h hinfo hh s' hhist hcur hstart hslash
    obtain ⟨hI', hJ'⟩ := hend.counted.delegationEnded hinfo hh hhist hcur hstart hslash
    exact ⟨hI', hJ' hend.justEnded, by rw [hstart, AList.lookup_erase]⟩
  simp only [ewp_GetValidatorOutstandingRewards, ewp_liftPanic, ewp_GetDelegatorWithdrawAddr,
    ewp_SendCoinsFromModuleToAccount, ewp_SetValidatorOutstandingRewards, ewp_GetFeePool, ewp_SetFeePool,
    ewp_GetDelegatorStartingInfo, ewp_decrementReferenceCount, ewp_DeleteDelegatorStartingInfo]
  intro _ _ _ _ _ _
  refine ⟨fun _ => ⟨fun _ _ _ _ _ _ info hinfo h hh _ => post info h hinfo hh rfl rfl rfl rfl, fun _ _ => trivial⟩,
    fun _ _ _ _ _ info hinfo h hh _ => post info h hinfo hh rfl rfl rfl rfl⟩

theorem period_insert_rewards {cur : CurrentStore} {op v : Address} {c : ValidatorCurrentRewards}
    (hc : cur.lookup op = some c) (r : DecCoins) :
    ((cur.insert op { c with Rewards := r }).lookup v).map (·.Period) = (cur.lookup v).map (·.Period) := by
  by_cases hv : v = op
  · subst hv
    rw [AList.lookup_insert, hc]
    rfl
  · rw [AList.lookup_insert_ne hv]

theorem AllocateTokensToValidator_keepsRefs {val : ValidatorI} {tokens : DecCoins} :
    KeepsRefs (AllocateTokensToValidator val tokens : DM σ Unit) := by
  intro s₀ s hs
  simp only [AllocateTokensToValidator, ewp_bind, ewp_liftPanic, ewp_GetValidatorAccumulatedCommission,
    ewp_SetValidatorAccumulatedCommission, ewp_GetValidatorCurrentRewards, ewp_SetValidatorCurrentRewards,
    ewp_GetValidatorOutstandingRewards, ewp_SetValidatorOutstandingRewards]
  intro _ _ _ _ c hc _ _
  exact hs.trans ⟨rfl, fun v => period_insert_rewards hc _, rfl, rfl⟩

theorem allocateVote_keepsRefs {feesCollected : DecCoins} {voteMultiplier : Dec} {totalPreviousPower : Int}
    {remaining : DecCoins} {vote : Slashing.VoteInfo} :
    KeepsRefs (allocateVote sk feesCollected voteMultiplier totalPreviousPower remaining vote) := by
  intro s₀ s hs
  simp only [allocateVote, ewp_bind, ewp_get, ewp_liftPanic, ewp_mustBePresent]
  intro _ _ _ _ _ _ _ _
  exact ewp_mono (AllocateTokensToValidator_keepsRefs s₀ s hs) (fun _ _ h _ _ => h) (fun _ _ h => h)

theorem liftPanic_keepsRefs (x : Except String α) : KeepsRefs (liftPanic x : DM σ α) :=
  fun _ _ hs => (ewp_liftPanic x).mpr fun _ _ => hs

theorem SetFeePool_keepsRefs (feePool : FeePool) : KeepsRefs (SetFeePool feePool : DM σ Unit) :=
  fun _ _ hs => (ewp_SetFeePool feePool).mpr (hs.frame rfl rfl rfl rfl)

theorem AllocateTokens_keepsRefs {sumPreviousPrecommitPower totalPreviousPower : Int} {previousProposer : Address}
    {previousVotes : List Slashing.VoteInfo} :
    KeepsRefs (AllocateTokens sk k sumPreviousPrecommitPower totalPreviousPower previousProposer previousVotes) := by
  intro s₀ s hs
  simp only [AllocateTokens, orPanic, ewp_bind, ewp_get, ewp_liftPanic, ewp_GetFeeCollectorCoins, ewp_tryCatch,
    ewp_panicD, ewp_SendCoinsFromFeeCollector, ewp_GetFeePool, ewp_SetFeePool, ewp_ite, ewp_pure]
  intro _ _
  refine ⟨fun _ _ _ _ => ⟨fun _ => hs.frame rfl rfl rfl rfl, fun _ _ _ _ _ => ?_⟩, fun _ _ => trivial⟩
  have hvotes : ∀ feesCollected remaining voteMultiplier, Preserves (SameRefs s₀)
      (previousVotes.foldlM (allocateVote sk feesCollected voteMultiplier totalPreviousPower) remaining) :=
    fun _ _ _ => Preserves.foldlM fun _ _ _ => allocateVote_keepsRefs s₀
  split
  · exact Preserves.bind (AllocateTokensToValidator_keepsRefs s₀) (fun _ => Preserves.bind (liftPanic_keepsRefs _ s₀)
      fun _ => Preserves.bind (hvotes _ _ _) fun _ => SetFeePool_keepsRefs _ s₀) _ (hs.frame rfl rfl rfl rfl)
  · exact Preserves.bind (Preserves.pure _) (fun _ => Preserves.bind (hvotes _ _ _) fun _ => SetFeePool_keepsRefs _ s₀) _
      (hs.frame rfl rfl rfl rfl)

theorem BeginBlocker_keepsRefs {votes : List Slashing.VoteInfo} {proposerAddress : Address} :
    KeepsRefs (BeginBlocker sk k ctx votes proposerAddress) := by
  intro s₀ s hs
  simp only [BeginBlocker, ewp_bind, ewp_ite, ewp_GetPreviousProposerConsAddr, ewp_SetPreviousProposerConsAddr]
  refine ⟨fun _ _ _ => ewp_mono (AllocateTokens_keepsRefs s₀ s hs) (fun _ _ h => h.frame rfl rfl rfl rfl)
    (fun _ _ h => h), fun _ => hs.frame rfl rfl rfl rfl⟩

theorem SetWithdrawAddr_keepsRefs {delegatorAddr withdrawAddr : Address} :
    KeepsRefs (SetWithdrawAddr k delegatorAddr withdrawAddr : DM σ Unit) := by
  intro s₀ s hs
  simp only [SetWithdrawAddr, ewp_bind, ewp_ite, ewp_throw, ewp_get, ewp_SetDelegatorWithdrawAddr]
  exact ⟨fun _ => hs, fun _ => ⟨fun _ => hs, fun _ => hs.frame rfl rfl rfl rfl⟩⟩

theorem WithdrawValidatorCommission_keepsRefs {valAddr : Address} :
    KeepsRefs (WithdrawValidatorCommission k valAddr : DM σ Coins) := by
  intro s₀ s hs
  simp only [WithdrawValidatorCommission, ewp_bind, ewp_ite, ewp_throw, ewp_GetValidatorAccumulatedCommission,
    ewp_liftPanic, ewp_SetValidatorAccumulatedCommission, ewp_GetValidatorOutstandingRewards,
    ewp_SetValidatorOutstandingRewards, ewp_GetDelegatorWithdrawAddr, ewp_SendCoinsFromModuleToAccount, ewp_pure]
  refine ⟨fun _ => hs, fun _ _ _ _ _ _ _ _ _ => ⟨fun _ => ⟨fun _ _ => hs.frame rfl rfl rfl rfl,
    fun _ _ => hs.frame rfl rfl rfl rfl⟩, fun _ => hs.frame rfl rfl rfl rfl⟩⟩

theorem DistributeFromFeePool_keepsRefs {amount : Coins} {receiveAddr : Address} :
    KeepsRefs (DistributeFromFeePool k amount receiveAddr : DM σ Unit) := by
  intro s₀ s hs
  simp only [DistributeFromFeePool, ewp_bind, ewp_ite, ewp_throw, ewp_GetFeePool, ewp_liftPanic,
    ewp_SendCoinsFromModuleToAccount, ewp_SetFeePool]
  exact fun _ _ _ _ => ⟨fun _ => hs, fun _ => ⟨fun _ _ => hs.frame rfl rfl rfl rfl, fun _ _ => hs⟩⟩

theorem HandleCommunityPoolSpendProposal_keepsRefs {recipient : Address} {amount : Coins} :
    KeepsRefs (HandleCommunityPoolSpendProposal k recipient amount : DM σ Unit) := by
  intro s₀
  unfold HandleCommunityPoolSpendProposal
  dsimp only
  exact Preserves.ite (Preserves.bind (Preserves.throw _) fun _ => DistributeFromFeePool_keepsRefs s₀)
    (DistributeFromFeePool_keepsRefs s₀)

/-! ### The hooks -/

variable {valAddr delAddr : Address}

theorem AfterValidatorCreated_spec (hK : sk.Keyed) (hI : Counted s) (hnone : s.currentRewards.lookup valAddr = none) :
    ewp (AfterValidatorCreated sk valAddr) (fun _ => Counted) (fun _ _ => False) s := by
  simp only [AfterValidatorCreated, initializeValidator, ewp_bind, ewp_get, ewp_mustBePresent,
    ewp_SetValidatorHistoricalRewards, ewp_SetValidatorCurrentRewards, ewp_SetValidatorAccumulatedCommission,
    ewp_SetValidatorOutstandingRewards]
  intro val hval
  obtain rfl := hK.validator _ _ _ hval
  exact hI.validatorCreated hnone rfl rfl rfl rfl

theorem AfterValidatorRemoved_spec (hI : Counted s) (hno : ∀ del, s.startingInfos.lookup (valAddr, del) = none) :
    ewp (AfterValidatorRemoved k valAddr) (fun _ => Counted) (fun _ _ => False) s := by
  simp only [AfterValidatorRemoved, orPanic, ewp_bind, ewp_ite, ewp_tryCatch, ewp_panicD, ewp_pure,
    ewp_GetValidatorOutstandingRewards, ewp_GetValidatorAccumulatedCommission, ewp_liftPanic, ewp_GetFeePool,
    ewp_SetFeePool, ewp_GetDelegatorWithdrawAddr, ewp_SendCoinsFromModuleToAccount,
    ewp_DeleteValidatorOutstandingRewards, ewp_DeleteValidatorAccumulatedCommission, ewp_DeleteValidatorSlashEvents,
    ewp_DeleteValidatorHistoricalRewards, ewp_DeleteValidatorCurrentRewards]
  -- whatever is paid out, the deletions leave the counts right
  have hleaf : ∀ {s' : State σ}, s'.historicalRewards = s.historicalRewards.filterKeys (fun k => k.1 ≠ valAddr) →
      s'.currentRewards = s.currentRewards.erase valAddr → s'.startingInfos = s.startingInfos →
      s'.slashEvents = s.slashEvents.filterKeys (fun k => k.1 ≠ valAddr) → Counted s' :=
    fun hhist hcur hstart hslash => hI.validatorRemoved hno hhist hcur hstart hslash
  intro _ _
  exact ⟨fun _ _ _ _ _ _ _ => ⟨fun _ => ⟨fun _ _ _ _ => hleaf rfl rfl rfl rfl, fun _ _ => trivial⟩,
    fun _ _ _ => hleaf rfl rfl rfl rfl⟩, fun _ _ _ => hleaf rfl rfl rfl rfl⟩

theorem BeforeDelegationCreated_spec (hK : sk.Keyed) (hI : Counted s) :
    ewp (BeforeDelegationCreated sk valAddr)
      (fun _ s' => Counted s' ∧ JustEnded s' valAddr ∧ s'.startingInfos = s.startingInfos) (fun _ _ => False) s := by
  simp only [BeforeDelegationCreated, ewp_bind, ewp_get, ewp_mustBePresent, ewp_discard]
  intro val hval
  obtain rfl := hK.validator _ _ _ hval
  cases hc : s.currentRewards.lookup val.GetOperator with
  | none => exact incrementValidatorPeriod_of_none hc
  | some c =>
    exact ewp_mono (incrementValidatorPeriod_spec hI hc) (fun _ _ h => ⟨h.2.counted, h.2.justEnded, h.2.starting⟩)
      (fun _ _ h => h)

theorem BeforeDelegationSharesModified_spec (hK : sk.Keyed) (hI : Counted s) :
    ewp (BeforeDelegationSharesModified sk k ctx delAddr valAddr)
      (fun _ s' => Counted s' ∧ JustEnded s' valAddr ∧ s'.startingInfos.lookup (valAddr, delAddr) = none)
      (fun _ _ => False) s := by
  simp only [BeforeDelegationSharesModified, orPanic, ewp_bind, ewp_get, ewp_mustBePresent, ewp_discard,
    ewp_tryCatch, ewp_panicD]
  intro val hval del hdel
  obtain ⟨rfl, rfl⟩ := hK.delegation _ _ _ _ hdel
  exact withdrawDelegationRewards_spec hI (hK.validator _ _ _ hval)

theorem Counted.setStaking (hI : Counted s) (staking : σ) : Counted { s with staking } :=
  hI.of_sameRefs ((SameRefs.refl s).frame rfl rfl rfl rfl)

theorem JustEnded.setStaking (hJ : JustEnded s valAddr) (staking : σ) : JustEnded { s with staking } valAddr :=
  hJ.of_sameRefs ((SameRefs.refl s).frame rfl rfl rfl rfl)

theorem delegateHooks_spec (hK : sk.Keyed) (hI : Counted s) {staking : σ}
    (hadm : (sk.Delegation s.staking delAddr valAddr).isSome = false → s.startingInfos.lookup (valAddr, delAddr) = none) :
    ewp (delegateHooks sk k ctx delAddr valAddr staking) (fun _ => Counted) (fun _ _ => False) s := by
  simp only [delegateHooks, ewp_bind, ewp_get, ewp_ite, ewp_SetStaking]
  -- a delegation staking has is withdrawn from, a new one finds its validator's period ended
  refine ⟨fun _ => ewp_mono (BeforeDelegationSharesModified_spec hK hI) (fun _ s₁ h₁ => ?_) (fun _ _ h => h),
    fun hnew => ewp_mono (BeforeDelegationCreated_spec hK hI) (fun _ s₁ h₁ => ?_) (fun _ _ h => h)⟩
  · exact initializeDelegation_spec (h₁.1.setStaking staking) (h₁.2.1.setStaking staking) h₁.2.2
  · have hnone := hadm (by simpa using hnew)
    exact initializeDelegation_spec (h₁.1.setStaking staking) (h₁.2.1.setStaking staking) (h₁.2.2 ▸ hnone)

theorem unbondHooks_spec (hK : sk.Keyed) (hI : Counted s) {staking : σ} :
    ewp (unbondHooks sk k ctx delAddr valAddr staking) (fun _ => Counted) (fun _ _ => False) s := by
  simp only [unbondHooks, ewp_bind, ewp_SetStaking, ewp_ite, ewp_pure]
  refine ewp_mono (BeforeDelegationSharesModified_spec hK hI) (fun _ s₁ h₁ => ⟨fun _ => ?_, fun _ => ?_⟩)
    (fun _ _ h => h)
  · exact initializeDelegation_spec (h₁.1.setStaking staking) (h₁.2.1.setStaking staking) h₁.2.2
  · exact h₁.1.setStaking staking

theorem slashHooks_spec (hK : sk.Keyed) (hI : Counted s) {fraction : Dec} {staking : σ} :
    ewp (slashHooks sk ctx valAddr fraction staking) (fun _ => Counted) (fun _ _ => False) s := by
  simp only [slashHooks, ewp_bind, ewp_SetStaking]
  exact ewp_mono (updateValidatorSlashFraction_spec hK hI) (fun _ _ h => h.setStaking staking) (fun _ _ h => h)

theorem WithdrawDelegationRewards_spec (hK : sk.Keyed) (hI : Counted s) :
    ewp (WithdrawDelegationRewards sk k ctx delAddr valAddr) (fun _ => Counted) (fun _ _ => True) s := by
  simp only [WithdrawDelegationRewards, ewp_bind, ewp_get]
  split
  · next val hval =>
    split
    · next del hdel =>
      obtain ⟨rfl, rfl⟩ := hK.delegation _ _ _ _ hdel
      simp only [ewp_bind, ewp_pure]
      refine ewp_mono (withdrawDelegationRewards_spec hI (hK.validator _ _ _ hval)) (fun _ s₁ h₁ => ?_)
        (fun _ _ h => h)
      exact ewp_mono (initializeDelegation_spec h₁.1 h₁.2.1 h₁.2.2) (fun _ _ h => h) (fun _ _ h => h.elim)
    · exact trivial
  · exact trivial

theorem NewHandler_spec (hK : sk.Keyed) (hI : Counted s) (msg : Msg) :
    ewp (NewHandler sk k ctx msg) (fun _ => Counted) (fun _ _ => True) s := by
  cases msg with
  | SetWithdrawAddress del withdraw =>
    exact ewp_mono (SetWithdrawAddr_keepsRefs.counted hI) (fun _ _ h => h) (fun _ _ _ => trivial)
  | WithdrawDelegatorReward del val =>
    exact (ewp_discard _).mpr (WithdrawDelegationRewards_spec hK hI)
  | WithdrawValidatorCommission val =>
    exact (ewp_discard _).mpr
      (ewp_mono (WithdrawValidatorCommission_keepsRefs.counted hI) (fun _ _ h => h) (fun _ _ _ => trivial))

end Methods

/-! ### The total of the counts -/

section Total

variable {s : State σ}

theorem Counted.runningRefs_eq_count (hI : Counted s) (key : Address × Nat) :
    runningRefs s.currentRewards key.1 key.2 =
      s.currentRewards.sumBy fun b c => if (b, c.Period - 1) = key then 1 else 0 := by
  rw [AList.sumBy_eq_valueAt (a := key.1) fun b c hb => if_neg fun h => hb (Prod.ext_iff.mp h).1]
  unfold runningRefs AList.valueAt
  cases hc : s.currentRewards.lookup key.1 with
  | none => rfl
  | some c =>
    have hP := hI.running key.1 c hc
    simp only [Option.map_some, Option.some.injEq, Option.elim, Prod.ext_iff, true_and]
    by_cases hp : c.Period = key.2 + 1
    · rw [if_pos hp, if_pos (by omega)]
    · rw [if_neg hp, if_neg (by omega)]

theorem delegationRefs_eq_count (infos : StartingStore) (key : Address × Nat) :
    delegationRefs infos key.1 key.2 = infos.sumBy fun b c => if (b.1, c.PreviousPeriod) = key then 1 else 0 := by
  unfold delegationRefs
  simp only [Prod.ext_iff]

theorem slashRefs_eq_count (events : SlashStore) (key : Address × Nat) :
    slashRefs events key.1 key.2 = events.sumBy fun b c => if (b.1, c.ValidatorPeriod) = key then 1 else 0 := by
  unfold slashRefs
  simp only [Prod.ext_iff]

/-- `ReferenceCountInvariant`: the counts add up to one reference per validator, one per
delegation and one per slash event. -/
theorem Counted.sum_referenceCount (hI : Counted s) :
    s.historicalRewards.sumBy (fun _ h => h.ReferenceCount) =
      s.currentRewards.entries.length + s.startingInfos.entries.length + s.slashEvents.entries.length := by
  -- a period that is referenced has its record
  have hstored : ∀ v p, 0 < references s v p → (v, p) ∈ s.historicalRewards := fun v p hpos => by
    obtain ⟨h, hh, -⟩ := hI.exists_stored hpos
    exact AList.lookup_isSome.mp (by rw [hh]; rfl)
  have hrecord : s.historicalRewards.sumBy (fun _ h => h.ReferenceCount) =
      s.historicalRewards.sumBy fun key _ => references s key.1 key.2 :=
    AList.sumBy_congr fun _ h hk => (hI.stored hk).1.symm
  rw [hrecord]
  unfold references
  rw [AList.sumBy_add, AList.sumBy_add]
  -- each kind of reference is counted at the period it names
  have hrun := AList.sumBy_count (m := s.historicalRewards) (n := s.currentRewards)
    (fun b (c : ValidatorCurrentRewards) => (b, c.Period - 1))
    fun b c hc => hstored _ _ (by
      unfold references
      rw [runningRefs_of_lookup hc, if_pos (by have := hI.running b c hc; omega)]
      omega)
  have hdel := AList.sumBy_count (m := s.historicalRewards) (n := s.startingInfos)
    (fun (b : Address × Address) (c : DelegatorStartingInfo) => (b.1, c.PreviousPeriod))
    fun b c hc => hstored _ _ (by
      have hle := AList.le_sumBy (fun _ _ _ => Nat.zero_le _) hc
        (f := fun (k : Address × Address) info => if k.1 = b.1 ∧ info.PreviousPeriod = c.PreviousPeriod then 1 else 0)
      simp only [and_self, if_true] at hle
      unfold references delegationRefs
      omega)
  have hsl := AList.sumBy_count (m := s.historicalRewards) (n := s.slashEvents)
    (fun (b : Address × Nat × Nat) (c : ValidatorSlashEvent) => (b.1, c.ValidatorPeriod))
    fun b c hc => hstored _ _ (by
      have hle := AList.le_sumBy (fun _ _ _ => Nat.zero_le _) hc
        (f := fun (k : Address × Nat × Nat) event =>
          if k.1 = b.1 ∧ event.ValidatorPeriod = c.ValidatorPeriod then 1 else 0)
      simp only [and_self, if_true] at hle
      unfold references slashRefs
      omega)
  rw [← hrun, ← hdel, ← hsl]
  congr 1
  congr 1
  · exact AList.sumBy_congr fun key _ _ => hI.runningRefs_eq_count key
  · exact AList.sumBy_congr fun key _ _ => delegationRefs_eq_count _ key
  · exact AList.sumBy_congr fun key _ _ => slashRefs_eq_count _ key

end Total

/-! ### Every run -/

section Runs

variable {sk : StakingKeeper σ} {k : Keeper} {s s' : State σ}

theorem Counted.step (hK : sk.Keyed) (hI : Counted s) (e : Event σ) (hadm : e.Admissible sk k s)
    (h : e.apply sk k s = .ok s') : Counted s' := by
  cases e with
  | BeginBlock ctx votes proposerAddress =>
    obtain ⟨_, h'⟩ := runHook_of_ewp (BeginBlocker_keepsRefs.counted hI) h
    exact h'
  | Deliver ctx msg =>
    simp only [Event.apply] at h
    split at h
    · cases h
      exact hI
    · rcases runTx_of_ewp (NewHandler_spec hK hI msg) h with rfl | ⟨_, h'⟩
      · exact hI
      · exact h'
  | CommunityPoolSpend recipient amount =>
    rcases runTx_of_ewp (HandleCommunityPoolSpendProposal_keepsRefs.counted hI) h with rfl | ⟨_, h'⟩
    · exact hI
    · exact h'
  | Transfer fromAddr toAddr amt =>
    simp only [Event.apply] at h
    split at h
    · cases h
      exact hI.of_sameRefs ((SameRefs.refl s).frame rfl rfl rfl rfl)
    · cases h
      exact hI
    · cases h
  | ValidatorCreated valAddr staking =>
    obtain ⟨_, h'⟩ := runHook_of_ewp (AfterValidatorCreated_spec hK (hI.setStaking staking) hadm) h
    exact h'
  | Delegated ctx delAddr valAddr staking =>
    obtain ⟨_, h'⟩ := runHook_of_ewp (delegateHooks_spec hK hI hadm) h
    exact h'
  | Unbonded ctx delAddr valAddr staking =>
    obtain ⟨_, h'⟩ := runHook_of_ewp (unbondHooks_spec hK hI) h
    exact h'
  | ValidatorSlashed ctx valAddr fraction staking =>
    obtain ⟨_, h'⟩ := runHook_of_ewp (slashHooks_spec hK hI) h
    exact h'
  | ValidatorRemoved valAddr staking =>
    -- the staking module removes a validator once its delegations are gone
    have hno : ∀ del, s.startingInfos.lookup (valAddr, del) = none := fun del => by
      cases hl : s.startingInfos.lookup (valAddr, del) with
      | none => rfl
      | some i =>
        have hmem : (valAddr, del) ∈ s.startingInfos.keys :=
          AList.mem_keys.mpr (AList.lookup_isSome.mp (by rw [hl]; rfl))
        exact absurd rfl (hadm _ hmem)
    obtain ⟨_, h'⟩ := runHook_of_ewp (AfterValidatorRemoved_spec (hI.setStaking staking) hno) h
    exact h'
  | Staking staking =>
    cases h
    exact hI.setStaking staking

theorem counted_genesis (p : Params) (accounts : Bank.Balances) (staking : σ) :
    Counted (genesisState p accounts staking) := by
  have hzero : ∀ v p', references (genesisState p accounts staking) v p' = 0 := fun _ _ => rfl
  refine ⟨fun v p' => by rw [hzero]; rfl, fun v p' => by rw [hzero]; exact Nat.zero_le _,
    fun _ _ h => ?_, fun _ _ _ h => ?_, fun _ _ _ _ h => ?_⟩ <;> cases h

theorem Reachable.counted (hK : sk.Keyed) (hs : Reachable sk k s) : Counted s :=
  Reachable.induction sk k (fun p accounts staking _ _ => counted_genesis p accounts staking)
    (fun _ _ e hI hadm h => hI.step hK e hadm h) hs

/-- Over every run, each historical record counts exactly what references it (the running
period of its validator, the delegations that started after it, the slash events that ended
it), which is one or two; a record is stored exactly when something references it. -/
theorem reachable_referenceCount (hK : sk.Keyed) (hs : Reachable sk k s) (val : Address) (period : Nat) :
    ((s.historicalRewards.lookup (val, period)).isSome ↔ 0 < references s val period) ∧
      ∀ h, s.historicalRewards.lookup (val, period) = some h →
        h.ReferenceCount = references s val period ∧ h.ReferenceCount ≤ 2 := by
  have hI := hs.counted hK
  refine ⟨⟨fun hsome => ?_, fun hpos => ?_⟩, fun h hh => ?_⟩
  · obtain ⟨h, hh⟩ := Option.isSome_iff_exists.mp hsome
    exact (hI.stored hh).2
  · obtain ⟨h, hh, -⟩ := hI.exists_stored hpos
    rw [hh]
    rfl
  · obtain ⟨hrc, -⟩ := hI.stored hh
    exact ⟨hrc.symm, hrc ▸ hI.bounded val period⟩

theorem reachable_referenceCount_solo :
    ((soloStore.historicalRewards.lookup (soloValidator, 1)).isSome ↔ 0 < references soloStore soloValidator 1) ∧
      ∀ h, soloStore.historicalRewards.lookup (soloValidator, 1) = some h →
        h.ReferenceCount = references soloStore soloValidator 1 ∧ h.ReferenceCount ≤ 2 :=
  reachable_referenceCount soloStaking_keyed soloStore_reachable soloValidator 1

/-- The period the delegation started after is referenced by it and by the running period. -/
example : (soloStore.historicalRewards.lookup (soloValidator, 1)).map (·.ReferenceCount) = some 2 := rfl

/-- `ReferenceCountInvariant` over every run: the counts of all records add up to the number of
validators, delegations and slash events the module keeps. -/
theorem reachable_referenceCount_total (hK : sk.Keyed) (hs : Reachable sk k s) :
    s.historicalRewards.sumBy (fun _ h => h.ReferenceCount) =
      s.currentRewards.entries.length + s.startingInfos.entries.length + s.slashEvents.entries.length :=
  (hs.counted hK).sum_referenceCount

theorem reachable_referenceCount_total_solo :
    soloStore.historicalRewards.sumBy (fun _ h => h.ReferenceCount) =
      soloStore.currentRewards.entries.length + soloStore.startingInfos.entries.length +
        soloStore.slashEvents.entries.length :=
  reachable_referenceCount_total soloStaking_keyed soloStore_reachable

end Runs

end Distribution

end Dipper
