/-
  Stablecoin theory — changes of a ranking, made in turn.

  A change sets or takes away the ratio of one owner (`RankChange.ratioAfter`).
  On a sound ranking a change that passes its check is refused in one case only:
  where the ratio is zero (`RankChange.exists_apply`).  What a refusal leaves
  differs: an insertion leaves the ranking as it was, but a reinsertion has taken
  the trove out before it is refused (`RankChange.reinsert_zero`).

  `RankChange.applyInTurn_ok`, `exists_applyInTurn` and `applyInTurn_error_iff`
  say the same of several changes of different owners.
-/
import Stablecoin.Proofs.Rankings
import Stablecoin.Ledger.Draft

namespace Stablecoin.RankChange

/-- Whose place is changed. -/
def owner : RankChange → Address
  | insert owner _ _ | reinsert owner _ _ | remove owner => owner

/-- The ratio of the owner after the change. -/
def ratioAfter : RankChange → Option Amount
  | insert _ ratio _ | reinsert _ ratio _ => some ratio
  | remove _ => none

variable {r r' : Ranking} {c : RankChange} {changes : List RankChange} {who : Address}
  {ratio : Amount} {hints : Hints}

/-! ## One change -/

theorem check_insert : check r (insert who ratio hints) = .ok () ↔ r.ratioOf who = none :=
  demand_eq_ok_iff.trans Ranking.contains_eq_false_iff

theorem check_reinsert :
    check r (reinsert who ratio hints) = .ok () ↔ ∃ k, r.ratioOf who = some k :=
  demand_eq_ok_iff.trans Ranking.contains_iff

theorem check_remove : check r (remove who) = .ok () ↔ ∃ k, r.ratioOf who = some k :=
  demand_eq_ok_iff.trans Ranking.contains_iff

theorem check_congr (h : r'.ratioOf c.owner = r.ratioOf c.owner) : c.check r' = c.check r := by
  have hcontains : r'.contains c.owner = r.contains c.owner := congrArg Option.isSome h
  cases c <;> simp only [owner] at hcontains <;> simp only [check, hcontains]

theorem insert_ratio_ne_zero (h : r.insert who ratio hints = .ok r') :
    r.ratioOf who = none ∧ ratio ≠ 0 := by
  simp only [Ranking.insert, bind_eq_ok_iff] at h
  obtain ⟨_, hc, _, h0, -⟩ := h
  exact ⟨Ranking.contains_eq_false_iff.1 (demand_eq_ok_iff.1 hc), demand_eq_ok_iff.1 h0⟩

/-- Even on a ranking that is not sound, no change sets a ratio of zero. -/
theorem apply_ratio_ne_zero (ha : c.apply r = (.ok (), r')) : c.ratioAfter ≠ some 0 := by
  cases c with
  | insert who ratio hints =>
    obtain ⟨-, h0⟩ := insert_ratio_ne_zero (settle_eq_ok_iff.1 ha)
    exact fun hz => h0 (Option.some.inj hz)
  | reinsert who ratio hints =>
    rw [apply, Ranking.reinsert] at ha
    split at ha
    · cases ha
    · obtain ⟨-, h0⟩ := insert_ratio_ne_zero (settle_eq_ok_iff.1 ha)
      exact fun hz => h0 (Option.some.inj hz)
  | remove who => nofun

theorem insert_zero (hints : Hints) : ∃ stop, r.insert who 0 hints = .error stop := by
  cases h : r.insert who 0 hints with
  | error stop => exact ⟨stop, rfl⟩
  | ok r' => exact absurd rfl (insert_ratio_ne_zero h).2

/-- A trove is put back where its new ratio belongs. -/
theorem reinsert_ok (h : r.Sound) (hr : r.ratioOf who = some ratio) {new : Amount} (h0 : new ≠ 0)
    (hints : Hints) : ∃ r', r.reinsert who new hints = (.ok (), r') ∧ r'.Sound ∧
      ∀ other, r'.ratioOf other = if other = who then some new else r.ratioOf other := by
  obtain ⟨without, hremove, hsound, hwithout⟩ := h.remove_ok hr
  obtain ⟨r', hinsert, hsound', hratios⟩ :=
    hsound.insert_ok (by rw [hwithout, if_pos rfl]) h0 hints
  refine ⟨r', ?_, hsound', ?_⟩
  · unfold Ranking.reinsert
    rw [hremove]
    dsimp only
    rw [hinsert]
    rfl
  · intro other
    rw [hratios, hwithout]
    split <;> rfl

/-- **A trove whose new ratio is zero is lost:** it is taken out, and refused when it is put
back. -/
theorem reinsert_zero (h : r.Sound) (hr : r.ratioOf who = some ratio) (hints : Hints) :
    ∃ stop r', r.reinsert who 0 hints = (.error stop, r') ∧ r'.Sound ∧
      ∀ other, r'.ratioOf other = if other = who then none else r.ratioOf other := by
  obtain ⟨without, hremove, hsound, hwithout⟩ := h.remove_ok hr
  obtain ⟨stop, hinsert⟩ : ∃ stop, without.insert who 0 hints = .error stop := insert_zero hints
  refine ⟨stop, without, ?_, hsound, hwithout⟩
  unfold Ranking.reinsert
  rw [hremove]
  dsimp only
  rw [hinsert]
  rfl

theorem remove_missing (hr : r.ratioOf who = none) :
    r.remove who = .error (.refused (.troveNotFound who)) := by
  unfold Ranking.remove Ranking.placeOf
  rw [hr]
  rfl

/-- A change that passes its check is made, unless it sets a ratio of zero. -/
theorem exists_apply (h : r.Sound) (hc : c.check r = .ok ()) (h0 : c.ratioAfter ≠ some 0) :
    ∃ r', c.apply r = (.ok (), r') ∧ r'.Sound ∧
      ∀ other, r'.ratioOf other = if other = c.owner then c.ratioAfter else r.ratioOf other := by
  cases c with
  | insert who ratio hints =>
    obtain ⟨r', hi, hs, hr⟩ := h.insert_ok (check_insert.1 hc) (fun hz => h0 (congrArg some hz)) hints
    exact ⟨r', settle_eq_ok_iff.2 hi, hs, hr⟩
  | reinsert who ratio hints =>
    obtain ⟨k, hk⟩ := check_reinsert.1 hc
    exact reinsert_ok h hk (fun hz => h0 (congrArg some hz)) hints
  | remove who =>
    obtain ⟨k, hk⟩ := check_remove.1 hc
    obtain ⟨r', hi, hs, hr⟩ := h.remove_ok hk
    exact ⟨r', settle_eq_ok_iff.2 hi, hs, hr⟩

/-- A change that was made passed its check. -/
theorem check_of_apply (ha : c.apply r = (.ok (), r')) : c.check r = .ok () := by
  cases c with
  | insert who ratio hints =>
    obtain ⟨hc, -⟩ := insert_ratio_ne_zero (settle_eq_ok_iff.1 ha)
    exact check_insert.2 hc
  | reinsert who ratio hints =>
    cases hk : r.ratioOf who with
    | none =>
      simp only [apply, Ranking.reinsert, remove_missing hk, Prod.mk.injEq, reduceCtorEq,
        false_and] at ha
    | some k => exact check_reinsert.2 ⟨k, hk⟩
  | remove who =>
    cases hk : r.ratioOf who with
    | none =>
      simp only [apply, remove_missing hk, settle, Prod.mk.injEq, reduceCtorEq, false_and] at ha
    | some k => exact check_remove.2 ⟨k, hk⟩

theorem apply_ok (h : r.Sound) (ha : c.apply r = (.ok (), r')) : r'.Sound ∧
    ∀ other, r'.ratioOf other = if other = c.owner then c.ratioAfter else r.ratioOf other := by
  obtain ⟨_, ha', hs, hr⟩ := exists_apply h (check_of_apply ha) (apply_ratio_ne_zero ha)
  rw [ha, Prod.mk.injEq] at ha'
  obtain ⟨-, rfl⟩ := ha'
  exact ⟨hs, hr⟩

theorem apply_sound (h : r.Sound) (c : RankChange) : (c.apply r).2.Sound := by
  rcases ha : c.apply r with ⟨stop | ⟨⟩, r'⟩
  · cases c with
    | insert who ratio hints =>
      rw [settle_error ha]
      exact h
    | reinsert who ratio hints =>
      cases hk : r.ratioOf who with
      | none =>
        simp only [apply, Ranking.reinsert, remove_missing hk] at ha
        cases ha
        exact h
      | some k =>
        by_cases h0 : ratio = 0
        · obtain ⟨_, _, hzero, hs, -⟩ := reinsert_zero h hk hints
          rw [apply, h0, hzero] at ha
          cases ha
          exact hs
        · obtain ⟨_, hok, -⟩ := reinsert_ok h hk h0 hints
          rw [apply, hok] at ha
          cases ha
    | remove who =>
      rw [settle_error ha]
      exact h
  · exact (apply_ok h ha).1

/-! ## Several changes -/

theorem forM_check_iff : changes.forM (check r) = .ok () ↔ ∀ c ∈ changes, c.check r = .ok () := by
  induction changes with
  | nil => exact ⟨fun _ => nofun, fun _ => rfl⟩
  | cons c rest ih =>
    show (check r c >>= fun _ => rest.forM (check r)) = _ ↔ _
    rw [bind_eq_ok_iff, List.forall_mem_cons, ← ih]
    constructor
    · rintro ⟨⟨⟩, hc, hrest⟩
      exact ⟨hc, hrest⟩
    · rintro ⟨hc, hrest⟩
      exact ⟨(), hc, hrest⟩

theorem applyInTurn_sound (h : r.Sound) (changes : List RankChange) :
    (applyInTurn apply r changes).2.Sound := by
  induction changes generalizing r with
  | nil => exact h
  | cons c rest ih =>
    have hs := apply_sound h c
    rw [applyInTurn]
    split
    · next r' ha =>
      rw [ha] at hs
      exact ih hs
    · next r' ha =>
      rw [ha] at hs
      exact hs

/-- Changes that go through set no ratio of zero. -/
theorem applyInTurn_ratio_ne_zero (ha : applyInTurn apply r changes = (.ok (), r')) :
    ∀ c ∈ changes, c.ratioAfter ≠ some 0 := by
  induction changes generalizing r with
  | nil => nofun
  | cons c rest ih =>
    rw [applyInTurn] at ha
    split at ha
    · next hc => exact List.forall_mem_cons.2 ⟨apply_ratio_ne_zero hc, ih ha⟩
    · cases ha

/-- **What changes of different owners do that go through:** each sets the ratio of its owner. -/
theorem applyInTurn_ok (h : r.Sound) (hnodup : (changes.map owner).Nodup)
    (ha : applyInTurn apply r changes = (.ok (), r')) :
    (∀ c ∈ changes, r'.ratioOf c.owner = c.ratioAfter) ∧
      ∀ other, other ∉ changes.map owner → r'.ratioOf other = r.ratioOf other := by
  induction changes generalizing r with
  | nil =>
    cases ha
    exact ⟨nofun, fun _ _ => rfl⟩
  | cons c rest ih =>
    rw [applyInTurn] at ha
    split at ha
    · next r₁ hc =>
      obtain ⟨hfresh, hrest⟩ := List.nodup_cons.1 hnodup
      obtain ⟨hsound, hratios⟩ := apply_ok h hc
      obtain ⟨hset, hkept⟩ := ih hsound hrest ha
      refine ⟨List.forall_mem_cons.2 ⟨?_, hset⟩, ?_⟩
      · rw [hkept _ hfresh, hratios, if_pos rfl]
      · intro other hother
        rw [List.map_cons, List.mem_cons, not_or] at hother
        rw [hkept _ hother.2, hratios, if_neg hother.1]
    · cases ha

theorem check_after (hnodup : ((c :: changes).map owner).Nodup)
    (hratios : ∀ other, r'.ratioOf other = if other = c.owner then c.ratioAfter else r.ratioOf other)
    (hcheck : ∀ d ∈ changes, d.check r = .ok ()) : ∀ d ∈ changes, d.check r' = .ok () := by
  intro d hd
  have hne : d.owner ≠ c.owner := by
    intro heq
    exact (List.nodup_cons.1 hnodup).1 (heq ▸ List.mem_map_of_mem hd)
  have hsame : r'.ratioOf d.owner = r.ratioOf d.owner := by rw [hratios, if_neg hne]
  rw [check_congr hsame]
  exact hcheck d hd

/-- **Changes of different owners that pass their checks are all made,** unless one sets a ratio of
zero. -/
theorem exists_applyInTurn (h : r.Sound) (hnodup : (changes.map owner).Nodup)
    (hcheck : ∀ c ∈ changes, c.check r = .ok ()) (h0 : ∀ c ∈ changes, c.ratioAfter ≠ some 0) :
    ∃ r', applyInTurn apply r changes = (.ok (), r') := by
  induction changes generalizing r with
  | nil => exact ⟨r, rfl⟩
  | cons c rest ih =>
    obtain ⟨hc, hrest⟩ := List.forall_mem_cons.1 hcheck
    obtain ⟨hc0, hrest0⟩ := List.forall_mem_cons.1 h0
    obtain ⟨r₁, ha, hsound, hratios⟩ := exists_apply h hc hc0
    obtain ⟨r', hr'⟩ := ih hsound (List.nodup_cons.1 hnodup).2
      (check_after hnodup hratios hrest) hrest0
    refine ⟨r', ?_⟩
    rw [applyInTurn, ha]
    exact hr'

/-- **Where a reinsertion sets a ratio of zero, a trove is lost:** the changes stop there, after the
trove is taken out. -/
theorem applyInTurn_zero (h : r.Sound) (hnodup : (changes.map owner).Nodup)
    (hcheck : ∀ c ∈ changes, c.check r = .ok ()) (hinsert : ∀ who ratio hints,
      insert who ratio hints ∉ changes) (hzero : reinsert who 0 hints ∈ changes) :
    ∃ stop r' lost, applyInTurn apply r changes = (.error stop, r') ∧
      r.ratioOf lost ≠ none ∧ r'.ratioOf lost = none := by
  induction changes generalizing r with
  | nil => cases hzero
  | cons c rest ih =>
    obtain ⟨hc, hrest⟩ := List.forall_mem_cons.1 hcheck
    by_cases hc0 : c.ratioAfter = some 0
    · cases c with
      | insert who ratio hints => exact absurd List.mem_cons_self (hinsert who ratio hints)
      | remove who => cases hc0
      | reinsert who ratio hints =>
        obtain ⟨k, hk⟩ := check_reinsert.1 hc
        obtain ⟨stop, r', ha, -, hratios⟩ := reinsert_zero h hk hints
        refine ⟨stop, r', who, ?_, by rw [hk]; exact nofun, by rw [hratios, if_pos rfl]⟩
        rw [applyInTurn, apply, Option.some.inj hc0, ha]
    · obtain ⟨r₁, ha, hsound, hratios⟩ := exists_apply h hc hc0
      have hmem : reinsert who 0 hints ∈ rest := by
        rcases List.mem_cons.1 hzero with heq | hm
        · exact absurd (heq ▸ rfl) hc0
        · exact hm
      obtain ⟨stop, r', lost, hr', hlost, hgone⟩ := ih hsound (List.nodup_cons.1 hnodup).2
        (check_after hnodup hratios hrest)
        (fun who ratio hints hm => hinsert who ratio hints (List.mem_cons_of_mem _ hm)) hmem
      refine ⟨stop, r', lost, ?_, ?_, hgone⟩
      · rw [applyInTurn, ha]
        exact hr'
      · -- without insertions, whoever is ranked now was ranked before
        intro hnone
        apply hlost
        rw [hratios]
        split
        · next heq =>
          cases c with
          | insert who ratio hints => exact absurd List.mem_cons_self (hinsert who ratio hints)
          | remove who => rfl
          | reinsert who ratio hints =>
            obtain ⟨k, hk⟩ := check_reinsert.1 hc
            rw [heq] at hnone
            rw [owner, hk] at hnone
            cases hnone
        · exact hnone

/-- **A refusal leaves the ranking as it was, unless a reinsertion sets a ratio of zero.** -/
theorem applyInTurn_error_iff {stop : Stop} (h : r.Sound) (hnodup : (changes.map owner).Nodup)
    (hcheck : ∀ c ∈ changes, c.check r = .ok ())
    (halone : (∀ who ratio hints, insert who ratio hints ∉ changes) ∨
      ∃ who ratio hints, changes = [insert who ratio hints])
    (ha : applyInTurn apply r changes = (.error stop, r')) :
    r' = r ↔ ∀ who hints, reinsert who 0 hints ∉ changes := by
  obtain hinsert | ⟨who, ratio, hints, rfl⟩ := halone
  · -- without an insertion the refusal is at a reinsertion, and a trove is lost
    have hzero : ∃ who hints, reinsert who 0 hints ∈ changes := by
      by_contra hnone
      obtain ⟨_, hok⟩ := exists_applyInTurn h hnodup hcheck (by
        intro c hm hz
        cases c with
        | insert who ratio hints => exact hinsert who ratio hints hm
        | reinsert who ratio hints => exact hnone ⟨who, hints, Option.some.inj hz ▸ hm⟩
        | remove who => cases hz)
      rw [hok] at ha
      cases ha
    obtain ⟨who, hints, hm⟩ := hzero
    obtain ⟨_, _, lost, hstop, hlost, hgone⟩ := applyInTurn_zero h hnodup hcheck hinsert hm
    rw [hstop, Prod.mk.injEq] at ha
    obtain ⟨-, rfl⟩ := ha
    constructor
    · rintro rfl
      exact absurd hgone hlost
    · intro hnone
      exact absurd hm (hnone who hints)
  · -- an insertion that is refused has changed nothing
    rw [applyInTurn] at ha
    split at ha
    · cases ha
    next hinsert =>
    cases ha
    refine iff_of_true (settle_error hinsert) ?_
    intro who' hints' hm
    cases List.mem_singleton.1 hm

end Stablecoin.RankChange
