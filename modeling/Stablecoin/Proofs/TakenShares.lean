/-
  Stablecoin theory — taking shares in.

  What was spread belongs to a trove before it stands in its record.  So taking the
  share in changes nothing that can be told of a trove or of the system, and it does
  not matter who does it first.

  * `Redistribution.settled` is the record that a trove goes on with.  It depends on
    nothing but the sums and the record, and taking a share in writes it and moves the
    share between two pools (`State.realize_settled`);
  * `State.Payable`: every share can be taken in, and then all others still can
    (`Payable.exists_realize`); nothing that is told of troves and of the system
    changes (`Payable.unnoticed`);
  * `State.realize_comm`: two owners can take their shares in in either order, and so
    can the owners of a list (`Payable.realizeInTurn_perm`).
-/
import Stablecoin.Proofs.SystemTotals

namespace Stablecoin

/-! ## Pools -/

namespace Pools

variable {p p₁ p₂ p₁₂ p₂₁ : Pools} {coll debt coll' debt' : Amount}

theorem realized_zero (p : Pools) : p.realized 0 0 = .ok p :=
  realized_eq_ok_iff.2
    ⟨Balance.increased_eq_ok_iff.2 ⟨rfl, rfl⟩, Balance.decreased_eq_ok_iff.2 ⟨rfl, rfl⟩, rfl, rfl⟩

/-- Two shares can be moved in either order. -/
theorem realized_comm (h₁ : p.realized coll debt = .ok p₁) (h₁₂ : p₁.realized coll' debt' = .ok p₁₂)
    (h₂ : p.realized coll' debt' = .ok p₂) (h₂₁ : p₂.realized coll debt = .ok p₂₁) :
    p₁₂ = p₂₁ := by
  obtain ⟨ha₁, hd₁, hs₁, hk₁⟩ := realized_eq_ok_iff.1 h₁
  obtain ⟨ha₁₂, hd₁₂, hs₁₂, hk₁₂⟩ := realized_eq_ok_iff.1 h₁₂
  obtain ⟨ha₂, hd₂, hs₂, hk₂⟩ := realized_eq_ok_iff.1 h₂
  obtain ⟨ha₂₁, hd₂₁, hs₂₁, hk₂₁⟩ := realized_eq_ok_iff.1 h₂₁
  have hactive := Balance.increased_comm ha₁ ha₁₂ ha₂ ha₂₁
  have hdefault := Balance.decreased_comm hd₁ hd₁₂ hd₂ hd₂₁
  have hsurplus : p₁₂.surplus = p₂₁.surplus := by rw [hs₁₂, hs₁, hs₂₁, hs₂]
  have hkept : p₁₂.stakingColl = p₂₁.stakingColl := by rw [hk₁₂, hk₁, hk₂₁, hk₂]
  cases p₁₂
  cases p₂₁
  rw [Pools.mk.injEq]
  exact ⟨hactive, hdefault, hsurplus, hkept⟩

end Pools

/-! ## Records -/

namespace Redistribution

variable {r : Redistribution} {t t' : Trove} {share : PendingShare}

/-- What waits for a trove, and the record that it goes on with once that is taken in. -/
def settled (r : Redistribution) (t : Trove) : Attempt (PendingShare × Trove) :=
  if r.isBehind t then do
    let waiting ← r.pending t
    let coll ← t.coll.add waiting.coll
    let debt ← t.debt.add waiting.debt
    return (waiting, { t with coll := coll, debt := debt, snapshot := r.snapshot })
  else return (.none, t)

/-- The record has seen all, and says the same of stake and status. -/
theorem settled_ok (h : r.settled t = .ok (share, t')) :
    r.isBehind t' = false ∧ t'.stake = t.stake ∧ t'.status = t.status := by
  unfold settled at h
  split at h
  · simp only [bind_eq_ok_iff, pure_eq_ok_iff, Prod.mk.injEq] at h
    obtain ⟨_, -, _, -, _, -, -, rfl⟩ := h
    refine ⟨?_, rfl, rfl⟩
    simp [isBehind, snapshot, Amount.lt_iff_val_lt]
  · next hb =>
    obtain ⟨-, rfl⟩ := Prod.mk.inj (pure_eq_ok_iff.1 h)
    exact ⟨Bool.eq_false_iff.2 hb, rfl, rfl⟩

end Redistribution

namespace State

variable {s s' s₁ s₂ s₁₂ s₂₁ : State} {owner other : Address} {owners others : List Address}
  {t t' : Trove} {share share' : PendingShare}

/-! ## One share -/

/-- **Taking a share in writes the settled record, and moves the share between two pools.** -/
theorem realize_settled (h : s.realize owner = .ok (share, s')) : ∃ t t' pools,
    s.activeAt owner = some t ∧ s.spread.settled t = .ok (share, t') ∧
      s.pools.realized share.coll share.debt = .ok pools ∧
      s' = { s.withTrove owner t' with pools := pools } := by
  obtain ⟨t, ht, ⟨coll, debt, pools, hb, hs, hcoll, hdebt, hpools, rfl⟩ | ⟨hb, rfl, rfl⟩⟩ :=
    realize_cases h
  · rw [activeTrove_eq_ok] at ht
    refine ⟨t, _, pools, ht, ?_, hpools, rfl⟩
    rw [Redistribution.settled, if_pos hb]
    simp only [bind_eq_ok_iff, pure_eq_ok_iff, Amount.add_eq_ok_iff]
    exact ⟨share, hs, coll, hcoll, debt, hdebt, rfl⟩
  · rw [activeTrove_eq_ok] at ht
    refine ⟨t, t, s'.pools, ht, ?_, s'.pools.realized_zero, ?_⟩
    · rw [Redistribution.settled, if_neg (Bool.eq_false_iff.1 hb)]
      rfl
    · -- the record is written as it stands
      rw [withTrove, Table.insert_get? (Option.filter_eq_some_iff.1 ht).1]

/-- Nothing is waiting for the active trove of an owner. -/
def UpToDate (s : State) (owner : Address) : Prop :=
  ∃ t, s.activeAt owner = some t ∧ s.spread.isBehind t = false

/-- Where nothing is waiting, nothing is done. -/
theorem UpToDate.realize_eq (h : s.UpToDate owner) : s.realize owner = .ok (.none, s) := by
  obtain ⟨t, ht, hb⟩ := h
  rw [realize, activeTrove_eq_ok.2 ht]
  show (if s.spread.isBehind t = true then _ else _) = _
  rw [if_neg (Bool.eq_false_iff.1 hb)]
  rfl

theorem upToDate_of_realize (h : s.realize owner = .ok (share, s')) : s'.UpToDate owner := by
  obtain ⟨t, t', pools, ht, hs, -, rfl⟩ := realize_settled h
  obtain ⟨hb, -, hstatus⟩ := Redistribution.settled_ok hs
  have hactive : t'.isActive = true := by
    rw [Trove.isActive, hstatus]
    exact isActive_of_activeAt ht
  refine ⟨t', ?_, hb⟩
  rw [activeAt, trove, withTrove, Table.get?_insert_of, if_pos rfl]
  exact filter_active hactive

/-- What is done for one owner does not put another behind. -/
theorem UpToDate.realize (h : s.UpToDate other) (hr : s.realize owner = .ok (share, s')) :
    s'.UpToDate other := by
  by_cases ho : other = owner
  · exact ho ▸ upToDate_of_realize hr
  · obtain ⟨t, ht, hb⟩ := h
    obtain ⟨_, _, hr⟩ := exists_realization hr
    refine ⟨t, ?_, ?_⟩
    · rw [hr.replaced.others_eq other ho, ht]
    · rw [hr.sums_eq, hb]

/-! ## Two shares -/

/-- **Two owners can take their shares in in either order.** -/
theorem realize_comm (hne : owner ≠ other) {share₂ share₂' : PendingShare}
    (h₁ : s.realize owner = .ok (share, s₁)) (h₁₂ : s₁.realize other = .ok (share', s₁₂))
    (h₂ : s.realize other = .ok (share₂', s₂)) (h₂₁ : s₂.realize owner = .ok (share₂, s₂₁)) :
    s₁₂ = s₂₁ := by
  obtain ⟨_, _, hr₁⟩ := exists_realization h₁
  obtain ⟨_, _, hr₂⟩ := exists_realization h₂
  have hother := hr₁.replaced.others_eq other hne.symm
  have howner := hr₂.replaced.others_eq owner hne
  obtain ⟨t, t', pools₁, ht, hs₁, hp₁, rfl⟩ := realize_settled h₁
  obtain ⟨u, u', pools₂, hu, hs₂, hp₂, rfl⟩ := realize_settled h₂
  obtain ⟨u₁, u₁', pools₁₂, hu₁, hs₁₂, hp₁₂, rfl⟩ := realize_settled h₁₂
  obtain ⟨t₂, t₂', pools₂₁, ht₂, hs₂₁, hp₂₁, rfl⟩ := realize_settled h₂₁
  obtain rfl : u₁ = u := by rwa [hother, hu, Option.some.injEq, eq_comm] at hu₁
  obtain rfl : t₂ = t := by rwa [howner, ht, Option.some.injEq, eq_comm] at ht₂
  -- the sums are the same throughout, so that shares and records are
  obtain ⟨rfl, rfl⟩ := Prod.mk.inj (Except.ok.inj (hs₁₂.symm.trans hs₂))
  obtain ⟨rfl, rfl⟩ := Prod.mk.inj (Except.ok.inj (hs₂₁.symm.trans hs₁))
  obtain rfl := Pools.realized_comm hp₁ hp₁₂ hp₂ hp₂₁
  rw [State.mk.injEq]
  exact ⟨Table.insert_comm _ hne _ _, rfl, rfl, rfl, rfl, rfl, rfl⟩

/-! ## Shares that can be taken in -/

/-- The pools hold what they have to, so that every share can be taken in. -/
structure Payable (s : State) : Prop where
  covered : s.Covered
  totalled : s.Totalled
  booked : s.Booked fun _ => 0

theorem Payable.realization (hs : s.Payable) (h : s.Realization owner share t t' s') :
    s'.Payable where
  covered := hs.covered.realization h
  totalled := hs.totalled.of_le fun side => (h.system_eq side).le
  booked := hs.booked.realization h

/-- **An owner of an active trove can take its share in,** and then everybody still can. -/
theorem Payable.exists_realize (hs : s.Payable) (hactive : s.isActive owner = true) :
    ∃ share s', s.realize owner = .ok (share, s') ∧ s'.Payable ∧
      ∀ other, s'.isActive other = s.isActive other := by
  obtain ⟨t, ht⟩ := isActive_iff.1 hactive
  have hrealize : ∃ share s', s.realize owner = .ok (share, s') := by
    by_cases hb : s.spread.isBehind t = true
    · obtain ⟨share, pools, coll, debt, hshare, hpools, hcoll, hdebt⟩ :=
        exists_taken hs.totalled hs.covered hs.booked ht
      refine ⟨share, { s.withTrove owner
        { t with coll := coll, debt := debt, snapshot := s.spread.snapshot } with
          pools := pools }, ?_⟩
      rw [realize, activeTrove_eq_ok.2 ht]
      simp only [bind_eq_ok_iff]
      refine ⟨t, rfl, ?_⟩
      rw [if_pos hb]
      simp only [bind_eq_ok_iff, pure_eq_ok_iff]
      exact ⟨share, hshare, coll, hcoll, debt, hdebt, pools, hpools, rfl⟩
    · exact ⟨_, _, UpToDate.realize_eq ⟨t, ht, Bool.eq_false_iff.2 hb⟩⟩
  obtain ⟨share, s', h⟩ := hrealize
  obtain ⟨_, _, hr⟩ := exists_realization h
  exact ⟨share, s', h, hs.realization hr, hr.isActive_eq⟩

/-! ## What is told of troves and the system -/

/-- Nothing that is told of troves and of the system tells one state from the other.  They may
differ in the record of one owner, and in what is in the active and what in the default pool. -/
structure Unnoticed (s : State) (owner : Address) (s' : State) : Prop where
  exists_contents : ∀ other, s.isActive other = true →
    ∃ held, s.contents other = .ok held ∧ s'.contents other = .ok held
  stake_eq : ∀ other, (s'.trove other).map Trove.stake = (s.trove other).map Trove.stake
  status_eq : ∀ other, s'.status other = s.status other
  others_eq : ∀ other, other ≠ owner → s'.trove other = s.trove other
  systemColl_eq : ∃ coll, s.systemColl = .ok coll ∧ s'.systemColl = .ok coll
  systemDebt_eq : ∃ debt, s.systemDebt = .ok debt ∧ s'.systemDebt = .ok debt
  /-- The sums, the carried remainders, and the sum of the stakes. -/
  spread_eq : s'.spread = s.spread
  rest_eq : s' = { s with
    troves := s'.troves,
    pools := { s.pools with active := s'.pools.active, default := s'.pools.default } }

/-- The record of the owner is written with the same stake and status. -/
theorem trove_realize (h : s.realize owner = .ok (share, s')) (other : Address) :
    (s'.trove other).map Trove.stake = (s.trove other).map Trove.stake ∧
      (s'.trove other).map Trove.status = (s.trove other).map Trove.status ∧
      (other ≠ owner → s'.trove other = s.trove other) := by
  obtain ⟨t, t', pools, ht, hs, -, rfl⟩ := realize_settled h
  obtain ⟨-, hstake, hstatus⟩ := Redistribution.settled_ok hs
  have htrove : s.trove owner = some t := (Option.filter_eq_some_iff.1 ht).1
  by_cases ho : other = owner
  · subst ho
    have hnew : State.trove { s.withTrove other t' with pools := pools } other = some t' := by
      rw [trove, withTrove, Table.get?_insert_of, if_pos rfl]
    rw [hnew, htrove, Option.map_some, Option.map_some, Option.map_some, Option.map_some, hstake,
      hstatus]
    exact ⟨rfl, rfl, fun hne => absurd rfl hne⟩
  · have hsame : State.trove { s.withTrove owner t' with pools := pools } other = s.trove other := by
      rw [trove, withTrove, Table.get?_insert_of, if_neg ho]
      rfl
    rw [hsame]
    exact ⟨rfl, rfl, fun _ => rfl⟩

/-- **Taking a share in goes unnoticed.** -/
theorem Payable.unnoticed (hs : s.Payable) (h : s.realize owner = .ok (share, s')) :
    s.Unnoticed owner s' := by
  obtain ⟨_, _, hr⟩ := exists_realization h
  have htotal : ∀ side, ∃ amount : Amount,
      amount.val = s.pools.system side ∧ amount.val = s'.pools.system side := by
    intro side
    obtain ⟨amount, hamount⟩ := Amount.exists_val_eq (hs.totalled side)
    exact ⟨amount, hamount, hamount.trans (hr.system_eq side).symm⟩
  constructor
  case exists_contents =>
    intro other hactive
    obtain ⟨t, ht⟩ := isActive_iff.1 hactive
    obtain ⟨whole, hwhole, -⟩ := exists_entire hs.totalled hs.covered hs.booked ht
    have hheld := contents_of_entire hwhole
    exact ⟨_, hheld, (hr.contents_eq hs.covered other).trans hheld⟩
  case stake_eq => exact fun other => (trove_realize h other).1
  case status_eq => exact fun other => congrArg (·.getD .nonExistent) (trove_realize h other).2.1
  case others_eq => exact fun other => (trove_realize h other).2.2
  case systemColl_eq =>
    obtain ⟨coll, hbefore, hafter⟩ := htotal .coll
    exact ⟨coll, systemColl_eq_ok_iff.2 hbefore, systemColl_eq_ok_iff.2 hafter⟩
  case systemDebt_eq =>
    obtain ⟨debt, hbefore, hafter⟩ := htotal .debt
    exact ⟨debt, systemDebt_eq_ok_iff.2 hbefore, systemDebt_eq_ok_iff.2 hafter⟩
  case spread_eq => exact hr.sums_eq
  case rest_eq =>
    obtain ⟨t, t', pools, -, -, hpools, rfl⟩ := realize_settled h
    obtain ⟨-, -, hsurplus, hkept⟩ := Pools.realized_eq_ok_iff.1 hpools
    obtain ⟨active, default, surplus, kept⟩ := pools
    obtain rfl : surplus = s.pools.surplus := hsurplus
    obtain rfl := hkept
    rfl

/-! ## Many shares -/

/-- Owners take their shares in, one after the other. -/
def realizeInTurn (s : State) (owners : List Address) : Attempt State :=
  owners.foldlM (fun s owner => return (← s.realize owner).2) s

theorem realizeInTurn_cons (h : s.realize owner = .ok (share, s')) (rest : List Address) :
    s.realizeInTurn (owner :: rest) = s'.realizeInTurn rest := by
  rw [realizeInTurn, List.foldlM_cons, h]
  rfl

/-- All of them can, and then nothing waits for them. -/
theorem Payable.exists_realizeInTurn (hs : s.Payable)
    (hactive : ∀ owner ∈ owners, s.isActive owner = true) : ∃ s',
    s.realizeInTurn owners = .ok s' ∧ ∀ owner, owner ∈ owners ∨ s.UpToDate owner →
      s'.UpToDate owner := by
  induction owners generalizing s with
  | nil => exact ⟨s, rfl, fun owner h => h.resolve_left List.not_mem_nil⟩
  | cons first rest ih =>
    obtain ⟨hfirst, hrest⟩ := List.forall_mem_cons.1 hactive
    obtain ⟨share, s₁, h₁, hs₁, hsame⟩ := hs.exists_realize hfirst
    obtain ⟨s', h', hseen⟩ := ih hs₁ fun owner ho => (hsame owner).trans (hrest owner ho)
    refine ⟨s', (realizeInTurn_cons h₁ rest).trans h', ?_⟩
    rintro owner (ho | ho)
    · obtain rfl | ho := List.mem_cons.1 ho
      · exact hseen owner (Or.inr (upToDate_of_realize h₁))
      · exact hseen owner (Or.inl ho)
    · exact hseen owner (Or.inr (ho.realize h₁))

/-- **The order does not matter.** -/
theorem Payable.realizeInTurn_perm (hs : s.Payable) (h : owners.Perm others)
    (hactive : ∀ owner ∈ owners, s.isActive owner = true) :
    s.realizeInTurn owners = s.realizeInTurn others := by
  induction h generalizing s with
  | nil => rfl
  | cons first _ ih =>
    obtain ⟨hfirst, hrest⟩ := List.forall_mem_cons.1 hactive
    obtain ⟨share, s₁, h₁, hs₁, hsame⟩ := hs.exists_realize hfirst
    rw [realizeInTurn_cons h₁, realizeInTurn_cons h₁]
    exact ih hs₁ fun owner ho => (hsame owner).trans (hrest owner ho)
  | swap a b rest =>
    by_cases hab : a = b
    · rw [hab]
    obtain ⟨hb, ha, -⟩ : s.isActive b = true ∧ s.isActive a = true ∧
        ∀ owner ∈ rest, s.isActive owner = true := by
      rwa [List.forall_mem_cons, List.forall_mem_cons] at hactive
    obtain ⟨_, sa, hsa, hpa, hsamea⟩ := hs.exists_realize ha
    obtain ⟨_, sab, hsab, -⟩ := hpa.exists_realize ((hsamea b).trans hb)
    obtain ⟨_, sb, hsb, hpb, hsameb⟩ := hs.exists_realize hb
    obtain ⟨_, sba, hsba, -⟩ := hpb.exists_realize ((hsameb a).trans ha)
    rw [realizeInTurn_cons hsb, realizeInTurn_cons hsba, realizeInTurn_cons hsa,
      realizeInTurn_cons hsab, realize_comm hab hsa hsab hsb hsba]
  | trans hleft _ ihleft ihright =>
    rw [ihleft hs hactive]
    exact ihright hs fun owner ho => hactive owner (hleft.mem_iff.2 ho)

end State

namespace Ledger

/-! ## Runs -/

variable {params : Parameters} {accounts : ProtocolAccounts} {feed : PriceFeed} {token : TokenBook}
  {ranking : Ranking} {l : Ledger} {owner : Address} {owners others : List Address}

theorem after_payable (h : new params accounts feed token ranking = .ok l)
    (commands : List Command) : (l.after commands).state.Payable :=
  ⟨after_covered h commands, after_totalled h commands, after_booked h commands⟩

/-- **Taking a share in goes unnoticed, and is done once.**  After any commands an owner of an active
trove can do so; it changes nothing that is told of troves and of the system; then nothing waits for
the owner, and a second time nothing is taken in and nothing is written. -/
theorem realized_unnoticed (h : new params accounts feed token ranking = .ok l)
    (commands : List Command) (hactive : (l.after commands).state.isActive owner = true) :
    ∃ share next, (l.after commands).state.realize owner = .ok (share, next) ∧
      (l.after commands).state.Unnoticed owner next ∧ next.UpToDate owner ∧
      next.realize owner = .ok (.none, next) := by
  have hs := after_payable h commands
  obtain ⟨share, next, hnext, -⟩ := hs.exists_realize hactive
  have hseen := State.upToDate_of_realize hnext
  exact ⟨share, next, hnext, hs.unnoticed hnext, hseen, hseen.realize_eq⟩

/-- What was spread of a liquidated trove waits for the only other one. -/
theorem realized_unnoticed_firstSpread : ∃ l share next,
    starting .standard twoThousand = .ok l ∧
    (l.after firstSpread).state.realize ⟨2, by decide⟩ = .ok (share, next) ∧
    share.coll.val = 2_985_000_000_000_000_000 ∧
    (l.after firstSpread).state.Unnoticed ⟨2, by decide⟩ next ∧ next.UpToDate ⟨2, by decide⟩ ∧
    next.realize ⟨2, by decide⟩ = .ok (.none, next) := by
  obtain ⟨l, h⟩ : ∃ l, starting .standard twoThousand = .ok l := ⟨_, starting_standard _⟩
  obtain ⟨hactive, hshare⟩ : (l.after firstSpread).state.isActive ⟨2, by decide⟩ = true ∧
      ((l.after firstSpread).state.realize ⟨2, by decide⟩).map (·.1.coll.val) =
        .ok 2_985_000_000_000_000_000 := by
    rw [starting_eq h]
    decide +kernel
  obtain ⟨share, next, hnext, hunnoticed, hseen, htwice⟩ := realized_unnoticed h firstSpread hactive
  rw [hnext] at hshare
  exact ⟨l, share, next, h, hnext, Except.ok.inj hshare, hunnoticed, hseen, htwice⟩

/-- **The order in which shares are taken in does not matter.**  After any commands, owners of active
troves, each as often as it comes up, can take their shares in one after the other, and in every
order they end with the same state, in which nothing waits for them. -/
theorem realizedInTurn_perm (h : new params accounts feed token ranking = .ok l)
    (commands : List Command)
    (hactive : ∀ owner ∈ owners, (l.after commands).state.isActive owner = true)
    (hperm : owners.Perm others) : ∃ next,
    (l.after commands).state.realizeInTurn owners = .ok next ∧
      (l.after commands).state.realizeInTurn others = .ok next ∧
      ∀ owner ∈ owners, next.UpToDate owner := by
  have hs := after_payable h commands
  obtain ⟨next, hnext, hseen⟩ := hs.exists_realizeInTurn hactive
  exact ⟨next, hnext, (hs.realizeInTurn_perm hperm hactive).symm.trans hnext,
    fun owner ho => hseen owner (Or.inl ho)⟩

/-- Two owners share what was spread, and one of them comes twice. -/
theorem realizedInTurn_perm_twoSharing : ∃ l next, starting .standard twoThousand = .ok l ∧
    (l.after twoSharing).state.realizeInTurn
        [⟨2, by decide⟩, ⟨3, by decide⟩, ⟨2, by decide⟩] = .ok next ∧
    (l.after twoSharing).state.realizeInTurn
        [⟨3, by decide⟩, ⟨2, by decide⟩, ⟨2, by decide⟩] = .ok next ∧
    next ≠ (l.after twoSharing).state := by
  obtain ⟨l, h⟩ : ∃ l, starting .standard twoThousand = .ok l := ⟨_, starting_standard _⟩
  obtain ⟨hactive, hbehind⟩ :
      (∀ owner ∈ ([⟨2, by decide⟩, ⟨3, by decide⟩, ⟨2, by decide⟩] : List Address),
        (l.after twoSharing).state.isActive owner = true) ∧
      (l.after twoSharing).state.realizeInTurn
        [⟨2, by decide⟩, ⟨3, by decide⟩, ⟨2, by decide⟩] ≠ .ok (l.after twoSharing).state := by
    rw [starting_eq h]
    decide +kernel
  obtain ⟨next, hnext, hother, -⟩ := realizedInTurn_perm h twoSharing hactive
    (List.Perm.swap _ _ _)
  refine ⟨l, next, h, hnext, hother, ?_⟩
  rintro rfl
  exact hbehind hnext

end Ledger

end Stablecoin
