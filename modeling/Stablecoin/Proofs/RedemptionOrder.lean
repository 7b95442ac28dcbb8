/-
  Stablecoin theory — where a redemption begins, and whom it reaches.

  A redemption walks upward from one trove at the minimum ratio.  It finds that
  trove by searching from the last place, or takes a hint whose own ratio and that
  of its lower neighbour it has looked at.  Nobody else is looked at: that those
  further up are at the minimum, and those further down below it, is left to the
  ranking.

  * `Ledger.redemptionWalk_ok`: the walk is a trove at the minimum and all before it;
  * `Ledger.redeemed_at_minimum`: so whoever is drawn on is at the minimum, unless
    the ratios by which troves are ranked do not say so;
  * `Ledger.Misleads`: a hint leads to another trove than the search, or the search
    would not have come upon the ratios that the hint asks for;
  * `Ledger.hint_effect`: hints that do not mislead change nothing, and the others do.
-/
import Stablecoin.Proofs.RankedRatios
import Stablecoin.Proofs.RedemptionAccount

namespace Stablecoin.Ledger

variable {l : Ledger} {owner first lower other : Address} {price ratio ranked : Amount}
  {held : Balance} {r : RedeemRequest} {walk owners : List Address}

/-! ## Searching -/

/-- The ratio of a trove is an amount below the minimum. -/
def Below (l : Ledger) (price : Amount) (owner : Address) : Prop :=
  ∃ ratio, l.state.ratio owner price = .ok ratio ∧ ratio < l.params.minimumRatio

theorem Below.not_atMinimum (hprice : l.price = .ok price) (h : l.Below price owner) :
    ¬ l.AtMinimum owner := by
  obtain ⟨ratio, hratio, hlt⟩ := h
  rw [atMinimum_iff_of_ratio hprice hratio]
  exact Nat.not_le.2 hlt

/-- Below the minimum, the ratio of what a trove holds is an amount. -/
theorem Ranked.below (hr : l.Ranked owner ranked held) (hprice : l.price = .ok price)
    (hn : ¬ l.AtMinimum owner) : l.Below price owner := by
  have hcontents := hr.contents_eq
  simp only [State.contents, bind_eq_ok_iff, pure_eq_ok_iff] at hcontents
  obtain ⟨whole, hwhole, rfl⟩ := hcontents
  have hdebt := hr.debt_ne
  rw [hr.atMinimum_iff, Nat.not_le, ← price_eq_current hprice] at hn
  have hlt : whole.coll.val * price.val / whole.debt.val < l.params.minimumRatio.val :=
    Nat.div_lt_of_lt_mul (hn.trans_eq (Nat.mul_comm _ _))
  obtain ⟨ratio, hratio⟩ := Amount.exists_val_eq (hlt.trans l.params.minimumRatio.val_lt)
  refine ⟨ratio, ?_, ?_⟩
  · rw [State.ratio_of_entire hwhole]
    exact Amount.ratio_eq_ok_iff.2 (Or.inr ⟨hdebt, hratio⟩)
  · rw [Amount.lt_iff_val_lt, hratio]
    exact hlt

theorem skipBelow_append {below : List Address} (hb : ∀ o ∈ below, l.Below price o)
    (rest : List Address) : l.skipBelow price (below ++ rest) = l.skipBelow price rest := by
  induction below with
  | nil => rfl
  | cons o below ih =>
    obtain ⟨⟨ratio, hratio, hlt⟩, hbelow⟩ := List.forall_mem_cons.1 hb
    rw [List.cons_append, skipBelow, hratio]
    exact (if_neg (Nat.not_le.2 hlt)).trans (ih hbelow)

theorem skipBelow_cons (h : l.state.ratio owner price = .ok ratio)
    (hle : l.params.minimumRatio ≤ ratio) (rest : List Address) :
    l.skipBelow price (owner :: rest) = .ok (owner :: rest) := by
  rw [skipBelow, h]
  exact if_pos hle

/-- The search passes over troves below the minimum, and stops at the first that is not. -/
theorem skipBelow_ok (h : l.skipBelow price owners = .ok walk) :
    ∃ below, owners = below ++ walk ∧ (∀ o ∈ below, l.Below price o) ∧
      ∀ first rest, walk = first :: rest →
        ∃ ratio, l.state.ratio first price = .ok ratio ∧ l.params.minimumRatio ≤ ratio := by
  induction owners with
  | nil =>
    cases h
    exact ⟨[], rfl, List.forall_mem_nil _, nofun⟩
  | cons o rest ih =>
    simp only [skipBelow, bind_eq_ok_iff] at h
    obtain ⟨ratio, hratio, h⟩ := h
    split at h
    · next hle =>
      rw [pure_eq_ok_iff] at h
      subst h
      refine ⟨[], rfl, List.forall_mem_nil _, ?_⟩
      rintro _ _ ⟨⟩
      exact ⟨ratio, hratio, hle⟩
    · next hlt =>
      obtain ⟨below, hrest, hbelow, hwalk⟩ := ih h
      exact ⟨o :: below, congrArg (o :: ·) hrest,
        List.forall_mem_cons.2 ⟨⟨ratio, hratio, Nat.not_le.1 hlt⟩, hbelow⟩, hwalk⟩

/-! ## Taking a hint -/

/-- What is asked about a trove that is hinted at and ranked, once its ratio is known. -/
theorem isFirst_eq (hc : l.ranking.contains owner = true)
    (hratio : l.state.ratio owner price = .ok ratio) : l.isFirst (some owner) price =
      if ratio < l.params.minimumRatio then .ok false
      else match l.ranking.next owner with
        | none => .ok true
        | some lower => l.state.ratio lower price >>= fun ratio =>
            .ok (decide (ratio < l.params.minimumRatio)) := by
  rw [isFirst, if_pos hc, hratio]
  rfl

/-- A hint is followed if the trove that it names is at the minimum, and the one behind it below. -/
theorem isFirst_eq_ok_true {hint : Option Address} (h : l.isFirst hint price = .ok true) :
    ∃ owner ratio, hint = some owner ∧ l.ranking.contains owner = true ∧
      l.state.ratio owner price = .ok ratio ∧ l.params.minimumRatio ≤ ratio ∧
      ∀ lower, l.ranking.next owner = some lower → l.Below price lower := by
  unfold isFirst at h
  split at h
  · cases h
  next owner =>
  split at h
  case isFalse => cases h
  next hc =>
  simp only [bind_eq_ok_iff] at h
  obtain ⟨ratio, hratio, h⟩ := h
  split at h
  · cases h
  next hle =>
  refine ⟨owner, ratio, rfl, hc, hratio, Nat.not_lt.1 hle, ?_⟩
  intro lower hlower
  simp only [hlower, bind_eq_ok_iff, pure_eq_ok_iff, decide_eq_true_eq] at h
  exact h

/-! ## Walks -/

/-- The search begins at a trove at the minimum, and everybody behind it is below. -/
theorem skipBelow_owners {first : Address} {rest : List Address}
    (h : l.skipBelow price l.ranking.owners.reverse = .ok (first :: rest)) :
    ∃ low ratio, l.ranking.owners = rest.reverse ++ first :: low ∧
      (∀ other ∈ low, l.Below price other) ∧ l.state.ratio first price = .ok ratio ∧
      l.params.minimumRatio ≤ ratio := by
  obtain ⟨below, hreverse, hbelow, hwalk⟩ := skipBelow_ok h
  obtain ⟨ratio, hratio, hle⟩ := hwalk first rest rfl
  refine ⟨below.reverse, ratio, ?_, ?_, hratio, hle⟩
  · rw [← List.reverse_reverse l.ranking.owners, hreverse]
    simp
  · intro other ho
    exact hbelow other (List.mem_reverse.1 ho)

theorem redemptionWalk_none (hs : l.ranking.Sound) (price : Amount) :
    l.redemptionWalk none price = l.skipBelow price l.ranking.owners.reverse :=
  congrArg (l.skipBelow price) hs.upwardFrom_last

/-- **The walk is a trove at the minimum and all who stand before it,** the nearest first. -/
theorem redemptionWalk_ok {hint : Option Address} (hs : l.ranking.Sound)
    (hprice : l.price = .ok price) (h : l.redemptionWalk hint price = .ok walk) :
    walk = [] ∨ ∃ high first low, l.ranking.owners = high ++ first :: low ∧
      walk = first :: high.reverse ∧ l.AtMinimum first := by
  simp only [redemptionWalk, bind_eq_ok_iff] at h
  obtain ⟨hinted, hfirst, h⟩ := h
  cases hinted with
  | true =>
    rw [if_pos rfl, pure_eq_ok_iff] at h
    obtain ⟨owner, ratio, rfl, hc, hratio, hle, -⟩ := isFirst_eq_ok_true hfirst
    obtain ⟨high, low, he⟩ := List.append_of_mem (hs.mem_owners_iff.2 hc)
    refine Or.inr ⟨high, owner, low, he, ?_, (atMinimum_iff_of_ratio hprice hratio).2 hle⟩
    rw [← h, hs.upwardFrom_eq he]
  | false =>
    rw [if_neg Bool.false_ne_true, hs.upwardFrom_last] at h
    rcases walk with _ | ⟨first, rest⟩
    · exact Or.inl rfl
    · obtain ⟨low, ratio, he, -, hratio, hle⟩ := skipBelow_owners h
      refine Or.inr ⟨rest.reverse, first, low, he, ?_, ?_⟩
      · rw [List.reverse_reverse]
      · exact (atMinimum_iff_of_ratio hprice hratio).2 hle

/-- Whoever a redemption draws on is at the beginning of the walk. -/
theorem planRedemption_owners {plan : Plan Redeemed} (h : l.planRedemption r = .ok plan) :
    ∃ price walk, l.price = .ok price ∧ l.redemptionWalk r.firstHint price = .ok walk ∧
      plan.answer.owners <+: walk := by
  simp only [planRedemption, bind_eq_ok_iff, pure_eq_ok_iff] at h
  obtain ⟨_, -, price, hprice, _, -, _, -, _, -, _, -, walk, hwalk, w, hw, _, -, _, -, _, -, _, -,
    _, -, rfl⟩ := h
  refine ⟨price, walk, hprice, hwalk, ?_⟩
  obtain ⟨drawn, hdrawn, howners⟩ := draw_owners hw
  rw [List.nil_append] at howners
  dsimp only
  rw [howners]
  split at hdrawn
  · exact hdrawn
  · exact hdrawn.trans (List.take_prefix _ _)

/-- A redemption that is carried out has drawn on somebody. -/
theorem Redemption.owners_ne_nil {plan : Plan Redeemed} (q : Redemption l r plan)
    (hc : l.state.Covered) : plan.answer.owners ≠ [] := by
  obtain ⟨portions, hw⟩ := q.drew hc
  rw [q.answer_eq]
  intro hnil
  rw [hw.owners_eq, List.map_eq_nil_iff] at hnil
  have hdrawn := hw.drawn_eq
  rw [hnil, List.map_nil, List.sum_nil] at hdrawn
  exact q.drawn_ne (Amount.eq_zero_iff.2 hdrawn)

/-- **Whom a redemption reaches:** the trove at which its walk begins, which is at the minimum, and
of those who stand before it the nearest. -/
theorem exists_walk_of_plan {plan : Plan Redeemed} (hc : l.state.Covered) (hs : l.ranking.Sound)
    (h : l.planRedemption r = .ok plan) : ∃ price high first low rest, l.price = .ok price ∧
      l.redemptionWalk r.firstHint price = .ok (first :: high.reverse) ∧
      l.ranking.owners = high ++ first :: low ∧ plan.answer.owners = first :: rest ∧
      rest <+: high.reverse ∧ l.AtMinimum first := by
  obtain ⟨price, walk, hprice, hwalk, hprefix⟩ := planRedemption_owners h
  obtain ⟨q⟩ := exists_redemption h
  obtain ⟨first, rest, howners⟩ := List.exists_cons_of_ne_nil (q.owners_ne_nil hc)
  rw [howners] at hprefix
  obtain rfl | ⟨high, first', low, he, rfl, hm⟩ := redemptionWalk_ok hs hprice hwalk
  · cases List.prefix_nil.1 hprefix
  · obtain ⟨rfl, hrest⟩ := List.cons_prefix_cons.1 hprefix
    exact ⟨price, high, first, low, rest, hprice, hwalk, he, howners, hrest, hm⟩

theorem exists_plan_of_obey {answer : Option Answer}
    (h : (l.obey (.request (.redeem r))).1 = .ok answer) :
    ∃ plan, l.planRedemption r = .ok plan ∧ answer = some (.redeemed plan.answer) := by
  obtain ⟨plan, hplan, hanswer, -⟩ := obey_request_ok (Prod.ext h rfl)
  obtain ⟨redemption, hredemption, rfl⟩ := map_eq_ok_iff.1 hplan
  exact ⟨redemption, hredemption, hanswer⟩

/-! ## Who is drawn on -/

section

variable {start next : Ledger} {params : Parameters} {accounts : ProtocolAccounts}
  {feed : PriceFeed} {token : TokenBook} {commands : List Command} {details : Redeemed}

/-- **A redemption reaches only troves at the minimum ratio,** unless the ratios by which one of
them and the lowest are ranked do not say so.  The lowest is always at the minimum. -/
theorem redeemed_at_minimum (h : new params accounts feed token .empty = .ok start)
    (hok : start.Accepted commands) (hl : start.after commands = l)
    (hr : l.obey (.request (.redeem r)) = (.ok (some (.redeemed details)), next)) :
    ∃ high first low rest, l.ranking.owners = high ++ first :: low ∧
      details.owners = first :: rest ∧ rest <+: high.reverse ∧ l.AtMinimum first ∧
      ∀ owner ∈ rest, l.AtMinimum owner ∨ l.Misranks owner first := by
  subst hl
  obtain ⟨plan, hplan, hanswer⟩ := exists_plan_of_obey (congrArg Prod.fst hr)
  cases hanswer
  obtain ⟨price, high, first, low, rest, hprice, -, he, howners, hrest, hm⟩ :=
    exists_walk_of_plan (after_covered h commands) (after_inStep h hok).sound hplan
  refine ⟨high, first, low, rest, he, howners, hrest, hm, ?_⟩
  intro owner ho
  exact atMinimum_of_before h hok hprice
    (Ranking.before_of_mem he (List.mem_reverse.1 (hrest.subset ho))) hm

end

/-- Both troves are drawn on, the lower one first. -/
theorem redeemed_at_minimum_deepRedemption : ∃ start next details high first low rest,
    starting .standard twoThousand = .ok start ∧ start.Accepted lowerLast ∧
    (start.after lowerLast).obey (.request (.redeem deepRedemption)) =
      (.ok (some (.redeemed details)), next) ∧
    (start.after lowerLast).ranking.owners = high ++ first :: low ∧
    details.owners = first :: rest ∧ rest <+: high.reverse ∧
    (start.after lowerLast).AtMinimum first ∧
    ∀ owner ∈ rest, (start.after lowerLast).AtMinimum owner ∨
      (start.after lowerLast).Misranks owner first := by
  obtain ⟨start, h⟩ : ∃ start, starting .standard twoThousand = .ok start :=
    ⟨_, starting_standard _⟩
  have hrun : start.Accepted lowerLast ∧ ∃ details,
      ((start.after lowerLast).obey (.request (.redeem deepRedemption))).1 =
        .ok (some (.redeemed details)) ∧
      details.owners = [⟨3, by decide⟩, ⟨2, by decide⟩] := by
    rw [starting_eq h]
    decide +kernel
  obtain ⟨hok, details, hdetails, -⟩ := hrun
  obtain ⟨high, first, low, rest, hall⟩ := redeemed_at_minimum h hok rfl (Prod.ext hdetails rfl)
  exact ⟨start, _, details, high, first, low, rest, h, hok, Prod.ext hdetails rfl, hall⟩

/-- The last trove is at the minimum ratio, and the one before it is not, but is drawn on too. -/
theorem redeemed_below_minimum : ∃ start ratio, starting .standard twoThousand = .ok start ∧
    start.Accepted sunkenFirst ∧
    (start.after sunkenFirst).ratio ⟨2, by decide⟩ = .ok ratio ∧
    ratio < (start.after sunkenFirst).params.minimumRatio ∧
    ∃ details, ((start.after sunkenFirst).obey (.request (.redeem (wholeRedemption 4000 none)))).1 =
      .ok (some (.redeemed details)) ∧ details.owners = [⟨5, by decide⟩, ⟨2, by decide⟩] :=
  ⟨_, ⟨1_095_036_314_727_639_542, by decide⟩, starting_standard twoThousand, by decide +kernel⟩

/-! ## Whether a hint matters -/

/-- The same request without a hint at where to begin. -/
def unhinted (r : RedeemRequest) : RedeemRequest := { r with firstHint := none }

/-- A hint leads to another trove than the search does, or asks for a ratio that is no amount. -/
def Misleads (l : Ledger) (hint : Address) : Prop :=
  hint ∈ l.ranking.owners ∧
    ((∀ ratio, l.ratio hint ≠ .ok ratio) ∨
      l.AtMinimum hint ∧ ∃ lower, l.ranking.next hint = some lower ∧
        ((∀ ratio, l.ratio lower ≠ .ok ratio) ∨
          ¬ l.AtMinimum lower ∧
            ∃ other, [lower, other].Sublist l.ranking.owners ∧ l.AtMinimum other))

/-- Nothing but the walk depends on the hint. -/
theorem draw_unhinted (price : Amount) (w : Drawing) (owners : List Address) :
    l.draw (unhinted r) price w owners = l.draw r price w owners := by
  induction owners generalizing w with
  | nil => rfl
  | cons owner rest ih =>
    rw [draw, draw]
    simp only [ih]
    rfl

theorem planRedemption_unhinted (h : ∀ price, l.price = .ok price →
    l.redemptionWalk r.firstHint price = l.redemptionWalk none price) :
    l.planRedemption (unhinted r) = l.planRedemption r := by
  have hbind : ∀ (price : Amount) (f : Amount → Attempt (Plan Redeemed)),
      (Except.ok price >>= f) = f price := fun _ _ => rfl
  unfold planRedemption
  rcases hprice : l.price with stop | price
  · rfl
  · simp only [hbind, draw_unhinted, h price hprice]
    rfl

theorem obey_unhinted (h : l.planRedemption (unhinted r) = l.planRedemption r) :
    l.obey (.request (.redeem (unhinted r))) = l.obey (.request (.redeem r)) := by
  show answering some (answering Answer.redeemed (l.perform (l.planRedemption (unhinted r)))) = _
  rw [h]
  rfl

theorem exists_stateRatio (hprice : l.price = .ok price)
    (h : ¬ ∀ ratio, l.ratio owner ≠ .ok ratio) : ∃ ratio, l.state.ratio owner price = .ok ratio := by
  by_contra hnone
  refine h ?_
  rw [ratio_eq hprice]
  exact not_exists.1 hnone

/-- A hint that does not mislead is passed over, or everybody behind it is below the minimum. -/
theorem isFirst_of_not_misleads (hs : l.ranking.Sound) (hprice : l.price = .ok price)
    (hn : ¬ l.Misleads owner) : l.isFirst (some owner) price = .ok false ∨
      l.isFirst (some owner) price = .ok true ∧ ∃ high low ratio,
        l.ranking.owners = high ++ owner :: low ∧ l.state.ratio owner price = .ok ratio ∧
        l.params.minimumRatio ≤ ratio ∧ ∀ other ∈ low, ¬ l.AtMinimum other := by
  by_cases hc : l.ranking.contains owner = true
  swap
  · exact Or.inl (if_neg hc)
  have hmem := hs.mem_owners_iff.2 hc
  obtain ⟨high, low, he⟩ := List.append_of_mem hmem
  obtain ⟨ratio, hratio⟩ := exists_stateRatio hprice fun hnone => hn ⟨hmem, Or.inl hnone⟩
  rw [isFirst_eq hc hratio, hs.next_eq he]
  by_cases hle : l.params.minimumRatio ≤ ratio
  swap
  · exact Or.inl (if_pos (Nat.not_le.1 hle))
  have hm := (atMinimum_iff_of_ratio hprice hratio).2 hle
  have hnlt : ¬ ratio < l.params.minimumRatio := Nat.not_lt.2 hle
  rw [if_neg hnlt]
  cases low with
  | nil => exact Or.inr ⟨rfl, high, [], ratio, he, hratio, hle, List.forall_mem_nil _⟩
  | cons lower low =>
    have hnext : l.ranking.next owner = some lower := hs.next_eq he
    obtain ⟨ratio', hratio'⟩ := exists_stateRatio hprice fun hnone =>
      hn ⟨hmem, Or.inr ⟨hm, lower, hnext, Or.inl hnone⟩⟩
    by_cases hlt : ratio' < l.params.minimumRatio
    · have hlower : ¬ l.AtMinimum lower := Below.not_atMinimum hprice ⟨ratio', hratio', hlt⟩
      refine Or.inr ⟨?_, high, lower :: low, ratio, he, hratio, hle, ?_⟩
      · simp only [List.head?_cons, hratio', bind_eq_ok_iff]
        exact ⟨ratio', rfl, congrArg Except.ok (decide_eq_true hlt)⟩
      · rw [List.forall_mem_cons]
        refine ⟨hlower, ?_⟩
        intro other ho hother
        rw [List.append_cons] at he
        exact hn ⟨hmem, Or.inr ⟨hm, lower, hnext,
          Or.inr ⟨hlower, other, (hs.before_iff he).2 ho, hother⟩⟩⟩
    · refine Or.inl ?_
      simp only [List.head?_cons, hratio', bind_eq_ok_iff]
      exact ⟨ratio', rfl, congrArg Except.ok (decide_eq_false hlt)⟩

/-- A hint that does not mislead does not change the walk. -/
theorem redemptionWalk_hinted (hs : l.ranking.Sound)
    (hranked : ∀ owner ∈ l.ranking.owners, ∃ ranked held, l.Ranked owner ranked held)
    (hprice : l.price = .ok price) (hn : ¬ l.Misleads owner) :
    l.redemptionWalk (some owner) price = l.redemptionWalk none price := by
  obtain hfirst | ⟨hfirst, high, low, ratio, he, hratio, hle, hlow⟩ :=
    isFirst_of_not_misleads hs hprice hn
  · rw [redemptionWalk, hfirst]
    rfl
  · -- the search passes over everybody behind the trove that is named
    have hbelow : ∀ other ∈ low.reverse, l.Below price other := by
      intro other ho
      rw [List.mem_reverse] at ho
      have hmem : other ∈ l.ranking.owners := by
        rw [he]
        exact List.mem_append_right _ (List.mem_cons_of_mem _ ho)
      obtain ⟨ranked, held, hr⟩ := hranked other hmem
      exact hr.below hprice (hlow other ho)
    have hreverse : l.ranking.owners.reverse = low.reverse ++ owner :: high.reverse := by
      rw [he]
      simp
    rw [redemptionWalk_none hs, hreverse, skipBelow_append hbelow, skipBelow_cons hratio hle,
      redemptionWalk, hfirst]
    exact congrArg Except.ok (hs.upwardFrom_eq he)

/-- A hint that misleads is followed, if the ratios that it asks for are amounts, though another
trove at the minimum stands behind it. -/
theorem Misleads.followed {hinted : Bool} (hs : l.ranking.Sound) (hprice : l.price = .ok price)
    (hm : l.Misleads owner) (h : l.isFirst (some owner) price = .ok hinted) : hinted = true ∧
      ∃ other, [owner, other].Sublist l.ranking.owners ∧ l.AtMinimum other := by
  obtain ⟨hmem, hm⟩ := hm
  obtain ⟨high, low, he⟩ := List.append_of_mem hmem
  have hc := hs.mem_owners_iff.1 hmem
  obtain ⟨ratio, hratio⟩ : ∃ ratio, l.state.ratio owner price = .ok ratio := by
    rw [isFirst, if_pos hc] at h
    obtain ⟨ratio, hratio, -⟩ := bind_eq_ok_iff.1 h
    exact ⟨ratio, hratio⟩
  rw [isFirst_eq hc hratio] at h
  obtain hnone | ⟨hmin, lower, hnext, hlower⟩ := hm
  · exact absurd ((ratio_eq hprice owner).trans hratio) (hnone ratio)
  have hnlt : ¬ ratio < l.params.minimumRatio :=
    Nat.not_lt.2 ((atMinimum_iff_of_ratio hprice hratio).1 hmin)
  simp only [if_neg hnlt, hnext, bind_eq_ok_iff, Except.ok.injEq] at h
  obtain ⟨ratio', hratio', rfl⟩ := h
  obtain hnone | ⟨hlow, other, hbefore, hother⟩ := hlower
  · exact absurd ((ratio_eq hprice lower).trans hratio') (hnone ratio')
  have hlt : ratio' < l.params.minimumRatio :=
    Nat.not_le.1 fun hle => hlow ((atMinimum_iff_of_ratio hprice hratio').2 hle)
  exact ⟨decide_eq_true hlt, other, hs.before_of_next he hnext hbefore, hother⟩

/-- A hint that misleads does not begin where the search does. -/
theorem Misleads.first_ne {first first' : Address} {rest rest' : List Address}
    (hs : l.ranking.Sound) (hprice : l.price = .ok price) (hm : l.Misleads owner)
    (hw : l.redemptionWalk (some owner) price = .ok (first :: rest))
    (hw' : l.redemptionWalk none price = .ok (first' :: rest')) : first ≠ first' := by
  simp only [redemptionWalk, bind_eq_ok_iff] at hw
  obtain ⟨hinted, hfirst, hw⟩ := hw
  obtain ⟨rfl, other, hbefore, hother⟩ := hm.followed hs hprice hfirst
  obtain ⟨high, low, he⟩ := List.append_of_mem hm.1
  rw [if_pos rfl, pure_eq_ok_iff, hs.upwardFrom_eq he] at hw
  obtain ⟨rfl, -⟩ := List.cons.inj hw
  -- the search would have passed over everybody behind the trove that is named
  rw [redemptionWalk_none hs] at hw'
  obtain ⟨low', _, he', hbelow, -⟩ := skipBelow_owners hw'
  rintro rfl
  exact (hbelow other ((hs.before_iff he').1 hbefore)).not_atMinimum hprice hother

/-- What the hint of a redemption can change. -/
structure HintEffect (l : Ledger) (r : RedeemRequest) : Prop where
  /-- Without a hint, or with one that does not mislead, outcome and ledger are the same. -/
  eq_of_not_misleads : (∀ hint, r.firstHint = some hint → ¬ l.Misleads hint) →
    l.obey (.request (.redeem r)) = l.obey (.request (.redeem (unhinted r)))
  /-- Where the redemption is made with the hint, or without it, they are the same only so. -/
  eq_iff : ∀ answer, (l.obey (.request (.redeem r))).1 = .ok answer ∨
      (l.obey (.request (.redeem (unhinted r)))).1 = .ok answer →
    (l.obey (.request (.redeem r)) = l.obey (.request (.redeem (unhinted r))) ↔
      ∀ hint, r.firstHint = some hint → ¬ l.Misleads hint)
  /-- A hint misleads only if some ratio is no amount, or a trove below the minimum stands before
  one at the minimum, because the ratios by which they are ranked do not tell. -/
  misled_by : ∀ hint, l.Misleads hint →
    (∃ owner ∈ l.ranking.owners, ∀ ratio, l.ratio owner ≠ .ok ratio) ∨
      ∃ high low, [high, low].Sublist l.ranking.owners ∧ l.AtMinimum low ∧
        ¬ l.AtMinimum high ∧ l.Misranks high low

/-- Where both are carried out with the same answer, the hint has not misled. -/
theorem not_misleads_of_eq {plan plan' : Plan Redeemed} {hint : Address} (hc : l.state.Covered)
    (hs : l.ranking.Sound) (hhint : r.firstHint = some hint)
    (h : l.planRedemption r = .ok plan) (h' : l.planRedemption (unhinted r) = .ok plan')
    (heq : plan.answer = plan'.answer) : ¬ l.Misleads hint := by
  obtain ⟨price, _, first, _, rest, hprice, hwalk, -, howners, -⟩ := exists_walk_of_plan hc hs h
  obtain ⟨price', _, first', _, rest', hprice', hwalk', -, howners', -⟩ :=
    exists_walk_of_plan hc hs h'
  obtain rfl : price = price' := Except.ok.inj (hprice.symm.trans hprice')
  rw [hhint] at hwalk
  rw [heq, howners'] at howners
  obtain ⟨rfl, -⟩ := List.cons.inj howners
  intro hm
  exact hm.first_ne hs hprice hwalk hwalk' rfl

section

variable {start : Ledger} {params : Parameters} {accounts : ProtocolAccounts} {feed : PriceFeed}
  {token : TokenBook} {commands : List Command}

/-- What a hint is misleading by. -/
theorem Misleads.cause (h : new params accounts feed token .empty = .ok start)
    (hok : start.Accepted commands) {hint : Address}
    (hm : (start.after commands).Misleads hint) :
    (∃ owner ∈ (start.after commands).ranking.owners,
        ∀ ratio, (start.after commands).ratio owner ≠ .ok ratio) ∨
      ∃ high low, [high, low].Sublist (start.after commands).ranking.owners ∧
        (start.after commands).AtMinimum low ∧ ¬ (start.after commands).AtMinimum high ∧
        (start.after commands).Misranks high low := by
  obtain ⟨hmem, hnone | ⟨-, lower, hnext, hnone | ⟨hlower, other, hbefore, hother⟩⟩⟩ := hm
  · exact Or.inl ⟨hint, hmem, hnone⟩
  · exact Or.inl ⟨lower, Ranking.mem_of_next hnext, hnone⟩
  rcases hprice : (start.after commands).price with stop | price
  · -- without a price no ratio is computed
    refine Or.inl ⟨hint, hmem, ?_⟩
    intro ratio hratio
    rw [Ledger.ratio, hprice] at hratio
    cases hratio
  · have htold := atMinimum_of_before h hok hprice hbefore hother
    exact Or.inr ⟨lower, other, hbefore, hother, hlower, htold.resolve_left hlower⟩

/-- **A hint changes nothing unless it misleads,** and then it does: the redemption begins
elsewhere, or is refused.  It misleads only where the ratio of a trove is no amount, or where the
ratios by which troves are ranked do not tell who is at the minimum. -/
theorem hint_effect (h : new params accounts feed token .empty = .ok start)
    (hok : start.Accepted commands) (hl : start.after commands = l) (r : RedeemRequest) :
    l.HintEffect r := by
  subst hl
  have hcovered := after_covered h commands
  have hsound := (after_inStep h hok).sound
  have eq_of_not_misleads : (∀ hint, r.firstHint = some hint →
      ¬ (start.after commands).Misleads hint) →
      (start.after commands).planRedemption (unhinted r) =
        (start.after commands).planRedemption r := by
    intro hn
    refine planRedemption_unhinted ?_
    intro price hprice
    cases hhint : r.firstHint with
    | none => rfl
    | some hint =>
      exact redemptionWalk_hinted hsound (fun owner ho => exists_ranked h hok ho) hprice
        (hn hint hhint)
  constructor
  case eq_of_not_misleads => exact fun hn => (obey_unhinted (eq_of_not_misleads hn)).symm
  case eq_iff =>
    intro answer hanswer
    refine ⟨?_, fun hn => (obey_unhinted (eq_of_not_misleads hn)).symm⟩
    intro heq hint hhint
    rw [heq, or_self] at hanswer
    obtain ⟨plan', hplan', rfl⟩ := exists_plan_of_obey hanswer
    rw [← heq] at hanswer
    obtain ⟨plan, hplan, hsame⟩ := exists_plan_of_obey hanswer
    refine not_misleads_of_eq hcovered hsound hhint hplan hplan' ?_
    exact (Answer.redeemed.inj (Option.some.inj hsame)).symm
  case misled_by =>
    intro hint hm
    exact hm.cause h hok

end

/-- The lower of two troves is hinted at, and the redemption is carried out. -/
theorem hint_effect_lowerLast : ∃ start, starting .standard twoThousand = .ok start ∧
    start.Accepted lowerLast ∧
    (∃ answer, ((start.after lowerLast).obey
      (.request (.redeem (wholeRedemption 2010 (some ⟨3, by decide⟩))))).1 = .ok answer) ∧
    (start.after lowerLast).HintEffect (wholeRedemption 2010 (some ⟨3, by decide⟩)) := by
  obtain ⟨start, h⟩ : ∃ start, starting .standard twoThousand = .ok start :=
    ⟨_, starting_standard _⟩
  have hrun : start.Accepted lowerLast ∧ ∃ answer, ((start.after lowerLast).obey
      (.request (.redeem (wholeRedemption 2010 (some ⟨3, by decide⟩))))).1 = .ok answer := by
    rw [starting_eq h]
    decide +kernel
  obtain ⟨hok, hanswer⟩ := hrun
  exact ⟨start, h, hok, hanswer, hint_effect h hok rfl _⟩

/-- Behind a trove below the minimum ratio the search finds another at the minimum; a hint at the
best trove, before both, is followed, and that one is closed instead. -/
theorem hint_leads_elsewhere : ∃ start r details details',
    starting .standard twoThousand = .ok start ∧ start.Accepted betterFirst ∧
    ((start.after betterFirst).obey (.request (.redeem r))).1 = .ok (some (.redeemed details)) ∧
    ((start.after betterFirst).obey (.request (.redeem (unhinted r)))).1 =
      .ok (some (.redeemed details')) ∧
    details.owners = [⟨6, by decide⟩] ∧ details'.owners = [⟨5, by decide⟩] ∧
    (start.after betterFirst).obey (.request (.redeem r)) ≠
      (start.after betterFirst).obey (.request (.redeem (unhinted r))) := by
  obtain ⟨start, h⟩ : ∃ start, starting .standard twoThousand = .ok start :=
    ⟨_, starting_standard _⟩
  have hrun : start.Accepted betterFirst ∧
      (∃ details, ((start.after betterFirst).obey
          (.request (.redeem (wholeRedemption 2010 (some ⟨6, by decide⟩))))).1 =
        .ok (some (.redeemed details)) ∧ details.owners = [⟨6, by decide⟩]) ∧
      ∃ details, ((start.after betterFirst).obey
          (.request (.redeem (unhinted (wholeRedemption 2010 (some ⟨6, by decide⟩)))))).1 =
        .ok (some (.redeemed details)) ∧ details.owners = [⟨5, by decide⟩] := by
    rw [starting_eq h]
    decide +kernel
  obtain ⟨hok, ⟨details, hd, howners⟩, details', hd', howners'⟩ := hrun
  refine ⟨start, _, details, details', h, hok, hd, hd', howners, howners', ?_⟩
  intro heq
  rw [heq, hd', Except.ok.injEq, Option.some.injEq, Answer.redeemed.injEq] at hd
  rw [hd, howners] at howners'
  revert howners'
  decide

end Stablecoin.Ledger
