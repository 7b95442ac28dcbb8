/-
  Stablecoin theory — requests, commands and runs.

  * `Ledger.planOf` is the plan of any request, and carrying the request out is
    to perform that plan (`execute_eq_perform`);
  * `Ledger.obey_request_cases`: a request answers and leaves the state of its
    draft, or it stops and leaves the state as it was;
  * `Ledger.obey_control`: no other command reaches troves and pools
    (`Ledger.Controlled`);
  * `Ledger.after_of_step`: what every command keeps, a run keeps, and
    `Ledger.after_state`: what every plan keeps of the state, a run keeps;
  * a longer run goes one command further, unless a fault has ended it
    (`Ledger.after_append_singleton`), and a run in which nothing is refused
    (`Ledger.Accepted`) can be taken in parts (`Ledger.after_append`).
-/
import Stablecoin.Proofs.Commit
import Stablecoin.Ledger.History

namespace Stablecoin

/-- The same plan, its answer seen otherwise. -/
def Plan.seen {α β : Type} (see : α → β) (plan : Plan α) : Plan β := ⟨see plan.answer, plan.draft⟩

@[simp] theorem Plan.draft_seen {α β : Type} (see : α → β) (plan : Plan α) :
    (plan.seen see).draft = plan.draft := rfl

@[simp] theorem Plan.answer_seen {α β : Type} (see : α → β) (plan : Plan α) :
    (plan.seen see).answer = see plan.answer := rfl

namespace Ledger

variable {l : Ledger}

/-! ## Requests as plans -/

/-- The plan of a request. -/
def planOf (l : Ledger) : Request → Attempt (Plan Answer)
  | .openTrove r => (l.planOpening r).map (Plan.seen .opened)
  | .adjustTrove r => (l.planAdjustment r).map (Plan.seen .adjusted)
  | .closeTrove owner => (l.planClosing owner).map (Plan.seen .closed)
  | .realize owner => (l.planRealization owner).map (Plan.seen .realized)
  | .liquidate liquidator target =>
    (do
      let _ ← l.state.activeTrove target
      l.planLiquidation liquidator (.listed [target])).map (Plan.seen .liquidated)
  | .liquidateLowest liquidator most =>
    (l.planLiquidation liquidator (.lowest most.toNat)).map (Plan.seen .liquidated)
  | .liquidateListed liquidator targets =>
    (do
      demand (targets ≠ []) (.invalidOperation "batch liquidation needs targets")
      l.planLiquidation liquidator (.listed targets)).map (Plan.seen .liquidated)
  | .redeem r => (l.planRedemption r).map (Plan.seen .redeemed)
  | .claim owner => (l.planClaim owner).map (Plan.seen .claimed)
  | .provide owner amount => (l.planDeposit owner amount).map (Plan.seen (.deposited owner))
  | .withdraw owner amount => (l.planWithdrawal owner amount).map (Plan.seen (.deposited owner))

theorem map_eq_ok_iff {α β : Type} {see : α → β} {x : Attempt (Plan α)} {plan : Plan β} :
    x.map (Plan.seen see) = .ok plan ↔ ∃ p, x = .ok p ∧ plan = p.seen see := by
  cases x with
  | error stop => exact ⟨nofun, nofun⟩
  | ok p =>
    constructor
    · intro h
      exact ⟨p, rfl, (Except.ok.inj h).symm⟩
    · rintro ⟨_, hp, rfl⟩
      cases hp
      rfl

theorem answering_perform {α β : Type} (see : α → β) (x : Attempt (Plan α)) :
    answering see (l.perform x) = l.perform (x.map (Plan.seen see)) := by
  cases x with
  | error stop => rfl
  | ok plan =>
    simp only [perform, Except.map, Plan.seen]
    rcases l.commit plan.draft with ⟨⟨stop⟩ | ⟨⟩, next⟩ <;> rfl

/-- **Carrying a request out is performing its plan.** -/
theorem execute_eq_perform (r : Request) : l.execute r = l.perform (l.planOf r) := by
  cases r <;> exact answering_perform _ _

/-! ## Commands -/

/-- A request answers and leaves the state of its draft, or leaves the state as it was. -/
theorem obey_request_cases (r : Request) :
    (∃ plan, l.planOf r = .ok plan ∧ (l.obey (.request r)).1 = .ok (some plan.answer) ∧
      l.commit plan.draft = (.ok (), (l.obey (.request r)).2)) ∨
      ∃ stop, (l.obey (.request r)).1 = .error stop ∧
        l.perform (l.planOf r) = (.error stop, (l.obey (.request r)).2) := by
  have h : l.obey (.request r) = answering some (l.perform (l.planOf r)) :=
    congrArg (answering some) (execute_eq_perform r)
  rw [h]
  rcases hp : l.perform (l.planOf r) with ⟨stop | answer, next⟩
  · exact Or.inr ⟨stop, rfl, rfl⟩
  · obtain ⟨plan, hplan, rfl, hc⟩ := perform_ok hp
    exact Or.inl ⟨plan, hplan, rfl, hc⟩

/-- A request that is carried out has the answer of its plan, and leaves the state of its draft and
the price as it was. -/
theorem obey_request_ok {r : Request} {answer : Option Answer} {next : Ledger}
    (h : l.obey (.request r) = (.ok answer, next)) :
    ∃ plan, l.planOf r = .ok plan ∧ answer = some plan.answer ∧ next.state = plan.draft.state ∧
      next.price = l.price := by
  have hcases := obey_request_cases (l := l) r
  rw [h] at hcases
  obtain ⟨plan, hplan, hanswer, hc⟩ | ⟨_, hstop, -⟩ := hcases
  · have hcommit : l.commit plan.draft = (.ok (), next) := hc
    obtain ⟨-, -, -, hn⟩ := commit_ok hcommit
    refine ⟨plan, hplan, Except.ok.inj hanswer, ?_, ?_⟩ <;> rw [hn]
    rfl
  · cases hstop

/-- What a command that is not a request leaves: another price, time and base rate, which stays at
one hundred percent or below, or the tokens after a transfer or a movement. -/
def Controlled (l : Ledger) (c : Command) (next : Ledger) : Prop :=
  ∃ feed now rate token,
    next = { l with
      feed := feed, state := { l.state with now := now, baseRate := rate }, token := token } ∧
    (rate = l.state.baseRate ∨ rate.rate ≤ Amount.unit) ∧
    (token = l.token ∨
      (∃ source target amount, c = .transfer source target amount ∧
        l.token.transfer source target amount = .ok token) ∨
      ∃ m, c = .move m)

theorem controlled_settle {c : Command} {x : Attempt Ledger}
    (h : ∀ next, x = .ok next → ∃ feed now rate, next = { l with
      feed := feed, state := { l.state with now := now, baseRate := rate } } ∧
      (rate = l.state.baseRate ∨ rate.rate ≤ Amount.unit)) :
    l.Controlled c (settle l x).2 := by
  cases x with
  | error stop => exact ⟨_, _, _, _, rfl, Or.inl rfl, Or.inl rfl⟩
  | ok next =>
    obtain ⟨feed, now, rate, rfl, hrate⟩ := h next rfl
    exact ⟨feed, now, rate, _, rfl, hrate, Or.inl rfl⟩

theorem setTime_ok {now : UInt64} {next : Ledger} (h : l.setTime now = .ok next) :
    next = { l with state := { l.state with now := now } } := by
  simp only [setTime, bind_eq_ok_iff, pure_eq_ok_iff] at h
  obtain ⟨_, -, rfl⟩ := h
  rfl

/-- **Other commands reach neither troves nor pools,** and they have no answer. -/
theorem obey_control {c : Command} (h : ∀ r, c ≠ .request r) :
    (∀ answer, (l.obey c).1 ≠ .ok (some answer)) ∧ l.Controlled c (l.obey c).2 := by
  have none_ne {α : Type} (x : Attempt α) (answer : Answer) :
      x.map (fun _ => (none : Option Answer)) ≠ .ok (some answer) := by
    cases x <;> nofun
  cases c with
  | request r => exact absurd rfl (h r)
  | setPrice price =>
    refine ⟨none_ne _, controlled_settle ?_⟩
    intro next hnext
    simp only [setPrice, bind_eq_ok_iff, pure_eq_ok_iff] at hnext
    obtain ⟨feed, -, rfl⟩ := hnext
    exact ⟨feed, _, _, rfl, Or.inl rfl⟩
  | setTime now =>
    refine ⟨none_ne _, controlled_settle ?_⟩
    intro next hnext
    exact ⟨_, _, _, setTime_ok hnext, Or.inl rfl⟩
  | advance seconds =>
    refine ⟨none_ne _, controlled_settle ?_⟩
    intro next hnext
    simp only [advance, bind_eq_ok_iff] at hnext
    obtain ⟨now, -, hnext⟩ := hnext
    exact ⟨_, _, _, setTime_ok hnext, Or.inl rfl⟩
  | seedRate rate clock =>
    refine ⟨none_ne _, controlled_settle ?_⟩
    intro next hnext
    simp only [seedRate, bind_eq_ok_iff, pure_eq_ok_iff] at hnext
    obtain ⟨_, -, rfl⟩ := hnext
    exact ⟨_, _, _, rfl, Or.inr (BaseRate.seeded_le rate clock)⟩
  | transfer source target amount =>
    refine ⟨none_ne _, _, _, _, _, rfl, Or.inl rfl, ?_⟩
    rcases ht : l.token.transfer source target amount with stop | token
    · exact Or.inl rfl
    · exact Or.inr (Or.inl ⟨source, target, amount, rfl, ht⟩)
  | move m => exact ⟨none_ne _, _, _, _, _, rfl, Or.inl rfl, Or.inr (Or.inr ⟨m, rfl⟩)⟩

/-- **What a command leaves of the state:** a request that answers leaves the state of its draft, and
anything else at most another time and base rate. -/
theorem obey_state (c : Command) :
    (∃ r plan, c = .request r ∧ l.planOf r = .ok plan ∧
      l.commit plan.draft = (.ok (), (l.obey c).2)) ∨
      ∃ now rate, (rate = l.state.baseRate ∨ rate.rate ≤ Amount.unit) ∧
        (l.obey c).2.state = { l.state with now := now, baseRate := rate } := by
  by_cases hr : ∃ r, c = .request r
  · obtain ⟨r, rfl⟩ := hr
    obtain ⟨plan, hplan, -, hc⟩ | ⟨stop, -, hp⟩ := obey_request_cases (l := l) r
    · exact Or.inl ⟨r, plan, rfl, hplan, hc⟩
    · exact Or.inr ⟨_, _, Or.inl rfl, perform_error_state hp⟩
  · obtain ⟨-, _, now, rate, _, hn, hrate, -⟩ := obey_control (l := l) fun r hc => hr ⟨r, hc⟩
    refine Or.inr ⟨now, rate, hrate, ?_⟩
    rw [hn]

/-- No request reaches parameters, accounts and price. -/
theorem obey_request_setup (r : Request) : (l.obey (.request r)).2.params = l.params ∧
    (l.obey (.request r)).2.accounts = l.accounts ∧ (l.obey (.request r)).2.feed = l.feed := by
  have hobey : (l.obey (.request r)).2 = (l.perform (l.planOf r)).2 :=
    congrArg Prod.snd (execute_eq_perform r)
  rw [hobey]
  exact perform_setup l (l.planOf r)

/-- No command reaches parameters and accounts. -/
theorem obey_setup (c : Command) :
    (l.obey c).2.params = l.params ∧ (l.obey c).2.accounts = l.accounts := by
  by_cases hr : ∃ r, c = .request r
  · obtain ⟨r, rfl⟩ := hr
    obtain ⟨hparams, haccounts, -⟩ := obey_request_setup (l := l) r
    exact ⟨hparams, haccounts⟩
  · obtain ⟨-, _, _, _, _, hn, -⟩ := obey_control (l := l) fun r hc => hr ⟨r, hc⟩
    rw [hn]
    exact ⟨rfl, rfl⟩

/-! ## Runs -/

/-- A run that goes on, and a run that a fault ends. -/
theorem run_cons (c : Command) (commands : List Command) :
    l.run (c :: commands) = ((l.obey c).1 :: ((l.obey c).2.run commands).1,
        ((l.obey c).2.run commands).2) ∨
      ((l.obey c).1 = .error .fault ∧ l.run (c :: commands) = ([.error .fault], (l.obey c).2)) := by
  rw [run]
  split
  · next next ho => exact Or.inr ⟨congrArg Prod.fst ho, by rw [ho]⟩
  · next ho => exact Or.inl (by rw [ho])

/-- What every command keeps, a run keeps. -/
theorem after_of_step {P : Ledger → Prop} {allowed : Command → Prop}
    (step : ∀ l c, allowed c → P l → P (l.obey c).2) {commands : List Command}
    (ha : ∀ c ∈ commands, allowed c) (h : P l) : P (l.after commands) := by
  induction commands generalizing l with
  | nil => exact h
  | cons c rest ih =>
    have hc := step l c (ha c List.mem_cons_self) h
    rw [after]
    rcases run_cons (l := l) c rest with hr | ⟨-, hr⟩
    · rw [hr]
      exact ih (fun c hm => ha c (List.mem_cons_of_mem _ hm)) hc
    · rw [hr]
      exact hc

/-- What every plan keeps of the state, a run keeps. -/
theorem after_state {P : State → Prop}
    (plan : ∀ (l : Ledger) r plan, P l.state → l.planOf r = .ok plan → P plan.draft.state)
    (control : ∀ s now rate, rate = s.baseRate ∨ rate.rate ≤ Amount.unit → P s →
      P { s with now := now, baseRate := rate })
    (h : P l.state) (commands : List Command) : P (l.after commands).state := by
  refine after_of_step (P := fun l => P l.state) (fun l c (_ : True) hl => ?_)
    (fun _ _ => trivial) h
  obtain ⟨r, p, -, hp, hc⟩ | ⟨now, rate, hrate, hn⟩ := obey_state (l := l) c
  · obtain ⟨-, -, -, hn⟩ := commit_ok hc
    rw [hn]
    exact plan l r p hl hp
  · rw [hn]
    exact control _ _ _ hrate hl

theorem after_setup (commands : List Command) :
    (l.after commands).params = l.params ∧ (l.after commands).accounts = l.accounts := by
  refine after_of_step (P := fun next => next.params = l.params ∧ next.accounts = l.accounts)
    (fun next c (_ : True) hnext => ?_) (fun _ _ => trivial) ⟨rfl, rfl⟩
  obtain ⟨hparams, haccounts⟩ := obey_setup (l := next) c
  exact ⟨hparams.trans hnext.1, haccounts.trans hnext.2⟩

/-! ## Longer runs -/

theorem after_cons_of_fault {c : Command} (h : (l.obey c).1 = .error .fault)
    (commands : List Command) : l.after (c :: commands) = (l.obey c).2 := by
  rw [after, run]
  split
  · next ho => rw [ho]
  · next hne ho =>
    rw [ho] at h
    exact absurd h hne

theorem after_cons_of_ne_fault {c : Command} (h : (l.obey c).1 ≠ .error .fault)
    (commands : List Command) : l.after (c :: commands) = (l.obey c).2.after commands := by
  rw [after]
  obtain hr | ⟨hfault, -⟩ := run_cons (l := l) c commands
  · rw [hr]
    rfl
  · exact absurd hfault h

/-- A run that is one command longer goes one command further, unless a fault has ended it. -/
theorem after_append_singleton (commands : List Command) (c : Command) :
    l.after (commands ++ [c]) = ((l.after commands).obey c).2 ∨
      l.after (commands ++ [c]) = l.after commands := by
  induction commands generalizing l with
  | nil =>
    by_cases hfault : (l.obey c).1 = .error .fault
    · exact Or.inl (after_cons_of_fault hfault [])
    · exact Or.inl (after_cons_of_ne_fault hfault [])
  | cons d rest ih =>
    by_cases hfault : (l.obey d).1 = .error .fault
    · rw [List.cons_append, after_cons_of_fault hfault, after_cons_of_fault hfault]
      exact Or.inr rfl
    · rw [List.cons_append, after_cons_of_ne_fault hfault, after_cons_of_ne_fault hfault]
      exact ih

/-! ## Accepted runs -/

/-- No command of a run is refused. -/
def Accepted (l : Ledger) (commands : List Command) : Prop :=
  ∀ outcome ∈ (l.run commands).1, ∃ answer, outcome = .ok answer

instance {α : Type} (x : Attempt α) : Decidable (∃ a, x = .ok a) :=
  match x with
  | .ok a => .isTrue ⟨a, rfl⟩
  | .error _ => .isFalse nofun

instance (l : Ledger) (commands : List Command) : Decidable (l.Accepted commands) :=
  inferInstanceAs (Decidable (∀ outcome ∈ (l.run commands).1, ∃ answer, outcome = .ok answer))

theorem accepted_cons {c : Command} {commands : List Command} : l.Accepted (c :: commands) ↔
    (∃ answer, (l.obey c).1 = .ok answer) ∧ (l.obey c).2.Accepted commands := by
  unfold Accepted
  rcases run_cons (l := l) c commands with hr | ⟨hfault, hr⟩
  · rw [hr]
    exact List.forall_mem_cons
  · rw [hr, List.forall_mem_singleton]
    constructor
    · rintro ⟨_, ho⟩
      cases ho
    · rintro ⟨⟨_, ho⟩, -⟩
      rw [hfault] at ho
      cases ho

theorem after_cons {c : Command} {answer : Option Answer} (h : (l.obey c).1 = .ok answer)
    (commands : List Command) : l.after (c :: commands) = (l.obey c).2.after commands :=
  after_cons_of_ne_fault (h ▸ nofun) commands

theorem accepted_append {earlier later : List Command} :
    l.Accepted (earlier ++ later) ↔ l.Accepted earlier ∧ (l.after earlier).Accepted later := by
  induction earlier generalizing l with
  | nil => exact ⟨fun h => ⟨nofun, h⟩, And.right⟩
  | cons c rest ih =>
    rw [List.cons_append, accepted_cons, accepted_cons, ih, and_assoc]
    refine and_congr_right ?_
    rintro ⟨answer, ho⟩
    rw [after_cons ho]

theorem after_append {earlier : List Command} (h : l.Accepted earlier) (later : List Command) :
    l.after (earlier ++ later) = (l.after earlier).after later := by
  induction earlier generalizing l with
  | nil => rfl
  | cons c rest ih =>
    obtain ⟨⟨answer, ho⟩, hrest⟩ := accepted_cons.1 h
    rw [List.cons_append, after_cons ho, after_cons ho, ih hrest]

/-! ## The start -/

/-- What a new ledger starts with. -/
theorem new_eq {params : Parameters} {accounts : ProtocolAccounts} {feed : PriceFeed}
    {token : TokenBook} {ranking : Ranking} (h : new params accounts feed token ranking = .ok l) :
    l = ⟨params, accounts, .empty, feed, token, ranking, .empty⟩ := by
  simp only [new, bind_eq_ok_iff, pure_eq_ok_iff] at h
  obtain ⟨_, -, _, -, rfl⟩ := h
  rfl

/-- It keeps the parameters that were validated when it was started. -/
theorem after_validate {params : Parameters} {accounts : ProtocolAccounts} {feed : PriceFeed}
    {token : TokenBook} {ranking : Ranking} (h : new params accounts feed token ranking = .ok l)
    (commands : List Command) : (l.after commands).params.validate = .ok () := by
  rw [(after_setup commands).1, new_eq h]
  simp only [new, bind_eq_ok_iff] at h
  obtain ⟨_, hvalid, -⟩ := h
  exact hvalid

theorem starting_eq {params : Parameters} {price : Amount} (h : starting params price = .ok l) :
    l = ⟨params, .standard, .empty, .starting price, .stable ProtocolAccounts.standard.all, .empty,
      .empty⟩ := new_eq h

/-! ## First runs -/

/-- A ledger on the standard parameters. -/
theorem starting_standard (price : Amount) : starting .standard price = .ok
    ⟨.standard, .standard, .empty, .starting price, .stable ProtocolAccounts.standard.all, .empty,
      .empty⟩ := rfl

/-- Two thousand whole units. -/
def twoThousand : Amount := ⟨2_000_000_000_000_000_000_000, by decide⟩

/-- Two thousand tokens are borrowed against ten units of collateral. -/
def firstOpening : Command :=
  .request (.openTrove ⟨⟨2, by decide⟩, ⟨10_000_000_000_000_000_000, by decide⟩, twoThousand,
    Amount.unit, .none⟩)

/-- So many tokens are borrowed against so many whole units of collateral. -/
def opening (owner : Address) (coll debt : UInt64) : Command :=
  .request (.openTrove ⟨owner, .whole coll, .whole debt, Amount.unit, .none⟩)

/-- Of two troves the second is liquidated at a lower price, and spread over the first. -/
def firstSpread : List Command := [
  opening ⟨2, by decide⟩ 10 5000, opening ⟨3, by decide⟩ 3 2000, .setPrice (.whole 800),
  .request (.liquidate ⟨4, by decide⟩ ⟨3, by decide⟩)]

/-- Of three troves the last is liquidated at a lower price, and spread over the others. -/
def twoSharing : List Command := [
  opening ⟨2, by decide⟩ 10 5000, opening ⟨3, by decide⟩ 3 2000, opening ⟨4, by decide⟩ 2 2000,
  .setPrice (.whole 1100), .request (.liquidate ⟨5, by decide⟩ ⟨4, by decide⟩),
  .setPrice twoThousand]

/-- Of two troves the net debt of the second is redeemed, and what is left of its collateral waits
for its owner. -/
def firstRedemption : List Command := [
  opening ⟨2, by decide⟩ 10 5000, opening ⟨3, by decide⟩ 3 2000,
  .request (.redeem ⟨⟨2, by decide⟩, .whole 2010, none, none, .none, 0, Amount.unit⟩)]

/-- Two troves are opened, the better one last. -/
def betterLast : List Command := [opening ⟨2, by decide⟩ 10 5000, opening ⟨3, by decide⟩ 10 2000]

/-- Of two troves the second is liquidated at a lower price, against deposits of the first. -/
def firstOffset : List Command := [
  opening ⟨2, by decide⟩ 10 5000, opening ⟨3, by decide⟩ 3 2000,
  .request (.provide ⟨2, by decide⟩ (.whole 3000)), .setPrice (.whole 800),
  .request (.liquidate ⟨4, by decide⟩ ⟨3, by decide⟩)]

/-- A trove is opened, and then the price falls. -/
def firstFall : List Command := [opening ⟨2, by decide⟩ 10 5000, .setPrice (.whole 700)]

/-- The owner of the first trove adds a unit of collateral. -/
def firstTopUp : Command :=
  .request (.adjustTrove ⟨⟨2, by decide⟩, 0, Amount.unit, 0, false, Amount.unit, .none⟩)

/-- The first redemption, and then a higher price. -/
def firstRise : List Command := firstRedemption ++ [.setPrice (.whole 2500)]

/-- Two of three troves fall below the critical ratio, and the last of them below its debt, while
deposits cover the other. -/
def twoFallen : List Command := [
  opening ⟨2, by decide⟩ 10 5000, opening ⟨3, by decide⟩ 3 2000, opening ⟨4, by decide⟩ 2 1800,
  .request (.provide ⟨2, by decide⟩ (.whole 3000)), .setPrice (.whole 820)]

/-- Both of them are listed, the lowest first. -/
def takeFallen : Request := .liquidateListed ⟨5, by decide⟩ [⟨4, by decide⟩, ⟨3, by decide⟩]

/-- Two troves are opened, the lower one last. -/
def lowerLast : List Command := [opening ⟨2, by decide⟩ 10 5000, opening ⟨3, by decide⟩ 3 2000]

/-- More tokens are redeemed than the lower trove owes. -/
def deepRedemption : RedeemRequest :=
  ⟨⟨2, by decide⟩, .whole 3000, none, none, .none, 2, Amount.unit⟩

/-- So many tokens are redeemed, as it comes. -/
def wholeRedemption (amount : UInt64) (hint : Option Address) : RedeemRequest :=
  ⟨⟨2, by decide⟩, .whole amount, hint, none, .none, 0, Amount.unit⟩

/-- The owner of the first trove deposits tokens. -/
def firstDeposit : Command := .request (.provide ⟨2, by decide⟩ (.whole 1000))

/-- One of them is withdrawn. -/
def firstWithdrawal : Command := .request (.withdraw ⟨2, by decide⟩ Amount.unit)

/-- Of two troves the second is spread over the first.  A third one is opened at a higher ratio than
the first has now, and ranked behind it.  Then the price falls so far that only the first is below
the minimum ratio. -/
def sunkenFirst : List Command := firstSpread ++ [
  .setPrice twoThousand, opening ⟨5, by decide⟩ 4 2000, firstDeposit, .setPrice (.whole 627)]

/-- A third trove is opened, better than both. -/
def betterFirst : List Command := sunkenFirst ++ [opening ⟨6, by decide⟩ 10 2000]

end Ledger

end Stablecoin
