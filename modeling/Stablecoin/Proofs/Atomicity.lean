/-
  Stablecoin theory — what a refused request leaves.

  A request that is refused should leave everything as it was.  Its plan is made
  on a copy, all movements of tokens are rehearsed, and all changes of the ranking
  are checked, before the first of them is made.  Two things are not checked
  before: that no trove is put back into the ranking with a ratio of zero, and
  that there is room in the supply for what is minted.

  * `Ledger.Orderly`: the token book is balanced and the ranking sound.  This holds
    after any commands, direct movements of tokens and refused requests included
    (`after_orderly`), and it is what a commit relies on.  The ranking is sound over
    any other tokens too (`after_sound`);
  * `Ledger.execute_error`: state and log are always left as they were; and given
    room in the supply, so is all else, except where a trove would be put back
    with a ratio of zero.  As long as no tokens are moved directly there is room.
-/
import Stablecoin.Proofs.Backing
import Stablecoin.Proofs.RankFollowing

namespace Stablecoin

namespace Ledger

variable {start l next : Ledger}

/-! ## Books that stay in order -/

/-- The token book is balanced and the ranking sound. -/
structure Orderly (l : Ledger) : Prop where
  balanced : l.token.Balanced
  sound : l.ranking.Sound

theorem commit_balanced (h : l.token.Balanced) (d : Draft) : (l.commit d).2.token.Balanced := by
  have hbalanced := TokenMove.applyInTurn_balanced h d.moves
  unfold commit
  split
  · exact h
  split
  · exact h
  split
  · next ht =>
    rw [ht] at hbalanced
    exact hbalanced
  · next ht =>
    rw [ht] at hbalanced
    exact hbalanced

theorem commit_sound (h : l.ranking.Sound) (d : Draft) : (l.commit d).2.ranking.Sound := by
  have hsound := RankChange.applyInTurn_sound h d.changes
  unfold commit
  split
  · exact h
  split
  · next hr =>
    rw [hr] at hsound
    exact hsound
  · next hr =>
    rw [hr] at hsound
    split <;> exact hsound

/-- A commit keeps both, even where it stops halfway. -/
theorem commit_orderly (h : l.Orderly) (d : Draft) : (l.commit d).2.Orderly :=
  ⟨commit_balanced h.balanced d, commit_sound h.sound d⟩

/-- What every commit keeps, an operation keeps. -/
theorem perform_of_commit {P : Ledger → Prop} {α : Type} (hc : ∀ d, P (l.commit d).2) (h : P l)
    (plan : Attempt (Plan α)) : P (l.perform plan).2 := by
  unfold perform
  split
  · exact h
  next plan =>
  have hcommit := hc plan.draft
  split
  · next hc =>
    rw [hc] at hcommit
    exact hcommit
  · next hc =>
    rw [hc] at hcommit
    exact hcommit

/-- What every commit keeps, a request keeps. -/
theorem obey_of_commit {P : Ledger → Prop} (hc : ∀ d, P (l.commit d).2) (h : P l) (r : Request) :
    P (l.obey (.request r)).2 := by
  have hobey : (l.obey (.request r)).2 = (l.perform (l.planOf r)).2 :=
    congrArg Prod.snd (execute_eq_perform r)
  rw [hobey]
  exact perform_of_commit hc h _

/-- Every command keeps the ranking sound. -/
theorem obey_sound (h : l.ranking.Sound) (c : Command) : (l.obey c).2.ranking.Sound := by
  by_cases hr : ∃ r, c = .request r
  · obtain ⟨r, rfl⟩ := hr
    exact obey_of_commit (P := fun l => l.ranking.Sound) (commit_sound h) h r
  · obtain ⟨-, _, _, _, _, hn, -⟩ := obey_control (l := l) fun r he => hr ⟨r, he⟩
    rw [hn]
    exact h

theorem obey_orderly (h : l.Orderly) (c : Command) : (l.obey c).2.Orderly := by
  by_cases hr : ∃ r, c = .request r
  · obtain ⟨r, rfl⟩ := hr
    exact obey_of_commit (commit_orderly h) h r
  by_cases hm : ∃ m, c = .move m
  · obtain ⟨m, rfl⟩ := hm
    exact ⟨TokenMove.apply_snd_balanced h.balanced m, h.sound⟩
  obtain ⟨-, _, _, _, token, hn, -, ht⟩ := obey_control (l := l) fun r he => hr ⟨r, he⟩
  rw [hn]
  obtain rfl | ⟨source, target, amount, -, ht⟩ | hmove := ht
  · exact ⟨h.balanced, h.sound⟩
  · obtain ⟨hs, htotal, -⟩ := TokenBook.transfer_ok ht
    have hb : token.supply.val = token.total := by
      rw [hs, htotal]
      exact h.balanced
    exact ⟨hb, h.sound⟩
  · exact absurd hmove hm

theorem after_orderly {params : Parameters} {price : Amount}
    (h : starting params price = .ok start) (commands : List Command) :
    (start.after commands).Orderly := by
  refine after_of_step (P := Orderly) (fun _ c (_ : True) hl => obey_orderly hl c)
    (fun _ _ => trivial) ?_
  rw [starting_eq h]
  exact ⟨rfl, Ranking.sound_empty⟩

/-- Over any tokens, a ranking that was empty at first stays sound. -/
theorem after_sound {params : Parameters} {accounts : ProtocolAccounts} {feed : PriceFeed}
    {token : TokenBook} (h : new params accounts feed token .empty = .ok start)
    (commands : List Command) : (start.after commands).ranking.Sound := by
  refine after_of_step (P := fun l => l.ranking.Sound) (fun _ c (_ : True) hl => obey_sound hl c)
    (fun _ _ => trivial) ?_
  rw [new_eq h]
  exact Ranking.sound_empty

/-! ## Refused requests -/

/-- The supply has room for what a request mints. -/
def HasRoom (l : Ledger) (r : Request) : Prop := ∀ plan, l.planOf r = .ok plan →
  l.token.supply.val + TokenMove.mintedBy plan.draft.moves < Amount.limit

/-- A request that passes all checks puts a trove back with a ratio of zero. -/
def LosesTrove (l : Ledger) (r : Request) : Prop := ∃ plan who hints,
  l.planOf r = .ok plan ∧ l.check plan.draft = .ok () ∧ .reinsert who 0 hints ∈ plan.draft.changes

/-- Where tokens follow the debt there is room: the debt was computed before. -/
theorem Backed.hasRoom (hb : l.Backed) (r : Request) : l.HasRoom r := by
  intro plan hplan
  rw [hb.supply_eq]
  exact (planOf_matches hb.debt_lt_limit hplan).room

theorem check_parts {d : Draft} (h : l.check d = .ok ()) :
    (∃ balances, Draft.rehearse l.token d.moves = .ok balances) ∧
      ∀ c ∈ d.changes, c.check l.ranking = .ok () := by
  simp only [check, bind_eq_ok_iff] at h
  obtain ⟨balances, hrehearsed, hchanges⟩ := h
  exact ⟨⟨balances, hrehearsed⟩, RankChange.forM_check_iff.1 hchanges⟩

/-- A commit that is refused after its checks was refused at a ratio of zero, given room. -/
theorem commit_error_iff {d : Draft} {stop : Stop} (h : l.Orderly)
    (hf : l.state.Follows d.changes d.state) (hproper : TokenMove.Proper d.moves)
    (hroom : l.token.supply.val + TokenMove.mintedBy d.moves < Amount.limit)
    (hcheck : l.check d = .ok ()) (hc : l.commit d = (.error stop, next)) :
    next = l ↔ ∀ who hints, .reinsert who 0 hints ∉ d.changes := by
  obtain ⟨⟨balances, hrehearsed⟩, hchanges⟩ := check_parts hcheck
  unfold commit at hc
  rw [hcheck] at hc
  dsimp only at hc
  split at hc
  · next ranking hranking =>
    obtain ⟨-, rfl⟩ := Prod.mk.inj hc
    rw [← RankChange.applyInTurn_error_iff h.sound hf.nodup hchanges hf.alone hranking]
    constructor
    · intro heq
      exact congrArg Ledger.ranking heq
    · rintro rfl
      rfl
  · obtain ⟨token, htoken, -⟩ :=
      Draft.exists_applyInTurn hproper h.balanced hroom (fun _ => rfl) hrehearsed
    rw [htoken] at hc
    cases hc

theorem perform_error_log {α : Type} {plan : Attempt (Plan α)} {stop : Stop}
    (h : l.perform plan = (.error stop, next)) : next.log = l.log := by
  obtain rfl | ⟨p, -, hc⟩ := perform_error h
  · rfl
  · obtain hn | ⟨-, -, hn⟩ := commit_error hc <;> rw [hn]

theorem execute_error {params : Parameters} {price : Amount} {commands : List Command}
    {r : Request} {stop : Stop} (h : starting params price = .ok start)
    (hl : start.after commands = l) (he : l.execute r = (.error stop, next)) :
    next.state = l.state ∧ next.log = l.log ∧
      ((l.HasRoom r ∨ ∀ c ∈ commands, ∀ m, c ≠ .move m) → (next = l ↔ ¬ l.LosesTrove r)) := by
  subst hl
  have horderly := after_orderly h commands
  have hcovered := after_covered h commands
  rw [execute_eq_perform] at he
  refine ⟨perform_error_state he, perform_error_log he, ?_⟩
  intro hroom
  have hroom : (start.after commands).HasRoom r := by
    obtain hroom | hc := hroom
    · exact hroom
    · refine Backed.hasRoom (after_of_step (fun _ _ hm hb => obey_backed hm hb) hc ?_) r
      rw [starting_eq h]
      exact ⟨rfl, rfl⟩
  unfold perform at he
  split at he
  · next hplan =>
    cases he
    refine iff_of_true rfl ?_
    rintro ⟨plan, _, _, hok, -⟩
    rw [hplan] at hok
    cases hok
  next plan hplan =>
  split at he
  · cases he
  next hc =>
  cases he
  have hloses : (start.after commands).LosesTrove r ↔
      (start.after commands).check plan.draft = .ok () ∧
        ∃ who hints, .reinsert who 0 hints ∈ plan.draft.changes := by
    constructor
    · rintro ⟨p, who, hints, hp, hcheck, hm⟩
      rw [hplan] at hp
      cases hp
      exact ⟨hcheck, who, hints, hm⟩
    · rintro ⟨hcheck, who, hints, hm⟩
      exact ⟨plan, who, hints, hplan, hcheck, hm⟩
  rw [hloses]
  cases hcheck : (start.after commands).check plan.draft with
  | error stop =>
    have hn : next = start.after commands := by
      unfold commit at hc
      rw [hcheck] at hc
      exact (Prod.mk.inj hc).2.symm
    exact iff_of_true hn fun hno => nomatch hno.1
  | ok _ =>
    rw [commit_error_iff horderly (planOf_follows hcovered hplan) (planOf_proper hplan)
      (hroom plan hplan) hcheck hc]
    simp only [true_and, not_exists]

theorem answering_error {α β : Type} {see : α → β} {outcome : Attempt α × Ledger} {stop : Stop}
    (h : answering see outcome = (.error stop, next)) : outcome = (.error stop, next) := by
  obtain ⟨x, t⟩ := outcome
  cases x <;> cases h
  rfl

/-- Price, time, base rate and tokens are left alone where a change of them is refused. -/
theorem control_error {c : Command} {stop : Stop} (h : l.Orderly) (hr : ∀ r, c ≠ .request r)
    (he : l.obey c = (.error stop, next)) : next = l := by
  have honToken {outcome : Attempt Unit × TokenBook} (hsame : outcome.1 = .error stop →
      outcome.2 = l.token) (ho : l.onToken outcome = (.error stop, next)) : next = l := by
    obtain ⟨x, b⟩ := outcome
    cases ho
    rw [show b = l.token from hsame rfl]
  cases c with
  | request r => exact absurd rfl (hr r)
  | setPrice | setTime | advance | seedRate => exact settle_error (answering_error he)
  | transfer source target amount =>
    refine honToken ?_ (answering_error he)
    intro ho
    exact settle_error (Prod.ext ho rfl)
  | move m =>
    refine honToken ?_ (answering_error he)
    intro ho
    exact TokenMove.apply_error h.balanced (Prod.ext ho rfl)

/-- **What a refused command leaves:** after any commands, it leaves state and log as they were.
Given room in the supply for what a request mints, which there always is as long as no tokens are
moved directly, it leaves everything as it was, if and only if it is not a request that passes all
checks and then puts a trove back with a ratio of zero. -/
theorem refused_unchanged_iff {params : Parameters} {price : Amount} {commands : List Command}
    {c : Command} {stop : Stop} (h : starting params price = .ok start)
    (hl : start.after commands = l) (he : l.obey c = (.error stop, next)) :
    next.state = l.state ∧ next.log = l.log ∧
      ((∀ r, c = .request r → l.HasRoom r ∨ ∀ c ∈ commands, ∀ m, c ≠ .move m) →
        (next = l ↔ ∀ r, c = .request r → ¬ l.LosesTrove r)) := by
  by_cases hr : ∃ r, c = .request r
  · obtain ⟨r, rfl⟩ := hr
    obtain ⟨hstate, hlog, hiff⟩ := execute_error h hl (answering_error he)
    refine ⟨hstate, hlog, ?_⟩
    intro hroom
    rw [hiff (hroom r rfl)]
    constructor
    · rintro hno _ ⟨⟩
      exact hno
    · intro hno
      exact hno r rfl
  · have hne : ∀ r, c ≠ .request r := fun r hc => hr ⟨r, hc⟩
    obtain rfl : next = l := control_error (hl ▸ after_orderly h commands) hne he
    exact ⟨rfl, rfl, fun _ => iff_of_true rfl fun r hc => absurd hc (hne r)⟩

/-- Whoever has a trove cannot open another, and nothing changes when it is tried. -/
theorem refused_unchanged_openedTwice : ∃ start, starting .standard twoThousand = .ok start ∧
    (start.after [firstOpening]).obey firstOpening =
      (.error (.refused (.troveAlreadyActive ⟨2, by decide⟩)), start.after [firstOpening]) ∧
    ∀ r, firstOpening = .request r → ¬ (start.after [firstOpening]).LosesTrove r := by
  obtain ⟨start, h⟩ : ∃ start, starting .standard twoThousand = .ok start :=
    ⟨_, starting_standard _⟩
  have hrefused : (start.after [firstOpening]).obey firstOpening =
      (.error (.refused (.troveAlreadyActive ⟨2, by decide⟩)), start.after [firstOpening]) := by
    rw [starting_eq h]
    decide +kernel
  have hunmoved : ∀ c ∈ [firstOpening], ∀ m, c ≠ .move m := by
    intro c hm m
    rw [List.mem_singleton.1 hm]
    nofun
  obtain ⟨-, -, hiff⟩ := refused_unchanged_iff h rfl hrefused
  exact ⟨start, h, hrefused, (hiff fun _ _ => Or.inr hunmoved).1 rfl⟩

/-- At a very high price collateral can be withdrawn down to its last unit.  The nominal ratio is
then rounded down to zero; the request is refused, but the trove has lost its place. -/
theorem refused_but_changed : ∃ start price, starting .standard price = .ok start ∧
    (start.after [opening ⟨2, by decide⟩ 1 2000]).ranking.owners = [⟨2, by decide⟩] ∧
    ((start.after [opening ⟨2, by decide⟩ 1 2000]).obey (.request (.adjustTrove
      (.withdrawColl ⟨2, by decide⟩ ⟨999_999_999_999_999_999, by decide⟩ .none)))).1 =
        .error (.refused (.invalidParameter "nicr" "must be positive")) ∧
    ((start.after [opening ⟨2, by decide⟩ 1 2000]).obey (.request (.adjustTrove
      (.withdrawColl ⟨2, by decide⟩ ⟨999_999_999_999_999_999, by decide⟩ .none)))).2.ranking.owners =
        [] :=
  ⟨_, ⟨10_000_000_000_000_000_000_000_000_000_000_000_000_000, by decide⟩, starting_standard _,
    by decide +kernel, by decide +kernel, by decide +kernel⟩

end Ledger

end Stablecoin
