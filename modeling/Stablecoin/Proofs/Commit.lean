/-
  Stablecoin theory — drafts and their commit.

  * `TokenMove.mintedBy` and `TokenMove.burnedBy` are the tokens that movements
    create and destroy;
  * what each addition to a draft leaves of it (`Draft.moves_moving` and its
    likes);
  * what an operation leaves of a ledger: it answers, and then its draft was
    committed as a whole (`Ledger.perform_ok`), or it stops, and then at most the
    ranking and the token book were reached (`Ledger.perform_error`).
-/
import Stablecoin.Proofs.StateChanges
import Stablecoin.Ledger.Basic

namespace Stablecoin

/-! ## Movements -/

namespace TokenMove

/-- The tokens that a movement creates. -/
def minted : TokenMove → Nat
  | mint _ amount => amount.val
  | _ => 0

/-- The tokens that a movement destroys. -/
def burned : TokenMove → Nat
  | burn _ amount => amount.val
  | _ => 0

/-- The tokens that movements create. -/
def mintedBy (moves : List TokenMove) : Nat := (moves.map minted).sum

/-- The tokens that movements destroy. -/
def burnedBy (moves : List TokenMove) : Nat := (moves.map burned).sum

/-- No movement is of nothing. -/
def Proper (moves : List TokenMove) : Prop := ∀ m ∈ moves, m.amount ≠ 0

/-- A movement, unless it moves nothing. -/
def orNone (m : TokenMove) : List TokenMove := if m.amount = 0 then [] else [m]

variable (m : TokenMove) (moves others : List TokenMove)

theorem minted_eq_zero {m : TokenMove} (h : m.amount = 0) : m.minted = 0 := by
  cases m <;> first | rfl | exact Amount.eq_zero_iff.1 h

theorem burned_eq_zero {m : TokenMove} (h : m.amount = 0) : m.burned = 0 := by
  cases m <;> first | rfl | exact Amount.eq_zero_iff.1 h

@[simp] theorem mintedBy_nil : mintedBy [] = 0 := rfl

@[simp] theorem burnedBy_nil : burnedBy [] = 0 := rfl

@[simp] theorem mintedBy_append :
    mintedBy (moves ++ others) = mintedBy moves + mintedBy others := by
  simp [mintedBy]

@[simp] theorem burnedBy_append :
    burnedBy (moves ++ others) = burnedBy moves + burnedBy others := by
  simp [burnedBy]

@[simp] theorem mintedBy_orNone : mintedBy m.orNone = m.minted := by
  unfold orNone
  split
  · next h => exact (minted_eq_zero h).symm
  · simp [mintedBy]

@[simp] theorem burnedBy_orNone : burnedBy m.orNone = m.burned := by
  unfold orNone
  split
  · next h => exact (burned_eq_zero h).symm
  · simp [burnedBy]

@[simp] theorem proper_nil : Proper [] := nofun

@[simp] theorem proper_append : Proper (moves ++ others) ↔ Proper moves ∧ Proper others :=
  List.forall_mem_append

@[simp] theorem proper_orNone : Proper m.orNone := by
  unfold orNone
  split
  · exact proper_nil
  · next h => exact List.forall_mem_singleton.2 h

end TokenMove

/-! ## Drafts -/

namespace Draft

variable (d : Draft)

@[simp] theorem state_start (s : State) : (start s).state = s := rfl

@[simp] theorem moves_start (s : State) : (start s).moves = [] := rfl

@[simp] theorem changes_start (s : State) : (start s).changes = [] := rfl

@[simp] theorem state_withState (s : State) : (d.withState s).state = s := rfl

@[simp] theorem moves_withState (s : State) : (d.withState s).moves = d.moves := rfl

@[simp] theorem changes_withState (s : State) : (d.withState s).changes = d.changes := rfl

@[simp] theorem state_moving (m : TokenMove) : (d.moving m).state = d.state := by
  unfold moving
  split <;> rfl

/-- A movement of nothing is left out. -/
@[simp] theorem moves_moving (m : TokenMove) : (d.moving m).moves = d.moves ++ m.orNone := by
  unfold moving TokenMove.orNone
  split <;> simp

@[simp] theorem changes_moving (m : TokenMove) : (d.moving m).changes = d.changes := by
  unfold moving
  split <;> rfl

@[simp] theorem state_ranking (c : RankChange) : (d.ranking c).state = d.state := rfl

@[simp] theorem moves_ranking (c : RankChange) : (d.ranking c).moves = d.moves := rfl

@[simp] theorem changes_ranking (c : RankChange) : (d.ranking c).changes = d.changes ++ [c] := rfl

@[simp] theorem state_reporting (e : Event) : (d.reporting e).state = d.state := rfl

@[simp] theorem moves_reporting (e : Event) : (d.reporting e).moves = d.moves := rfl

@[simp] theorem changes_reporting (e : Event) : (d.reporting e).changes = d.changes := rfl

@[simp] theorem state_reportingTrove (owner : Address) (touch : Touch) :
    (d.reportingTrove owner touch).state = d.state := by
  unfold reportingTrove
  split <;> rfl

@[simp] theorem moves_reportingTrove (owner : Address) (touch : Touch) :
    (d.reportingTrove owner touch).moves = d.moves := by
  unfold reportingTrove
  split <;> rfl

@[simp] theorem changes_reportingTrove (owner : Address) (touch : Touch) :
    (d.reportingTrove owner touch).changes = d.changes := by
  unfold reportingTrove
  split <;> rfl

@[simp] theorem state_reportingStakes : d.reportingStakes.state = d.state := rfl

@[simp] theorem moves_reportingStakes : d.reportingStakes.moves = d.moves := rfl

@[simp] theorem changes_reportingStakes : d.reportingStakes.changes = d.changes := rfl

@[simp] theorem state_settingRate (next : BaseRate) :
    (d.settingRate next).state = { d.state with baseRate := next } := by
  unfold settingRate
  dsimp only
  split <;> rfl

@[simp] theorem moves_settingRate (next : BaseRate) : (d.settingRate next).moves = d.moves := by
  unfold settingRate
  dsimp only
  split <;> rfl

@[simp] theorem changes_settingRate (next : BaseRate) :
    (d.settingRate next).changes = d.changes := by
  unfold settingRate
  dsimp only
  split <;> rfl

end Draft

/-! ## Changes in turn -/

theorem applyInTurn_singleton {σ χ : Type} {apply : σ → χ → Attempt Unit × σ} {s s' : σ} {c : χ} :
    applyInTurn apply s [c] = (.ok (), s') ↔ apply s c = (.ok (), s') := by
  rw [applyInTurn]
  split
  · next ha => rw [ha, applyInTurn]
  · next ha => rw [ha]

theorem applyInTurn_append {σ χ : Type} {apply : σ → χ → Attempt Unit × σ} {s s' : σ}
    {changes : List χ} (h : applyInTurn apply s changes = (.ok (), s')) (more : List χ) :
    applyInTurn apply s (changes ++ more) = applyInTurn apply s' more := by
  induction changes generalizing s with
  | nil =>
    cases h
    rfl
  | cons c rest ih =>
    rw [applyInTurn] at h
    rw [List.cons_append, applyInTurn]
    split at h
    · exact ih h
    · cases h

/-! ## Commit -/

namespace Ledger

variable {l next : Ledger} {α : Type}

/-- A commit that goes through takes everything over. -/
theorem commit_ok {d : Draft} (h : l.commit d = (.ok (), next)) :
    l.check d = .ok () ∧
      applyInTurn RankChange.apply l.ranking d.changes = (.ok (), next.ranking) ∧
      applyInTurn TokenMove.apply l.token d.moves = (.ok (), next.token) ∧
      next = { l with
        ranking := next.ranking
        token := next.token
        state := d.state
        log := l.log.extend d.state.now d.events } := by
  unfold commit at h
  split at h
  · cases h
  next hc =>
  split at h
  · cases h
  next ranking hr =>
  split at h
  · cases h
  next token ht =>
  cases h
  exact ⟨hc, hr, ht, rfl⟩

/-- A commit that stops has changed nothing, or the ranking alone, or ranking and tokens. -/
theorem commit_error {d : Draft} {stop : Stop} (h : l.commit d = (.error stop, next)) :
    next = { l with ranking := next.ranking } ∨
      l.check d = .ok () ∧ applyInTurn TokenMove.apply l.token d.moves = (.error stop, next.token) ∧
        next = { l with ranking := next.ranking, token := next.token } := by
  unfold commit at h
  split at h
  · cases h
    exact Or.inl rfl
  next hc =>
  split at h
  · cases h
    exact Or.inl rfl
  next ranking hr =>
  split at h
  next token ht =>
    cases h
    exact Or.inr ⟨hc, ht, rfl⟩
  · cases h

theorem perform_ok {plan : Attempt (Plan α)} {a : α} (h : l.perform plan = (.ok a, next)) :
    ∃ p, plan = .ok p ∧ a = p.answer ∧ l.commit p.draft = (.ok (), next) := by
  unfold perform at h
  split at h
  · cases h
  next p =>
  split at h
  next hc =>
    cases h
    exact ⟨p, rfl, rfl, hc⟩
  · cases h

theorem perform_error {plan : Attempt (Plan α)} {stop : Stop}
    (h : l.perform plan = (.error stop, next)) :
    next = l ∨ ∃ p, plan = .ok p ∧ l.commit p.draft = (.error stop, next) := by
  unfold perform at h
  split at h
  · cases h
    exact Or.inl rfl
  next p =>
  split at h
  · cases h
  next hc =>
    cases h
    exact Or.inr ⟨p, rfl, hc⟩

/-- No operation reaches parameters, accounts and price, whether it answers or stops. -/
theorem perform_setup (l : Ledger) (plan : Attempt (Plan α)) :
    (l.perform plan).2.params = l.params ∧ (l.perform plan).2.accounts = l.accounts ∧
      (l.perform plan).2.feed = l.feed := by
  rcases h : l.perform plan with ⟨stop | a, next⟩
  · obtain rfl | ⟨p, -, hc⟩ := perform_error h
    · exact ⟨rfl, rfl, rfl⟩
    · obtain hn | ⟨-, -, hn⟩ := commit_error hc <;> rw [hn] <;> exact ⟨rfl, rfl, rfl⟩
  · obtain ⟨p, -, -, hc⟩ := perform_ok h
    obtain ⟨-, -, -, hn⟩ := commit_ok hc
    rw [hn]
    exact ⟨rfl, rfl, rfl⟩

/-- An operation that stops leaves the state as it was. -/
theorem perform_error_state {plan : Attempt (Plan α)} {stop : Stop}
    (h : l.perform plan = (.error stop, next)) : next.state = l.state := by
  rcases perform_error h with rfl | ⟨p, -, hc⟩
  · rfl
  · rcases commit_error hc with hn | ⟨-, -, hn⟩ <;> rw [hn]

end Ledger

end Stablecoin
