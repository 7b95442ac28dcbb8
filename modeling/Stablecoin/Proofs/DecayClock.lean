/-
  Stablecoin theory — the clock of the decay.

  A call that quotes a fee counts the whole minutes since the clock was set, and sets
  it if there are any.  The seconds beyond the last minute are lost then, but they stay
  as long as no minute is counted.

  * `FeeCall` is such a call, and `BaseRate.minutesCounted` what calls count that are
    made one after another;
  * `BaseRate.advanced_clock`: a call moves the clock by at least the minutes that it
    counts and by at most twice as many, up to less than a minute before its time;
  * `BaseRate.quoteBorrowing_advanced`: then nothing is left to decay, and what is quoted
    at the same time stays what it was;
  * `BaseRate.minutes_counted`: so over any calls no minute is counted twice, and at
    least half of the time is counted, but for a minute.
-/
import Stablecoin.Proofs.FeeCaps

namespace Stablecoin

/-- A call that quotes a fee. -/
inductive FeeCall
  | borrowing (p : Parameters) (now : UInt64) (requested limit : Amount)
  | redemption (p : Parameters) (now : UInt64) (drawn price supply limit : Amount)

namespace FeeCall

/-- The time of a call. -/
def now : FeeCall → UInt64
  | borrowing _ now _ _ | redemption _ now _ _ _ _ => now

/-- What a call quotes at a base rate. -/
def quote (b : BaseRate) : FeeCall → Attempt FeeQuote
  | borrowing p now requested limit => b.quoteBorrowing p now requested limit
  | redemption p now drawn price supply limit => b.quoteRedemption p now drawn price supply limit

end FeeCall

namespace BaseRate

variable {p : Parameters} {b : BaseRate} {c : FeeCall} {calls : List FeeCall} {quote : FeeQuote}
  {rate : Amount} {now last prev : UInt64} {total : ℕ}

/-- The minutes that calls count, each made on the base rate that the one before it leaves. -/
def minutesCounted (b : BaseRate) : List FeeCall → Attempt ℕ
  | [] => .ok 0
  | c :: rest => do
    let quote ← c.quote b
    let later ← quote.next.minutesCounted rest
    return b.minutesPassed c.now + later

/-! ## One call -/

/-- Both kinds of calls go on with the clock in the same way. -/
theorem next_of_quote (h : c.quote b = .ok quote) : ∃ rate, quote.next = b.advanced rate c.now := by
  cases c with
  | borrowing p now requested limit =>
    obtain ⟨decayed, -, -, -, -, hnext⟩ := quoteBorrowing_eq_ok_iff.1 h
    exact ⟨decayed, hnext⟩
  | redemption p now drawn price supply limit => exact ⟨_, (redemptionQuote h).next_eq⟩

theorem clock_advanced (b : BaseRate) (rate : Amount) (now : UInt64) :
    (b.advanced rate now).clock = if 60 ≤ b.elapsed now then now else b.clock := rfl

/-- A call leaves less than a minute to be counted. -/
theorem elapsed_advanced_lt (b : BaseRate) (rate : Amount) (now : UInt64) :
    (b.advanced rate now).elapsed now < 60 := by
  have helapsed : b.elapsed now = now.toNat - b.clock.toNat := rfl
  rw [elapsed, clock_advanced]
  split <;> omega

/-- **How far a call moves the clock:** by at least the minutes that it counts, by at most twice as
many, and up to less than a minute before its time. -/
theorem advanced_clock (rate : Amount) (h : b.clock ≤ now) :
    b.clock.toNat + 60 * b.minutesPassed now ≤ (b.advanced rate now).clock.toNat ∧
      (b.advanced rate now).clock.toNat ≤ b.clock.toNat + 120 * b.minutesPassed now ∧
      (b.advanced rate now).clock ≤ now ∧
      now.toNat < (b.advanced rate now).clock.toNat + 60 := by
  have helapsed : b.elapsed now = now.toNat - b.clock.toNat := rfl
  have hminutes : b.minutesPassed now = b.elapsed now / 60 := rfl
  have hnear : now.toNat - (b.advanced rate now).clock.toNat < 60 := b.elapsed_advanced_lt rate now
  rw [UInt64.le_iff_toNat_le] at h ⊢
  refine ⟨?_, ?_, ?_, by omega⟩ <;> rw [clock_advanced] <;> split <;> omega

/-! ## Calls at the same time -/

theorem advanced_advanced (b : BaseRate) (rate : Amount) (now : UInt64) :
    (b.advanced rate now).advanced rate now = b.advanced rate now :=
  congrArg (seeded rate) (if_neg (Nat.not_le.2 (b.elapsed_advanced_lt rate now)))

/-- A rate that has decayed does not decay further at the same time. -/
theorem decayed_advanced (p : Parameters) (b : BaseRate) (h : rate ≤ Amount.unit) (now : UInt64) :
    (b.advanced rate now).decayed p now = .ok rate := by
  have hminutes : (b.advanced rate now).minutesPassed now = 0 :=
    Nat.div_eq_of_lt (b.elapsed_advanced_lt rate now)
  have hrate : (b.advanced rate now).rate.val = rate.val :=
    (Amount.val_min _ _).trans (Nat.min_eq_left h)
  refine decayed_eq_ok_iff.2 ⟨Amount.unit, by rw [hminutes, Amount.decPow_zero], ?_⟩
  rw [hrate, Nat.mul_div_cancel _ Amount.unit_pos]

/-- **Once the rate has decayed, quotes at the same time stay what they were.** -/
theorem quoteBorrowing_advanced (hp : p.validate = .ok ()) (hb : b.rate ≤ Amount.unit)
    (hd : b.decayed p now = .ok rate) (amount limit : Amount) :
    (b.advanced rate now).quoteBorrowing p now amount limit =
      b.quoteBorrowing p now amount limit := by
  obtain ⟨_, hd', hle⟩ := exists_decayed hp b now
  obtain rfl := Except.ok.inj (hd.symm.trans hd')
  simp only [quoteBorrowing, decayed_advanced p b (Nat.le_trans hle hb) now, hd, bind, Except.bind,
    advanced_advanced]

/-! ## Calls one after another -/

/-- The bounds for calls that are made after another one, which was less than a minute ahead of the
clock. -/
theorem minutesCounted_bounds (h : b.minutesCounted calls = .ok total)
    (horder : (prev :: calls.map FeeCall.now).Pairwise (· ≤ ·)) (hprev : b.clock ≤ prev)
    (hnear : prev.toNat < b.clock.toNat + 60) :
    b.clock.toNat + 60 * total ≤ ((calls.map FeeCall.now).getLastD prev).toNat ∧
      ((calls.map FeeCall.now).getLastD prev).toNat < b.clock.toNat + 120 * total + 60 := by
  induction calls generalizing b prev total with
  | nil =>
    cases h
    exact ⟨hprev, hnear⟩
  | cons c rest ih =>
    simp only [minutesCounted, bind_eq_ok_iff, pure_eq_ok_iff] at h
    obtain ⟨quote, hquote, later, hlater, rfl⟩ := h
    obtain ⟨rate, hnext⟩ := next_of_quote hquote
    rw [List.map_cons] at horder ⊢
    obtain ⟨hfirst, hrest⟩ := List.pairwise_cons.1 horder
    have hnow : b.clock ≤ c.now := UInt64.le_trans hprev (hfirst c.now List.mem_cons_self)
    obtain ⟨hlow, hhigh, hclock, hclose⟩ := advanced_clock rate hnow
    rw [hnext] at hlater
    obtain ⟨hfloor, hceiling⟩ := ih hlater hrest hclock hclose
    rw [List.getLastD_cons]
    constructor <;> omega

/-- **No minute is counted twice, and the clock cannot be held back.**  Over calls that are all
accepted, made at times that do not go back and each on the base rate that the one before it leaves,
the minutes counted do not exceed the time since the clock was set, and this time is less than twice
the minutes counted and one minute more. -/
theorem minutes_counted (h : b.minutesCounted calls = .ok total)
    (horder : (b.clock :: calls.map FeeCall.now).Pairwise (· ≤ ·))
    (hlast : (calls.map FeeCall.now).getLast? = some last) :
    b.clock ≤ last ∧ 60 * total ≤ last.toNat - b.clock.toNat ∧
      last.toNat - b.clock.toNat < 120 * total + 60 := by
  have hbounds := minutesCounted_bounds h horder (UInt64.le_refl _) (by omega)
  rw [List.getLastD_eq_getLast?, hlast, Option.getD_some] at hbounds
  rw [UInt64.le_iff_toNat_le]
  omega

/-- Two loans with a redemption in between, each a second before another minute would be counted. -/
def lateCalls : List FeeCall := [
  .borrowing .standard 59 (.whole 100) Amount.unit,
  .redemption .standard 119 (.whole 10) (.whole 100) (.whole 10_000) Amount.unit,
  .borrowing .standard 178 (.whole 100) Amount.unit]

/-- They count one minute of three, less two seconds. -/
theorem minutes_counted_lateCalls : fivePercent.minutesCounted lateCalls = .ok 1 ∧
    60 * 1 ≤ (178 : UInt64).toNat - fivePercent.clock.toNat ∧
    (178 : UInt64).toNat - fivePercent.clock.toNat < 120 * 1 + 60 := by
  have hcounted : fivePercent.minutesCounted lateCalls = .ok 1 := by cbv
  obtain ⟨-, hbounds⟩ := minutes_counted hcounted
    (by decide : (fivePercent.clock :: lateCalls.map FeeCall.now).Pairwise (· ≤ ·))
    (by decide : (lateCalls.map FeeCall.now).getLast? = some 178)
  exact ⟨hcounted, hbounds⟩

end BaseRate

end Stablecoin
