import DiceNotation.Proofs.Dice.Accounts

/-!
# The dice that are left

Of a limit and the dice announced, only the difference matters: the dice that are left.  What
rolls under one limit does the same under another that leaves more dice, unless it announces
more than the first leaves.  Then it fails under the first, whatever it does under the second.

Main definitions:

- `Tally.Within`: tallies with no more dice left under one limit than under another.
- `Attempt.Repeats`: attempts that come to the same.
- `Roll.Tracks`: a computation under a limit, compared with one that has more dice left.

Main results:

- `Roll.congruence_tracks`: chains compare as their steps do.
- `Table.alike_tracks`: so does what rolls under two limits.
-/

namespace DiceNotation

/-- Two tallies under two limits, with as many draws made, and with no more dice left under the
first limit than under the second. -/
structure Tally.Within (limit limit' : Int) (tally tally' : Tally) : Prop where
  drawn_eq : tally.drawn = tally'.drawn
  left_nonneg : 0 ≤ limit - tally.announced
  left_le : limit - tally.announced ≤ limit' - tally'.announced

/-- Whether two attempts come to the same from the tallies that they began with: the answer, the
draws, and the number of dice announced. -/
structure Attempt.Repeats {α : Type} (tally tally' : Tally) (first second : Attempt α) : Prop where
  answer_eq : first.answer = second.answer
  drawn_eq : first.tally.drawn = second.tally.drawn
  spent_eq : first.tally.announced - tally.announced = second.tally.announced - tally'.announced

namespace Roll

variable {α β : Type}

/-- Whoever draws dice that others have announced leaves the announced dice alone. -/
theorem Draws.announced_eq {count : Nat} {x : Roll α} (h : Draws count x) (tally : Tally) :
    (x.attempt tally).tally.announced = tally.announced :=
  attempt_tally (P := fun later => later.announced = tally.announced)
    ((h tally).imp (fun _ _ h => h.1) fun _ _ h => h.1)

/-! ## Comparing -/

/-- A computation under a limit compared with one that has more dice left: if the latter
announces no more dice than the former has left, they come to the same; if it announces more,
the former fails for the limit. -/
structure Tracks (limit limit' : Int) (x x' : Roll α) : Prop where
  grows : ∀ tally', tally'.announced ≤ (x'.attempt tally').tally.announced
  repeats : ∀ tally tally', tally.Within limit limit' tally' →
    (x'.attempt tally').tally.announced - tally'.announced ≤ limit - tally.announced →
    (x.attempt tally).Repeats tally tally' (x'.attempt tally')
  exceeds : ∀ tally tally', tally.Within limit limit' tally' →
    limit - tally.announced < (x'.attempt tally').tally.announced - tally'.announced →
    (x.attempt tally).answer = .error (Table.excess limit)

variable {limit limit' : Int}

/-- What announces nothing compares if only the draws matter to it. -/
theorem Draws.tracks {count : Nat} {x x' : Roll α} (hx : Draws count x) (hx' : Draws count x')
    (h : ∀ tally tally', tally.drawn = tally'.drawn →
      (x.attempt tally).answer = (x'.attempt tally').answer ∧
      (x.attempt tally).tally.drawn = (x'.attempt tally').tally.drawn) :
    Tracks limit limit' x x' where
  grows tally' := Int.le_of_eq (hx'.announced_eq tally').symm
  repeats tally tally' hwithin _ := by
    obtain ⟨hanswer, hdrawn⟩ := h tally tally' hwithin.drawn_eq
    have hkept := hx.announced_eq tally
    have hkept' := hx'.announced_eq tally'
    exact ⟨hanswer, hdrawn, by omega⟩
  exceeds tally tally' hwithin hspent := by
    have hleft := hwithin.left_nonneg
    have hkept' := hx'.announced_eq tally'
    omega

/-- What does not roll leaves the same allowance. -/
theorem tracks_lift {x : Except Fault α} (h : Fault.Unlimited x) :
    Tracks limit limit' (lift x) (lift x) := by
  refine (draws_lift h).tracks (draws_lift h) fun tally tally' hdrawn => ?_
  rw [attempt_lift, attempt_lift]
  exact ⟨rfl, hdrawn⟩

/-- After steps that came to the same, the dice that are left still compare. -/
theorem Tracks.within {x x' : Roll α} (hx : Tracks limit limit' x x') {tally tally' : Tally}
    (hwithin : tally.Within limit limit' tally')
    (hspent : (x'.attempt tally').tally.announced - tally'.announced ≤ limit - tally.announced) :
    (x.attempt tally).tally.Within limit limit' (x'.attempt tally').tally := by
  obtain ⟨-, hdrawn, hannounced⟩ := hx.repeats tally tally' hwithin hspent
  have hle := hwithin.left_le
  exact ⟨hdrawn, by omega, by omega⟩

/-- Sequences of what tracks each other track each other. -/
theorem Tracks.bind {x x' : Roll α} {f f' : α → Roll β} (hx : Tracks limit limit' x x')
    (hf : ∀ a, Tracks limit limit' (f a) (f' a)) :
    Tracks limit limit' (x >>= f) (x' >>= f') where
  grows tally' := by
    have hfirst := hx.grows tally'
    cases hanswer : (x'.attempt tally').answer with
    | ok a =>
        rw [attempt_bind_of_ok hanswer]
        exact Int.le_trans hfirst ((hf a).grows _)
    | error fault =>
        rw [attempt_bind_of_error hanswer]
        exact hfirst
  repeats tally tally' hwithin hspent := by
    cases hanswer' : (x'.attempt tally').answer with
    | ok a =>
        rw [attempt_bind_of_ok hanswer'] at hspent ⊢
        have hgrows := (hf a).grows (x'.attempt tally').tally
        have hless : (x'.attempt tally').tally.announced - tally'.announced ≤
            limit - tally.announced := by omega
        obtain ⟨hanswer, -, hannounced⟩ := hx.repeats tally tally' hwithin hless
        rw [attempt_bind_of_ok (hanswer.trans hanswer')]
        obtain ⟨hlast, hdrawn, hmore⟩ :=
          (hf a).repeats _ _ (hx.within hwithin hless) (by omega)
        exact ⟨hlast, hdrawn, by omega⟩
    | error fault =>
        rw [attempt_bind_of_error hanswer'] at hspent ⊢
        obtain ⟨hanswer, hdrawn, hannounced⟩ := hx.repeats tally tally' hwithin hspent
        rw [attempt_bind_of_error (hanswer.trans hanswer')]
        exact ⟨rfl, hdrawn, hannounced⟩
  exceeds tally tally' hwithin hspent := by
    -- either the first step passes the limit, or the second does with what the first has left
    by_cases hless : (x'.attempt tally').tally.announced - tally'.announced ≤
        limit - tally.announced
    · obtain ⟨hanswer, -, hannounced⟩ := hx.repeats tally tally' hwithin hless
      cases hanswer' : (x'.attempt tally').answer with
      | ok a =>
          rw [attempt_bind_of_ok hanswer'] at hspent
          rw [attempt_bind_of_ok (hanswer.trans hanswer')]
          exact (hf a).exceeds _ _ (hx.within hwithin hless) (by omega)
      | error fault =>
          rw [attempt_bind_of_error hanswer'] at hspent
          exact absurd hspent (Int.not_lt.mpr hless)
    · have hexcess := hx.exceeds tally tally' hwithin (by omega)
      rw [attempt_bind_of_error hexcess]

/-- Chains compare as their steps do. -/
theorem congruence_tracks (limit limit' : Int) : Congruence (Tracks limit limit') where
  lift := tracks_lift
  bind := Tracks.bind

end Roll

namespace Table

open Roll

variable {limit limit' : Int} {table table' : Table}

/-! ## Dice -/

/-- Announcements track each other as long as the allowances agree. -/
theorem tracks_announce (hlimit : table.limit = some limit) (hlimit' : table'.limit = some limit')
    (count : Nat) : Tracks limit limit' (table.announce count) (table'.announce count) := by
  have hcounted : ∀ tally', ((table'.announce count).attempt tally').tally =
      counted tally' count := by
    intro tally'
    rw [attempt_announce hlimit']
    split <;> rfl
  have hspent : ∀ tally', ((table'.announce count).attempt tally').tally.announced -
      tally'.announced = count := by
    intro tally'
    rw [hcounted]
    simp only [counted]
    omega
  constructor
  · intro tally'
    have hcount := hspent tally'
    omega
  · intro tally tally' hwithin hle
    have hleft := hwithin.left_le
    rw [hspent] at hle
    rw [attempt_announce hlimit, attempt_announce hlimit', if_neg (by omega), if_neg (by omega)]
    refine ⟨rfl, hwithin.drawn_eq, ?_⟩
    simp only [counted]
    omega
  · intro tally tally' hwithin hlt
    rw [hspent] at hlt
    rw [attempt_announce hlimit, if_pos (by omega)]

section Source

variable (hsource : table.source = table'.source)
include hsource

/-- Draws do not depend on the limit. -/
theorem tracks_nextDraw : Tracks limit limit' table.nextDraw table'.nextDraw := by
  refine draws_nextDraw.tracks draws_nextDraw fun tally tally' hdrawn => ?_
  rw [attempt_nextDraw, attempt_nextDraw, hsource, hdrawn]
  cases table'.source tally'.drawn with
  | none => exact ⟨rfl, hdrawn⟩
  | some x => exact ⟨rfl, rfl⟩

/-- A draw in a range is the same under either limit. -/
theorem tracks_draw (least greatest : Int) :
    Tracks limit limit' (table.draw least greatest) (table'.draw least greatest) := by
  refine (tracks_nextDraw hsource).bind fun x => ?_
  exact tracks_lift (ArithmeticFault.unrolled_unguarded _).unlimited

/-- A face is drawn the same under either limit. -/
theorem tracks_drawFace (faces : Faces) :
    Tracks limit limit' (table.drawFace faces) (table'.drawFace faces) := by
  cases faces with
  | range least greatest => exact tracks_draw hsource least greatest
  | listed values =>
      refine (tracks_draw hsource _ _).bind fun place => ?_
      split
      · exact (congruence_tracks limit limit').pure _
      · exact (congruence_tracks limit limit').throw fun h => h

/-- A die is rolled the same under either limit. -/
theorem tracks_addRoll (die : Die) :
    Tracks limit limit' (table.addRoll die) (table'.addRoll die) :=
  (tracks_drawFace hsource die.faces).bind fun _ => (congruence_tracks limit limit').pure _

/-- A pool is rolled the same under either limit. -/
theorem tracks_rollDice (faces : Faces) (count : Nat) :
    Tracks limit limit' (table.rollDice faces count) (table'.rollDice faces count) := by
  induction count with
  | zero => exact (congruence_tracks limit limit').pure []
  | succ count ih =>
      refine (tracks_addRoll hsource _).bind fun die => ?_
      exact ih.bind fun others => (congruence_tracks limit limit').pure _

end Source

/-! ## Rounds -/

/-- The first limit may leave fewer rounds, but they suffice. -/
theorem tracks_rounds {α : Type} (hlimit : table.limit = some limit)
    (hlimit' : table'.limit = some limit') {f f' : Nat → Roll α} (hsettles : Settles limit f)
    (hf : ∀ rounds, Tracks limit limit' (f rounds) (f' rounds)) :
    Tracks limit limit' (table.rounds >>= f) (table'.rounds >>= f') := by
  have hrounds : ∀ tally tally', tally.Within limit limit' tally' →
      (table.rounds >>= f).attempt tally =
        (f ((limit' - tally'.announced).toNat + 1)).attempt tally := by
    intro tally tally' hwithin
    have hle := hwithin.left_le
    -- Under the first limit no more rounds are needed than it leaves, so the second's are as good.
    have hsame := hsettles tally ((limit - tally.announced).toNat + 1)
      ((limit' - tally'.announced).toNat + 1) (by omega) (by omega)
    rw [attempt_rounds_bind hlimit]
    unfold attempt
    rw [hsame]
  constructor
  · intro tally'
    rw [attempt_rounds_bind hlimit']
    exact (hf _).grows tally'
  · intro tally tally' hwithin hspent
    rw [attempt_rounds_bind hlimit'] at hspent ⊢
    rw [hrounds tally tally' hwithin]
    exact (hf _).repeats tally tally' hwithin hspent
  · intro tally tally' hwithin hspent
    rw [attempt_rounds_bind hlimit'] at hspent
    rw [hrounds tally tally' hwithin]
    exact (hf _).exceeds tally tally' hwithin hspent

/-- What rolls under two limits compares. -/
theorem alike_tracks (hlimit : table.limit = some limit) (hlimit' : table'.limit = some limit')
    (hsource : table.source = table'.source) : Alike (Tracks limit limit') limit table table' where
  toCongruence := congruence_tracks limit limit'
  limited := hlimit
  roll count faces :=
    (tracks_announce hlimit hlimit' count).bind fun _ => tracks_rollDice hsource faces count
  add die := (tracks_announce hlimit hlimit' 1).bind fun _ => tracks_addRoll hsource die
  rounds := tracks_rounds hlimit hlimit'

end Table
end DiceNotation
