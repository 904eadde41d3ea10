import DiceNotation.Evaluation.Growth
import DiceNotation.Proofs.Steps

/-!
# Draws and announcements

Whoever draws dice that others have announced leaves the announced dice alone, and never blames
the limit.  Dice that join a pool are announced one by one, so that a computation which succeeds
has announced as many as joined.

Main definitions:

- `Fault.IsOfRolling`: the faults that only rolling comes to, and of these
- `Fault.IsOverBudget`: the fault of a passed limit.
- `Fault.Unrolled`, `Fault.Unlimited`: what does not roll and never has such a fault.
- `Roll.Draws`: computations that draw dice announced by others.
- `Roll.Announces`: computations whose result tells how many dice they have announced.
- `Table.addAnnounced`: a further roll of a die, announced.

Main results:

- `Table.draws_addRoll`, `Table.draws_rollDice`: a roll draws once, several dice as often.
- `Table.announces_generation`: a round announces the dice that join in it.
-/

namespace DiceNotation

/-- Whether a fault says that a limit was passed. -/
def Fault.IsOverBudget : Fault → Prop
  | .overBudget _ => True
  | _ => False

/-- Whether the fault of what does not roll, if it fails, is another one. -/
def Fault.Unlimited {α : Type} (x : Except Fault α) : Prop :=
  Gives x (fun _ => True) fun fault => ¬ fault.IsOverBudget

/-- Whether a fault is one that only rolling comes to: a limit was passed, the draws have run out,
or dice kept calling for more dice. -/
def Fault.IsOfRolling : Fault → Prop
  | .overBudget _ => True
  | .drawsExhausted => True
  | .unsettled => True
  | _ => False

/-- Whether what does not roll fails, if it does, as what does not roll. -/
def Fault.Unrolled {α : Type} (x : Except Fault α) : Prop :=
  Gives x (fun _ => True) fun fault => ¬ fault.IsOfRolling

namespace Fault

variable {α β : Type}

theorem unlimited_ok (a : α) : Unlimited (.ok a) := trivial

theorem unrolled_ok (a : α) : Unrolled (.ok a) := trivial

/-- What does not roll passes no limit. -/
theorem Unrolled.unlimited {x : Except Fault α} (h : Unrolled x) : Unlimited x := by
  refine Gives.imp h (fun _ _ h => h) ?_
  intro fault hfault
  cases fault with
  | overBudget limit => exact absurd trivial hfault
  | _ => exact fun h => h

/-- A sequence of what does not roll does not roll. -/
theorem Unrolled.bind {x : Except Fault α} {f : α → Except Fault β} (hx : Unrolled x)
    (hf : ∀ a, Unrolled (f a)) : Unrolled (x >>= f) :=
  Gives.bind hx fun a _ _ => hf a

/-- What rolls for no item does not roll for a list of them. -/
theorem Unrolled.mapM {f : α → Except Fault β} {items : List α}
    (hf : ∀ item, Unrolled (f item)) : Unrolled (items.mapM f) :=
  Gives.mapM (P := fun _ _ => True) trivial fun _ _ item _ _ => hf item

end Fault

/-- A fault of arithmetic is none of rolling. -/
theorem ArithmeticFault.unrolled_unguarded {α : Type} (x : Except ArithmeticFault α) :
    Fault.Unrolled (unguarded x) := by
  cases x with
  | ok result => trivial
  | error cause => exact fun h => h

/-- That a die cannot explode is no matter of rolling. -/
theorem Die.unrolled_threshold (die : Die) : Fault.Unrolled die.threshold := by
  unfold threshold
  split
  · trivial
  · exact fun h => h

namespace Roll

variable {α β : Type}

/-- Whether a computation makes `count` draws of dice that others announced.  If it fails it
may have made fewer, and does not blame the limit. -/
def Draws (count : Nat) (x : Roll α) : Prop :=
  ∀ tally, Ends x tally
    (fun _ later => later.announced = tally.announced ∧ later.drawn = tally.drawn + count)
    (fun fault later => later.announced = tally.announced ∧ tally.drawn ≤ later.drawn ∧
      later.drawn ≤ tally.drawn + count ∧ ¬ fault.IsOverBudget)

/-- A result at hand takes no draw. -/
theorem draws_pure (a : α) : Draws 0 (pure a) := fun _ => ends_pure.mpr ⟨rfl, rfl⟩

/-- What does not roll takes no draw. -/
theorem draws_lift {x : Except Fault α} (h : Fault.Unlimited x) : Draws 0 (lift x) := by
  intro tally
  rw [lift, ends_ofExcept]
  exact h.imp (fun _ _ _ => ⟨rfl, rfl⟩) fun _ hfault => ⟨rfl, Nat.le_refl _, Nat.le_refl _, hfault⟩

/-- The draws of a sequence are those of its parts. -/
theorem Draws.bind {x : Roll α} {f : α → Roll β} {m n : Nat} (hx : Draws m x)
    (hf : ∀ a, Draws n (f a)) : Draws (m + n) (x >>= f) := by
  intro tally
  rw [ends_bind]
  refine (hx tally).imp ?_ ?_
  · rintro a later ⟨hannounced, hdrawn⟩
    refine (hf a later).imp ?_ ?_
    · rintro b last ⟨hannounced', hdrawn'⟩
      exact ⟨by omega, by omega⟩
    · rintro fault last ⟨hannounced', hle, hle', hfault⟩
      exact ⟨by omega, by omega, by omega, hfault⟩
  · rintro fault later ⟨hannounced, hle, hle', hfault⟩
    exact ⟨hannounced, hle, by omega, hfault⟩

/-! ## Announcements -/

variable {limit : Int}

/-- Whether a computation, if it succeeds, has announced as many dice as its result tells, and
has not passed the limit by it. -/
def Announces (limit : Int) (count : α → Int) (x : Roll α) : Prop :=
  ∀ tally, Yields x tally fun a later =>
    later.announced = tally.announced + count a ∧ later.announced ≤ max limit tally.announced

/-- A result at hand announces nothing. -/
theorem announces_pure {count : α → Int} {a : α} (h : count a = 0) :
    Announces limit count (pure a) :=
  fun tally => ends_pure.mpr ⟨by omega, by omega⟩

/-- What does not roll announces nothing. -/
theorem announces_lift (x : Except Fault α) : Announces limit (fun _ => 0) (lift x) := by
  cases x with
  | ok a => exact announces_pure rfl
  | error fault => exact fun _ => trivial

/-- The announcements of a sequence are those of its parts. -/
theorem Announces.bind {x : Roll α} {f : α → Roll β} {count : α → Int} {total : β → Int}
    (hx : Announces limit count x)
    (hf : ∀ a, Announces limit (fun b => total b - count a) (f a)) :
    Announces limit total (x >>= f) := by
  intro tally
  refine (hx tally).bind ?_
  rintro a later ⟨hcount, hmax⟩
  refine (hf a later).imp ?_ fun _ _ h => h
  rintro b last ⟨hcount', hmax'⟩
  dsimp only at hcount'
  exact ⟨by omega, by omega⟩

/-- A run through a list announces what its steps announce together. -/
theorem Announces.mapM {f : α → Roll β} {count : β → Int} {total : List β → Int}
    (hnil : total [] = 0) (hcons : ∀ b more, total (b :: more) = count b + total more)
    (hf : ∀ item, Announces limit count (f item)) (items : List α) :
    Announces limit total (items.mapM f) := by
  induction items with
  | nil => exact announces_pure hnil
  | cons item rest ih =>
      rw [List.mapM_cons]
      refine (hf item).bind fun b => ?_
      refine ih.bind fun more => announces_pure ?_
      rw [hcons]
      omega

end Roll

namespace Table

open Roll

variable {table : Table} {limit : Int}

/-! ## Dice -/

/-- The next draw is one. -/
theorem draws_nextDraw : Draws 1 table.nextDraw := by
  intro tally
  unfold Ends
  rw [run_nextDraw]
  cases table.source tally.drawn with
  | none => exact ⟨rfl, Nat.le_refl _, Nat.le_succ _, fun h => h⟩
  | some x => exact ⟨rfl, rfl⟩

/-- A draw in a range is one. -/
theorem draws_draw (least greatest : Int) : Draws 1 (table.draw least greatest) := by
  unfold draw
  exact draws_nextDraw.bind fun x => draws_lift (ArithmeticFault.unrolled_unguarded _).unlimited

/-- A draw of a face is one. -/
theorem draws_drawFace (faces : Faces) : Draws 1 (table.drawFace faces) := by
  cases faces with
  | range least greatest => exact draws_draw least greatest
  | listed values =>
      dsimp only [drawFace]
      refine Draws.bind (n := 0) (draws_draw 0 _) fun place => ?_
      split
      · exact draws_pure _
      · exact fun tally => ⟨rfl, Nat.le_refl _, Nat.le_refl _, fun h => h⟩

/-- One more roll of a die is one draw. -/
theorem draws_addRoll (die : Die) : Draws 1 (table.addRoll die) := by
  unfold addRoll
  exact (draws_drawFace die.faces).bind fun result => draws_pure _

/-- A pool takes a draw for each die. -/
theorem draws_rollDice (faces : Faces) (count : Nat) :
    Draws count (table.rollDice faces count) := by
  induction count with
  | zero => exact draws_pure []
  | succ count ih =>
      unfold rollDice
      rw [Nat.add_comm]
      refine (draws_addRoll _).bind fun die => ?_
      exact ih.bind fun others => draws_pure (die :: others)

/-! ## New dice -/

/-- A further roll of a die, announced. -/
def addAnnounced (table : Table) (die : Die) : Roll Die := do
  table.announce 1
  table.addRoll die

/-- A spawned die is announced and rolled, and loses one if it penetrates. -/
theorem spawnLike_eq (penetrating : Bool) (die : Die) :
    table.spawnLike penetrating die = do
      let rolled ← table.addAnnounced die.fresh
      return if penetrating then rolled.addResult (-1) else rolled :=
  (bind_assoc ..).symm

/-- An explosion into new dice goes on in rounds. -/
theorem explode_eq_cascade (penetrating : Bool) (condition : Option Condition) (pool : List Die) :
    table.explode (if penetrating then .penetrating else .regular) condition pool =
      table.rounds >>= fun rounds => cascade (table.explodeDie penetrating condition) rounds pool := by
  cases penetrating <;> rfl

/-- A die that is rerolled is discarded and a fresh one announced for it. -/
theorem rerollDie_eq (conditions : List Condition) (die : Die) :
    table.rerollDie conditions die =
      if die.discarded || !Condition.anyHolds conditions (.int die.value) then pure (die, [])
      else do
        let joined ← table.addAnnounced die.fresh
        return ({ die with discarded := true }, [joined]) := by
  unfold rerollDie
  split
  · rfl
  · exact (bind_assoc ..).symm

/-- A round of compounding looks at the last roll and, if it explodes, announces one more. -/
theorem compoundDie_succ (condition : Option Condition) (threshold : Int) (rounds : Nat)
    (die : Die) :
    table.compoundDie condition threshold (rounds + 1) die =
      match die.rolls.getLast? with
      | none => throw .noSuchPlace
      | some last =>
        if !explodes condition threshold last then pure die
        else table.addAnnounced { die with exploded := true } >>=
          table.compoundDie condition threshold rounds := by
  rw [compoundDie]
  cases die.rolls.getLast? with
  | none => rfl
  | some last =>
      dsimp only
      split
      · rfl
      · exact (bind_assoc ..).symm

/-! ## Announced dice -/

/-- The fault of a passed limit can be told, unless the limit is too long to be written. -/
theorem excess_eq (limit : Int) :
    excess limit =
      if Numeral.digitLimit < (Nat.toDigits 10 limit.natAbs).length then .numeralTooLong
      else .overBudget limit := by
  unfold excess Numeral.write
  by_cases hlong : Numeral.digitLimit < (Nat.toDigits 10 limit.natAbs).length
  · simp [hlong]
  · simp [hlong]

section Limited

variable (hlimit : table.limit = some limit)
include hlimit

/-- A further roll is announced, whether it is made or not, and is made within the limit only. -/
theorem ends_addAnnounced (die : Die) (tally : Tally) :
    Ends (table.addAnnounced die) tally
      (fun _ later => later.announced = tally.announced + 1 ∧ later.announced ≤ limit)
      fun _ later => later.announced = tally.announced + 1 := by
  unfold addAnnounced
  by_cases hle : tally.announced + 1 ≤ limit
  · have hdraws : Draws 1 (table.addRoll die) := draws_addRoll die
    have hadd := hdraws (counted tally 1)
    unfold Ends at hadd ⊢
    rw [EStateM.run_bind, run_announce_of_le hlimit hle]
    refine Ends.imp hadd ?_ fun _ _ hfailed => hfailed.1
    rintro rolled later ⟨hannounced, -⟩
    have hannounced : later.announced = tally.announced + 1 := hannounced
    exact ⟨hannounced, by omega⟩
  · unfold Ends
    rw [EStateM.run_bind, run_announce_of_lt hlimit (Int.not_le.mp hle)]
    rfl

/-- A further roll is one announcement. -/
theorem announces_addAnnounced (die : Die) :
    Announces limit (fun _ => 1) (table.addAnnounced die) := by
  intro tally
  refine (ends_addAnnounced hlimit die tally).imp ?_ fun _ _ _ => trivial
  rintro rolled later ⟨hannounced, hle⟩
  exact ⟨hannounced, Int.le_trans hle (Int.le_max_left ..)⟩

/-- A die that explodes announces the dice that join. -/
theorem announces_explodeDie (penetrating : Bool) (condition : Option Condition) (die : Die) :
    Announces limit (fun made => made.2.length) (table.explodeDie penetrating condition die) := by
  unfold explodeDie
  refine (announces_lift _).bind fun threshold => ?_
  split
  · exact announces_pure (by simp)
  · have hspawn : Announces limit (fun _ => 1) (table.spawnLike penetrating die) := by
      rw [spawnLike_eq]
      exact (announces_addAnnounced hlimit _).bind fun rolled => announces_pure (by simp)
    have hall : Announces limit (fun made => (made.length : Int))
        ((explodingRolls penetrating condition threshold die).mapM
          fun _ => table.spawnLike penetrating die) :=
      Announces.mapM rfl (fun _ _ => by simp [Int.add_comm]) (fun _ => hspawn) _
    exact hall.bind fun joined => announces_pure (by simp)

/-- So does a die that is rerolled. -/
theorem announces_rerollDie (conditions : List Condition) (die : Die) :
    Announces limit (fun made => made.2.length) (table.rerollDie conditions die) := by
  rw [rerollDie_eq]
  split
  · exact announces_pure (by simp)
  · exact (announces_addAnnounced hlimit _).bind fun joined => announces_pure (by simp)

end Limited

/-- A round announces the dice that join in it. -/
theorem announces_generation {spawn : Die → Roll (Die × List Die)}
    (hspawn : ∀ die, Announces limit (fun made => made.2.length) (spawn die)) (pool : List Die) :
    Announces limit (fun made => made.2.length) (generation spawn pool) := by
  have hall : Announces limit (fun made => ((made.flatMap Prod.snd).length : Int))
      (pool.mapM spawn) :=
    Announces.mapM rfl (fun _ _ => by simp) hspawn pool
  exact hall.bind fun made => announces_pure (by simp)

end Table
end DiceNotation
