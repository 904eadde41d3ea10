import DiceNotation.Proofs.Dice.Turns
import DiceNotation.Proofs.Evaluation.Selection
import DiceNotation.Proofs.Evaluation.Shapes
import DiceNotation.Proofs.Evaluation.Traversal

/-!
# Draws in turn

An expression that yields a pool rolls each die of it once, in the order in which the dice stand
in the pool: operands come before what their modifiers add, the left summand before the right.
Marking dice moves none of them.  So a roll can be replayed from its draws.

Main definitions:

- `Expression.Uncompounded`: pools that no compounding explosion goes over.

Main results:

- `Expression.growsInTurn_modify`: what a modifier adds to a pool it adds in turn.
- `Expression.dice_in_turn`: the dice of a pool are its draws, one for one and in order.
-/

namespace DiceNotation

/-- A selection marks dice and leaves them where they are. -/
theorem Value.remains_select (keep : Bool) (selector : Selector) (markup : Markup)
    (pool : List Die) : ∃ marked, (Value.pool pool).select keep selector markup = .pool marked ∧
      List.Forall₂ (Die.Remains false) pool marked :=
  ⟨_, rfl, Standing.forall₂_select (Die.remains_self false)
    (fun _ hlive => Die.remains_marked hlive id) keep selector pool⟩

namespace Expression

variable {table : Table} {markup : Markup}

/-- Whether no compounding explosion goes over the pools of an expression. -/
def Uncompounded : Expression → Prop
  | .modified modifier operand =>
    (∀ condition, modifier ≠ .explode .compounding condition) ∧ operand.Uncompounded
  | .bracket content => content.Uncompounded
  | .binary _ left right => left.Uncompounded ∧ right.Uncompounded
  | _ => True

/-! ## Parts of pools -/

/-- What is modified into a pool was one. -/
theorem shape_operand {modifier : Modifier} {operand : Expression}
    (hpool : (modified modifier operand).shape = .pool)
    (haccepts : (modified modifier operand).accepts operand.shape = true) :
    operand.shape = .pool := by
  cases modifier with
  | explode explosion condition => simpa [accepts] using haccepts
  | reroll conditions once => simpa [accepts] using haccepts
  | select keep selector =>
      rw [shape] at hpool
      split at hpool
      · next hoperand => exact hoperand
      · contradiction

/-- Only the sum of two pools is a pool. -/
theorem shape_summands {op : BinaryOp} {left right : Expression}
    (hpool : (binary op left right).shape = .pool) : left.shape = .pool ∧ right.shape = .pool := by
  cases op with
  | add =>
      rw [shape_add] at hpool
      split at hpool
      · next hsummands => exact hsummands
      · contradiction
  | _ => simp [shape] at hpool

/-! ## Evaluation -/

/-- Rolled dice show the next draws in turn. -/
theorem inTurn_rollAnnounced {count : Int} (hcount : 0 ≤ count) (faces : Faces) (tally : Tally) :
    Yields (rollAnnounced table count faces) tally fun value later =>
      ∃ dice, value = .pool dice ∧ tally.InTurn table.source dice later := by
  unfold rollAnnounced
  refine (Table.yields_announce count tally).bind ?_
  rintro _ _ rfl
  obtain ⟨n, rfl⟩ := Int.eq_ofNat_of_zero_le hcount
  refine (Table.inTurn_rollDice faces n tally).bind ?_
  exact fun dice later hdice => ends_pure.mpr ⟨dice, rfl, hdice⟩

/-- What a modifier adds to a pool it adds in turn. -/
theorem growsInTurn_modify {modifier : Modifier}
    (hmodifier : ∀ condition, modifier ≠ .explode .compounding condition) (pool : List Die)
    (tally : Tally) :
    Yields (modify table markup modifier (.pool pool)) tally fun value later =>
      ∃ dice, value = .pool dice ∧ tally.GrowsInTurn table.source pool dice later := by
  cases modifier with
  | explode explosion condition =>
      unfold modify
      have hexplosion : explosion ≠ .compounding :=
        fun h => hmodifier condition (by rw [h])
      refine (Table.growsInTurn_explode hexplosion condition pool tally).bind ?_
      exact fun dice later hdice => ends_pure.mpr ⟨dice, rfl, hdice⟩
  | reroll conditions once =>
      unfold modify
      refine (Table.growsInTurn_reroll conditions once pool tally).bind ?_
      exact fun dice later hdice => ends_pure.mpr ⟨dice, rfl, hdice⟩
  | select keep selector =>
      obtain ⟨marked, hselect, hmarked⟩ := Value.remains_select keep selector markup pool
      exact ends_pure.mpr
        ⟨marked, hselect, marked, [], (List.append_nil _).symm, hmarked, .nil _ tally⟩

/-- The dice of a pool are rolled in turn. -/
theorem inTurn_evaluate {e : Expression} (hpool : e.shape = .pool) (hroll : e.Rollable)
    (hplain : e.Uncompounded) (tally : Tally) :
    Yields (evaluate table markup e) tally fun value later =>
      ∃ dice, value = .pool dice ∧ tally.InTurn table.source dice later := by
  cases e with
  | dice count least greatest =>
      rw [Rollable] at hroll
      unfold evaluate
      exact inTurn_rollAnnounced hroll _ tally
  | customDice count faces =>
      rw [Rollable] at hroll
      unfold evaluate
      exact inTurn_rollAnnounced hroll _ tally
  | modified modifier operand =>
      rw [Rollable] at hroll
      rw [Uncompounded] at hplain
      unfold evaluate
      refine (yields_demand _ operand tally).bind ?_
      rintro _ _ ⟨haccepts, rfl⟩
      have hoperand := shape_operand hpool haccepts
      refine (inTurn_evaluate hoperand hroll hplain.2 _).bind ?_
      rintro _ later ⟨pool, rfl, hpool⟩
      refine (growsInTurn_modify hplain.1 pool later).imp ?_ fun _ _ h => h
      rintro _ last ⟨dice, rfl, hdice⟩
      exact ⟨dice, rfl, hpool.growsInTurn hdice⟩
  | bracket content =>
      rw [Rollable] at hroll
      rw [Uncompounded] at hplain
      rw [shape_bracket] at hpool
      unfold evaluate
      refine (inTurn_evaluate hpool hroll hplain tally).bind ?_
      rintro _ later ⟨dice, rfl, hdice⟩
      exact ends_pure.mpr ⟨dice, rfl, hdice⟩
  | binary op left right =>
      rw [Rollable] at hroll
      rw [Uncompounded] at hplain
      obtain ⟨hleft, hright⟩ := shape_summands hpool
      unfold evaluate
      rw [if_pos hpool]
      refine (inTurn_evaluate hleft hroll.1 hplain.1 tally).bind ?_
      rintro _ middle ⟨first, rfl, hfirst⟩
      refine (inTurn_evaluate hright hroll.2 hplain.2 middle).bind ?_
      rintro _ later ⟨second, rfl, hsecond⟩
      exact ends_pure.mpr ⟨first ++ second, rfl, hfirst.append hsecond⟩
  | number | scored | list | unary => simp [shape] at hpool

/-- The dice of a pool are its draws, one for one and in order: there are as many of them as draws
were made and dice announced, and the first roll of each is what its draw shows on its faces. -/
theorem dice_in_turn {e : Expression} (hpool : e.shape = .pool) (hroll : e.Rollable)
    (hplain : e.Uncompounded) {tally later : Tally} {value : Value}
    (h : (evaluate table markup e).run tally = .ok value later) :
    ∃ dice, value = .pool dice ∧
      later.drawn = tally.drawn + dice.length ∧
      later.announced = tally.announced + dice.length ∧
      ∀ k (hk : k < dice.length), ∃ x face,
        table.source (tally.drawn + k) = some x ∧
        dice[k].faces.shown x = .ok face ∧
        dice[k].rolls.head? = some face := by
  obtain ⟨dice, hvalue, hdice⟩ :=
    yields_iff.mp (inTurn_evaluate hpool hroll hplain tally) value later h
  refine ⟨dice, hvalue, hdice.drawn, hdice.announced, ?_⟩
  exact fun k hk => hdice.shown.getElem hk

/-- Exploding dice and a rerolled die with listed faces, of which the two highest are kept. -/
def twoHighest : Expression :=
  .modified (.select true (.extreme true 2))
    (.bracket (.binary .add (.modified (.explode .penetrating none) (.dice 2 1 6))
      (.modified (.reroll [⟨.equal, 9⟩] true) (.customDice 1 [7, 9]))))

/-- A source whose first draw is high. -/
def highFirst : Source := fun n => some (if n = 0 then .ofRat (mkRat 15 16) else Number.half)

/-- The first die explodes and the last is rerolled, so that five dice are rolled for three. -/
theorem dice_in_turn_twoHighest :
    twoHighest.shape = .pool ∧ twoHighest.Rollable ∧ twoHighest.Uncompounded ∧
    ∃ dice later,
      (evaluate { source := highFirst, limit := some 9 } .plain twoHighest).run {} =
        .ok (.pool dice) later ∧
      dice.length = 5 ∧ later.drawn = 0 + dice.length ∧ later.announced = 0 + dice.length ∧
      ∀ k (hk : k < dice.length), ∃ x face,
        highFirst (0 + k) = some x ∧ dice[k].faces.shown x = .ok face ∧
          dice[k].rolls.head? = some face := by
  have hpool : twoHighest.shape = .pool := by decide
  have hroll : twoHighest.Rollable := by simp [twoHighest, Rollable]
  have hplain : twoHighest.Uncompounded := by simp [twoHighest, Uncompounded]
  have h : (evaluate { source := highFirst, limit := some 9 } .plain twoHighest).run {} =
      .ok (.pool [{ faces := .range 1 6, rolls := [6], exploded := true },
        { faces := .range 1 6, rolls := [4], discarded := true },
        { faces := .range 1 6, rolls := [4, -1], discarded := true },
        { faces := .listed [7, 9], rolls := [9], discarded := true },
        { faces := .listed [7, 9], rolls := [9] }]) { announced := 5, drawn := 5 } := by
    decide +kernel
  obtain ⟨_, hvalue, hdrawn, hannounced, hshown⟩ := dice_in_turn hpool hroll hplain h
  cases hvalue
  exact ⟨hpool, hroll, hplain, _, _, h, rfl, hdrawn, hannounced, hshown⟩

end Expression
end DiceNotation
