import DiceNotation.Proofs.Dice.Congruence
import DiceNotation.Proofs.Dice.Growth
import DiceNotation.Proofs.Dice.Marks

/-!
# Dice in turn

Every new die is announced and then drawn, and joins the end of its pool.  So the dice of a pool
show the draws in the order in which they were made, one draw each: the place of a die in the pool
is the number of its draw.  Growth that adds to the rolls of a die, as a compounding explosion
does, is left out here.

Main definitions:

- `Faces.shown`: what a draw shows on faces.
- `Die.ShowsDraw`, `Source.ShownBy`: dice that show one draw each.
- `Tally.InTurn`: what is rolled between two tallies.
- `Tally.GrowsInTurn`: what becomes of a pool between two tallies.

Main results:

- `Table.inTurn_rollDice`: dice that are rolled are rolled in turn.
- `Table.growsInTurn_cascade`: what joins a growing pool joins in turn behind the pool.
- `Table.growsInTurn_explode`, `Table.growsInTurn_reroll`: so do the new dice of explosions and
  rerolls.
-/

namespace DiceNotation

/-! ## Draws on faces -/

/-- What a draw shows on faces. -/
def Faces.shown (faces : Faces) (x : Binary64) : Except Fault Int :=
  match faces with
  | .range least greatest => ArithmeticFault.unguarded (Table.place x least greatest)
  | .listed values => do
    let place ← ArithmeticFault.unguarded (Table.place x 0 (values.length - 1))
    match Text.atPlace? values place with
    | some face => .ok face
    | none => .error .noSuchPlace

/-- What a draw shows is no matter of rolling. -/
theorem Faces.unrolled_shown (faces : Faces) (x : Binary64) : Fault.Unrolled (faces.shown x) := by
  cases faces with
  | range least greatest => exact ArithmeticFault.unrolled_unguarded _
  | listed values =>
      refine (ArithmeticFault.unrolled_unguarded _).bind fun place => ?_
      split
      · trivial
      · exact fun h => h

/-- Whether the first roll of a die is what draw number `n` shows on its faces. -/
def Die.ShowsDraw (source : Source) (n : Nat) (die : Die) : Prop :=
  ∃ x face, source n = some x ∧ die.faces.shown x = .ok face ∧ die.rolls.head? = some face

/-- Whether dice show one draw each, from draw number `start` on. -/
def Source.ShownBy (source : Source) : Nat → List Die → Prop
  | _, [] => True
  | start, die :: rest => die.ShowsDraw source start ∧ source.ShownBy (start + 1) rest

namespace Source

variable {source : Source} {start : Nat}

/-- Dice show draws in turn if the first of them do and the others those behind. -/
theorem shownBy_append {dice more : List Die} :
    source.ShownBy start (dice ++ more) ↔
      source.ShownBy start dice ∧ source.ShownBy (start + dice.length) more := by
  induction dice generalizing start with
  | nil => simp [ShownBy]
  | cons die rest ih =>
      simp only [List.cons_append, ShownBy, ih, List.length_cons, and_assoc]
      rw [Nat.add_right_comm, Nat.add_assoc start]

/-- The place of a die is the number of its draw. -/
theorem ShownBy.getElem {dice : List Die} (h : source.ShownBy start dice) {k : Nat}
    (hk : k < dice.length) : dice[k].ShowsDraw source (start + k) := by
  induction dice generalizing start k with
  | nil => simp at hk
  | cons die rest ih =>
      cases k with
      | zero => exact h.1
      | succ k =>
          have hnext := ih h.2 (Nat.lt_of_succ_lt_succ hk)
          rwa [Nat.add_right_comm] at hnext

end Source

namespace Die

/-- Marks do not change what draw a die shows. -/
theorem showsDraw_unmarked {source : Source} {n : Nat} {die : Die} :
    die.unmarked.ShowsDraw source n ↔ die.ShowsDraw source n := Iff.rfl

/-- A die that has been rolled shows the same draw after a further result. -/
theorem ShowsDraw.addResult {source : Source} {n : Nat} {die : Die} (h : die.ShowsDraw source n)
    (result : Int) : (die.addResult result).ShowsDraw source n := by
  obtain ⟨x, face, hx, hface, hfirst⟩ := h
  exact ⟨x, face, hx, hface, by simp [Die.addResult, hfirst]⟩

end Die

/-- Marks do not matter for what dice show. -/
theorem Source.shownBy_unmarked {source : Source} {start : Nat} {dice : List Die} :
    source.ShownBy start (dice.map Die.unmarked) ↔ source.ShownBy start dice := by
  induction dice generalizing start with
  | nil => rfl
  | cons die rest ih => simp only [List.map_cons, ShownBy, Die.showsDraw_unmarked, ih]

/-! ## Tallies -/

/-- What is rolled between two tallies: each of the dice was announced and drawn once, in the order
in which they stand. -/
structure Tally.InTurn (source : Source) (before : Tally) (dice : List Die) (after : Tally) :
    Prop where
  announced : after.announced = before.announced + dice.length
  drawn : after.drawn = before.drawn + dice.length
  shown : source.ShownBy before.drawn dice

namespace Tally.InTurn

variable {source : Source} {first second third : Tally} {dice more : List Die}

/-- No dice show no draws. -/
theorem nil (source : Source) (tally : Tally) : tally.InTurn source [] tally :=
  ⟨by simp, by simp, trivial⟩

/-- Dice in turn may follow dice in turn. -/
theorem append (h : first.InTurn source dice second) (h' : second.InTurn source more third) :
    first.InTurn source (dice ++ more) third := by
  refine ⟨?_, ?_, ?_⟩
  · rw [h'.announced, h.announced, List.length_append]
    omega
  · rw [h'.drawn, h.drawn, List.length_append]
    omega
  · have hshown := h'.shown
    rw [h.drawn] at hshown
    exact Source.shownBy_append.mpr ⟨h.shown, hshown⟩

/-- Dice may be marked later. -/
theorem remark (h : first.InTurn source dice second)
    (hmarks : more.map Die.unmarked = dice.map Die.unmarked) : first.InTurn source more second := by
  have hlength : more.length = dice.length := by simpa using congrArg List.length hmarks
  refine ⟨by rw [hlength, h.announced], by rw [hlength, h.drawn], ?_⟩
  rw [← Source.shownBy_unmarked, hmarks, Source.shownBy_unmarked]
  exact h.shown

end Tally.InTurn

/-- What becomes of a pool between two tallies: its dice stand where they stood, at most marked, and
those that joined behind them were rolled in turn. -/
def Tally.GrowsInTurn (source : Source) (before : Tally) (pool dice : List Die) (after : Tally) :
    Prop :=
  ∃ kept joined, dice = kept ++ joined ∧ List.Forall₂ (Die.Remains false) pool kept ∧
    before.InTurn source joined after

/-- What becomes of a pool goes on where the pool ended. -/
theorem Tally.InTurn.growsInTurn {source : Source} {first second third : Tally}
    {pool dice : List Die} (h : first.InTurn source pool second)
    (hgrows : second.GrowsInTurn source pool dice third) : first.InTurn source dice third := by
  obtain ⟨kept, joined, rfl, hkept, hjoined⟩ := hgrows
  exact (h.remark (Die.unmarked_of_remains hkept)).append hjoined

namespace Table

variable {table : Table}

/-! ## New dice -/

/-- Announcing that succeeds counts the dice. -/
theorem yields_announce (count : Int) (tally : Tally) :
    Yields (table.announce count) tally fun _ later => later = counted tally count := by
  unfold Yields Ends
  rw [run_announce]
  cases table.limit with
  | none => rfl
  | some limit => by_cases hlimit : limit < tally.announced + count <;> simp [hlimit]

/-- A face is that shown by the next draw. -/
theorem drawFace_eq (faces : Faces) :
    table.drawFace faces = table.nextDraw >>= fun x => Roll.lift (faces.shown x) := by
  cases faces with
  | range least greatest => rfl
  | listed values =>
      unfold drawFace draw Faces.shown
      dsimp only
      rw [bind_assoc]
      congr 1
      funext x
      cases ArithmeticFault.unguarded (place x 0 (values.length - 1)) with
      | error fault => rfl
      | ok place =>
          change (match Text.atPlace? values place with
            | some face => (pure face : Roll Int)
            | none => throw Fault.noSuchPlace) =
            Roll.lift (match Text.atPlace? values place with
              | some face => .ok face
              | none => .error .noSuchPlace)
          cases Text.atPlace? values place <;> rfl

/-- A face that is drawn is what the next draw shows. -/
theorem shown_drawFace (faces : Faces) (tally : Tally) :
    Yields (table.drawFace faces) tally fun face later =>
      (∃ x, table.source tally.drawn = some x ∧ faces.shown x = .ok face) ∧
        later = { tally with drawn := tally.drawn + 1 } := by
  rw [drawFace_eq]
  have hdraw : Yields table.nextDraw tally fun x later =>
      table.source tally.drawn = some x ∧ later = { tally with drawn := tally.drawn + 1 } := by
    unfold Yields Ends
    rw [run_nextDraw]
    cases hx : table.source tally.drawn with
    | none => trivial
    | some x => exact ⟨rfl, rfl⟩
  refine hdraw.bind ?_
  rintro x later ⟨hx, hlater⟩
  rw [Roll.lift, ends_ofExcept]
  cases hshown : faces.shown x with
  | error fault => trivial
  | ok face => exact ⟨⟨x, hx, hshown⟩, hlater⟩

/-- A die without a roll shows the draw that it is rolled by. -/
theorem shows_addRoll {die : Die} (hdie : die.rolls = []) (tally : Tally) :
    Yields (table.addRoll die) tally fun rolled later =>
      rolled.ShowsDraw table.source tally.drawn ∧
        later = { tally with drawn := tally.drawn + 1 } := by
  unfold addRoll
  refine (shown_drawFace die.faces tally).bind ?_
  rintro face later ⟨⟨x, hx, hshown⟩, hlater⟩
  exact ends_pure.mpr ⟨⟨x, face, hx, hshown, by simp [Die.addResult, hdie]⟩, hlater⟩

/-- A further roll of a die that is announced shows the next draw, as a die of its own would. -/
theorem further_addAnnounced (die : Die) (tally : Tally) :
    Yields (table.addAnnounced die) tally fun rolled later =>
      ∃ face, rolled = die.addResult face ∧
        tally.InTurn table.source [die.fresh.addResult face] later := by
  unfold addAnnounced addRoll
  refine (yields_announce 1 tally).bind ?_
  rintro _ _ rfl
  refine (shown_drawFace die.faces _).bind ?_
  rintro face _ ⟨⟨x, hx, hshown⟩, rfl⟩
  exact ends_pure.mpr ⟨face, rfl, rfl, rfl, ⟨x, face, hx, hshown, rfl⟩, trivial⟩

/-- A die that is announced and rolled. -/
theorem inTurn_addAnnounced {die : Die} (hdie : die.rolls = []) (tally : Tally) :
    Yields (table.addAnnounced die) tally fun new later =>
      tally.InTurn table.source [new] later := by
  refine (further_addAnnounced die tally).imp ?_ fun _ _ h => h
  rintro _ later ⟨face, rfl, hface⟩
  exact hface.remark (by simp [Die.unmarked, Die.addResult, Die.fresh, hdie])

/-- Several dice, which have been announced together. -/
theorem inTurn_rollDice (faces : Faces) (count : Nat) (tally : Tally) :
    Yields (table.rollDice faces count) (counted tally count) fun dice later =>
      tally.InTurn table.source dice later := by
  induction count generalizing tally with
  | zero => exact ends_pure.mpr ⟨by simp [counted], by simp [counted], trivial⟩
  | succ count ih =>
      unfold rollDice
      refine (shows_addRoll rfl _).bind ?_
      rintro die _ ⟨hdie, rfl⟩
      -- Of the dice that were announced, this one counts as drawn before the others.
      let next : Tally := { announced := tally.announced + 1, drawn := tally.drawn + 1 }
      have hnext : counted next count =
          { counted tally (count + 1 : Nat) with drawn := tally.drawn + 1 } := by
        simp only [counted, next, Tally.mk.injEq, and_true]
        omega
      have hone : tally.InTurn table.source [die] next := ⟨rfl, rfl, hdie, trivial⟩
      have hmore := ih next
      rw [hnext] at hmore
      refine hmore.bind ?_
      intro others later hothers
      exact ends_pure.mpr (hone.append hothers)

/-- A spawned die shows the next draw. -/
theorem inTurn_spawnLike (penetrating : Bool) (die : Die) (tally : Tally) :
    Yields (table.spawnLike penetrating die) tally fun new later =>
      tally.InTurn table.source [new] later := by
  rw [spawnLike_eq]
  refine (inTurn_addAnnounced rfl tally).bind ?_
  intro rolled later hrolled
  refine ends_pure.mpr ?_
  split
  · exact ⟨hrolled.announced, hrolled.drawn, hrolled.shown.1.addResult (-1), trivial⟩
  · exact hrolled

/-! ## Rounds -/

/-- Whether a die is at most marked by the dice that it calls for, which are rolled in turn. -/
def CallsInTurn (table : Table) (spawn : Die → Roll (Die × List Die)) : Prop :=
  ∀ die tally, Yields (spawn die) tally fun made later =>
    die.Remains false made.1 ∧ tally.InTurn table.source made.2 later

/-- A die that explodes calls for dice in turn. -/
theorem callsInTurn_explodeDie (penetrating : Bool) (condition : Option Condition) :
    table.CallsInTurn (table.explodeDie penetrating condition) := by
  intro die tally
  unfold explodeDie
  unfold Yields
  rw [ends_bind, Roll.lift, ends_ofExcept]
  cases die.threshold with
  | error fault => trivial
  | ok threshold =>
      dsimp only [Gives]
      split
      · exact ends_pure.mpr ⟨die.remains_self false, .nil _ tally⟩
      · next hlive =>
          have hall : Yields ((explodingRolls penetrating condition threshold die).mapM
              fun _ => table.spawnLike penetrating die) tally
              fun joined later => tally.InTurn table.source joined later := by
            refine Ends.mapM (P := fun _ joined later => tally.InTurn table.source joined later)
              (.nil _ tally) ?_
            intro _ joined before _ _ hjoined
            refine (inTurn_spawnLike penetrating die before).imp ?_ fun _ _ h => h
            exact fun new later hnew => hjoined.append hnew
          refine hall.bind ?_
          exact fun joined later hjoined => ends_pure.mpr
            ⟨Die.remains_marked (by simpa using hlive) fun h => by simp [h], hjoined⟩

/-- So does a die that is rerolled. -/
theorem callsInTurn_rerollDie (conditions : List Condition) :
    table.CallsInTurn (table.rerollDie conditions) := by
  intro die tally
  rw [rerollDie_eq]
  split
  · exact ends_pure.mpr ⟨die.remains_self false, .nil _ tally⟩
  · next hreplaced =>
      have hlive : die.discarded = false := by
        simp only [Bool.or_eq_true, not_or, Bool.not_eq_true] at hreplaced
        exact hreplaced.1
      refine (inTurn_addAnnounced rfl tally).bind ?_
      exact fun joined later hjoined => ends_pure.mpr ⟨Die.remains_marked hlive id, hjoined⟩

section Rounds

variable {spawn : Die → Roll (Die × List Die)} (hspawn : table.CallsInTurn spawn)
include hspawn

/-- The dice that join in one round are rolled in turn. -/
theorem callsInTurn_mapM (pool : List Die) (tally : Tally) :
    Yields (pool.mapM spawn) tally fun seen later =>
      List.Forall₂ (Die.Remains false) pool (seen.map Prod.fst) ∧
        tally.InTurn table.source (seen.flatMap Prod.snd) later := by
  have hremain : Yields (pool.mapM spawn) tally fun seen _ =>
      List.Forall₂ (fun die (one : Die × List Die) => die.Remains false one.1) pool seen :=
    Ends.forall₂_mapM fun die _ tally => (hspawn die tally).imp (fun _ _ h => h.1) fun _ _ h => h
  have hjoined : Yields (pool.mapM spawn) tally fun seen later =>
      tally.InTurn table.source (seen.flatMap Prod.snd) later := by
    refine Ends.mapM (P := fun _ (seen : List (Die × List Die)) later =>
      tally.InTurn table.source (seen.flatMap Prod.snd) later) (.nil _ tally) ?_
    intro _ seen before die _ hseen
    refine (hspawn die before).imp ?_ fun _ _ h => h
    rintro one later ⟨-, hone⟩
    simpa using hseen.append hone
  refine (hremain.and hjoined).imp ?_ fun _ _ h => h
  exact fun seen later h => ⟨List.forall₂_map_right_iff.mpr h.1, h.2⟩

/-- What joins a growing pool joins in turn behind it. -/
theorem growsInTurn_cascade (fuel : Nat) (pool : List Die) (tally : Tally) :
    Yields (cascade spawn fuel pool) tally (tally.GrowsInTurn table.source pool) := by
  refine cascade_induction
    (P := fun pool tally dice later => tally.GrowsInTurn table.source pool dice later) ?_ ?_ fuel
    pool tally
  · exact fun tally => ⟨[], [], rfl, .nil, .nil _ tally⟩
  · intro pool tally
    refine (callsInTurn_mapM hspawn pool tally).imp ?_ fun _ _ h => h
    rintro seen middle ⟨hkept, hjoined⟩ _ later hmore
    exact ⟨_, _, rfl, hkept, hjoined.growsInTurn hmore⟩

end Rounds

/-! ## Growing pools -/

/-- The new dice of an explosion are rolled in turn. -/
theorem growsInTurn_explode {explosion : Explosion} (hexplosion : explosion ≠ .compounding)
    (condition : Option Condition) (pool : List Die) (tally : Tally) :
    Yields (table.explode explosion condition pool) tally
      (tally.GrowsInTurn table.source pool) := by
  have hnew : ∀ penetrating : Bool, Yields
      (table.explode (if penetrating then .penetrating else .regular) condition pool) tally
        (tally.GrowsInTurn table.source pool) := by
    intro penetrating
    rw [explode_eq_cascade]
    refine (keeps_rounds table tally).bind ?_
    rintro rounds _ rfl
    exact growsInTurn_cascade (callsInTurn_explodeDie penetrating condition) rounds pool _
  cases explosion with
  | regular => exact hnew false
  | penetrating => exact hnew true
  | compounding => exact absurd rfl hexplosion

/-- So are those of a reroll. -/
theorem growsInTurn_reroll (conditions : List Condition) (once : Bool) (pool : List Die)
    (tally : Tally) :
    Yields (table.reroll conditions once pool) tally (tally.GrowsInTurn table.source pool) := by
  have hspawn : table.CallsInTurn (table.rerollDie conditions) := callsInTurn_rerollDie conditions
  unfold reroll
  split
  · unfold generation
    rw [bind_assoc]
    refine (callsInTurn_mapM hspawn pool tally).bind ?_
    exact fun seen later h => ends_pure.mpr ⟨_, _, rfl, h⟩
  · refine (keeps_rounds table tally).bind ?_
    rintro rounds _ rfl
    exact growsInTurn_cascade hspawn rounds pool _

end Table
end DiceNotation
