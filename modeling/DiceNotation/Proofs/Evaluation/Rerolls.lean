import DiceNotation.Proofs.Dice.Calls
import DiceNotation.Proofs.Evaluation.Modifiers
import DiceNotation.Proofs.Evaluation.Places

/-!
# What rerolls do

A reroll replaces the dice in play whose values meet a condition: each of them is discarded where it
stands, and a new die joins the end of the pool.  So the dice in play stay as many as they were.
Rerolling once looks at the dice of the pool; otherwise the new dice are looked at as well, and when
the reroll has come to its end no die in play meets a condition any more.

Main definitions:

- `Die.isReplaced`, `Die.rerolled`: the dice that a reroll replaces, and a die that it has looked
  at.
- `Die.Rerolled`: what a reroll makes of a pool.

Main results:

- `Table.rerolls_mapM`: one round of a reroll.
- `Table.rerolled_reroll`: a reroll replaces what it should.
- `Expression.rerolled_of_evaluate`: so does every expression with a reroll.
-/

namespace DiceNotation

namespace Die

/-- Whether a reroll replaces a die: it is in play, and its value meets a condition. -/
def isReplaced (conditions : List Condition) (die : Die) : Bool :=
  !die.discarded && Condition.anyHolds conditions (.int die.value)

/-- A die that a reroll has looked at. -/
def rerolled (conditions : List Condition) (die : Die) : Die :=
  { die with discarded := die.discarded || die.isReplaced conditions }

/-- Whether a die is in play. -/
def isLive (die : Die) : Bool := !die.discarded

/-- What a reroll makes of one die: one new die in play joins exactly if this is replaced. -/
structure RerolledTo (conditions : List Condition) (die : Die) (made : Die × List Die) : Prop where
  seen_eq : made.1 = die.rerolled conditions
  countP_joined : made.2.countP isLive = (die.isReplaced conditions).toNat
  live_joined : ∀ new ∈ made.2, new.discarded = false

variable {conditions : List Condition} {pool : List Die}

/-- A die that a reroll has looked at is not replaced again. -/
theorem isReplaced_rerolled (die : Die) :
    (die.rerolled conditions).isReplaced conditions = false := by
  obtain ⟨faces, rolls, discarded, exploded⟩ := die
  cases discarded <;> simp [isReplaced, rerolled, value]

/-- The dice in play that are not replaced stay in play. -/
theorem countP_rerolled (conditions : List Condition) (pool : List Die) :
    (pool.map (rerolled conditions)).countP isLive + pool.countP (isReplaced conditions) =
      pool.countP isLive := by
  induction pool with
  | nil => rfl
  | cons die rest ih =>
      have hdie : (if (die.rerolled conditions).isLive then 1 else 0) +
          (if die.isReplaced conditions then 1 else 0) = if die.isLive then 1 else 0 := by
        obtain ⟨faces, rolls, discarded, exploded⟩ := die
        cases discarded <;> cases hmeets : Condition.anyHolds conditions (.int rolls.sum) <;>
          simp [rerolled, isReplaced, isLive, value, hmeets]
      simp only [List.map_cons, List.countP_cons]
      omega

/-- As many dice are in play as before, if those that joined make up for those replaced. -/
theorem countP_rerolled_append {joined : List Die}
    (h : joined.countP isLive = pool.countP (isReplaced conditions)) :
    (pool.map (rerolled conditions) ++ joined).countP isLive = pool.countP isLive := by
  rw [List.countP_append, h, countP_rerolled]

/-- Dice that are all in play. -/
theorem countP_of_live {joined : List Die} (h : ∀ new ∈ joined, new.discarded = false) :
    joined.countP isLive = joined.length :=
  List.countP_eq_length.mpr fun new hnew => by simp [isLive, h new hnew]

/-- A die that is rerolled calls for one new die. -/
theorem RerolledTo.callsFor {die : Die} {made : Die × List Die}
    (h : die.RerolledTo conditions made) :
    die.CallsFor (fun _ => True) (rerolled conditions)
      (fun die => (die.isReplaced conditions).toNat) (fun new => new.discarded = false) made where
  fit := trivial
  marked_eq := h.seen_eq
  length_joined := (countP_of_live h.live_joined).symm.trans h.countP_joined
  joined := h.live_joined

/-- As many dice join as are replaced. -/
theorem sum_isReplaced (conditions : List Condition) (pool : List Die) :
    (pool.map fun die => (die.isReplaced conditions).toNat).sum =
      pool.countP (isReplaced conditions) := by
  induction pool with
  | nil => rfl
  | cons die rest ih =>
      rw [List.map_cons, List.sum_cons, ih, List.countP_cons, Nat.add_comm]
      cases die.isReplaced conditions <;> rfl

/-- What a reroll makes of a pool.  Of its dice those with values that meet a condition are
discarded where they stand; behind them stand the dice that joined, as many as have been discarded,
so that as many are in play as before.  Rerolling once discards no others, and otherwise none is
left in play that meets a condition. -/
structure Rerolled (conditions : List Condition) (once : Bool) (pool kept joined : List Die) :
    Prop where
  kept_eq : kept = pool.map (rerolled conditions)
  card_live : (Standing.live ((kept ++ joined).map standing)).card =
    (Standing.live (pool.map standing)).card
  length_joined : joined.length =
    (Standing.struck (pool.map standing) ((kept ++ joined).map standing)).card
  none_left : once = false → ∀ die ∈ kept ++ joined, die.discarded = false →
    Condition.anyHolds conditions (.int die.value) = false
  struck_once : once = true →
    Standing.struck (pool.map standing) ((kept ++ joined).map standing) =
      places (isReplaced conditions) pool
  live_once : once = true → ∀ die ∈ joined, die.discarded = false

/-- The live places are as many as the live dice. -/
theorem card_live_standing (dice : List Die) :
    (Standing.live (dice.map standing)).card = dice.countP isLive := by
  rw [Standing.live, places_map, card_places]
  rfl

/-- Dice that were discarded stay so. -/
theorem discardedPlaces_subset (joined : List Die) :
    Standing.discardedPlaces (pool.map standing) ⊆
      Standing.discardedPlaces ((pool.map (rerolled conditions) ++ joined).map standing) := by
  simp only [Standing.discardedPlaces, places_map]
  refine Finset.Subset.trans ?_ (places_subset_append joined)
  rw [places_map]
  exact places_mono fun die hdie => by simpa [rerolled, standing] using Or.inl hdie

/-- If the dice that joined are in play, just those that were replaced are newly discarded. -/
theorem struck_rerolled {joined : List Die} (hlive : ∀ die ∈ joined, die.discarded = false) :
    Standing.struck (pool.map standing) ((pool.map (rerolled conditions) ++ joined).map standing) =
      places (isReplaced conditions) pool := by
  have hjoined : ∀ die ∈ joined, die.standing.discarded = false := hlive
  simp only [Standing.struck, Standing.discardedPlaces, places_map]
  rw [places_append_of_forall hjoined, places_map, places_sdiff]
  congr 1
  funext die
  cases hdiscarded : die.discarded <;> simp [standing, rerolled, isReplaced, hdiscarded]

/-- A reroll replaces dice one by one and, unless it is done once, leaves none to replace. -/
theorem rerolled_of_countP {once : Bool} {joined : List Die}
    (hcount : (pool.map (rerolled conditions) ++ joined).countP isLive = pool.countP isLive)
    (hnone : once = false →
      ∀ die ∈ pool.map (rerolled conditions) ++ joined, die.isReplaced conditions = false)
    (hlive : once = true → ∀ die ∈ joined, die.discarded = false) :
    Rerolled conditions once pool (pool.map (rerolled conditions)) joined := by
  have hcard : (Standing.live ((pool.map (rerolled conditions) ++ joined).map standing)).card =
      (Standing.live (pool.map standing)).card := by
    rw [card_live_standing, card_live_standing, hcount]
  refine ⟨rfl, hcard, ?_, ?_, fun honce => struck_rerolled (hlive honce), hlive⟩
  · have hlength := Standing.length_add_card_struck (discardedPlaces_subset joined) hcard
    simp only [List.length_map, List.length_append] at hlength
    omega
  · intro honce die hdie hdiscarded
    simpa [isReplaced, hdiscarded] using hnone honce die hdie

end Die

namespace Table

variable {table : Table}

/-- A die is rerolled if it is live and its value meets a condition. -/
theorem rerolledTo_rerollDie (conditions : List Condition) (die : Die) (tally : Tally) :
    Yields (table.rerollDie conditions die) tally fun made _ => die.RerolledTo conditions made := by
  have hreplaced : (die.discarded || !Condition.anyHolds conditions (.int die.value)) =
      !die.isReplaced conditions := by
    simp [Die.isReplaced]
  rw [rerollDie_eq, hreplaced]
  cases h : die.isReplaced conditions with
  | false =>
      have hsame : die.rerolled conditions = die := by simp [Die.rerolled, h]
      exact ends_pure.mpr ⟨hsame.symm, by simp [h], by simp⟩
  | true =>
      refine (yields_addAnnounced die.fresh tally).bind ?_
      rintro _ _ ⟨face, rfl⟩
      refine ends_pure.mpr ⟨by simp [Die.rerolled, h], ?_, ?_⟩
      · simp [h, Die.isLive, Die.fresh, Die.addResult]
      · simp [Die.fresh, Die.addResult]

/-- So it calls for new dice as rerolled dice do. -/
theorem callsFor_rerollDie (conditions : List Condition) (die : Die) (tally : Tally) :
    Yields (table.rerollDie conditions die) tally fun made _ =>
      die.CallsFor (fun _ => True) (Die.rerolled conditions)
        (fun die => (die.isReplaced conditions).toNat) (fun new => new.discarded = false) made :=
  (rerolledTo_rerollDie conditions die tally).imp (fun _ _ h => h.callsFor) fun _ _ h => h

/-- One round of a reroll. -/
theorem rerolls_mapM (conditions : List Condition) (pool : List Die) (tally : Tally) :
    Yields (pool.mapM (table.rerollDie conditions)) tally fun seen _ =>
      seen.map Prod.fst = pool.map (Die.rerolled conditions) ∧
        (seen.flatMap Prod.snd).countP Die.isLive = pool.countP (Die.isReplaced conditions) ∧
        ∀ new ∈ seen.flatMap Prod.snd, new.discarded = false := by
  refine (calls_mapM (callsFor_rerollDie conditions) pool tally).imp ?_ fun _ _ h => h
  rintro seen _ ⟨-, hseen, hlength, hlive⟩
  refine ⟨hseen, ?_, hlive⟩
  rw [Die.countP_of_live hlive, hlength, Die.sum_isReplaced]

/-- A reroll that has come to its end leaves no die to replace: all dice have been looked at, those
that joined included, and as many have joined as have been replaced. -/
theorem rerolls_cascade (conditions : List Condition) (fuel : Nat) (pool : List Die)
    (tally : Tally) :
    Yields (cascade (table.rerollDie conditions) fuel pool) tally fun dice _ =>
      (∃ joined, dice = pool.map (Die.rerolled conditions) ++ joined) ∧
        dice.countP Die.isLive = pool.countP Die.isLive ∧
        ∀ die ∈ dice, die.isReplaced conditions = false := by
  refine (calls_cascade (callsFor_rerollDie conditions) fuel pool tally).imp ?_ fun _ _ h => h
  rintro _ _ ⟨joined, rfl, hlength, -, hlive⟩
  refine ⟨⟨joined.map (Die.rerolled conditions), List.map_append⟩, ?_, ?_⟩
  · have hreplaced := Die.countP_rerolled conditions (pool ++ joined)
    rw [← Die.sum_isReplaced, ← hlength, List.countP_append, Die.countP_of_live hlive] at hreplaced
    exact Nat.add_right_cancel hreplaced
  · exact List.forall_mem_map.mpr fun die _ => die.isReplaced_rerolled

/-- A reroll replaces the dice that it should. -/
theorem rerolled_reroll (conditions : List Condition) (once : Bool) (pool : List Die)
    (tally : Tally) :
    Yields (table.reroll conditions once pool) tally fun dice _ =>
      ∃ kept joined, dice = kept ++ joined ∧ Die.Rerolled conditions once pool kept joined := by
  unfold reroll
  cases once with
  | true =>
      unfold generation
      rw [if_pos rfl, bind_assoc]
      refine (rerolls_mapM conditions pool tally).bind ?_
      rintro seen _ ⟨hseen, hjoined, hlive⟩
      refine ends_pure.mpr ⟨_, _, rfl, ?_⟩
      rw [hseen]
      exact Die.rerolled_of_countP (Die.countP_rerolled_append hjoined) nofun fun _ => hlive
  | false =>
      refine (keeps_rounds table tally).bind ?_
      rintro rounds before rfl
      refine (rerolls_cascade conditions rounds pool before).imp ?_ fun _ _ h => h
      rintro _ _ ⟨⟨joined, rfl⟩, hcount, hnone⟩
      exact ⟨_, joined, rfl, Die.rerolled_of_countP hcount (fun _ => hnone) nofun⟩

end Table

namespace Expression

variable {table : Table} {markup : Markup}

/-- What an expression with a reroll yields is the pool that its operand yields, with the dice
replaced that the reroll should replace. -/
theorem rerolled_of_evaluate {conditions : List Condition} {once : Bool} {operand : Expression}
    {tally later : Tally} {after : Value}
    (h : (evaluate table markup (.modified (.reroll conditions once) operand)).run tally =
      .ok after later) :
    ∃ pool middle kept joined,
      (evaluate table markup operand).run tally = .ok (.pool pool) middle ∧
      after = .pool (kept ++ joined) ∧ Die.Rerolled conditions once pool kept joined := by
  obtain ⟨before, middle, hoperand, haccepts, hmodify⟩ := exists_run_modify h
  obtain ⟨pool, rfl⟩ := Value.exists_pool (by simpa [accepts] using haccepts)
  obtain ⟨dice, _, hreroll, heq⟩ := run_bind_eq_ok_iff.mp hmodify
  cases heq
  obtain ⟨kept, joined, rfl, hrerolled⟩ :=
    yields_iff.mp (Table.rerolled_reroll conditions once pool middle) _ _ hreroll
  exact ⟨pool, middle, kept, joined, hoperand, rfl, hrerolled⟩

/-- An exploding die, rerolled until it shows no six. -/
def withoutSixes : Expression :=
  .modified (.reroll [⟨.equal, 6⟩] false) (.modified (.explode .regular none) (.dice 1 1 6))

/-- The die that exploded is replaced, and the die that it called for is not. -/
theorem rerolled_of_evaluate_exploded :
    ∃ after later,
      (evaluate { source := highFirst, limit := some 3 } .plain withoutSixes).run {} =
        .ok after later ∧
      after = .pool [{ faces := .range 1 6, rolls := [6], discarded := true, exploded := true },
        { faces := .range 1 6, rolls := [4] }, { faces := .range 1 6, rolls := [4] }] ∧
      ∃ pool middle kept joined,
        (evaluate { source := highFirst, limit := some 3 } .plain
          (.modified (.explode .regular none) (.dice 1 1 6))).run {} = .ok (.pool pool) middle ∧
        after = .pool (kept ++ joined) ∧
        Die.Rerolled [⟨.equal, 6⟩] false pool kept joined := by
  have h : (evaluate { source := highFirst, limit := some 3 } .plain withoutSixes).run {} =
      .ok (.pool [{ faces := .range 1 6, rolls := [6], discarded := true, exploded := true },
        { faces := .range 1 6, rolls := [4] }, { faces := .range 1 6, rolls := [4] }])
        { announced := 3, drawn := 3 } := by
    decide +kernel
  exact ⟨_, _, h, rfl, rerolled_of_evaluate h⟩

end Expression
end DiceNotation
