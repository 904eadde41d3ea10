import DiceNotation.Proofs.Dice.Draws

/-!
# Dice that have been rolled

Every die that comes onto the table is rolled as it comes, with the faces of the die that called
for it, and growing a pool takes no roll away.  So a pool of dice that have been rolled stays one,
wherever the draws come from, and comes to no other faults than announcing, drawing on such faces
and exploding with them.  Under a limit the rounds in which dice call for more always suffice, as
each but the last announces one.

Main definitions:

- `Die.IsRolledOn`: dice with faces of a kind that have been rolled.
- `Table.Rolls`: what rolling on faces of a kind may come to.
- `Table.Suffices`: rounds that growth does not run out of.

Main results:

- `Table.keeps_generation`, `Table.keeps_cascade`: growth keeps what every die of the pool
  has and every die that joins.
- `Table.cascade_induction`: growth is followed round by round.
- `Table.Rolls.explode`, `Table.Rolls.reroll`: dice that grow stay rolled.
-/

namespace DiceNotation

/-- Whether a die has faces of a kind and has been rolled. -/
structure Die.IsRolledOn (kind : Faces → Prop) (die : Die) : Prop where
  faces : kind die.faces
  rolls : die.rolls ≠ []

/-- A die with a result is rolled on its faces. -/
theorem Die.isRolledOn_addResult {kind : Faces → Prop} {die : Die} (h : kind die.faces)
    (result : Int) : (die.addResult result).IsRolledOn kind :=
  ⟨h, by simp [Die.addResult]⟩

/-- Whether faces are a range. -/
def Faces.IsRange (faces : Faces) : Prop := ∃ least greatest, faces = .range least greatest

/-- A die with a range of faces explodes from its greatest face on. -/
theorem Die.gives_threshold {die : Die} (h : die.faces.IsRange) {E : Fault → Prop} :
    Gives die.threshold (fun _ => True) E := by
  obtain ⟨least, greatest, hfaces⟩ := h
  simp [Die.threshold, Die.threshold?, hfaces]

namespace Table

/-- What rolling dice with faces of a kind may come to: its steps succeed or fail with `E`. -/
structure Rolls (table : Table) (kind : Faces → Prop) (E : Fault → Prop) : Prop where
  announce : ∀ count tally,
    Ends (table.announce count) tally (fun _ _ => True) fun fault _ => E fault
  drawFace : ∀ faces, kind faces → ∀ tally,
    Ends (table.drawFace faces) tally (fun _ _ => True) fun fault _ => E fault
  threshold : ∀ die : Die, kind die.faces → Gives die.threshold (fun _ => True) E
  unsettled : table.limit = none → E .unsettled

/-- Whatever is rolled comes to something. -/
theorem rolls_any (table : Table) : table.Rolls (fun _ => True) fun _ => True where
  announce := fun count tally => yields_true (table.announce count) tally
  drawFace := fun faces _ tally => yields_true (table.drawFace faces) tally
  threshold := by
    intro die _
    cases die.threshold <;> trivial
  unsettled := fun _ => trivial

/-! ## Announcing and drawing -/

section Steps

variable {table : Table} {E : Fault → Prop} {tally : Tally}

/-- Announcing fails only with the fault of a passed limit. -/
theorem ends_announce (hexcess : ∀ limit, E (excess limit)) (count : Int) (tally : Tally) :
    Ends (table.announce count) tally (fun _ _ => True) fun fault _ => E fault := by
  unfold Ends
  rw [run_announce]
  cases table.limit with
  | none => trivial
  | some limit =>
      by_cases hlimit : limit < tally.announced + count
      · simpa [hlimit] using hexcess limit
      · simp [hlimit]

/-- A draw from a range fails if the source is dry, or if the draw has no place in the range. -/
theorem ends_draw {least greatest : Int}
    (hdry : table.source tally.drawn = none → E .drawsExhausted)
    (hplace : ∀ x, table.source tally.drawn = some x →
      Gives (place x least greatest) (fun _ => True) fun cause => E (.unguarded cause)) :
    Ends (table.draw least greatest) tally (fun _ _ => True) fun fault _ => E fault := by
  have hdraw : Ends table.nextDraw tally (fun x _ => table.source tally.drawn = some x)
      fun fault _ => E fault := by
    unfold Ends
    rw [run_nextDraw]
    cases hsource : table.source tally.drawn with
    | none => exact hdry hsource
    | some x => rfl
  unfold draw
  refine hdraw.bind ?_
  intro x later hx
  have hgives := hplace x hx
  rw [Roll.lift, ends_ofExcept]
  cases hcut : place x least greatest with
  | ok face => trivial
  | error cause =>
      rw [hcut] at hgives
      exact hgives

end Steps

/-! ## Rounds -/

/-- Whether growth does not run out of so many rounds: they are more than the dice that the limit
leaves, unless running out of them is a fault with `E`. -/
def Suffices (table : Table) (E : Fault → Prop) (rounds : Nat) (tally : Tally) : Prop :=
  E .unsettled ∨ ∃ limit, table.limit = some limit ∧ (limit - tally.announced).toNat < rounds

/-- What a computation announces counts against the limit, if there is one. -/
theorem yields_announced {table : Table} {α : Type} {x : Roll α} {count : α → Int}
    (h : ∀ limit, table.limit = some limit → Roll.Announces limit count x) (tally : Tally) :
    Yields x tally fun a later => ∀ limit, table.limit = some limit →
      later.announced = tally.announced + count a ∧
      later.announced ≤ max limit tally.announced := by
  cases hlimit : table.limit with
  | none => exact (yields_true x tally).imp (by simp) fun _ _ h => h
  | some limit =>
      refine (h limit hlimit tally).imp ?_ fun _ _ h => h
      rintro a later hcount _ ⟨⟩
      exact hcount

section Rounds

variable {table : Table} {P : Die → Prop} {E : Fault → Prop} {tally : Tally}

/-- After a round in which dice were announced one less is enough. -/
theorem Suffices.next {rounds : Nat} (h : table.Suffices E (rounds + 1) tally) {count : Int}
    (hcount : 0 < count) {later : Tally}
    (hlater : ∀ limit, table.limit = some limit → later.announced = tally.announced + count ∧
      later.announced ≤ max limit tally.announced) : table.Suffices E rounds later := by
  rcases h with hE | ⟨limit, hlimit, hrounds⟩
  · exact .inl hE
  · obtain ⟨hannounced, hmax⟩ := hlater limit hlimit
    exact .inr ⟨limit, hlimit, by omega⟩

/-- Without a round to spare growth is not settled. -/
theorem Suffices.unsettled (h : table.Suffices E 0 tally) : E .unsettled := by
  rcases h with hE | ⟨limit, -, hrounds⟩
  · exact hE
  · omega

variable {spawn : Die → Roll (Die × List Die)}
  (hspawn : ∀ die tally, P die → Ends (spawn die) tally
    (fun made _ => P made.1 ∧ ∀ new ∈ made.2, P new) fun fault _ => E fault)
include hspawn

/-- One round keeps what every die of the pool has and every die that joins. -/
theorem keeps_generation {pool : List Die} (hpool : ∀ die ∈ pool, P die) (tally : Tally) :
    Ends (generation spawn pool) tally
      (fun made _ => (∀ die ∈ made.1, P die) ∧ ∀ new ∈ made.2, P new) fun fault _ => E fault := by
  have hall : Ends (pool.mapM spawn) tally
      (fun made _ => ∀ one ∈ made, P one.1 ∧ ∀ new ∈ one.2, P new) fun fault _ => E fault := by
    refine Ends.mapM (P := fun _ (made : List (Die × List Die)) _ =>
      ∀ one ∈ made, P one.1 ∧ ∀ new ∈ one.2, P new) (by simp) ?_
    intro _ made later die hdie hmade
    refine (hspawn die later (hpool die hdie)).imp ?_ fun _ _ h => h
    intro one _ hone
    exact List.forall_mem_append.mpr ⟨hmade, by simpa using hone⟩
  unfold generation
  refine hall.bind ?_
  intro made _ hmade
  refine ends_pure.mpr ⟨?_, ?_⟩
  · intro die hdie
    obtain ⟨one, hone, rfl⟩ := List.mem_map.mp hdie
    exact (hmade one hone).1
  · intro new hnew
    obtain ⟨one, hone, hmem⟩ := List.mem_flatMap.mp hnew
    exact (hmade one hone).2 new hmem

/-- So do all rounds together, if they suffice. -/
theorem keeps_cascade
    (hannounces : ∀ limit, table.limit = some limit →
      ∀ die, Roll.Announces limit (fun made => made.2.length) (spawn die))
    {rounds : Nat} {pool : List Die} (hpool : ∀ die ∈ pool, P die)
    (hrounds : table.Suffices E rounds tally) :
    Ends (cascade spawn rounds pool) tally (fun dice _ => ∀ die ∈ dice, P die)
      fun fault _ => E fault := by
  induction rounds generalizing pool tally with
  | zero => exact hrounds.unsettled
  | succ rounds ih =>
      have hcounts := yields_announced
        (fun limit hlimit => announces_generation (hannounces limit hlimit) pool) tally
      unfold cascade
      refine ((keeps_generation hspawn hpool tally).and hcounts).bind ?_
      rintro ⟨kept, joined⟩ later ⟨⟨hkept, hjoined⟩, hlater⟩
      dsimp only at hkept hjoined hlater ⊢
      split
      · exact ends_pure.mpr hkept
      · next hempty =>
          have hlength : 0 < joined.length :=
            List.length_pos_iff.mpr fun hnil => hempty (by simp [hnil])
          refine (ih hjoined (hrounds.next (by omega) hlater)).bind ?_
          intro more _ hmore
          exact ends_pure.mpr (List.forall_mem_append.mpr ⟨hkept, hmore⟩)

end Rounds

/-- What holds of an empty pool, and of every pool if it holds of the dice that join in its first
round, holds of what a growing pool comes to. -/
theorem cascade_induction {spawn : Die → Roll (Die × List Die)}
    {P : List Die → Tally → List Die → Tally → Prop} (nil : ∀ tally, P [] tally [] tally)
    (round : ∀ pool tally, Yields (pool.mapM spawn) tally fun seen middle => ∀ more later,
      P (seen.flatMap Prod.snd) middle more later → P pool tally (seen.map Prod.fst ++ more) later)
    (fuel : Nat) (pool : List Die) (tally : Tally) :
    Yields (cascade spawn fuel pool) tally (P pool tally) := by
  induction fuel generalizing pool tally with
  | zero => trivial
  | succ fuel ih =>
      unfold cascade generation
      rw [bind_assoc]
      refine (round pool tally).bind ?_
      intro seen middle hseen
      rw [pure_bind]
      dsimp only
      split
      · next hempty =>
          rw [List.isEmpty_iff.mp hempty] at hseen
          exact ends_pure.mpr (by simpa using hseen [] middle (nil middle))
      · refine (ih _ middle).bind ?_
        exact fun more later hmore => ends_pure.mpr (hseen more later hmore)

/-- Counting the rounds that remain rolls nothing. -/
theorem keeps_rounds (table : Table) (tally : Tally) {E : Fault → Prop} :
    Ends table.rounds tally (fun _ later => later = tally) fun fault _ => E fault := rfl

namespace Rolls

variable {table : Table} {kind : Faces → Prop} {E : Fault → Prop} (h : table.Rolls kind E)
include h

/-! ## Rolls -/

/-- A roll adds one result to a die. -/
theorem addRoll {die : Die} (hfaces : kind die.faces) (tally : Tally) :
    Ends (table.addRoll die) tally (fun rolled _ => rolled.IsRolledOn kind)
      fun fault _ => E fault := by
  unfold Table.addRoll
  refine (h.drawFace die.faces hfaces tally).bind ?_
  exact fun result _ _ => ends_pure.mpr (Die.isRolledOn_addResult hfaces result)

/-- A pool is rolled on its faces. -/
theorem rollDice {faces : Faces} (hfaces : kind faces) (count : Nat) (tally : Tally) :
    Ends (table.rollDice faces count) tally (fun dice _ => ∀ die ∈ dice, die.IsRolledOn kind)
      fun fault _ => E fault := by
  induction count generalizing tally with
  | zero => exact ends_pure.mpr (by simp)
  | succ count ih =>
      unfold Table.rollDice
      have hdie : kind { faces : Die }.faces := hfaces
      refine (h.addRoll hdie tally).bind ?_
      intro die later hdie
      refine (ih later).bind ?_
      intro others _ hothers
      exact ends_pure.mpr (List.forall_mem_cons.mpr ⟨hdie, hothers⟩)

/-- So does a further roll of a die, announced. -/
theorem addAnnounced {die : Die} (hfaces : kind die.faces) (tally : Tally) :
    Ends (table.addAnnounced die) tally (fun rolled _ => rolled.IsRolledOn kind)
      fun fault _ => E fault := by
  unfold Table.addAnnounced
  refine (h.announce 1 tally).bind ?_
  exact fun _ announced _ => h.addRoll hfaces announced

/-! ## Growing pools -/

/-- The rounds that a table leaves suffice. -/
theorem rounds (tally : Tally) :
    Ends table.rounds tally (fun rounds later => table.Suffices E rounds later)
      fun fault _ => E fault := by
  unfold Table.rounds allowance
  rw [ends_bind, ends_get]
  cases hlimit : table.limit with
  | none => exact .inl (h.unsettled hlimit)
  | some limit => exact .inr ⟨limit, hlimit, Nat.lt_succ_self _⟩

/-- A spawned die is rolled on the faces of the one that calls for it. -/
theorem spawnLike (penetrating : Bool) {die : Die} (hfaces : kind die.faces) (tally : Tally) :
    Ends (table.spawnLike penetrating die) tally (fun new _ => new.IsRolledOn kind)
      fun fault _ => E fault := by
  have hfresh : kind die.fresh.faces := hfaces
  rw [spawnLike_eq]
  refine (h.addAnnounced hfresh tally).bind ?_
  intro rolled _ hrolled
  refine ends_pure.mpr ?_
  split
  · exact Die.isRolledOn_addResult hrolled.faces (-1)
  · exact hrolled

/-- An exploding die and those that join are rolled on its faces. -/
theorem explodeDie (penetrating : Bool) (condition : Option Condition) {die : Die}
    (hdie : die.IsRolledOn kind) (tally : Tally) :
    Ends (table.explodeDie penetrating condition die) tally
      (fun made _ => made.1.IsRolledOn kind ∧ ∀ new ∈ made.2, new.IsRolledOn kind)
      fun fault _ => E fault := by
  unfold Table.explodeDie
  rw [ends_bind, Roll.lift, ends_ofExcept]
  refine (h.threshold die hdie.faces).imp ?_ fun _ h => h
  intro threshold _ _
  split
  · exact ends_pure.mpr ⟨hdie, by simp⟩
  · have hall : Ends ((explodingRolls penetrating condition threshold die).mapM
        fun _ => table.spawnLike penetrating die) tally
        (fun made _ => ∀ new ∈ made, new.IsRolledOn kind) fun fault _ => E fault := by
      refine Ends.mapM (P := fun _ made _ => ∀ new ∈ made, Die.IsRolledOn kind new) (by simp) ?_
      intro _ made before _ _ hmade
      refine (h.spawnLike penetrating hdie.faces before).imp ?_ fun _ _ h => h
      intro new _ hnew
      exact List.forall_mem_append.mpr ⟨hmade, by simpa using hnew⟩
    refine hall.bind ?_
    intro joined _ hjoined
    exact ends_pure.mpr ⟨⟨hdie.faces, hdie.rolls⟩, hjoined⟩

/-- A die that compounds stays rolled on its faces. -/
theorem compoundDie (condition : Option Condition) (threshold : Int) {rounds : Nat} {die : Die}
    (hdie : die.IsRolledOn kind) {tally : Tally} (hrounds : table.Suffices E rounds tally) :
    Ends (table.compoundDie condition threshold rounds die) tally
      (fun grown _ => grown.IsRolledOn kind) fun fault _ => E fault := by
  induction rounds generalizing die tally with
  | zero => exact hrounds.unsettled
  | succ rounds ih =>
      rw [compoundDie_succ]
      cases hlast : die.rolls.getLast? with
      | none => exact absurd (List.getLast?_eq_none_iff.mp hlast) hdie.rolls
      | some last =>
          dsimp only
          split
          · exact ends_pure.mpr hdie
          · let marked : Die := { die with exploded := true }
            have hfaces : kind marked.faces := hdie.faces
            have hannounces : ∀ limit, table.limit = some limit →
                Roll.Announces limit (fun _ => 1) (table.addAnnounced marked) :=
              fun limit hlimit => announces_addAnnounced hlimit marked
            refine ((h.addAnnounced hfaces tally).and (yields_announced hannounces tally)).bind ?_
            rintro grown later ⟨hgrown, hlater⟩
            exact ih hgrown (hrounds.next Int.one_pos hlater)

/-- A die stays rolled on its faces through all of its compounding. -/
theorem compound (condition : Option Condition) {die : Die} (hdie : die.IsRolledOn kind)
    (tally : Tally) :
    Ends (table.compound condition die) tally (fun grown _ => grown.IsRolledOn kind)
      fun fault _ => E fault := by
  unfold Table.compound
  rw [ends_bind, Roll.lift, ends_ofExcept]
  refine (h.threshold die hdie.faces).imp ?_ fun _ h => h
  intro threshold _ _
  split
  · exact ends_pure.mpr hdie
  · refine (h.rounds tally).bind ?_
    exact fun rounds later hrounds => h.compoundDie condition threshold hdie hrounds

/-- The dice of an exploding pool stay rolled. -/
theorem explode (explosion : Explosion) (condition : Option Condition) {pool : List Die}
    (hpool : ∀ die ∈ pool, die.IsRolledOn kind) (tally : Tally) :
    Ends (table.explode explosion condition pool) tally
      (fun dice _ => ∀ die ∈ dice, die.IsRolledOn kind) fun fault _ => E fault := by
  have hnew : ∀ penetrating, Ends (table.rounds >>= fun rounds =>
      cascade (table.explodeDie penetrating condition) rounds pool) tally
      (fun dice _ => ∀ die ∈ dice, die.IsRolledOn kind) fun fault _ => E fault := by
    intro penetrating
    refine (h.rounds tally).bind ?_
    exact fun rounds later hrounds =>
      keeps_cascade (fun _ tally hdie => h.explodeDie penetrating condition hdie tally)
        (fun limit hlimit => announces_explodeDie hlimit penetrating condition) hpool hrounds
  cases explosion with
  | regular => exact hnew false
  | penetrating => exact hnew true
  | compounding =>
      refine Ends.mapM (P := fun _ made _ => ∀ die ∈ made, Die.IsRolledOn kind die) (by simp) ?_
      intro _ made later die hdie hmade
      refine (h.compound condition (hpool die hdie) later).imp ?_ fun _ _ h => h
      intro grown _ hgrown
      exact List.forall_mem_append.mpr ⟨hmade, by simpa using hgrown⟩

/-- A rerolled die and the one that joins are rolled on its faces. -/
theorem rerollDie (conditions : List Condition) {die : Die} (hdie : die.IsRolledOn kind)
    (tally : Tally) :
    Ends (table.rerollDie conditions die) tally
      (fun made _ => made.1.IsRolledOn kind ∧ ∀ new ∈ made.2, new.IsRolledOn kind)
      fun fault _ => E fault := by
  have hfresh : kind die.fresh.faces := hdie.faces
  rw [rerollDie_eq]
  split
  · exact ends_pure.mpr ⟨hdie, by simp⟩
  · refine (h.addAnnounced hfresh tally).bind ?_
    intro joined _ hjoined
    exact ends_pure.mpr ⟨⟨hdie.faces, hdie.rolls⟩, by simpa using hjoined⟩

/-- So do those of a pool that is rerolled. -/
theorem reroll (conditions : List Condition) (once : Bool) {pool : List Die}
    (hpool : ∀ die ∈ pool, die.IsRolledOn kind) (tally : Tally) :
    Ends (table.reroll conditions once pool) tally
      (fun dice _ => ∀ die ∈ dice, die.IsRolledOn kind) fun fault _ => E fault := by
  have hspawn := fun die tally (hdie : Die.IsRolledOn kind die) => h.rerollDie conditions hdie tally
  unfold Table.reroll
  split
  · refine (keeps_generation hspawn hpool tally).bind ?_
    rintro ⟨kept, joined⟩ _ ⟨hkept, hjoined⟩
    exact ends_pure.mpr (List.forall_mem_append.mpr ⟨hkept, hjoined⟩)
  · refine (h.rounds tally).bind ?_
    exact fun rounds later hrounds => keeps_cascade hspawn
      (fun limit hlimit => announces_rerollDie hlimit conditions) hpool hrounds

end Rolls

end Table
end DiceNotation
