import DiceNotation.Proofs.Evaluation.Turns

/-!
# What modifiers do

A modifier adds dice and marks entries, and does nothing else: the entries of its operand stand
where they stood, with the new dice behind them.  Dice keep their faces and their rolls, unless a
compounding explosion rolls them again; outcomes keep their values, and show in their texts that
they are discarded.  An entry that is discarded is left alone.

Main definitions:

- `Modifier.joins`, `Modifier.grows`: modifiers that add dice, and those that add rolls.
- `Outcome.Remains`: what may have happened to an outcome.
- `Table.Modifies`: what a modifier does to a value.

Main results:

- `Table.modifies_modify`: a modifier adds dice and marks entries.
- `Expression.modifies_of_evaluate`: so does every expression with a modifier to what its operand
  yields.
-/

namespace DiceNotation

namespace Modifier

/-- Whether a modifier adds dice to a pool. -/
def joins : Modifier → Bool
  | .explode .compounding _ => false
  | .explode .. => true
  | .reroll .. => true
  | .select .. => false

/-- Whether a modifier adds rolls to the dice of a pool. -/
def grows : Modifier → Bool
  | .explode .compounding _ => true
  | _ => false

/-- A modifier that adds dice adds no rolls to those that it finds. -/
theorem grows_of_joins {modifier : Modifier} (h : modifier.joins = true) :
    modifier.grows = false := by
  cases modifier with
  | explode explosion condition => cases explosion <;> simp_all [joins, grows]
  | reroll | select => rfl

end Modifier

/-! ## Outcomes -/

/-- What may have happened to an outcome: it was discarded, and its text marked.  An outcome that
was discarded is as it was before. -/
structure Outcome.Remains (markup : Markup) (before after : Outcome) : Prop where
  value_eq : after.value = before.value
  kind_eq : after.kind = before.kind
  text_eq : after.discarded = before.discarded → after.text = before.text
  struck : before.discarded = false → after.discarded = true →
    after.text = markup.discarded before.text
  settled : before.discarded = true → after = before

namespace Outcome

variable (markup : Markup) (outcome : Outcome)

theorem remains_self : outcome.Remains markup outcome :=
  ⟨rfl, rfl, fun _ => rfl, fun h h' => by rw [h] at h'; contradiction, fun _ => rfl⟩

variable {outcome} in
/-- An outcome in play may be discarded. -/
theorem remains_discard (hlive : outcome.discarded = false) :
    outcome.Remains markup (outcome.discard markup) :=
  ⟨rfl, rfl, fun h => by rw [hlive] at h; contradiction, fun _ _ => rfl,
    fun h => by rw [hlive] at h; contradiction⟩

end Outcome

/-! ## Values -/

/-- What a modifier does to a value between two tallies.  The entries of a pool or list remain where
they stand.  Behind the dice of a pool stand those that joined it, if any, rolled in turn; only dice
that grow are rolled otherwise. -/
inductive Table.Modifies (table : Table) (markup : Markup) (modifier : Modifier) :
    Value → Tally → Value → Tally → Prop where
  | pool {pool kept joined : List Die} {before after : Tally}
      (hkept : List.Forall₂ (Die.Remains modifier.grows) pool kept)
      (hjoined : modifier.grows = false → before.InTurn table.source joined after)
      (hnone : modifier.joins = false → joined = []) :
      table.Modifies markup modifier (.pool pool) before (.pool (kept ++ joined)) after
  | list {outcomes marked : List Outcome} {tally : Tally}
      (hmarked : List.Forall₂ (Outcome.Remains markup) outcomes marked) :
      table.Modifies markup modifier (.list outcomes) tally (.list marked) tally

namespace Table

variable {table : Table} {markup : Markup}

/-- A modifier under which dice join leaves the pool what it was, with new dice in turn behind it.
-/
theorem modifies_of_joins {modifier : Modifier} (hjoins : modifier.joins = true)
    (pool : List Die) (tally : Tally) :
    Yields (Expression.modify table markup modifier (.pool pool)) tally
      (table.Modifies markup modifier (.pool pool) tally) := by
  have hplain : ∀ condition, modifier ≠ .explode .compounding condition := by
    rintro condition rfl
    simp [Modifier.joins] at hjoins
  refine (Expression.growsInTurn_modify hplain pool tally).imp ?_ fun _ _ h => h
  rintro _ later ⟨_, rfl, kept, joined, rfl, hkept, hjoined⟩
  refine .pool ?_ (fun _ => hjoined) fun hnone => ?_
  · rwa [Modifier.grows_of_joins hjoins]
  · rw [hjoins] at hnone
    contradiction

/-- A compounding explosion adds no dice. -/
theorem modifies_compounding (condition : Option Condition) (pool : List Die) (tally : Tally) :
    Yields (Expression.modify table markup (.explode .compounding condition) (.pool pool)) tally
      (table.Modifies markup (.explode .compounding condition) (.pool pool) tally) := by
  have hall : Yields (pool.mapM (table.compound condition)) tally fun grown _ =>
      List.Forall₂ (Die.Remains true) pool grown :=
    Ends.forall₂_mapM fun die _ tally => remains_compound condition die tally
  unfold Expression.modify explode
  refine hall.bind fun grown later hgrown => ends_pure.mpr ?_
  have hmade : table.Modifies markup (.explode .compounding condition) (.pool pool) tally
      (.pool (grown ++ [])) later := .pool hgrown nofun fun _ => rfl
  rwa [List.append_nil] at hmade

/-- A selection adds no dice either. -/
theorem modifies_select (keep : Bool) (selector : Selector) {value : Value}
    (hshape : value.shape ≠ .number) (tally : Tally) :
    table.Modifies markup (.select keep selector) value tally
      (value.select keep selector markup) tally := by
  cases value with
  | single outcome => exact absurd rfl hshape
  | pool pool =>
      obtain ⟨marked, hselect, hmarked⟩ := Value.remains_select keep selector markup pool
      rw [hselect, ← List.append_nil marked]
      exact .pool hmarked (fun _ => .nil _ tally) fun _ => rfl
  | list outcomes =>
      refine .list (Standing.forall₂_select (Outcome.remains_self markup) ?_ keep selector outcomes)
      exact fun _ hlive => Outcome.remains_discard markup hlive

/-- A modifier adds dice and marks entries. -/
theorem modifies_modify {modifier : Modifier} {operand : Expression} {value : Value}
    (haccepts : (Expression.modified modifier operand).accepts value.shape = true) (tally : Tally) :
    Yields (Expression.modify table markup modifier value) tally
      (table.Modifies markup modifier value tally) := by
  cases modifier with
  | explode explosion condition =>
      obtain ⟨pool, rfl⟩ : ∃ pool, value = .pool pool :=
        Value.exists_pool (by simpa [Expression.accepts] using haccepts)
      cases explosion with
      | compounding => exact modifies_compounding condition pool tally
      | regular | penetrating => exact modifies_of_joins rfl pool tally
  | reroll conditions once =>
      obtain ⟨pool, rfl⟩ : ∃ pool, value = .pool pool :=
        Value.exists_pool (by simpa [Expression.accepts] using haccepts)
      exact modifies_of_joins rfl pool tally
  | select keep selector =>
      have hshape : value.shape ≠ .number := by simpa [Expression.accepts] using haccepts
      exact ends_pure.mpr (modifies_select keep selector hshape tally)

end Table

namespace Expression

variable {table : Table} {markup : Markup} {modifier : Modifier} {operand : Expression}
  {tally later : Tally} {after : Value}

/-- An expression with a modifier is evaluated by way of its operand, which yields a value that the
modifier accepts. -/
theorem exists_run_modify
    (h : (evaluate table markup (.modified modifier operand)).run tally = .ok after later) :
    ∃ before middle, (evaluate table markup operand).run tally = .ok before middle ∧
      (modified modifier operand).accepts before.shape = true ∧
      (modify table markup modifier before).run middle = .ok after later := by
  rw [evaluate] at h
  obtain ⟨_, _, hdemand, hrest⟩ := run_bind_eq_ok_iff.mp h
  obtain ⟨haccepts, rfl⟩ := yields_iff.mp (yields_demand _ operand tally) _ _ hdemand
  obtain ⟨before, middle, hoperand, hmodify⟩ := run_bind_eq_ok_iff.mp hrest
  rw [← (fits_of_run hoperand).shape_eq] at haccepts
  exact ⟨before, middle, hoperand, haccepts, hmodify⟩

/-- An explosion goes over the pool that its operand yields. -/
theorem exists_run_explode {explosion : Explosion} {condition : Option Condition}
    (h : (evaluate table markup (.modified (.explode explosion condition) operand)).run tally =
      .ok after later) :
    ∃ pool middle dice, (evaluate table markup operand).run tally = .ok (.pool pool) middle ∧
      (table.explode explosion condition pool).run middle = .ok dice later ∧ after = .pool dice := by
  obtain ⟨before, middle, hoperand, haccepts, hmodify⟩ := exists_run_modify h
  obtain ⟨pool, rfl⟩ := Value.exists_pool (by simpa [accepts] using haccepts)
  obtain ⟨dice, _, hexplode, heq⟩ := run_bind_eq_ok_iff.mp hmodify
  cases heq
  exact ⟨pool, middle, dice, hoperand, hexplode, rfl⟩

/-- What an expression with a modifier yields is what its operand yields, modified: the entries
stand where they stood, with new dice behind them, if any.  Dice keep their faces and their rolls,
unless they are compounded, and outcomes their values; what is discarded stays so and is left alone.
-/
theorem modifies_of_evaluate
    (h : (evaluate table markup (.modified modifier operand)).run tally = .ok after later) :
    ∃ before middle, (evaluate table markup operand).run tally = .ok before middle ∧
      table.Modifies markup modifier before middle after later := by
  obtain ⟨before, middle, hoperand, haccepts, hmodify⟩ := exists_run_modify h
  exact ⟨before, middle, hoperand,
    yields_iff.mp (Table.modifies_modify haccepts middle) after later hmodify⟩

/-- The higher of two dice, with a compounding explosion. -/
def higherCompounded : Expression :=
  .modified (.explode .compounding none) (.modified (.select true (.extreme true 1)) (.dice 2 1 6))

/-- The die that was kept explodes and is rolled again, and the other is left alone. -/
theorem modifies_of_evaluate_compounded :
    ∃ after later,
      (evaluate { source := highFirst, limit := some 3 } .plain higherCompounded).run {} =
        .ok after later ∧
      after.dice = [{ faces := .range 1 6, rolls := [6, 4], exploded := true },
        { faces := .range 1 6, rolls := [4], discarded := true }] ∧
      ∃ before middle,
        (evaluate { source := highFirst, limit := some 3 } .plain
          (.modified (.select true (.extreme true 1)) (.dice 2 1 6))).run {} =
            .ok before middle ∧
        Table.Modifies { source := highFirst, limit := some 3 } .plain
          (.explode .compounding none) before middle after later := by
  have h : (evaluate { source := highFirst, limit := some 3 } .plain higherCompounded).run {} =
      .ok (.pool [{ faces := .range 1 6, rolls := [6, 4], exploded := true },
        { faces := .range 1 6, rolls := [4], discarded := true }])
        { announced := 3, drawn := 3 } := by
    decide +kernel
  exact ⟨_, _, h, rfl, modifies_of_evaluate h⟩

end Expression
end DiceNotation
