import DiceNotation.Reply
import DiceNotation.Proofs.Outline.Moves
import DiceNotation.Proofs.Outline.Nesting
import DiceNotation.Proofs.Outline.Order
import DiceNotation.Proofs.Text.Words
import DiceNotation.Proofs.Expression.Compound
import DiceNotation.Proofs.Evaluation.Compound
import DiceNotation.Proofs.Outline.Grouping
import DiceNotation.Proofs.Outline.Formula
import DiceNotation.Proofs.Outline.Folding
import DiceNotation.Proofs.Expression.Literal
import DiceNotation.Proofs.Evaluation.Formula
import DiceNotation.Proofs.Evaluation.Brackets
import DiceNotation.Proofs.Expression.Parsing
import DiceNotation.Proofs.Dice.Rolls
import DiceNotation.Proofs.Evaluation.Safety
import DiceNotation.Proofs.Reply
import DiceNotation.Proofs.Dice.Growth
import DiceNotation.Proofs.Evaluation.Shapes
import DiceNotation.Proofs.Dice.Draws
import DiceNotation.Proofs.Dice.Congruence
import DiceNotation.Proofs.Dice.Accounts
import DiceNotation.Proofs.Dice.Allowance
import DiceNotation.Proofs.Evaluation.Traversal
import DiceNotation.Proofs.Evaluation.Session
import DiceNotation.Proofs.Evaluation.Allowance
import DiceNotation.Proofs.Expression.Written
import DiceNotation.Proofs.Expression.Taking
import DiceNotation.Proofs.Expression.Chains
import DiceNotation.Proofs.Outline.Canonical
import DiceNotation.Proofs.Dice.Turns
import DiceNotation.Proofs.Evaluation.Turns
import DiceNotation.Proofs.Evaluation.Fitness
import DiceNotation.Proofs.Outline.Parts
import DiceNotation.Proofs.Expression.Ending
import DiceNotation.Proofs.Evaluation.Listed
import DiceNotation.Proofs.Expression.Listed
import DiceNotation.Proofs.Sorting.Keys
import DiceNotation.Proofs.Dice.Agreement
import DiceNotation.Proofs.Outcome.Trail
import DiceNotation.Proofs.Expression.Legible
import DiceNotation.Proofs.Evaluation.Markup
import DiceNotation.Proofs.Expression.Suffixes
import DiceNotation.Proofs.Expression.Subtraction
import DiceNotation.Proofs.Evaluation.Subtraction
import DiceNotation.Proofs.Expression.Stray
import DiceNotation.Proofs.Evaluation.Halting
import DiceNotation.Proofs.Evaluation.Joined
import DiceNotation.Proofs.Evaluation.Throws
import DiceNotation.Proofs.Evaluation.Explosions
import DiceNotation.Proofs.Evaluation.Choice
import DiceNotation.Proofs.Dice.Marks
import DiceNotation.Proofs.Number.Order
import DiceNotation.Proofs.Evaluation.Places
import DiceNotation.Proofs.Evaluation.Totals
import DiceNotation.Proofs.Evaluation.Modifiers
import DiceNotation.Proofs.Evaluation.Rerolls
import DiceNotation.Proofs.Dice.Calls
import DiceNotation.Proofs.Evaluation.Cascades
import DiceNotation.Proofs.Evaluation.Powers
import DiceNotation.Proofs.Evaluation.Compounding
import DiceNotation.Proofs.Evaluation.Matching
import DiceNotation.Proofs.Dice.Range
import DiceNotation.Proofs.Evaluation.Rounding
import DiceNotation.Proofs.Outline.Balance
import DiceNotation.Proofs.Outcome.Readback
import DiceNotation.Proofs.Outcome.Strike
import DiceNotation.Proofs.Reply.Length
import DiceNotation.Proofs.Text.NormalForm
