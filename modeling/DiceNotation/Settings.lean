import DiceNotation.Fault
import DiceNotation.Number.Numeral
import DiceNotation.Text.Standard

/-!
# Settings

The settings bound how many dice one expression may roll and how long a reply may be.  They
are taken from named values such as an environment gives; names count whatever their case,
and names that are not settings are passed over.  How an integer may be written there is up
to whoever loads the values, so a reader of integers is a parameter.

Main definitions:

- `Settings`: the settings with their defaults.
- `Settings.ofVariables`: settings from named values, by a reader of integers.

Main results:

- `Settings.ofVariables_of_unnamed`: values none of which names a setting change nothing.
- `Settings.ofVariables_error_iff`: only a limit that cannot be read makes them fail.
-/

namespace DiceNotation

/-- Limits on rolls and replies. -/
structure Settings where
  maxDice : Int := 1000
  maxLength : Int := 2000
  logLevel : Text := ['I', 'N', 'F', 'O']
deriving Repr, DecidableEq

namespace Settings

/-- What every name of a setting begins with. -/
def namespaceMark : Text := "dice_".toList

/-- Whether a value is named after a setting, whatever the case of its name. -/
def Names (name : Text) (entry : Text × Text) : Prop :=
  Text.lowerCase entry.1 = namespaceMark ++ name

instance (name : Text) : DecidablePred (Names name) :=
  fun _ => inferInstanceAs (Decidable (_ = _))

/-- The last value with a name. -/
def lookup? (entries : List (Text × Text)) (name : Text) : Option Text :=
  (entries.reverse.find? fun entry => Names name entry).map Prod.snd

/-- The name of the limit on dice. -/
def diceName : Text := "max_dice_per_roll".toList

/-- The name of the limit on replies. -/
def lengthName : Text := "max_message_length".toList

/-- A plain numeral as an integer, within the limit on digits. -/
def readNumeral? (text : Text) : Option Int :=
  if Numeral.digits text ≠ [] ∧ (Numeral.digits text).all Char.isDigit then
    (Numeral.read text).toOption
  else none

/-- The integer with a name, or a default if there is none of that name. -/
def integer (entries : List (Text × Text)) (readInteger? : Text → Option Int) (name : Text)
    (default : Int) : Except Fault Int :=
  match lookup? entries name with
  | none => .ok default
  | some text =>
    match readInteger? text with
    | some n => .ok n
    | none => .error .notAnIntegerSetting

/-- Settings from named values. -/
def ofVariables (entries : List (Text × Text))
    (readInteger? : Text → Option Int := readNumeral?) : Except Fault Settings := do
  let defaults : Settings := {}
  let maxDice ← integer entries readInteger? diceName defaults.maxDice
  let maxLength ← integer entries readInteger? lengthName defaults.maxLength
  let logLevel := (lookup? entries "log_level".toList).getD defaults.logLevel
  return { maxDice, maxLength, logLevel }

variable {entries : List (Text × Text)} {readInteger? : Text → Option Int} {name : Text}
  {fault : Fault}

/-- There is no value to look up exactly when none has the name. -/
theorem lookup?_eq_none_iff :
    lookup? entries name = none ↔ ∀ entry ∈ entries, ¬ Names name entry := by
  simp [lookup?]

/-- Only a value that is there and cannot be read makes an integer fail. -/
theorem integer_error_iff {default : Int} :
    integer entries readInteger? name default = .error fault ↔
      fault = .notAnIntegerSetting ∧
        ∃ text, lookup? entries name = some text ∧ readInteger? text = none := by
  unfold integer
  cases lookup? entries name with
  | none => simp
  | some text => cases h : readInteger? text <;> simp [h, eq_comm]

/-- Values none of which is named after a setting leave every default. -/
theorem ofVariables_of_unnamed (h : ∀ entry ∈ entries, ∀ name, ¬ Names name entry) :
    ofVariables entries readInteger? = .ok {} := by
  have hnone : ∀ name, lookup? entries name = none := fun name =>
    lookup?_eq_none_iff.mpr fun entry hentry => h entry hentry name
  simp only [ofVariables, integer, hnone]
  rfl

/-- Settings are refused exactly when the value of one of the limits cannot be read. -/
theorem ofVariables_error_iff :
    ofVariables entries readInteger? = .error fault ↔
      fault = .notAnIntegerSetting ∧ ∃ name ∈ [diceName, lengthName], ∃ text,
        lookup? entries name = some text ∧ readInteger? text = none := by
  have hdice (fault : Fault) := @integer_error_iff entries readInteger? diceName fault 1000
  have hlength := @integer_error_iff entries readInteger? lengthName fault 2000
  simp only [List.mem_cons, List.not_mem_nil, or_false, exists_eq_or_imp, exists_eq_left,
    and_or_left, ← hdice, ← hlength]
  change (integer entries readInteger? diceName 1000 >>= fun maxDice =>
    integer entries readInteger? lengthName 2000 >>= fun maxLength => .ok _) = _ ↔ _
  cases hfirst : integer entries readInteger? diceName 1000 with
  | error first =>
    have hsame (h : integer entries readInteger? lengthName 2000 = .error fault) :
        first = fault :=
      ((hdice _).mp hfirst).1.trans (hlength.mp h).1.symm
    simpa [bind, Except.bind] using hsame
  | ok maxDice =>
    cases integer entries readInteger? lengthName 2000 <;> simp [bind, Except.bind]

end Settings
end DiceNotation
