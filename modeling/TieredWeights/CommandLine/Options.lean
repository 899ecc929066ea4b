import TieredWeights.Text.Pieces

/-!
# Options on a command line

An option is a word that begins with two dashes. Its value follows an equals sign or is the next
word, which must not look like an option itself. Words are taken from the left, and the first one
that is out of place, or that asks for help, decides.
-/
namespace TieredWeights.CommandLine

/-- Why the reading of a command line ends before a command is known. -/
inductive Stop where
  | help
  | version
  | misuse
  deriving DecidableEq, Repr

/-- Whether a word is a switch: its long form, or a dash and its letter, which take effect before
anything that follows the letter is looked at. -/
def isSwitch (long : String) (letter : Char) (word : String) : Bool :=
  word = long || word.toList.take 2 = ['-', letter]

/-- Whether a word asks for help. -/
def asksHelp (word : String) : Bool := isSwitch "--help" 'h' word

/-- Whether a word asks for the version. -/
def asksVersion (word : String) : Bool := isSwitch "--version" 'V' word

/-- The word that ends the options. No command takes words after it. -/
def optionsEnd : String := "--"

/-- Whether a word of its own can be the value of an option. -/
def isValue (word : String) : Bool := word = "-" || word.toList.head? ≠ some '-'

/-- The name of an option and the value after an equals sign, if it has one. -/
def nameOf (word : String) : String × Option String :=
  match Text.cut '=' word.toList with
  | none => (word, none)
  | some (name, value) => (String.ofList name, some (String.ofList value))

/-- Read options into a record. `set` gives a named option its value, and refuses what it does not
know. -/
def readOptions {α : Type} (known : List String) (set : String → String → α → Option α) :
    List String → α → Except Stop α
  | [], options => .ok options
  | word :: rest, options =>
    if asksHelp word then .error .help
    else if word = optionsEnd then if rest = [] then .ok options else .error .misuse
    else
      let (name, value) := nameOf word
      if !known.contains name then .error .misuse
      else
        match value, rest with
        | some v, rest =>
          match set name v options with
          | none => .error .misuse
          | some options => readOptions known set rest options
        | none, [] => .error .misuse
        | none, v :: rest =>
          if !isValue v then .error .misuse
          else
            match set name v options with
            | none => .error .misuse
            | some options => readOptions known set rest options

/-- Give an option its only value. -/
def once {α : Type} (old : Option α) (new : Option α) : Option (Option α) :=
  match old, new with
  | none, some x => some (some x)
  | _, _ => none

/-- Give an option further values, separated by commas. -/
def appendEach {α : Type} (read : String → Option α) (old : List α) (value : String) :
    Option (List α) :=
  ((Text.pieces ',' value.toList).mapM fun part => read (String.ofList part)).map (old ++ ·)

end TieredWeights.CommandLine
