/-!
# Command-Line Arguments

Arguments taken apart into options and positional ones.

An option has a long name and perhaps a letter. Its value stands behind an equals
sign or in the next argument; a letter's value may also follow it at once, and
letters without values may share one argument. Everything behind a double dash is
positional. What begins with a dash is never taken for a value.

Arguments are read from the left, and the first mistake ends the reading. So
does a request for help, unless there was a mistake before it.

## Main definitions

* `ValueKind`: What an option takes.
* `Grammar`: The options and positional arguments of a command.
* `Grammar.read`: The arguments of a command, taken apart.
-/

namespace Concordance

namespace Console

/-- What an option takes. -/
inductive ValueKind where
  /-- Nothing; given at most once. -/
  | flag
  /-- Nothing; given any number of times. -/
  | count
  /-- A path, which is not empty. -/
  | path
  | text
  /-- Texts with commas between them; given any number of times. -/
  | texts
  /-- A number below a limit. -/
  | natural (limit : Nat)
  /-- A number below a limit that is read with a sign. -/
  | signed (limit : Nat)
deriving DecidableEq, Repr

/-- The number that digits stand for. -/
def digits? (digits : List Char) : Option Nat :=
  if digits.isEmpty || !digits.all Char.isDigit then none
  else some (digits.foldl (fun value c => 10 * value + (c.toNat - '0'.toNat)) 0)

/-- A number, perhaps with a plus sign. -/
def natural? (text : String) : Option Nat :=
  match text.toList with
  | '+' :: digits => digits? digits
  | digits => digits? digits

/-- A number that is not negative, perhaps with a sign. -/
def signed? (text : String) : Option Nat :=
  match text.toList with
  | '-' :: digits =>
    match digits? digits with
    | some 0 => some 0
    | _ => none
  | _ => natural? text

/-- The number that a value of some kind stands for. -/
def ValueKind.number? : ValueKind → String → Option Nat
  | .natural limit, given => (natural? given).filter (· < limit)
  | .signed limit, given => (signed? given).filter (· < limit)
  | _, _ => none

/-- Can an option of this kind have this value? -/
def ValueKind.accepts (kind : ValueKind) (value : String) : Bool :=
  match kind with
  | .path => !value.isEmpty
  | .natural _ | .signed _ => (kind.number? value).isSome
  | _ => true

/-- Does an option of this kind take a value? -/
def ValueKind.takesValue : ValueKind → Bool
  | .flag | .count => false
  | _ => true

/-- May an option of this kind be given again? -/
def ValueKind.repeats : ValueKind → Bool
  | .count | .texts => true
  | _ => false

/-- An option of a command. -/
structure OptionForm where
  name : String
  letter : Option Char := none
  kind : ValueKind
deriving DecidableEq, Repr

/-- The options and positional arguments of a command. -/
structure Grammar where
  options : List OptionForm
  /-- The kinds of the first positional arguments. -/
  positional : List ValueKind := []
  /-- The kind of all further ones, if there may be any. -/
  further : Option ValueKind := none
deriving DecidableEq, Repr

/-- Why a command is not carried out. -/
inductive Stop where
  | mistake
  | help
deriving DecidableEq, Repr

/-- The arguments that were given: options with their values, and positional
    ones, both in their order. -/
structure Given where
  options : List (String × String) := []
  positional : List String := []
deriving DecidableEq, Repr

namespace Grammar

/-- The option with a long name. -/
def named (grammar : Grammar) (name : String) : Option OptionForm :=
  grammar.options.find? fun option => option.name = name

/-- The option with a letter. -/
def lettered (grammar : Grammar) (letter : Char) : Option OptionForm :=
  grammar.options.find? fun option => option.letter = some letter

/-- Takes in an option with its value. -/
def give (given : Given) (option : OptionForm) (value : String) : Except Stop Given :=
  if !option.kind.accepts value then .error .mistake
  else if !option.kind.repeats && (given.options.lookup option.name).isSome then .error .mistake
  else .ok { given with options := given.options ++ [(option.name, value)] }

/-- Takes in a positional argument. -/
def place (grammar : Grammar) (given : Given) (value : String) : Except Stop Given :=
  let kind :=
    match grammar.positional[given.positional.length]? with
    | some kind => some kind
    | none => grammar.further
  match kind with
  | none => .error .mistake
  | some kind =>
    if kind.accepts value then .ok { given with positional := given.positional ++ [value] }
    else .error .mistake

/-- Takes in several positional arguments. -/
def placeAll (grammar : Grammar) (given : Given) : List String → Except Stop Given
  | [] => .ok given
  | value :: rest =>
    match grammar.place given value with
    | .error stop => .error stop
    | .ok given => grammar.placeAll given rest

/-- What letters that share an argument come to. -/
inductive Letters where
  /-- All were taken in. -/
  | done (given : Given)
  /-- The last one takes the next argument. -/
  | takes (option : OptionForm) (given : Given)

/-- Takes in letters that share an argument. -/
def letters (grammar : Grammar) (given : Given) : List Char → Except Stop Letters
  | [] => .ok (.done given)
  | letter :: rest =>
    match grammar.lettered letter with
    | none => .error (if letter = 'h' then .help else .mistake)
    | some option =>
      if option.kind.takesValue then
        match rest with
        | [] => .ok (.takes option given)
        | '=' :: value => (give given option (String.ofList value)).map .done
        | value => (give given option (String.ofList value)).map .done
      else
        match give given option "" with
        | .error stop => .error stop
        | .ok given => grammar.letters given rest

/-- Does an argument look like options? A single dash does not. -/
def isOption (argument : String) : Bool :=
  match argument.toList with
  | '-' :: _ :: _ => true
  | _ => false

/-- Takes in the arguments of a command. -/
def readFrom (grammar : Grammar) (given : Given) : List String → Except Stop Given
  | [] => .ok given
  | argument :: rest =>
    match argument.toList with
    | ['-', '-'] => grammar.placeAll given rest
    | '-' :: '-' :: text =>
      let name := String.ofList (text.takeWhile (· ≠ '='))
      match grammar.named name, text.dropWhile (· ≠ '=') with
      | none, [] => .error (if name = "help" then .help else .mistake)
      | none, _ => .error .mistake
      | some option, '=' :: value =>
        if option.kind.takesValue then
          match give given option (String.ofList value) with
          | .error stop => .error stop
          | .ok given => grammar.readFrom given rest
        else .error .mistake
      | some option, _ =>
        if option.kind.takesValue then
          match rest with
          | [] => .error .mistake
          | value :: rest =>
            if isOption value then .error .mistake
            else
              match give given option value with
              | .error stop => .error stop
              | .ok given => grammar.readFrom given rest
        else
          match give given option "" with
          | .error stop => .error stop
          | .ok given => grammar.readFrom given rest
    | '-' :: c :: cs =>
      match grammar.letters given (c :: cs) with
      | .error stop => .error stop
      | .ok (.done given) => grammar.readFrom given rest
      | .ok (.takes option given) =>
        match rest with
        | [] => .error .mistake
        | value :: rest =>
          if isOption value then .error .mistake
          else
            match give given option value with
            | .error stop => .error stop
            | .ok given => grammar.readFrom given rest
    | _ =>
      match grammar.place given argument with
      | .error stop => .error stop
      | .ok given => grammar.readFrom given rest

/-- The arguments of a command, taken apart. -/
def read (grammar : Grammar) (arguments : List String) : Except Stop Given :=
  grammar.readFrom {} arguments

end Grammar

namespace Given

/-- Was an option given? -/
def has (given : Given) (option : OptionForm) : Bool :=
  (given.options.lookup option.name).isSome

/-- The value of an option. -/
def value? (given : Given) (option : OptionForm) : Option String :=
  given.options.lookup option.name

/-- The number that an option was given, or its default. -/
def number (given : Given) (option : OptionForm) (default : Nat) : Nat :=
  ((given.value? option).bind option.kind.number?).getD default

/-- All values of an option. -/
def values (given : Given) (option : OptionForm) : List String :=
  (given.options.filter fun (name, _) => name = option.name).map Prod.snd

end Given

end Console

end Concordance
