/-!
# DequeMachine.Cli.Arguments

The command line: exactly one file name, or a request for help.

1. Arguments are read from left to right, and the first one that asks for help or makes no sense
   decides.
2. `--` ends the options: every argument after it is a name.
3. An option begins with a minus sign.  The only ones ask for help; a minus sign alone is a name.
4. A name is not empty, and there is only one.
-/

namespace DequeMachine.Cli

/-- What an argument is, as long as options may occur. -/
inductive Argument where
  /-- The end of the options. -/
  | terminator
  /-- An option that asks for help. -/
  | help
  /-- Any other option. -/
  | unknown
  /-- A name. -/
  | name
deriving DecidableEq, Repr

/-- What an argument is, by its first characters.  What follows the letter of a one-letter option is
not looked at. -/
def Argument.ofText (text : String) : Argument :=
  match text.toList with
  | ['-', '-'] => .terminator
  | ['-', '-', 'h', 'e', 'l', 'p'] => .help
  | '-' :: 'h' :: _ => .help
  | ['-'] => .name
  | '-' :: _ => .unknown
  | _ => .name

/-- What a command line asks for. -/
inductive Request where
  /-- To show the help text. -/
  | help
  /-- Nothing that makes sense. -/
  | misuse
  /-- To run a file. -/
  | run (file : String)
deriving DecidableEq, Repr

namespace Request

/-- The request of the remaining arguments, after `file?` if a name was read, where `optionsEnded`
says whether only names can follow. -/
def ofRest (file? : Option String) (optionsEnded : Bool) : List String → Request
  | [] => file?.elim misuse run
  | text :: rest =>
    match if optionsEnded then .name else Argument.ofText text with
    | .terminator => ofRest file? true rest
    | .help => help
    | .unknown => misuse
    | .name =>
      if text.isEmpty || file?.isSome then misuse else ofRest (some text) optionsEnded rest

/-- The request of a command line. -/
def ofArguments (arguments : List String) : Request := ofRest none false arguments

end Request

end DequeMachine.Cli
