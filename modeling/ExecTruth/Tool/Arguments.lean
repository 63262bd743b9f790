import ExecTruth.Files.Path

/-! # Arguments — the command line of a tool

    A tool takes a number of arguments by place, of which the last ones may be left
    out, and named options with a value.  What begins with a dash is an option unless
    it is a dash alone or stands behind `--`.  The command line is read from left to
    right, and the first thing that does not fit, or a question for the version,
    ends the reading. -/

namespace ExecTruth.Tool

/-- What may stand at a place. -/
inductive ArgumentKind where
  /-- The name of a file, which is not empty. -/
  | path
  /-- Any text. -/
  | text
  deriving DecidableEq, Repr

/-- What a tool takes. -/
structure Signature where
  places : List ArgumentKind
  /-- The number of places that have to be filled. -/
  required : Nat
  /-- The names of the options, each with its value. -/
  options : List String
  deriving Repr

/-- What stands on a command line. -/
structure Arguments where
  /-- The arguments by place. -/
  placed : List String
  /-- The values of the options that are given. -/
  options : List (String × String)
  deriving DecidableEq, Repr

/-- What a command line asks for. -/
inductive Request where
  /-- To run with arguments. -/
  | run (args : Arguments)
  /-- To tell the version. -/
  | version
  /-- Nothing that the tool can do. -/
  | misuse
  deriving DecidableEq, Repr

namespace Arguments

/-- No arguments. -/
def none : Arguments := ⟨[], []⟩

/-- The arguments with one more by place. -/
def place? (sig : Signature) (args : Arguments) (arg : String) : Option Arguments :=
  match sig.places[args.placed.length]? with
  | Option.none => Option.none
  | some kind =>
      if kind = .path ∧ arg = "" then Option.none
      else some { args with placed := args.placed ++ [arg] }

/-- The arguments with one more option, which may be given once. -/
def option? (sig : Signature) (args : Arguments) (name value : String) : Option Arguments :=
  if sig.options.contains name ∧ !args.options.any (·.1 == name) then
    some { args with options := args.options ++ [(name, value)] }
  else Option.none

/-- Arguments that all stand by place. -/
def placeAll? (sig : Signature) (args : Arguments) : List String → Option Arguments
  | [] => some args
  | arg :: rest => (args.place? sig arg).bind fun args => placeAll? sig args rest

/-- Whether an argument is read as an option. -/
def isOption (arg : String) : Bool := arg.startsWith "-" && arg != "-"

/-- What arguments that are complete ask for. -/
def finish (sig : Signature) (args : Arguments) : Request :=
  if args.placed.length < sig.required then .misuse else .run args

/-- Reads the rest of a command line. -/
def readFrom (sig : Signature) (args : Arguments) : List String → Request
  | [] => args.finish sig
  | "--" :: rest =>
      match args.placeAll? sig rest with
      | Option.none => .misuse
      | some args => args.finish sig
  | "--version" :: _ => .version
  | arg :: rest =>
      if !isOption arg then
        match args.place? sig arg with
        | Option.none => .misuse
        | some args => readFrom sig args rest
      else if !arg.startsWith "--" then
        if arg.startsWith "-V" then .version else .misuse
      else
        match Text.cutOnce '=' (arg.toList.drop 2) with
        | some (name, value) =>
            match args.option? sig (String.ofList name) (String.ofList value) with
            | Option.none => .misuse
            | some args => readFrom sig args rest
        | Option.none =>
            match rest with
            | [] => .misuse
            | value :: rest =>
                if isOption value then .misuse
                else
                  match args.option? sig (String.ofList (arg.toList.drop 2)) value with
                  | Option.none => .misuse
                  | some args => readFrom sig args rest

/-- Reads a command line. -/
def read (sig : Signature) (line : List String) : Request := readFrom sig none line

/-- The argument at a place. -/
def at? (args : Arguments) (n : Nat) : Option String := args.placed[n]?

/-- The path at a place. -/
def path (args : Arguments) (n : Nat) : Path := Path.ofString ((args.at? n).getD "")

/-- The value of an option. -/
def value? (args : Arguments) (name : String) : Option String :=
  (args.options.find? (·.1 == name)).map (·.2)

end Arguments

end ExecTruth.Tool
