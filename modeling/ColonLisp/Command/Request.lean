/-
# Command.Request -- what the arguments of the command ask for

Arguments are read from left to right.  At most one of them names a file.  The two
flags are given at most once each.  Asking for help or for the version is answered as
soon as it is reached; so is an argument that cannot be read.  After `--` every
argument names a file, and so does a single `-`.
-/
set_option autoImplicit false

namespace ColonLisp.Command

/-- What a run of the command is to do. -/
structure Options where
  /-- The file with the source; standard input if there is none. -/
  file : Option String
  /-- Whether the tokens are shown. -/
  dumpTokens : Bool
  /-- Whether the syntax tree is shown. -/
  dumpTree : Bool
deriving DecidableEq, Repr, Inhabited

/-- What the arguments ask for. -/
inductive Request where
  | help
  | version
  /-- The arguments cannot be read. -/
  | misuse
  | run (options : Options)
deriving DecidableEq, Repr, Inhabited

namespace Request

/-- What an argument that may be a flag is. -/
inductive Argument where
  | endOfFlags
  | help
  | version
  | dumpTokens
  | dumpTree
  | unknown
  | file (name : String)
deriving DecidableEq, Repr, Inhabited

/-- What an argument is before `--`.  Letters after a single hyphen are flags of their
own, and the first of them decides. -/
def Argument.of (arg : String) : Argument :=
  if arg = "--" then .endOfFlags
  else if arg = "--help" then .help
  else if arg = "--version" then .version
  else if arg = "--dump-tokens" then .dumpTokens
  else if arg = "--dump-ast" then .dumpTree
  else
    match arg.toList with
    | ['-'] => .file arg
    | '-' :: 'h' :: _ => .help
    | '-' :: 'V' :: _ => .version
    | '-' :: _ => .unknown
    | _ => .file arg

/-- The options with the name of a file; there is at most one, and it is not empty. -/
def withFile? (options : Options) (name : String) : Option Options :=
  if options.file.isSome || name.isEmpty then none else some { options with file := some name }

/-- What the arguments after `--` ask for. -/
def ofFiles (options : Options) : List String → Request
  | [] => .run options
  | arg :: rest =>
      match withFile? options arg with
      | some options => ofFiles options rest
      | none => .misuse

/-- What the arguments ask for, after those that gave the options so far. -/
def ofArgsFrom (options : Options) : List String → Request
  | [] => .run options
  | arg :: rest =>
      match Argument.of arg with
      | .endOfFlags => ofFiles options rest
      | .help => .help
      | .version => .version
      | .dumpTokens =>
          if options.dumpTokens then .misuse
          else ofArgsFrom { options with dumpTokens := true } rest
      | .dumpTree =>
          if options.dumpTree then .misuse else ofArgsFrom { options with dumpTree := true } rest
      | .unknown => .misuse
      | .file name =>
          match withFile? options name with
          | some options => ofArgsFrom options rest
          | none => .misuse

/-- What the arguments of the command ask for. -/
def ofArgs (args : List String) : Request := ofArgsFrom ⟨none, false, false⟩ args

end Request

end ColonLisp.Command
