/-
# Command -- the command line

The command runs one source text, from a file or from standard input.  Its standard
output is what the program writes.  On standard error it shows the tokens and the
syntax tree, if it is asked to and as soon as there are any, and then the fault, if
there is one.  The exit code is 0 if there was no fault, 1 if there was, and 2 if the
arguments cannot be read.

The log of a run is left out of the report.  Its lines would go to standard error too, but
only if the environment of the process has a log filter that asks for them: all of them are
of the levels `debug` and `trace`, and without such a filter only warnings and errors are
let through.
-/
import ColonLisp.Command.Folder
import ColonLisp.Command.Request
import ColonLisp.Evaluation
import ColonLisp.Json.Writer
import ColonLisp.Node.Json
import ColonLisp.Token.Json

set_option autoImplicit false

namespace ColonLisp.Command

/-- What a run of the command leaves behind. -/
structure Report where
  exit : Nat
  out : String
  err : String
deriving DecidableEq, Repr, Inhabited

/-- The version of the command. -/
def versionText : String := "cacophony 0.1.0\n"

/-- How the command is used. -/
def usageText : String := "Usage: cacophony [OPTIONS] [FILE]\n"

/-- What the command says about itself. -/
def helpText : String :=
  "Cacophony - a minimal Lisp-like expression language: lexer, parser and tree-walking " ++
  "evaluator\n\n" ++ usageText ++
  "\nArguments:\n" ++
  "  [FILE]  Source file to evaluate. Reads stdin when omitted\n" ++
  "\nOptions:\n" ++
  "      --dump-tokens  Write the token list as JSON to stderr before evaluating\n" ++
  "      --dump-ast     Write the syntax tree as JSON to stderr before evaluating\n" ++
  "  -h, --help         Print help\n" ++
  "  -V, --version      Print version\n"

/-- The report of a run that a fault ended. -/
def Report.failed (out err why : String) : Report := ⟨1, out, err ++ why ++ "\n"⟩

/-- What is shown of a value, if it is asked for. -/
def dump (asked : Bool) (json : Json) : String := if asked then json.pretty ++ "\n" else ""

/-- Runs a source text. -/
def interpret (options : Options) (source : String) : Report :=
  match scan source with
  | .error fault => .failed "" "" fault.report
  | .ok tokens =>
      let err := dump options.dumpTokens (.array (tokens.map Token.toJson))
      match parse tokens with
      | .error fault => .failed "" err fault.report
      | .ok program =>
          let err := err ++ dump options.dumpTree program.toJson
          match program.run.run (Session.start Transcript.empty) with
          | (.ok _, session) => ⟨0, session.sink.text, err⟩
          | (.error fault, session) => .failed session.sink.text err fault.report

/-- The name of the input in a diagnostic. -/
def Options.inputName (options : Options) : String :=
  match options.file with
  | some name => "file " ++ name
  | none => "stdin"

/-- The text of some bytes. -/
def decode (bytes : ByteArray) : Except Unread String :=
  match String.fromUTF8? bytes with
  | some text => .ok text
  | none => .error .notText

/-- Answers a request, given the bytes of the input that it names. -/
def answer (request : Request) (input : Options → Except Unread ByteArray) : Report :=
  match request with
  | .help => ⟨0, helpText, ""⟩
  | .version => ⟨0, versionText, ""⟩
  | .misuse => ⟨2, "", usageText⟩
  | .run options =>
      match input options >>= decode with
      | .ok source => interpret options source
      | .error why =>
          .failed "" "" ("could not read from " ++ options.inputName ++ ": " ++ why.reason)

/-- The bytes of the input that the options name: of a file in a folder, or of standard
input. -/
def input (folder : Folder) (stdin : ByteArray) (options : Options) : Except Unread ByteArray :=
  match options.file with
  | some name => folder.read name
  | none => .ok stdin

/-- Runs the command in a folder. -/
def run (folder : Folder) (stdin : ByteArray) (args : List String) : Report :=
  answer (Request.ofArgs args) (input folder stdin)

end ColonLisp.Command
