import FrontEnd.Lexicon.Standard
import FrontEnd.Report.Snippet
import FrontEnd.Token.Scan

/-!
# The command

What the command prints, and the code it ends with, for given flags and a given file. The command
scans a file with the standard lexicon and can list the tokens.
-/

namespace FrontEnd.Command

/-- How a file is scanned and what is told about it. -/
structure Options where
  dumpTokens : Bool
  matchQuotes : Bool
  verbose : Bool
deriving DecidableEq, Repr

/-- What a call asks for. -/
inductive Invocation where
  | version
  | scan (options : Options) (file : String)
deriving DecidableEq, Repr

/-- Why a call cannot be understood. -/
inductive UsageError where
  | unknownFlag (flag : String)
  | fileMissing
deriving DecidableEq, Repr

/-- What reading the file gave. -/
inductive Content where
  | bytes (data : ByteArray)
  /-- The file could not be read. -/
  | unreadable (reason : String)

/-- A file that does not exist. -/
def Content.missing : Content :=
  .unreadable "No such file or directory (os error 2)"

/-- What the command leaves behind. -/
structure Outcome where
  code : Nat
  stdout : String
  stderr : String
deriving DecidableEq, Repr

namespace Options

/-- The options of a call without flags. -/
def plain : Options :=
  ⟨false, false, false⟩

/-- The options with one more flag, if it is one. -/
def add? (o : Options) (flag : String) : Option Options :=
  match flag with
  | "--dump-tokens" => some { o with dumpTokens := true }
  | "--match-quotes" => some { o with matchQuotes := true }
  | "-v" | "--verbose" => some { o with verbose := true }
  | _ => none

/-- The options with some more flags, or the first flag that is none. -/
def addAll (o : Options) : List String → Except UsageError Options
  | [] => .ok o
  | flag :: rest =>
    match o.add? flag with
    | some more => more.addAll rest
    | none => .error (.unknownFlag flag)

/-- The rule for closing quotes. -/
def quotes (o : Options) : QuoteRule :=
  if o.matchQuotes then .matchOpening else .preferSingle

end Options

/-- What flags and files ask for. Asked for its version, the command needs no file. -/
def Invocation.ofParts (flags files : List String) : Except UsageError Invocation :=
  if flags.contains "--version" || flags.contains "-V" then .ok .version
  else
    match Options.plain.addAll flags, files with
    | .error e, _ => .error e
    | .ok _, [] => .error .fileMissing
    | .ok options, file :: _ => .ok (.scan options file)

/-- What the arguments of a call ask for. Flags begin with a dash. -/
def Invocation.ofArguments (args : List String) : Except UsageError Invocation :=
  let (flags, files) := args.partition fun arg => arg.startsWith "-"
  ofParts flags files

/-- Lines of text, each with its end. -/
def unlines (lines : List String) : String :=
  String.join (lines.map (· ++ "\n"))

/-- The command ends with an error. -/
def failure (lines : List String) : Outcome :=
  ⟨1, "", unlines lines⟩

/-- One line of the token list: the bytes, the lexeme or the name of the kind, and the text. -/
def tokenLine (lex : Lexicon) (t : Token) : String :=
  let kind :=
    match lex.lexemeOf t.kind with
    | some lexeme => s!"'{lexeme}'"
    | none => t.kind.name
  Text.alignRight 5 (toString t.span.start) ++ ".." ++ Text.alignLeft 5 (toString t.span.stop) ++
    " " ++ Text.alignLeft 12 kind ++ " " ++ t.value

/-- The token list. -/
def tokenLines (lex : Lexicon) (tokens : List Token) : List String :=
  "=== Tokens ===" :: tokens.map (tokenLine lex) ++ ["=== End Tokens ===", ""]

/-- Scans the text of a file. -/
def scanText (o : Options) (file source : String) : Outcome :=
  match Lexicon.standard.scan o.quotes source with
  | .error e =>
    failure (Report.render file source (e.fault.diagnostic 0) ++
      [s!"error: could not scan {file}"])
  | .ok tokens =>
    let dump := if o.dumpTokens then tokenLines .standard tokens else []
    let count := if o.verbose then [s!"Scanned {tokens.length} tokens from {file}"] else []
    ⟨0, "", unlines (dump ++ count)⟩

/-- Scans a file. -/
def run (o : Options) (file : String) (content : Content) : Outcome :=
  match content with
  | .unreadable reason => failure [s!"error: failed to read {file}: {reason}"]
  | .bytes data =>
    match String.fromUTF8? data with
    | some source => scanText o file source
    | none => failure [s!"error: failed to read {file}: stream did not contain valid UTF-8"]

/-- The name of the command and its version. -/
def versionOutcome : Outcome :=
  ⟨0, "transc 0.1.0\n", ""⟩

/-- The outcome of a call that cannot be understood. -/
def UsageError.outcome : UsageError → Outcome
  | unknownFlag flag => ⟨2, "", s!"error: unexpected argument '{flag}' found\n"⟩
  | fileMissing =>
    ⟨2, "", "error: the following required arguments were not provided:\n  <INPUT>\n"⟩

end FrontEnd.Command
