import FrontEnd.Analysis.Basic
import FrontEnd.Program.Builder
import FrontEnd.Token.Scan

/-!
# Compilation

From a source to an analysed program: scan, build, analyse. The first stage that fails ends it. How
tokens are built into a program is left to a builder.
-/

namespace FrontEnd

/-- What every stage goes by. -/
structure Pipeline where
  lexicon : Lexicon
  quotes : QuoteRule
  policy : Policy

/-- The outcome of a compilation, with all that its stages told. -/
structure Compilation where
  log : List Log.Entry
  result : Except Fault (Program × Analysis)

namespace Pipeline

/-- Scans, builds and analyses a source. -/
def compile (p : Pipeline) (builder : Builder) (source : String) : Compilation :=
  let scanned := p.lexicon.scan p.quotes source
  let scanLog := Lexicon.scanLog source scanned
  match scanned with
  | .error e => ⟨scanLog, .error e.fault⟩
  | .ok tokens =>
    let log := scanLog ++ [⟨.debug, s!"scanned {tokens.length} tokens"⟩]
    match builder.build tokens with
    | .error fault => ⟨log, .error fault⟩
    | .ok program =>
      let pass := program.analyze p.lexicon p.policy
      ⟨log ++ pass.log,
        match pass.result with
        | .error v => .error v.fault
        | .ok analysis => .ok (pass.program, analysis)⟩

end Pipeline

end FrontEnd
