import Concord.Text.Pieces
import Concord.Text.Lowercase
import Concord.Text.Utf8
import Concord.Text.Padding
import Concord.Folder
import Concord.Lexicon.English
import Concord.Lexicon.Listing
import Concord.Token
import Concord.Grammar.Phrase
import Concord.Grammar.Cursor
import Concord.Grammar.Program
import Concord.Verdict
import Concord.Checker
import Concord.Json
import Concord.CommandLine.Arguments
import Concord.CommandLine.Help
import Concord.Session
import Concord.Main
import Concord.Proofs.Grammar.Derivation
import Concord.Proofs.Grammar.Outcome
import Concord.Proofs.Grammar.Recognition
import Concord.Proofs.Grammar.Breakdown
import Concord.Proofs.Grammar.Segment
import Concord.Proofs.Grammar.Recovery
import Concord.Proofs.Grammar.Nesting
import Concord.Proofs.Grammar.Progress
import Concord.Proofs.Grammar.Acceptance
import Concord.Proofs.Grammar.EarliestError
import Concord.Proofs.Grammar.Diagnosis
import Concord.Proofs.Grammar.ErrorOrder
import Concord.Proofs.Grammar.MaximalPhrase
import Concord.Proofs.Grammar.CursorRun
import Concord.Proofs.Grammar.Alike
import Concord.Proofs.Text.Casing
import Concord.Proofs.Token.Scan
import Concord.Proofs.Token.Joining
import Concord.Proofs.Grammar.Relocation
import Concord.Proofs.Lexicon.Listing
import Concord.Proofs.Lexicon.Dictionary
import Concord.Proofs.Lexicon.Layers
import Concord.Proofs.Verdict.Composition
import Concord.Proofs.Verdict.Kinds
import Concord.Proofs.Grammar.FlatReading
import Concord.Proofs.Grammar.Lockstep
import Concord.Proofs.Token.Reprinting
import Concord.Proofs.Token.LetterCase
import Concord.Proofs.Token.Vocabulary
import Concord.Proofs.Verdict.Extension
import Concord.Proofs.Lexicon.Layout
import Concord.Proofs.Lexicon.Writing
import Concord.Proofs.Lexicon.Rebuilding
import Concord.Proofs.Verdict.LineMode
import Concord.Proofs.Verdict.Messages
import Concord.Proofs.Session.Rows
import Concord.Proofs.Session.Transcript
import Concord.Proofs.Json.Reading
import Concord.Proofs.Session.Document
import Concord.Proofs.Session.Runs
import Concord.Proofs.CommandLine.Collection
import Concord.Proofs.CommandLine.Spelling
import Concord.Proofs.CommandLine.Acceptance
