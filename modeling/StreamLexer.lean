import StreamLexer.Config.Load
import StreamLexer.Lexer.Session
import StreamLexer.Proofs.Stream.Signal
import StreamLexer.Proofs.Stream.Encoding
import StreamLexer.Proofs.Stream.Tape
import StreamLexer.Proofs.Scan.Follows
import StreamLexer.Proofs.Scan.Token
import StreamLexer.Proofs.Lexer.View
import StreamLexer.Proofs.Lexer.Relocation
import StreamLexer.Proofs.Lexer.Delivery
import StreamLexer.Proofs.Lexer.Resumption
import StreamLexer.Proofs.Grammar.Lexeme
import StreamLexer.Proofs.Grammar.Scanning
import StreamLexer.Proofs.Grammar.Token
import StreamLexer.Proofs.Grammar.Composition
import StreamLexer.Proofs.Lexer.Acceptance
import StreamLexer.Proofs.Number.Binary32
import StreamLexer.Proofs.Number.Nearest
import StreamLexer.Proofs.Number.Rounding
import StreamLexer.Proofs.Number.Shortest
import StreamLexer.Proofs.Grammar.Rendering
import StreamLexer.Proofs.Lexer.Rereading
import StreamLexer.Proofs.Stream.Decoding
import StreamLexer.Proofs.Lexer.Invariant
import StreamLexer.Proofs.Scan.Faults
import StreamLexer.Proofs.Lexer.Exhaustion
import StreamLexer.Proofs.Lexer.Finality
import StreamLexer.Proofs.Lexer.Truncation
import StreamLexer.Proofs.Lexer.Positions
import StreamLexer.Proofs.Scan.Lookahead
import StreamLexer.Proofs.Lexer.Lookahead
import StreamLexer.Proofs.Lexer.Memory
import StreamLexer.Proofs.Lexer.Pulling
import StreamLexer.Proofs.Lexer.Separation
import StreamLexer.Proofs.Lexer.Termination
import StreamLexer.Proofs.Lexer.Remainder
import StreamLexer.Proofs.Lexer.Reports
import StreamLexer.Proofs.Lexer.Transcript
import StreamLexer.Proofs.Lexer.Blame
import StreamLexer.Proofs.Grammar.Validity
import StreamLexer.Proofs.Lexer.Soundness
import StreamLexer.Proofs.Lexer.Limit
import StreamLexer.Proofs.Lexer.Literal
import StreamLexer.Proofs.Lexer.Float
import StreamLexer.Proofs.Lexer.Mark
import StreamLexer.Proofs.Cursor.Invariant
import StreamLexer.Proofs.Stream.Loss
import StreamLexer.Proofs.Cursor.Failure
import StreamLexer.Proofs.Stream.ReadAhead
import StreamLexer.Proofs.Scan.Invariant
import StreamLexer.Proofs.Lexer.ReadAhead
import StreamLexer.Proofs.Toml.Parser
import StreamLexer.Proofs.Toml.Scalar
import StreamLexer.Proofs.Toml.Document
import StreamLexer.Proofs.Config.Load
