import SqlTree.Json.Decode
import SqlTree.Parsed
import SqlTree.Proofs.Bracketing
import SqlTree.Proofs.Caps
import SqlTree.Proofs.Confinement.Statement
import SqlTree.Proofs.Derivation.Acceptance
import SqlTree.Proofs.Escaped
import SqlTree.Proofs.Hashing
import SqlTree.Proofs.Insertion.Comment
import SqlTree.Proofs.JoinChain
import SqlTree.Proofs.LetterCase.Parsing
import SqlTree.Proofs.LineBreak
import SqlTree.Proofs.Literal
import SqlTree.Proofs.Numbering.Level
import SqlTree.Proofs.Numbering.Search
import SqlTree.Proofs.Numbering.Sharing
import SqlTree.Proofs.Omission.Alias
import SqlTree.Proofs.Parentheses
import SqlTree.Proofs.Payload.Statement
import SqlTree.Proofs.Refusing.Answer
import SqlTree.Proofs.Rereading.Identity
import SqlTree.Proofs.Retagging
import SqlTree.Proofs.RowLimit.Repetition
import SqlTree.Proofs.RowLimit.Spelling
import SqlTree.Proofs.Segments
import SqlTree.Proofs.Sessions
import SqlTree.Proofs.SetChain
import SqlTree.Proofs.Storage.Tree
import SqlTree.Proofs.Traversal
import SqlTree.Proofs.WellFormed.Statement
import SqlTree.Session
import SqlTree.Text.Integer
import SqlTree.Tree.Ancestry
import SqlTree.Tree.Build
import SqlTree.Tree.Distinct
import SqlTree.Tree.Visit
