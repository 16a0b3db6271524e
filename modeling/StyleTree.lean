import StyleTree.Level.Json
import StyleTree.Level.Lemmas
import StyleTree.Level.Positions
import StyleTree.Session
import StyleTree.Proofs.Events
import StyleTree.Proofs.Replay
import StyleTree.Proofs.Answers
import StyleTree.Proofs.Failures
import StyleTree.Proofs.Dropped
import StyleTree.Proofs.Expansion
import StyleTree.Proofs.Pinned
import StyleTree.Proofs.Reordering
import StyleTree.Proofs.Delegation
import StyleTree.Proofs.Provenance
import StyleTree.Proofs.Empties
import StyleTree.Proofs.Layering
import StyleTree.Proofs.History
import StyleTree.Proofs.Theming
import StyleTree.Proofs.Unambiguous
import StyleTree.Proofs.Edits
import StyleTree.Proofs.Reached
import StyleTree.Proofs.Chaining
import StyleTree.Proofs.Wrappers
import StyleTree.Proofs.Paths
import StyleTree.Proofs.Registered
import StyleTree.Proofs.Observed
import StyleTree.Proofs.Documents
import StyleTree.Proofs.Fresh
import StyleTree.Proofs.Updates
