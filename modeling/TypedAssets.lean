import TypedAssets.Main
import TypedAssets.Pack.Session
import TypedAssets.Proofs.Naming
import TypedAssets.Proofs.Schema
import TypedAssets.Proofs.Validity
import TypedAssets.Proofs.Captures
import TypedAssets.Proofs.Completion
import TypedAssets.Proofs.Functions
import TypedAssets.Proofs.Store
import TypedAssets.Proofs.Scope
import TypedAssets.Proofs.WellFormed
import TypedAssets.Proofs.Layout.Inline
import TypedAssets.Proofs.Layout.Block
import TypedAssets.Proofs.Layout.Module
import TypedAssets.Proofs.Generation
import TypedAssets.Proofs.Layout.Literal
import TypedAssets.Proofs.Recovery
import TypedAssets.Proofs.Reordering
import TypedAssets.Proofs.Loading
import TypedAssets.Proofs.Layout.Embedding
import TypedAssets.Proofs.Escaping
import TypedAssets.Proofs.Boundaries
import TypedAssets.Proofs.Totality
import TypedAssets.Proofs.Builders
import TypedAssets.Proofs.Runs
import TypedAssets.Proofs.Humps
import TypedAssets.Proofs.Accounting
import TypedAssets.Proofs.Layout.Tokens
import TypedAssets.Proofs.Places
import TypedAssets.Proofs.Layout.Agreement
import TypedAssets.Proofs.Insertions
import TypedAssets.Proofs.Layout.Separation
import TypedAssets.Proofs.Layout.Acceptance
import TypedAssets.Proofs.Layout.Reader
import TypedAssets.Proofs.Layout.Readability
import TypedAssets.Proofs.Matching
import TypedAssets.Proofs.FreeNames
import TypedAssets.Proofs.Table
import TypedAssets.Proofs.Layout.Arguments
