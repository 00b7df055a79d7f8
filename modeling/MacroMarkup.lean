import MacroMarkup.Compile
import MacroMarkup.Main
import MacroMarkup.Proofs.Arguments
import MacroMarkup.Proofs.Passes.Engine
import MacroMarkup.Proofs.Passes.Places
import MacroMarkup.Proofs.Separation
import MacroMarkup.Proofs.Normalization
import MacroMarkup.Proofs.ErrorPosition
import MacroMarkup.Proofs.Passes.Agreement
import MacroMarkup.Proofs.Tokenization
import MacroMarkup.Proofs.Balance
import MacroMarkup.Proofs.DepthLimit
import MacroMarkup.Proofs.Evaluation
import MacroMarkup.Proofs.Inclusion
import MacroMarkup.Proofs.Fixpoint
import MacroMarkup.Proofs.Alternation
import MacroMarkup.Proofs.Merging
import MacroMarkup.Proofs.ReadingPosition
import MacroMarkup.Proofs.Preloading
import MacroMarkup.Proofs.Escaping
import MacroMarkup.Proofs.Reordering
import MacroMarkup.Proofs.Leaving
import MacroMarkup.Proofs.PlainText
import MacroMarkup.Proofs.IndexMap
import MacroMarkup.Proofs.Substitution
import MacroMarkup.Proofs.BlockBody
import MacroMarkup.Proofs.Signature
import MacroMarkup.Proofs.Excerpt
import MacroMarkup.Proofs.DocOutput
import MacroMarkup.Proofs.InlineText
import MacroMarkup.Proofs.DepthBalance
import MacroMarkup.Proofs.GeneratedError
