import Casewise.Main
import Casewise.Sandbox.Reply
import Casewise.Server
import Casewise.Proofs.BuildHistory
import Casewise.Proofs.ImportedMocks
import Casewise.Proofs.Symbolic.Fixpoint
import Casewise.Proofs.Symbolic.Warnings
import Casewise.Proofs.FoldedKinds
import Casewise.Proofs.Symbolic.Conjunctions
import Casewise.Proofs.Symbolic.ListGrowth
import Casewise.Proofs.Symbolic.LogicalChoices
import Casewise.Proofs.PositionalOnly
import Casewise.Proofs.CaseParameters
import Casewise.Proofs.Symbolic.Unpacking
import Casewise.Proofs.ExpectationTexts
import Casewise.Proofs.LosslessLexing
import Casewise.Proofs.QuotedSource
import Casewise.Proofs.SampledValues
import Casewise.Proofs.DirectiveAccounts
