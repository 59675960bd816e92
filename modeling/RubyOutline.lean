import RubyOutline.Extraction.Builder
import RubyOutline.Main
import RubyOutline.Project.Session
import RubyOutline.Proofs.Accounting
import RubyOutline.Proofs.BodyShape
import RubyOutline.Proofs.Comments
import RubyOutline.Proofs.DumpedRun
import RubyOutline.Proofs.Isolation
import RubyOutline.Proofs.Layout
import RubyOutline.Proofs.LosslessReport
import RubyOutline.Proofs.ParserCheck
import RubyOutline.Proofs.RunOrder
import RubyOutline.Proofs.SessionCoherence
import RubyOutline.Proofs.Transparency
import RubyOutline.Proofs.TypeBody
import RubyOutline.Proofs.WholeRun
import RubyOutline.Proofs.Contents
import RubyOutline.Proofs.FailureMark
import RubyOutline.Proofs.PublicPart
import RubyOutline.Proofs.OutlineOwner
import RubyOutline.Proofs.ExactCollection
import RubyOutline.Proofs.FailingEntries
import RubyOutline.Proofs.CheckedWalk
import RubyOutline.Proofs.ByteSpan
