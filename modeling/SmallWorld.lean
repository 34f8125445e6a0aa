import SmallWorld.Dataset.Pattern
import SmallWorld.Proofs.Index.Accounting
import SmallWorld.Proofs.Index.Company
import SmallWorld.Proofs.Index.Descents
import SmallWorld.Proofs.Index.FewPoints
import SmallWorld.Proofs.Index.Hierarchy
import SmallWorld.Proofs.Index.Partition
import SmallWorld.Proofs.Index.Reciprocity
import SmallWorld.Proofs.Index.Reselection
import SmallWorld.Proofs.Index.Root
import SmallWorld.Proofs.Index.Safety
import SmallWorld.Proofs.Index.SlotOrder
import SmallWorld.Proofs.Index.Widths
import SmallWorld.Proofs.Links.Adjacency
import SmallWorld.Proofs.Selection.Repetition
import SmallWorld.Proofs.Source.Congruential
import SmallWorld.Settings.Document
import SmallWorld.Trial
import SmallWorld.Work.Document
