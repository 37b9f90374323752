import CodeClones.Main
import CodeClones.Proofs.Corpus.Outcome
import CodeClones.Proofs.Corpus.Representation
import CodeClones.Proofs.Detection.Completeness
import CodeClones.Proofs.Detection.Faults
import CodeClones.Proofs.Detection.Fragments
import CodeClones.Proofs.Detection.Insertion
import CodeClones.Proofs.Detection.Maximality
import CodeClones.Proofs.Detection.Order
import CodeClones.Proofs.Detection.Renaming
import CodeClones.Proofs.Detection.Reordering
import CodeClones.Proofs.Detection.Soundness
import CodeClones.Proofs.Detection.Suppression
import CodeClones.Proofs.Detection.Threshold
import CodeClones.Proofs.Duplication.Cover
import CodeClones.Proofs.Duplication.Grouping
import CodeClones.Proofs.LineEnds.Streams
import CodeClones.Proofs.Locality.Comments
import CodeClones.Proofs.Locality.OpenLiterals
import CodeClones.Proofs.Locality.Spacing
import CodeClones.Proofs.Report.Csv
import CodeClones.Proofs.Report.XmlCharacters
import CodeClones.Proofs.Source.Brackets
import CodeClones.Proofs.Source.Coverage
import CodeClones.Proofs.Source.DirectivePlaces
import CodeClones.Proofs.Source.Fidelity
import CodeClones.Proofs.Registry.History
import CodeClones.Proofs.Registry.Names
import CodeClones.Proofs.Files.Collection
import CodeClones.Proofs.Files.Dots
import CodeClones.Proofs.Files.Excludes
import CodeClones.Proofs.Files.Scan
