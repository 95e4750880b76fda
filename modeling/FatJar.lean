import FatJar.Assembly.Session
import FatJar.Main
import FatJar.Proofs.Assembly.Enclosure
import FatJar.Proofs.Assembly.Repetition
import FatJar.Proofs.ClassFile.Replacing
import FatJar.Proofs.Config.RoundTrip
import FatJar.Proofs.Entry.History
import FatJar.Proofs.Manifest.DistinctNames
import FatJar.Proofs.Manifest.Folding
import FatJar.Proofs.Manifest.RoundTrip
import FatJar.Proofs.Manifest.Synthesis
import FatJar.Proofs.Manifest.Unfolding
import FatJar.Proofs.Merge.Balance
import FatJar.Proofs.Merge.Conflicts
import FatJar.Proofs.Merge.Policy
import FatJar.Proofs.Merge.Resolution
import FatJar.Proofs.Merge.Specificity
import FatJar.Proofs.Output.Listing
import FatJar.Proofs.Relocation.Characters
import FatJar.Proofs.Relocation.Classes
import FatJar.Proofs.Relocation.LineBreaks
import FatJar.Proofs.Relocation.NamesAlike
import FatJar.Proofs.Relocation.Providers
import FatJar.Proofs.Relocation.RuleOrder
import FatJar.Proofs.Relocation.Scanning
import FatJar.Proofs.Relocation.Settling
import FatJar.Proofs.Scan.Delivery
import FatJar.Proofs.Scan.OneArchive
