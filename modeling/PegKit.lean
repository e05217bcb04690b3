import PegKit.Proofs.Registry.Consistency
import PegKit.Proofs.Rule.AmpleLimit
import PegKit.Proofs.Rule.Diagnostics
import PegKit.Proofs.Rule.FixedCount
import PegKit.Proofs.Rule.Locality
import PegKit.Proofs.Rule.Patterns
import PegKit.Proofs.Rule.Termination
import PegKit.Proofs.Run.Verdict
import PegKit.Proofs.Scanner.Decoding
import PegKit.Proofs.Scanner.Excerpts
import PegKit.Proofs.Scanner.Segments
import PegKit.Proofs.Tree.Refusal
import PegKit.Proofs.Tree.Replacement
import PegKit.Proofs.Tree.Unambiguity
import PegKit.Proofs.Tree.WireFormat
import PegKit.Run
import PegKit.Proofs.Rule.Consumption
import PegKit.Proofs.Scanner.Segmentation
import PegKit.Proofs.Scanner.Counting
import PegKit.Proofs.Scanner.Alignment
import PegKit.Proofs.Tree.Atomicity
import PegKit.Proofs.Tree.PlainText
import PegKit.Proofs.Scanner.Clamping
import PegKit.Proofs.Rule.Literals
import PegKit.Proofs.Json.Escaping
import PegKit.Proofs.Registry.RecordText
import PegKit.Proofs.Scanner.Preview
