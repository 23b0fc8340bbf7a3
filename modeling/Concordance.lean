import Concordance.Console.Settings
import Concordance.Main
import Concordance.Proofs.Findability
import Concordance.Proofs.Guarded.Index
import Concordance.Proofs.Indexing.Accounting
import Concordance.Proofs.Indexing.Crawl
import Concordance.Proofs.Indexing.Demotion
import Concordance.Proofs.Indexing.Interning
import Concordance.Proofs.Indexing.Recording
import Concordance.Proofs.Indexing.Rounds
import Concordance.Proofs.Indexing.Unfollowed
import Concordance.Proofs.Limits
import Concordance.Proofs.Merge.Outcome
import Concordance.Proofs.Posting.Delimited
import Concordance.Proofs.Posting.Foreign
import Concordance.Proofs.Posting.Names
import Concordance.Proofs.Query.Alternatives
import Concordance.Proofs.Query.Blame
import Concordance.Proofs.Query.Growth
import Concordance.Proofs.Query.NearChains
import Concordance.Proofs.Query.Nesting
import Concordance.Proofs.Query.Ranking
import Concordance.Proofs.Query.Report
import Concordance.Proofs.Query.Scanning
import Concordance.Proofs.Searching
import Concordance.Proofs.Segment.Exact
import Concordance.Proofs.Segment.Iteration
import Concordance.Proofs.Truncation
import Concordance.Proofs.Varint.Numeral
import Concordance.Proofs.Word.Cutting
