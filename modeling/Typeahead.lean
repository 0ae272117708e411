import Typeahead.Proofs.Account.Guarantees
import Typeahead.Proofs.Client.Sharing
import Typeahead.Proofs.Index.Flags
import Typeahead.Proofs.Index.Naming
import Typeahead.Proofs.Journal.Failing
import Typeahead.Proofs.Journal.Switching
import Typeahead.Proofs.Listening.Guarantees
import Typeahead.Proofs.Mapping.Agreement
import Typeahead.Proofs.Mapping.Lossless
import Typeahead.Proofs.Mapping.Paths
import Typeahead.Proofs.Mirror.Guarantees
import Typeahead.Proofs.Modes.Agreement
import Typeahead.Proofs.Search.Consistency
import Typeahead.Proofs.Search.Distance
import Typeahead.Proofs.Search.Hits
import Typeahead.Proofs.Search.Limits
import Typeahead.Proofs.Search.Meaning
import Typeahead.Proofs.Search.Numbering
import Typeahead.Proofs.Search.Paging
import Typeahead.Proofs.Search.Shapes
import Typeahead.Proofs.Settings.Lists
import Typeahead.Proofs.Settings.Overriding
import Typeahead.Proofs.Settings.Routes
import Typeahead.Proofs.Switch
import Typeahead.Proofs.Terms.Spelling
import Typeahead.Session.Running
