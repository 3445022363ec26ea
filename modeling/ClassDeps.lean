import ClassDeps.Main
import ClassDeps.Proofs.Cache.Aggregation
import ClassDeps.Proofs.Cache.ImportOrder
import ClassDeps.Proofs.Cache.Readability
import ClassDeps.Proofs.Cache.Removal
import ClassDeps.Proofs.Class.Resolved
import ClassDeps.Proofs.Codecs
import ClassDeps.Proofs.Session.Visits
import ClassDeps.Proofs.Store.PlainMap
import ClassDeps.Proofs.Cache.Closure
import ClassDeps.Proofs.Cache.Recompilation
import ClassDeps.Proofs.Lru.Recency
import ClassDeps.Proofs.Files.Directories
import ClassDeps.Proofs.Files.Sound
import ClassDeps.Proofs.Files.Followed
import ClassDeps.Proofs.Files.Reopening
import ClassDeps.Proofs.Cache.Reopened
import ClassDeps.Proofs.Cache.Committed
import ClassDeps.Proofs.Cache.Alike
import ClassDeps.Proofs.Files.Saving
import ClassDeps.Proofs.Session.Settled
import ClassDeps.Proofs.Session.Twins
import ClassDeps.Proofs.Session.Ending
import ClassDeps.Proofs.Session.Split
import ClassDeps.Proofs.Class.Sites
import ClassDeps.Proofs.Cache.IndexPass
import ClassDeps.Proofs.Cache.Removals
import ClassDeps.Proofs.Session.Retry
import ClassDeps.Proofs.Cache.ClassNames
import ClassDeps.Proofs.Store.PlainSets
import ClassDeps.Proofs.Class.Respelled
import ClassDeps.Proofs.Symbols.Lifetime
import ClassDeps.Proofs.Symbols.Persistence
import ClassDeps.Proofs.Files.Replacing
import ClassDeps.Proofs.Config.Overriding
import ClassDeps.Proofs.Lru.Inclusion
import ClassDeps.Proofs.Cache.Updates
import ClassDeps.Proofs.Session.Wiped
import ClassDeps.Proofs.Session.Chronicle
import ClassDeps.Proofs.Lru.Accounting
import ClassDeps.Proofs.Cache.Signatures
import ClassDeps.Proofs.Cache.Kinds
import ClassDeps.Proofs.Key.Shapes
