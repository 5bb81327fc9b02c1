import Schemata.Bootstrap.Rehearsal
import Schemata.Main
import Schemata.Proofs.Bootstrap.Idempotence
import Schemata.Proofs.Bootstrap.Phases
import Schemata.Proofs.Catalog.Embedding
import Schemata.Proofs.Catalog.Loading
import Schemata.Proofs.Catalog.Ordering
import Schemata.Proofs.Declaration.Rereading
import Schemata.Proofs.Declaration.Strict
import Schemata.Proofs.Document.Forms
import Schemata.Proofs.Document.Rereading
import Schemata.Proofs.Kind.Recovering
import Schemata.Proofs.Number.Rounding
import Schemata.Proofs.Session
import Schemata.Proofs.Session.Staging
import Schemata.Proofs.Store.Comparing
import Schemata.Proofs.Workspace.Company
import Schemata.Proofs.Document.Compiling
import Schemata.Proofs.Store.Revising
import Schemata.Proofs.Catalog.Acyclicity
import Schemata.Proofs.FileTree.Walking
import Schemata.Proofs.Glob.Listing
import Schemata.Proofs.Glob.Reading
import Schemata.Proofs.Glob.Selecting
import Schemata.Proofs.Catalog.Bounds
import Schemata.Proofs.Properties
import Schemata.Proofs.Store.Listing
