import RouteCatalog.Main
import RouteCatalog.Text.Base64
import RouteCatalog.Proofs.Catalog.AllOrNothing
import RouteCatalog.Proofs.Catalog.Comparison
import RouteCatalog.Proofs.Catalog.Regenerate
import RouteCatalog.Proofs.Command.Generate
import RouteCatalog.Proofs.DocComment.OneComment
import RouteCatalog.Proofs.Files.Walk
import RouteCatalog.Proofs.Route.Pairing
import RouteCatalog.Proofs.Scan.WellFormed
import RouteCatalog.Proofs.Settings.FromFile
import RouteCatalog.Proofs.Settings.Precedence
import RouteCatalog.Proofs.Settings.Reload
import RouteCatalog.Proofs.Site
import RouteCatalog.Proofs.Route.Accepted
import RouteCatalog.Proofs.DocComment.ReadBack
import RouteCatalog.Proofs.DocComment.Description
import RouteCatalog.Proofs.DocComment.Reindent
import RouteCatalog.Proofs.Route.Appended
import RouteCatalog.Proofs.Route.LineFeed
