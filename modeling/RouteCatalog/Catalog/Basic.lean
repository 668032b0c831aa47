import RouteCatalog.Endpoint

/-!
# Catalogs

A catalog is the outcome of one scan: the endpoints that were found, in order, and the warnings.
`Catalog.toJson` is what is persisted and published.
-/

namespace RouteCatalog

/-- The outcome of a scan. -/
structure Catalog where
  /-- The directory that was scanned. -/
  rootDir : Text
  /-- The endpoints, in the order in which they were found. -/
  endpoints : List Endpoint := []
  warnings : List Text := []
  scannedAt : Text

namespace Catalog

def toJson (c : Catalog) : Json :=
  .obj [("scannedAt", .str c.scannedAt), ("rootDir", .str c.rootDir),
    ("endpoints", .arr (c.endpoints.map Endpoint.toJson)),
    ("warnings", .arr (c.warnings.map .str))]

end Catalog

end RouteCatalog
