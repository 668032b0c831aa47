import RouteCatalog.Settings.Basic

/-!
# Serving the snapshot

A site with one page: the bytes of the snapshot file, as they are at the time of the request. The
file is neither checked nor changed.
-/

namespace RouteCatalog.Site

/-- A response to a request. -/
structure Response where
  status : Nat
  /-- The methods that the page allows, where another was used. -/
  allow : Option Text := none
  /-- The body, which is JSON unless the snapshot file holds something else. -/
  body : Bytes
  deriving DecidableEq

def contentType : Text := "application/json"

def page : Text := "/output.json"

/-- Why a request is not answered. -/
inductive Fault
  /-- The settings give no path of a snapshot. -/
  | path (fault : Settings.PathFault)
  /-- The path of the snapshot is not one that the system takes. -/
  | store (fault : Files.Fault)

/-- A body that says what went wrong, under a key. -/
def notice (key message : Text) : Bytes :=
  Utf8.encode ("\x7b\"" ++ key ++ "\":\"" ++ message ++ "\"\x7d")

def snapshot (s : Store) (p : Path) : Except Fault Response :=
  match s.read p with
  | .ok content => .ok { status := 200, body := content }
  | .error fault =>
    if fault.fromSystem then .ok { status := 404, body := notice "error" "output.json not found" }
    else .error (.store fault)

/-- The response to a request for a path by a method. A line feed at the end of the path does not
count. -/
def respond (s : Store) (settings : Settings) (method path : Text) : Except Fault Response :=
  if path ≠ page && path ≠ page ++ ("\n" : Text) then
    .ok { status := 404, body := notice "detail" "Not Found" }
  else if method ≠ ("GET" : Text) then
    .ok { status := 405, allow := some "GET", body := notice "detail" "Method Not Allowed" }
  else match settings.outputPath with
    | .ok p => snapshot s p
    | .error fault => .error (.path fault)

end RouteCatalog.Site
