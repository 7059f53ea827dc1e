import FlowPipeline.Package
import FlowPipeline.Text.Base64

/-! # Deployment

What is deployed is sent to the host in one request. Requests are made here; to send them is left to
others.
-/

namespace FlowPipeline

/-- A request to deploy packages. -/
structure Deployment where
  address : String
  secretKey : Option String
  packages : List Package
  /-- The text of the manifest. -/
  manifest : Option String
  debug : Bool
  /-- Whether only some of the flows are deployed. -/
  single : Bool

namespace Deployment

/-- The packages to be deployed with the settings of a project. -/
def ofPackages (s : Settings) (manifest : Option String) (single : Bool) (ps : List Package) :
    Deployment :=
  ⟨s.address, s.secretKey, ps, manifest, s.debug, single⟩

def url (d : Deployment) : String := d.address ++ "/sync/deploy"

/-- The credentials that go with the secret key. Hosted services take the key as it is, other hosts
take it as the name of a user without a password. -/
def authorization (address key : String) : String :=
  if Host.isCloud address then "Bearer " ++ key
  else "Basic " ++ String.ofList (Text.Base64.encode (Text.Utf8.encode (key ++ ":")))

/-- The deployment, if its credentials can be made. The name of a user must have bytes, so a key
that is one may not hold half of a pair. -/
def sendable (d : Deployment) : Except Text.Utf8.EncodeError Deployment := do
  if !Host.isCloud d.address then
    let _ ← Text.Utf8.encoded (d.secretKey.getD "" ++ ":")
  return d

def headers (d : Deployment) : List (String × String) :=
  ("Accept-Encoding", "application/json") ::
    ((d.secretKey.filter (· != "")).map fun key =>
      ("Authorization", authorization d.address key)).toList

/-- The body of the request, with the packages given as JSON. -/
def bodyOf (d : Deployment) (packages : List Json) : Json :=
  .obj [
    ("syncs", .list packages), ("nangoYamlBody", TypeDefinitions.textOrNull d.manifest),
    ("reconcile", .bool true), ("debug", .bool d.debug), ("singleDeployMode", .bool d.single)]

def packagesJson : List Package → Except NotJson (List Json)
  | [] => .ok []
  | p :: ps => do
    let j ← p.toJson
    return j :: (← packagesJson ps)

/-- The body of the request, if all of it has a JSON form. -/
def body (d : Deployment) : Except NotJson Json :=
  d.bodyOf <$> packagesJson d.packages

/-- The request as a document for those who send it; the secret key is not in it. -/
def document (d : Deployment) : Except NotJson Json := do
  return .obj [("url", .str d.url), ("body", ← d.body)]

/-- Packages the wanted flows of a project as it is compiled. -/
def ofCompiled (s : Settings) (version : String) (wanted : Selection) (now : Moment) (m : Manifest)
    (is : List Integration) : Work Deployment := do
  match ← Package.all s.root s.output version wanted now is with
  | none => throw (.build "Packaging aborted because a sync interval is invalid.")
  | some ps =>
    let d := ofPackages s (some m.text) wanted.isPartial ps
    Work.ofExcept Fault.encoding d.sendable

/-- Compiles a project and packages the wanted flows. Also says whether all scripts did compile. -/
def ofProject (run : Runner) (s : Settings) (version : String) (wanted : Selection) (now : Moment) :
    Work (Deployment × Bool) := do
  let (m, c, fine) ← Build.compile run s none false
  if !fine then Work.log .warning "Some scripts did not compile; packaging what is available."
  return (← ofCompiled s version wanted now m c.integrations, fine)

end Deployment
end FlowPipeline
