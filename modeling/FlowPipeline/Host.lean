import FlowPipeline.Text.Blank

/-! # The host that flows are deployed to

The tag of an environment picks a host and a secret key; variables of the environment come first.
-/

namespace FlowPipeline

/-- The variables of the environment. -/
abbrev Environment := List (String × String)

namespace Host

def cloud : String := "https://api.nango.dev"
def staging : String := "https://api.staging.nango.dev"
def localhost : String := "http://localhost:3003"

/-- A variable, if it is set to more than blanks. -/
def setting? (name : String) (env : Environment) : Option String :=
  ((env.lookup name).map Text.trim).filter (· != "")

/-- The address of the host, without a slash at its end. -/
def address (tag : String) (env : Environment) : String :=
  let a := (setting? "NANGO_HOSTPORT" env).getD
    (if tag = "local" then localhost else if tag = "staging" then staging else cloud)
  if a.toList.getLast? = some '/' then String.ofList a.toList.dropLast else a

/-- The variable that holds the secret key of some tags. -/
def scopedVariable? (tag : String) : Option String :=
  if tag = "prod" then some "NANGO_SECRET_KEY_PROD"
  else if tag = "dev" then some "NANGO_SECRET_KEY_DEV"
  else none

/-- The secret key: that of the tag if it is set at all, else the common one. -/
def secretKey? (tag : String) (env : Environment) : Option String :=
  let own := ((scopedVariable? tag).bind fun name => env.lookup name).filter (· != "")
  match own with
  | some key => some (Text.trim key) |>.filter (· != "")
  | none => setting? "NANGO_SECRET_KEY" env

/-- Whether the address is one of the hosted services. -/
def isCloud (address : String) : Bool := address == cloud || address == staging

end Host
end FlowPipeline
