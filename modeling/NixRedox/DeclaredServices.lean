import NixRedox.AttrSets
import NixRedox.Serde

set_option autoImplicit false

/- Service declarations (`lib/service-type.nix`), and what the init scripts and the manifest of
an image both make of them. -/
namespace NixRedox.InitScripts

open AttrSets (update)
open KeyedMap (retain)
open Serde (sortedMembers)

section Declarations

inductive ServiceType where
  | oneshot
  | daemon
  | nowait
  | scheme
  deriving DecidableEq

def ServiceType.text : ServiceType → String
  | .oneshot => "oneshot"
  | .daemon => "daemon"
  | .nowait => "nowait"
  | .scheme => "scheme"

inductive Target where
  | initfs
  | rootfs
  deriving DecidableEq

def Target.text : Target → String
  | .initfs => "initfs"
  | .rootfs => "rootfs"

abbrev Environment := AList fun _ : String => String

/-- A declared service. Only `argv` may be left out. -/
structure Service where
  description : String
  command : String
  type : ServiceType
  args : String
  argv : Option (List String)
  wantedBy : Target
  enable : Bool
  after : List String
  environment : Environment
  priority : Int

abbrev ServiceSet := AList fun _ : String => Service

/-- The services each module declares. -/
structure Sources where
  generatedServices : ServiceSet
  networking : ServiceSet
  graphics : ServiceSet
  audio : ServiceSet
  snix : ServiceSet
  iroh : ServiceSet
  services : ServiceSet

/-- A later module overrides the services of an earlier one. The logger is started by init
itself. -/
def allDeclaredServices (sources : Sources) : ServiceSet :=
  retain (fun name _ => name ≠ "logd") (retain (fun _ svc => svc.enable)
    (update (update (update (update (update (update sources.generatedServices sources.networking)
      sources.graphics) sources.audio) sources.snix) sources.iroh) sources.services))

end Declarations

section References

variable (declared : ServiceSet)

/-- Services that depend on one that is not declared. -/
def afterErrors : List String :=
  (sortedMembers declared).flatMap fun member =>
    (member.2.after.filter fun dep => (declared.lookup dep).isNone).map fun bad =>
      "service '" ++ member.1 ++ "' depends on unknown service '" ++ bad ++ "'"

def validateAfterRefs : Except String Unit :=
  if (afterErrors declared).isEmpty then
    .ok ()
  else
    .error ("Service dependency errors:\n  " ++ "\n  ".intercalate (afterErrors declared))

end References

end NixRedox.InitScripts
