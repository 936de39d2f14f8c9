import Journey.Json.Decode
import Journey.Access.Intermodal
import Journey.Access.Resolver

/-!
# Access Modes in Documents

Access modes and the routers of their legs as they stand in documents.

A section lists the modes and their combination beside the routers and the
capacity of the cache. The modes and the combination are kept aside until the
whole section has been read, and so is everything in it that has no meaning, so
a section that holds a value which cannot be kept aside is malformed.

## Main definitions

* `AccessSection`: The content of a section.
* `Json.accessSection?`: Reading a section.
* `AccessSection.resolver`: The resolver that a section asks for.
-/

namespace Journey

/-- The content of a section about access modes. -/
structure AccessSection where
  modes : AccessModes Float
  /-- The routers of the modes' legs, by mode. -/
  routers : Dictionary (LegRouter Float)
  /-- How many legs are kept, if that is given. -/
  cache : Option Nat

namespace Json

/-- The ratio of travelled distance to distance that applies unless another one
    is given. -/
def usualLegFactor : Float := 1.3

/-- The router of a mode's legs. -/
def legRouter? : Decoder (LegRouter Float) := fun json => do
  match ← json.record?
      [["speed"], ["distance_factor"], ["stage_access_time"], ["stage_egress_time"]] with
  | [speed, factor, before, after] =>
    return {
      speed := ← required float? speed
      distanceFactor := ← withDefault float? usualLegFactor factor
      stageBefore := ← withDefault (nullable? float?) none before
      stageAfter := ← withDefault (nullable? float?) none after }
  | _ => none

/-- A required value of an attribute. -/
def attributeFilter? : Decoder AttributeFilter := fun json => do
  match ← json.record? [["attribute"], ["value"]] with
  | [key, value] => return { key := ← required text? key, value := ← required text? value }
  | _ => none

/-- An access mode. -/
def accessMode? : Decoder (AccessMode Float) := fun json => do
  match ← json.record?
      [["mode"], ["max_radius"], ["routed_on_network"], ["stop_filter"], ["traveller_filter"]] with
  | [mode, radius, routed, stops, travellers] =>
    return {
      mode := ← required identifier? mode
      maxRadius := ← required float? radius
      routedOnNetwork := ← withDefault bool? false routed
      stopFilter := ← withDefault (nullable? attributeFilter?) none stops
      travellerFilter := ← withDefault (nullable? attributeFilter?) none travellers }
  | _ => none

/-- How modes are combined: a name, alone or as the key of nothing. -/
def modeSelection? : Decoder ModeSelection
  | string (some name) => ModeSelection.ofLabel? name
  | object [(some name, null)] => ModeSelection.ofLabel? name
  | object [(some name, object [])] => ModeSelection.ofLabel? name
  | _ => none

/-- The members of an object that are not decoded at once. -/
def keptAside (members : List (Option String × Json)) : List (Option String × Json) :=
  members.filter fun member => member.1 ≠ some "leg_routers" ∧ member.1 ≠ some "cache"

/-- A section about access modes that stands within `outer` arrays and
    objects. -/
def accessSection? (outer : Nat) : Decoder AccessSection
  | object members => do
    let aside := keptAside members
    let legible := aside.all fun (key, value) => key.isSome && value.canBeKept (outer + 1)
    match ← record? [["leg_routers"], ["cache"], ["modes"], ["selection"]] (object members) with
    | [routers, cache, modes, selection] =>
      if legible then
        return {
          modes := {
            modes := ← withDefault (list? accessMode?) [] modes
            selection := ← withDefault modeSelection? .leastCostPerStop selection }
          routers := ← withDefault (dictionary? legRouter?) .empty routers
          cache := ← withDefault (nullable? natural?) none cache }
      else none
    | _ => none
  | _ => none

end Json

namespace AccessSection

/-- The resolver that a section asks for, or the first thing wrong with it. -/
def resolver (s : AccessSection) : Except (ConfigurationError Float) (Resolver Float) :=
  (Intermodal.configure s.modes s.routers).map Resolver.intermodal

/-- How many legs the resolver of a section keeps. -/
def cacheCapacity (s : AccessSection) : Nat := s.cache.getD LegCache.usualCapacity

end AccessSection

end Journey
