import Journey.Parameters
import Journey.Parameters.ModeChange
import Journey.Json.Decode

/-!
# Parameters in Documents

Search parameters and penalties as they stand in documents. Every parameter has
a default, so a document names only those that differ.

## Main definitions

* `Parameters.standard`: The defaults.
* `Json.parameters?`: Reading parameters.
* `Json.transferPenalty?`: Reading a transfer penalty.
* `Json.modeChanges?`: Reading a list of penalties for changes of mode.
-/

namespace Journey

/-- The transfer penalty that applies unless another one is given. -/
def TransferPenalty.standard : TransferPenalty Float :=
  { base := 1, perHour := 0, minimum := none, maximum := none }

/-- The parameters that apply unless others are given. -/
def Parameters.standard : Parameters Float :=
  { inVehicleUtility := -6
    waitingUtility := -6
    walkUtility := -12
    accessModeUtilities := .empty
    transferPenalty := TransferPenalty.standard
    walkSpeed := 1.34
    distanceFactor := 1.3
    searchRadius := 1000
    extensionRadius := 200
    minTransferTime := 60
    maxTransfers := 99 }

namespace Json

/-- A transfer penalty. -/
def transferPenalty? : Decoder (TransferPenalty Float) := fun json => do
  let standard := TransferPenalty.standard
  match ← json.record? [["base"], ["per_hour"], ["min"], ["max"]] with
  | [base, perHour, minimum, maximum] =>
    return {
      base := ← withDefault float? standard.base base
      perHour := ← withDefault float? standard.perHour perHour
      minimum := ← withDefault (nullable? float?) standard.minimum minimum
      maximum := ← withDefault (nullable? float?) standard.maximum maximum }
  | _ => none

/-- The fields of search parameters, in their order. -/
def parameterFields : List (List String) :=
  [["marginal_utility_in_vehicle"], ["marginal_utility_waiting"], ["marginal_utility_walk"],
    ["access_mode_utilities"], ["transfer_penalty"], ["beeline_walk_speed"],
    ["beeline_distance_factor"], ["search_radius"], ["extension_radius"], ["min_transfer_time"],
    ["max_transfers"]]

/-- Search parameters. -/
def parameters? : Decoder (Parameters Float) := fun json => do
  let standard := Parameters.standard
  match ← json.record? parameterFields with
  | [inVehicle, waiting, walk, modes, penalty, speed, factor, radius, extension, least, transfers] =>
    return {
      inVehicleUtility := ← withDefault float? standard.inVehicleUtility inVehicle
      waitingUtility := ← withDefault float? standard.waitingUtility waiting
      walkUtility := ← withDefault float? standard.walkUtility walk
      accessModeUtilities := ← withDefault (dictionary? float?) standard.accessModeUtilities modes
      transferPenalty := ← withDefault transferPenalty? standard.transferPenalty penalty
      walkSpeed := ← withDefault float? standard.walkSpeed speed
      distanceFactor := ← withDefault float? standard.distanceFactor factor
      searchRadius := ← withDefault float? standard.searchRadius radius
      extensionRadius := ← withDefault float? standard.extensionRadius extension
      minTransferTime := ← withDefault float? standard.minTransferTime least
      maxTransfers := ← withDefault natural? standard.maxTransfers transfers }
  | _ => none

/-- A penalty for a change of mode. -/
def modeChange? : Decoder (ModeChangePenalty Float) := fun json => do
  match ← json.record? [["from_mode"], ["to_mode"], ["penalty"]] with
  | [origin, target, penalty] =>
    return {
      origin := ← required identifier? origin
      target := ← required identifier? target
      penalty := ← required float? penalty }
  | _ => none

/-- The section of a document that lists penalties for changes of mode. -/
def modeChanges? : Decoder (List (ModeChangePenalty Float)) := fun json => do
  match ← json.record? [["mode_to_mode_penalties"]] with
  | [penalties] => withDefault (list? modeChange?) [] penalties
  | _ => none

end Json

end Journey
