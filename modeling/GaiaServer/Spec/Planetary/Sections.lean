import GaiaServer.Framework.Merge
import GaiaServer.Impl.Planetary.StateHub

/-!
# The sections of a planetary state

A payload is a partial update of the sections of a node's state (`carried`): one that
merges partial updates holds of each section what the last payload with it carried
(`Merge.merged`), and the default if there is none.
-/

namespace Gaia.Planetary

open Merge (Update)

variable {ν Φ : Type}

/-- The sections of a payload. -/
inductive Section
  | observations
  | energy
  | climate
  | biosphere
  | network
  | integrity
  | loveScore
  | metadata
  deriving DecidableEq

/-- The values of a section: floats for the love score. -/
abbrev Section.Value (ν Φ : Type) : Section → Type
  | .loveScore => Φ
  | _ => ν

/-- What a snapshot holds of a section. -/
def PlanetarySnapshot.held (s : PlanetarySnapshot ν Φ) : (k : Section) → k.Value ν Φ
  | .observations => s.observations
  | .energy => s.energy
  | .climate => s.climate
  | .biosphere => s.biosphere
  | .network => s.network
  | .integrity => s.integrity
  | .loveScore => s.loveScore
  | .metadata => s.metadata

/-- What a payload carries of a section. -/
def carried (P : Python ν Φ) (payload : Dict String ν) : Update Section (Section.Value ν Φ)
  | .observations => payload.get? "observations"
  | .energy => payload.get? "energy"
  | .climate => payload.get? "climate"
  | .biosphere => payload.get? "biosphere"
  | .network => payload.get? "network"
  | .integrity => payload.get? "integrity"
  | .loveScore => (payload.get? "love_score").bind fun v => (P.float v).toOption
  | .metadata => payload.get? "metadata"

/-- The default of a section. -/
def defaultOf (P : Python ν Φ) : (k : Section) → k.Value ν Φ
  | .loveScore => P.zero
  | .observations | .energy | .climate | .biosphere | .network | .integrity | .metadata =>
    P.emptyDict

end Gaia.Planetary
