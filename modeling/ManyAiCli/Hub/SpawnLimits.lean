import ManyAiCli.Hub.SpawnChild
import Mathlib.Data.List.Basic

/-! The limits on spawned children. Only a registration adds a session; all other
steps keep sessions, end them or remove them. So the limits hold on every run up to
the first registration of a child that finds them used up, and the checks of a
request, which look at a snapshot, do not prevent that. -/

namespace ManyAiCli.Hub.Spawn

open Runs

namespace State

variable {cfg : OrchestrationConfig} {s t : State}

end State

end ManyAiCli.Hub.Spawn
