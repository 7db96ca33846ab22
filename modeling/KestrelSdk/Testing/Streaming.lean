import KestrelSdk.Json.Repr
import KestrelSdk.Testing.Conformance
import Mathlib.Data.List.Forall2
import KestrelSdk.Order.Checks

/-! What the drain of a stream returns and raises. -/

namespace KestrelSdk.Testing

open Json (Str str)
open Checks (bind_error_iff bind_ok_iff)

section Drained

variable (py : Rendering) {out : StreamingWithToolsResult} {r : LLMResponse}

end Drained

/-! The loop. -/

/-- Neither a string nor a marker nor a response. -/
def Unexpected (o : Obj) : Prop :=
  (∀ exact s, o ≠ .str exact s) ∧ (∀ m : ToolCallStarted, o ≠ m.obj) ∧
    ∀ r : LLMResponse, o ≠ r.obj

/-- The strings of a list of items. -/
def strings (items : List Obj) : List Str :=
  items.filterMap fun
    | .str _ s => some s
    | _ => none

/-- The markers of a list of items. -/
def markers (items : List Obj) : List ToolCallStarted :=
  items.filterMap fun
    | .toolCallStarted index id name => some ⟨index, id, name⟩
    | _ => none

/-- The result with the terminal response. -/
def StreamingWithToolsResult.finish (out : StreamingWithToolsResult) (r : LLMResponse) :
    StreamingWithToolsResult :=
  { out with final_response := some r }

section Steps

variable (py : Rendering) {out : StreamingWithToolsResult} (hout : out.final_response = none)

include hout

end Steps

section Faults

variable {seen : List ToolCallStarted} {items : List Obj} {v : Violation}

end Faults

section Conforming

variable {seen : List ToolCallStarted} {items before : List Obj} {r : LLMResponse}

end Conforming

theorem markers_unexpected {o : Obj} (ho : Unexpected o) (items : List Obj) :
    markers (o :: items) = markers items := by
  cases o with
  | toolCallStarted index id name => exact absurd rfl (ho.2.1 ⟨index, id, name⟩)
  | _ => rfl

end KestrelSdk.Testing
