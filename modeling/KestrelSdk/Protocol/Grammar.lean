import KestrelSdk.Protocol.Message

namespace KestrelSdk.Protocol

open Json

/-! The grammar of frames, over what counts as an id and as an error code. -/

def NonEmptyText (v : Option Value) : Prop := ∃ s, v = some (.str s) ∧ s ≠ []

/-- A non-empty method; parameters absent, null or an object; an id that is absent or valid. -/
structure MethodFrame (idOk : Value → Prop) (d : Dict) : Prop where
  method : NonEmptyText (d.get (str "method"))
  params : d.get (str "params") = none ∨ d.get (str "params") = some .none ∨
    ∃ p, d.get (str "params") = some (.dict p)
  id : ∀ v, d.get (str "id") = some v → idOk v

/-- An object with a valid code and a non-empty message. -/
def ErrorObject (codeOk : Value → Prop) (v : Value) : Prop :=
  ∃ e code, v = .dict e ∧ Dict.get e (str "code") = some code ∧ codeOk code ∧
    NonEmptyText (Dict.get e (str "message"))

/-- No method; a valid id; an error object, or a result where there is no error. -/
structure ResponseFrame (idOk codeOk : Value → Prop) (d : Dict) : Prop where
  method : d.get (str "method") = none
  id : ∃ v, d.get (str "id") = some v ∧ idOk v
  answer : (∃ v, d.get (str "error") = some v ∧ ErrorObject codeOk v) ∨
    (d.get (str "error") = none ∧ ∃ v, d.get (str "result") = some v)

def Frame (idOk codeOk : Value → Prop) (raw : Value) : Prop :=
  ∃ d : Dict, raw = .dict d ∧ d.get (str "jsonrpc") = some (.str JSONRPC_VERSION) ∧
    (MethodFrame idOk d ∨ ResponseFrame idOk codeOk d)

section Accepts

variable {d : Dict}

theorem bind_ok_iff {ε α β : Type} {x : Except ε α} {k : α → Except ε β} :
    (∃ b, (x >>= k) = .ok b) ↔ ∃ a, x = .ok a ∧ ∃ b, k a = .ok b := by
  cases x with
  | error e =>
    constructor
    · rintro ⟨b, h⟩
      cases h
    · rintro ⟨a, h, _⟩
      cases h
  | ok a =>
    constructor
    · exact fun h => ⟨a, rfl, h⟩
    · rintro ⟨a', h, hb⟩
      cases h
      exact hb

end Accepts

theorem Frame.mono {p p' q q' : Value → Prop} (hp : ∀ v, p v → p' v) (hq : ∀ v, q v → q' v)
    {raw : Value} (h : Frame p q raw) : Frame p' q' raw := by
  obtain ⟨d, hd, hv, hmethod | ⟨hm, ⟨v, hid, hok⟩, hanswer⟩⟩ := h
  · exact ⟨d, hd, hv, .inl ⟨hmethod.method, hmethod.params, fun v hv => hp v (hmethod.id v hv)⟩⟩
  · refine ⟨d, hd, hv, .inr ⟨hm, ⟨v, hid, hp v hok⟩, ?_⟩⟩
    obtain ⟨u, hu, e, code, he, hcode, hok, hmsg⟩ | hres := hanswer
    · exact .inl ⟨u, hu, e, code, he, hcode, hq code hok, hmsg⟩
    · exact .inr hres

end KestrelSdk.Protocol
