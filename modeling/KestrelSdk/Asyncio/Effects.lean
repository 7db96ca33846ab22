import Mathlib.Data.List.Basic

namespace KestrelSdk.Asyncio

universe u

variable {ε : Type u} [DecidableEq ε]

/-- A log, newest first, in which an event that `single` speaks about occurs at most once, and
only when `spent` holds of it. -/
def OnceLog (single spent : ε → Prop) (log : List ε) : Prop :=
  ∀ e, single e → log.count e ≤ 1 ∧ (e ∈ log → spent e)

namespace OnceLog

variable {single spent spent' : ε → Prop} {log : List ε}

theorem nil : OnceLog single spent [] := fun _ _ => ⟨by simp, by simp⟩

theorem mono (h : OnceLog single spent log) (hs : ∀ e, spent e → spent' e) :
    OnceLog single spent' log :=
  fun e he => ⟨(h e he).1, fun hm => hs e ((h e he).2 hm)⟩

/-- An event that has not happened happens. -/
theorem add (h : OnceLog single spent log) {e : ε} (hn : single e → e ∉ log) (he : spent' e)
    (hs : ∀ x, spent x → spent' x) : OnceLog single spent' (e :: log) := by
  intro x hx
  obtain ⟨h1, h2⟩ := h x hx
  by_cases hxe : x = e
  · subst hxe
    have h0 : log.count x = 0 := List.count_eq_zero.2 (hn hx)
    exact ⟨by simp [h0], fun _ => he⟩
  · refine ⟨?_, fun hm => ?_⟩
    · rw [List.count_cons_of_ne (Ne.symm hxe)]
      exact h1
    · obtain rfl | hm := List.mem_cons.1 hm
      · exact absurd rfl hxe
      · exact hs x (h2 hm)

/-- An event that is not spent has not happened, so it may happen once. -/
theorem fire (h : OnceLog single spent log) {e : ε} (hn : ¬ spent e) (he : spent' e)
    (hs : ∀ x, spent x → spent' x) : OnceLog single spent' (e :: log) :=
  h.add (fun hx hm => hn ((h e hx).2 hm)) he hs

/-- An event that may happen any number of times. -/
theorem note (h : OnceLog single spent log) {e : ε} (he : ¬ single e) :
    OnceLog single spent (e :: log) := by
  intro x hx
  have hxe : x ≠ e := by
    rintro rfl
    exact he hx
  obtain ⟨h1, h2⟩ := h x hx
  refine ⟨?_, fun hm => ?_⟩
  · rw [List.count_cons_of_ne hxe.symm]
    exact h1
  · obtain rfl | hm := List.mem_cons.1 hm
    · exact absurd rfl hxe
    · exact h2 hm

end OnceLog

end KestrelSdk.Asyncio
