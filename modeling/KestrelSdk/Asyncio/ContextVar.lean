import Mathlib.Data.List.Nodup
import Mathlib.Data.List.Perm.Basic

/-! One context variable in a tree of tasks and threads. Each of them has a copy of its creator's
context. -/

namespace KestrelSdk.Asyncio

theorem getElem?_concat {α : Type} {l : List α} {a b : α} {i : Nat}
    (h : (l ++ [a])[i]? = some b) : l[i]? = some b ∨ i = l.length ∧ b = a := by
  rw [List.getElem?_append, List.getElem?_singleton] at h
  split at h
  · exact .inl h
  · split at h
    · exact .inr ⟨by omega, (Option.some.inj h).symm⟩
    · cases h

/-- A piece of code between `set` and `reset`; `token` is the value before. -/
structure Block where
  id : Nat
  token : Option Nat

/-- A task or a thread. The value of the variable names the block that set it; `blocks` are the open
ones, innermost first. `inherited` is the block whose code created the task. -/
structure ContextTask where
  current : Option Nat
  blocks : List Block
  inherited : Option Nat

/-- The block whose code the task runs. -/
def ContextTask.running (t : ContextTask) : Option Nat :=
  match t.blocks with
  | b :: _ => some b.id
  | [] => t.inherited

/-- The tasks, and how many blocks were opened so far. -/
structure ContextVar where
  tasks : List ContextTask := [⟨none, [], none⟩]
  next : Nat := 0

namespace ContextVar

/-- `token = var.set(...)` in a new block of a task. -/
def set (v : ContextVar) (t : Nat) : Option ContextVar :=
  v.tasks[t]?.map fun task =>
    { tasks := v.tasks.set t
        { task with current := some v.next, blocks := ⟨v.next, task.current⟩ :: task.blocks }
      next := v.next + 1 }

/-- The innermost block of a task. -/
def innermost (v : ContextVar) (t : Nat) : Option Nat :=
  v.tasks[t]?.bind fun task => task.blocks.head?.map Block.id

/-- `var.reset(token)` at the end of the innermost block of a task. -/
def reset (v : ContextVar) (t : Nat) : Option ContextVar :=
  v.tasks[t]?.bind fun task =>
    match task.blocks with
    | [] => none
    | b :: bs => some { v with tasks := v.tasks.set t { task with current := b.token, blocks := bs } }

/-- Code of a task creates a task or a thread. -/
def spawn (v : ContextVar) (t : Nat) : Option ContextVar :=
  v.tasks[t]?.map fun task => { v with tasks := v.tasks ++ [⟨task.current, [], task.running⟩] }

/-- The open blocks of all tasks. -/
def opened (v : ContextVar) : List Nat := v.tasks.flatMap fun t => t.blocks.map Block.id

/-- What the variable and the tokens of a task are. -/
def Bound (inherited : Option Nat) : List Block → Option Nat → Prop
  | [], current => current = inherited
  | b :: bs, current => current = some b.id ∧ Bound inherited bs b.token

structure Inv (v : ContextVar) : Prop where
  bound : ∀ task ∈ v.tasks, Bound task.inherited task.blocks task.current
  inherited : ∀ task ∈ v.tasks, ∀ b, task.inherited = some b → b < v.next
  fresh : ∀ b ∈ v.opened, b < v.next
  nodup : v.opened.Nodup

variable {v v' : ContextVar} {t : Nat}

theorem Bound.current {inherited current : Option Nat} {blocks : List Block}
    (h : Bound inherited blocks current) :
    current = (ContextTask.mk current blocks inherited).running := by
  cases blocks with
  | nil => exact h
  | cons b bs => exact h.1

/-- The value of the variable in a task is the block whose code the task runs. -/
theorem Inv.current (h : v.Inv) {task : ContextTask} (ht : task ∈ v.tasks) :
    task.current = task.running :=
  (h.bound task ht).current

/-- The block that a task runs was opened before. -/
theorem Inv.running_lt (h : v.Inv) {task : ContextTask} (ht : task ∈ v.tasks) {b : Nat}
    (hb : task.running = some b) : b < v.next := by
  unfold ContextTask.running at hb
  split at hb
  · rename_i c cs hblocks
    obtain rfl := Option.some.inj hb
    apply h.fresh
    apply List.mem_flatMap.2
    exact ⟨task, ht, by simp [hblocks]⟩
  · exact h.inherited task ht b hb

/-- Replacing one element replaces its part of the flattened list. -/
theorem flatMap_set_perm {α β : Type} {l : List α} {i : Nat} {a : α} (f : α → List β)
    (h : l[i]? = some a) (b : α) : ∃ rest, (l.flatMap f).Perm (f a ++ rest) ∧
      ((l.set i b).flatMap f).Perm (f b ++ rest) := by
  obtain ⟨hi, rfl⟩ := List.getElem?_eq_some_iff.1 h
  have hset := fun c => (List.set_perm_cons_eraseIdx hi c).flatMap_right f
  have hself := hset l[i]
  rw [List.set_getElem_self] at hself
  exact ⟨(l.eraseIdx i).flatMap f, hself, hset b⟩

theorem opened_set (h : v.set t = some v') :
    v'.opened.Perm (v.next :: v.opened) ∧ v'.next = v.next + 1 := by
  obtain ⟨task, ht, rfl⟩ := Option.map_eq_some_iff.1 h
  obtain ⟨rest, hold, hnew⟩ := flatMap_set_perm (fun t => t.blocks.map Block.id) ht
    { task with current := some v.next, blocks := ⟨v.next, task.current⟩ :: task.blocks }
  exact ⟨hnew.trans (hold.symm.cons v.next), rfl⟩

theorem opened_reset (h : v.reset t = some v') :
    ∃ b, v.innermost t = some b ∧ v.opened.Perm (b :: v'.opened) ∧ v'.next = v.next := by
  obtain ⟨task, ht, h⟩ := Option.bind_eq_some_iff.1 h
  split at h
  · cases h
  · rename_i b bs hblocks
    obtain rfl := Option.some.inj h
    obtain ⟨rest, hold, hnew⟩ := flatMap_set_perm (fun t => t.blocks.map Block.id) ht
      { task with current := b.token, blocks := bs }
    refine ⟨b.id, ?_, ?_, rfl⟩
    · rw [innermost, ht, Option.bind_some, hblocks]
      rfl
    · have hcons : task.blocks.map Block.id = b.id :: bs.map Block.id := by rw [hblocks]; rfl
      rw [hcons] at hold
      exact hold.trans (hnew.symm.cons b.id)

theorem opened_spawn (h : v.spawn t = some v') : v'.opened = v.opened ∧ v'.next = v.next := by
  obtain ⟨task, -, rfl⟩ := Option.map_eq_some_iff.1 h
  refine ⟨?_, rfl⟩
  simp [opened]

/-- A block is no longer open once it is reset, and the others stay open. -/
theorem Inv.mem_reset (hv : v.Inv) {b : Nat} (h : v.reset t = some v') (hb : v.innermost t = some b)
    (c : Nat) : c ∈ v'.opened ↔ c ∈ v.opened ∧ c ≠ b := by
  obtain ⟨d, hd, hperm, -⟩ := opened_reset h
  rw [hb] at hd
  obtain rfl := Option.some.inj hd
  have hnodup := hperm.nodup_iff.1 hv.nodup
  have hnot : b ∉ v'.opened := (List.nodup_cons.1 hnodup).1
  rw [hperm.mem_iff, List.mem_cons]
  constructor
  · intro hc
    exact ⟨.inr hc, fun hcb => hnot (hcb ▸ hc)⟩
  · rintro ⟨hc | hc, hne⟩
    · exact absurd hc hne
    · exact hc

theorem Inv.start : ({} : ContextVar).Inv := by
  constructor
  · intro task ht
    obtain rfl := List.mem_singleton.1 ht
    rfl
  · intro task ht b hb
    obtain rfl := List.mem_singleton.1 ht
    cases hb
  · intro b hb
    cases hb
  · exact List.nodup_nil

theorem Inv.set (hv : v.Inv) (h : v.set t = some v') : v'.Inv := by
  obtain ⟨hperm, hnext⟩ := opened_set h
  obtain ⟨task, ht, rfl⟩ := Option.map_eq_some_iff.1 h
  constructor
  · intro other ho
    rcases List.mem_or_eq_of_mem_set ho with ho | rfl
    · exact hv.bound other ho
    · exact ⟨rfl, hv.bound task (List.mem_of_getElem? ht)⟩
  · intro other ho b hb
    rcases List.mem_or_eq_of_mem_set ho with ho | rfl
    · exact Nat.lt_succ_of_lt (hv.inherited other ho b hb)
    · exact Nat.lt_succ_of_lt (hv.inherited task (List.mem_of_getElem? ht) b hb)
  · intro b hb
    rw [hnext]
    rcases List.mem_cons.1 (hperm.mem_iff.1 hb) with rfl | hb
    · exact Nat.lt_succ_self _
    · exact Nat.lt_succ_of_lt (hv.fresh b hb)
  · apply hperm.nodup_iff.2
    exact List.nodup_cons.2 ⟨fun hb => Nat.lt_irrefl _ (hv.fresh _ hb), hv.nodup⟩

theorem Inv.reset (hv : v.Inv) (h : v.reset t = some v') : v'.Inv := by
  obtain ⟨b, -, hperm, hnext⟩ := opened_reset h
  have hnodup := hperm.nodup_iff.1 hv.nodup
  obtain ⟨task, ht, h⟩ := Option.bind_eq_some_iff.1 h
  split at h
  · cases h
  · rename_i c cs hblocks
    obtain rfl := Option.some.inj h
    constructor
    · intro other ho
      rcases List.mem_or_eq_of_mem_set ho with ho | rfl
      · exact hv.bound other ho
      · have hbound := hv.bound task (List.mem_of_getElem? ht)
        rw [hblocks] at hbound
        exact hbound.2
    · intro other ho d hd
      rcases List.mem_or_eq_of_mem_set ho with ho | rfl
      · exact hv.inherited other ho d hd
      · exact hv.inherited task (List.mem_of_getElem? ht) d hd
    · intro d hd
      apply hv.fresh d
      exact hperm.mem_iff.2 (List.mem_cons_of_mem b hd)
    · exact (List.nodup_cons.1 hnodup).2

theorem Inv.spawn (hv : v.Inv) (h : v.spawn t = some v') : v'.Inv := by
  obtain ⟨hopened, hnext⟩ := opened_spawn h
  obtain ⟨task, ht, rfl⟩ := Option.map_eq_some_iff.1 h
  constructor
  · intro other ho
    rcases List.mem_append.1 ho with ho | ho
    · exact hv.bound other ho
    · obtain rfl := List.mem_singleton.1 ho
      have hcurrent : task.current = task.running := hv.current (List.mem_of_getElem? ht)
      exact hcurrent
  · intro other ho b hb
    rcases List.mem_append.1 ho with ho | ho
    · exact hv.inherited other ho b hb
    · obtain rfl := List.mem_singleton.1 ho
      have hrunning : task.running = some b := hb
      exact hv.running_lt (List.mem_of_getElem? ht) hrunning
  · rw [hopened]
    exact hv.fresh
  · rw [hopened]
    exact hv.nodup

end ContextVar

end KestrelSdk.Asyncio
